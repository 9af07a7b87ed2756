import Ecrke.World

/-!
# Cost metering

The cost of a call and its accumulation onto the run.

* `quantize` -- rounding to the four decimals of the storage, halves away from zero.
* `estimateCost`, `callCost` -- the cost of a call.
* `recordCall` -- `CostMeter.record_call`: read the run, then write the new total.
-/

namespace Ecrke

/-- `_USD_PER_TOKEN` -/
def usdPerToken : Usd := 2 / 1000 / 1000

/-- The unit of the storage, `_ROUNDING`. -/
def storageUnit : Usd := 1 / 10000

/-- `cost.quantize(_ROUNDING, rounding=ROUND_HALF_UP)`; a decimal has at most 28 digits. -/
def quantize (cost : Usd) : Except PyError Usd :=
  let units : Nat := ⌊|cost| / storageUnit + 1 / 2⌋.toNat
  if 10 ^ 28 ≤ units then .error ⟨.arithmeticError, "InvalidOperation".toList⟩
  else .ok ((if cost < 0 then -1 else 1) * (units * storageUnit))

/-- `_litellm_cost`: a negative cost counts as unknown. -/
def litellmCost (p : Platform) (response : LLMResponse) (model : Text) : Option Usd :=
  match p.completionCost response model with
  | some cost => if cost < 0 then none else some cost
  | none => none

/-- `_estimate_tokens` -/
def estimateTokens (p : Platform) (model text : Text) : Int :=
  match p.tokenCount model text with
  | some count => count
  | none => max 1 (text.length / 4 : Nat)

/-- The tokens of a text which may be missing. -/
def tokensOrEstimate (p : Platform) (model : Text) (count : Option Int) (text : Option Text) :
    Int :=
  match count, text with
  | some count, _ => count
  | none, some text => if text.isEmpty then 0 else estimateTokens p model text
  | none, none => 0

/-- The arguments of `CostMeter.record_call`. -/
structure MeteredCall where
  model : Text
  runId : Option Uuid
  costUsd : Option Usd
  response : Option LLMResponse
  prompt : Option Text
  completion : Option Text
  promptTokens : Option Int
  completionTokens : Option Int

/-- A deterministic estimate from token counts or text. -/
def estimateCost (p : Platform) (call : MeteredCall) : Usd :=
  let promptTokens := tokensOrEstimate p call.model call.promptTokens call.prompt
  let completionTokens := tokensOrEstimate p call.model call.completionTokens call.completion
  (max 0 promptTokens + max 0 completionTokens : Int) * usdPerToken

/-- `_usage_tokens` fills in the counts which the caller does not give. -/
def MeteredCall.withUsage (call : MeteredCall) : MeteredCall :=
  match call.promptTokens, call.completionTokens, call.response.bind LLMResponse.usage with
  | none, none, some usage =>
      { call with promptTokens := usage.promptTokens, completionTokens := usage.completionTokens }
  | _, _, _ => call

/-- The cost of a call before rounding. -/
def rawCost (p : Platform) (call : MeteredCall) : Usd :=
  match call.costUsd with
  | some cost => cost
  | none =>
      match call.response.bind fun response => litellmCost p response call.model with
      | some cost => cost
      | none => estimateCost p call.withUsage

/-- The metered cost of a call. -/
def callCost (p : Platform) (call : MeteredCall) : Except PyError Usd := do
  let cost ← quantize (rawCost p call)
  if cost < 0 then
    .error ⟨.negativeCostError, "cost must never be negative, got ".toList ++ p.decimalStr cost⟩
  pure cost

/-- Record the cost of a call onto its run. -/
def recordCall (p : Platform) (call : MeteredCall) : Action Usd := do
  let cost ← Durable.Prog.ofExcept (callCost p call)
  match call.runId with
  | none => pure cost
  | some runId =>
      match ← getRun runId with
      | none => raiseError .runNotFoundError ("no Run row for run_id=".toList ++ runId.str)
      | some run =>
          commitWrites (run.updates { run with costSpentUsd := run.costSpentUsd + cost })
          pure cost

end Ecrke
