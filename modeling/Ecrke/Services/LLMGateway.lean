import Ecrke.Services.CostMeter
import Ecrke.Services.KVCache

/-!
# The model gateway

Tiered, cached, metered calls of the model provider with schema-validated output.

* `callWithRateLimitRetry` -- one provider call with pacing and backoff.
* `complete` -- the attempts with different instructions, the validation, the meter and the cache.
* `completeModel` -- a call whose caller expects an instance of the response model.
-/

namespace Ecrke

open Durable

/-- A model tier. -/
inductive ModelTier where
  | cheap
  | strong
  deriving DecidableEq

/-- The settings which the services read. -/
structure Settings where
  llmModelCheap : Text
  llmModelStrong : Text
  searchResultsLimit : Nat
  allowedDomains : Text
  fetchMinIntervalSeconds : ℚ
  blobStoreDir : Text

/-- Validated data, or the plain text of an answer. -/
inductive ResultData where
  | text (content : Text)
  | model (responseModel : ResponseModel) (data : responseModel.Data)

/-- The outcome of a call. -/
structure GatewayResult where
  content : Text
  data : ResultData
  model : Text
  tier : ModelTier
  costUsd : Option Usd
  cached : Bool
  cacheKey : Text
  promptTokens : Option Int
  completionTokens : Option Int

/-- What a before-call hook is told about an attempt. -/
structure GatewayCallContext where
  model : Text
  tier : ModelTier
  messages : List Message
  runId : Option Uuid
  cacheKey : Text
  responseModel : Option ResponseModel
  attempt : Nat

/-- A gateway with its configuration and its registered hooks. -/
structure LLMGateway where
  platform : Platform
  settings : Settings
  maxRetries : Nat := 2
  hooks : List (GatewayCallContext → Action Unit) := []

/-- The arguments of `complete`. -/
structure CompleteArgs where
  tier : ModelTier := .cheap
  prompt : Option Text := none
  messages : Option (List Message) := none
  system : Option Text := none
  responseModel : Option ResponseModel := none
  runId : Option Uuid := none
  useCache : Bool := true
  ttlSeconds : Option Int := none
  inputs : List (Text × Json) := []
  temperature : Option ℚ := none
  maxTokens : Option Int := none
  providerKwargs : List (Text × Json) := []

/-! ## Parsing -/

/-- A JSON object, or the `ValueError` for any other value. -/
def expectObject : Json → Except PyError Json
  | .obj fields => .ok (.obj fields)
  | _ => .error ⟨.valueError, "assistant response is not a JSON object".toList⟩

/-- `json.loads` -/
def loads (p : Platform) (content : Text) : Except PyError Json :=
  match p.jsonLoads content with
  | some value => .ok value
  | none => .error ⟨.valueError, "JSONDecodeError".toList⟩

/-- `_parse_json_strict` -/
def parseJsonStrict (p : Platform) (content : Text) : Except PyError Json := do
  let parsed ← loads p content
  expectObject parsed

/-- `_parse_json_lenient`: parse from the first opening brace to the last closing one. -/
def parseJsonLenient (p : Platform) (content : Text) : Except PyError Json := do
  let start := content.findIdx? (· == '\x7b')
  let fromEnd := content.reverse.findIdx? (· == '\x7d')
  match start, fromEnd with
  | some start, some fromEnd =>
      let end_ := content.length - 1 - fromEnd
      if end_ ≤ start then
        .error ⟨.valueError, "no JSON object found in assistant response".toList⟩
      let parsed ← loads p ((content.drop start).take (end_ + 1 - start))
      expectObject parsed
  | _, _ => .error ⟨.valueError, "no JSON object found in assistant response".toList⟩

/-- `response_model.model_validate` -/
def modelValidate (p : Platform) (model : ResponseModel) (value : Json) :
    Except PyError model.Data :=
  match p.validate model value with
  | some data => .ok data
  | none => .error ⟨.valueError, "ValidationError".toList⟩

/-! ## Requests -/

/-- The tiers. -/
def LLMGateway.resolveModel (gateway : LLMGateway) : ModelTier → Text
  | .cheap => gateway.settings.llmModelCheap
  | .strong => gateway.settings.llmModelStrong

/-- `_build_messages` -/
def buildMessages (args : CompleteArgs) : Except PyError (List Message) :=
  let system := match args.system with
    | some system => if system.isEmpty then [] else [⟨"system".toList, system⟩]
    | none => []
  match args.messages, args.prompt with
  | some messages, _ => .ok (system ++ messages)
  | none, some prompt => .ok (system ++ [⟨"user".toList, prompt⟩])
  | none, none =>
      .error ⟨.valueError, "complete() requires either prompt or messages".toList⟩

/-- The conversation as JSON. -/
def dumpMessages (p : Platform) (messages : List Message) : Text :=
  Json.dumps p.floatRepr ", ".toList ": ".toList (.arr (messages.map fun m =>
    .obj [("role".toList, .str m.role), ("content".toList, .str m.content)]))

/-- `_schema_instruction` -/
def schemaInstruction (p : Platform) (model : ResponseModel) (attempt : Nat) : Text :=
  let schema := p.schemaJson model
  match attempt with
  | 0 => ("Return a single JSON object (no prose, no markdown fences) that " ++
      "matches this JSON schema exactly: ").toList ++ schema
  | 1 => ("Return only a valid JSON object matching this schema, with no " ++
      "surrounding text or code fences: ").toList ++ schema
  | _ => ("Return a single JSON object matching this schema; if any field is " ++
      "unknown, use a sensible default. Do not wrap in markdown fences. " ++
      "Schema: ").toList ++ schema

/-- `_attempt_kwargs` -/
def attemptKwargs (attempt : Nat) : List (Text × Json) :=
  let responseFormat : Text × Json :=
    ("response_format".toList, .obj [("type".toList, .str "json_object".toList)])
  match attempt with
  | 0 => []
  | 1 => [responseFormat]
  | _ => [responseFormat, ("temperature".toList, .float 0)]

/-- `kwargs.update(changes)` -/
def updateKwargs (kwargs changes : List (Text × Json)) : List (Text × Json) :=
  kwargs.filter (fun entry => !changes.any fun change => change.1 = entry.1) ++ changes

/-- The keyword arguments of one attempt. -/
def callKwargs (args : CompleteArgs) (attempt : Nat) : List (Text × Json) :=
  let kwargs := args.providerKwargs
  let kwargs := match args.temperature with
    | some temperature => updateKwargs kwargs [("temperature".toList, .float temperature)]
    | none => kwargs
  let kwargs := match args.maxTokens with
    | some maxTokens => updateKwargs kwargs [("max_tokens".toList, .int maxTokens)]
    | none => kwargs
  match args.responseModel with
  | some _ => updateKwargs kwargs (attemptKwargs attempt)
  | none => kwargs

/-! ## The provider -/

/-- `_MIN_CALL_INTERVAL` -/
def minCallInterval : ℚ := 60 / 15

/-- `max_retries` of one provider call. -/
def maxRateLimitRetries : Nat := 3

/-- `_QUOTA_EXHAUSTION_MARKERS` -/
def quotaExhaustionMarkers : List Text :=
  ["RESOURCE_EXHAUSTED".toList, "exceeded your current quota".toList, "quota exceeded".toList,
    "exceeds your quota".toList]

/-- A rate-limit error says that the quota is used up. -/
def isQuotaExhaustion (u : Unicode) (message : Text) : Bool :=
  quotaExhaustionMarkers.any fun marker =>
    Text.occursIn (Text.lower u marker) (Text.lower u message)

/-- Wait after a failed try, or give up after the last one. -/
def backOff (kind : ErrorClass) (message : Text) (delays : List ℚ) (attempt : Nat) :
    Action (Option LLMResponse) := do
  if maxRateLimitRetries ≤ attempt then raiseError kind message
  match delays[attempt]? with
  | some delay =>
      sleep delay
      pure none
  | none => raiseError .indexError "list index out of range".toList

/-- One try of a provider call. -/
def tryProvider (gateway : LLMGateway) (model : Text) (messages : List Message)
    (kwargs : List (Text × Json)) (attempt : Nat) : Action (Option LLMResponse) := do
  let answer ← Prog.query (S := Vocabulary) (.provider model messages kwargs)
  match answer with
  | .response response =>
      let time ← loopTime
      modifyMemory fun m => { m with callTimestamps := m.callTimestamps ++ [time] }
      let time ← loopTime
      modifyMemory fun m =>
        { m with callTimestamps := m.callTimestamps.filter fun t => time - 60 < t }
      pure (some response)
  | .rateLimitError message =>
      if isQuotaExhaustion gateway.platform.unicode message then
        raiseError .rateLimitError message
      else backOff .rateLimitError message [15, 30, 60] attempt
  | .serviceUnavailableError message =>
      backOff .serviceUnavailableError message [10, 20, 40] attempt
  | .apiConnectionError message => backOff .apiConnectionError message [10, 20, 40] attempt
  | .otherError error => .raise error

/-- Call the provider with pacing and with backoff on transient errors. -/
def callWithRateLimitRetry (gateway : LLMGateway) (model : Text) (messages : List Message)
    (kwargs : List (Text × Json)) : Action LLMResponse := do
  let time ← loopTime
  let last ← readMemory fun m => m.callTimestamps.getLast?
  match last with
  | some last =>
      if time - last < minCallInterval then sleep (minCallInterval - (time - last)) else pure ()
  | none => pure ()
  -- Every try after the last one raises, so the loop never runs out.
  Prog.forElse (tryProvider gateway model messages kwargs)
    (raiseError .attributeError "'NoneType' object has no attribute 'get'".toList)
    (List.range (maxRateLimitRetries + 1))

/-- An accepted attempt. -/
structure Accepted where
  response : LLMResponse
  content : Text
  data : ResultData
  promptTokens : Option Int
  completionTokens : Option Int

/-- Parse and validate the content of an attempt. -/
def validateContent (p : Platform) (model : ResponseModel) (attempt : Nat) (content : Text) :
    Except PyError model.Data := do
  let parsed ← if attempt < 2 then parseJsonStrict p content else parseJsonLenient p content
  modelValidate p model parsed

/-- One attempt: the hooks, the provider, the validation.  Output which does not validate leads to
the next attempt. -/
def attemptCall (gateway : LLMGateway) (args : CompleteArgs) (model : Text)
    (messages : List Message) (cacheKey : Text) (attempt : Nat) : Action (Option Accepted) := do
  let ctx : GatewayCallContext :=
    ⟨model, args.tier, messages, args.runId, cacheKey, args.responseModel, attempt⟩
  gateway.hooks.forM fun hook => hook ctx
  let attemptMessages := match args.responseModel with
    | some responseModel => messages ++
        [⟨"system".toList, schemaInstruction gateway.platform responseModel attempt⟩]
    | none => messages
  let response ← callWithRateLimitRetry gateway model attemptMessages (callKwargs args attempt)
  match response.content with
  | none => raiseError .indexError "list index out of range".toList
  | some content =>
      let promptTokens := response.usage.bind Usage.promptTokens
      let completionTokens := response.usage.bind Usage.completionTokens
      match args.responseModel with
      | none => pure (some ⟨response, content, .text content, promptTokens, completionTokens⟩)
      | some responseModel =>
          match validateContent gateway.platform responseModel attempt content with
          | .ok data => pure (some
              ⟨response, content, .model responseModel data, promptTokens, completionTokens⟩)
          | .error error => if error.isValidation then pure none else .raise error

/-- The exception of a call whose output never validates. -/
def quarantine (gateway : LLMGateway) : PyError :=
  ⟨.quarantineError, "LLM returned output that failed JSON schema validation after ".toList ++
    Text.ofNat (gateway.maxRetries + 1) ++ (" attempts (different approaches per attempt, " ++
      "G-11); quarantine the offending input.").toList⟩

/-- The payload of a cache entry as a result. -/
def cachedResult (gateway : LLMGateway) (args : CompleteArgs) (cacheKey : Text) (payload : Json) :
    Except PyError GatewayResult := do
  let p := gateway.platform
  let field (key : String) : Except PyError Json :=
    match payload.get? key.toList with
    | some value => .ok value
    | none => .error ⟨.keyError, Text.repr p.unicode key.toList⟩
  let content := (← field "content").toText p.unicode p.floatRepr
  let data ← match args.responseModel, payload.get? "data".toList with
    | some responseModel, some value =>
        (modelValidate p responseModel value).map (ResultData.model responseModel)
    | _, _ => .ok (.text content)
  let model := (← field "model").toText p.unicode p.floatRepr
  pure ⟨content, data, model, args.tier, some 0, true, cacheKey, none, none⟩

/-- The payload which the cache keeps of a result. -/
def payloadOf (model content : Text) : ResultData → List (Text × Json)
  | .text _ => [("content".toList, .str content), ("model".toList, .str model)]
  | .model responseModel data =>
      [("content".toList, .str content), ("model".toList, .str model),
        ("data".toList, responseModel.dump data)]

/-- What follows an accepted attempt: the meter, then the cache. -/
def meterAndCache (gateway : LLMGateway) (args : CompleteArgs) (model prompt cacheKey : Text)
    (accepted : Accepted) : Action GatewayResult := do
  let p := gateway.platform
  let cost ← recordCall p
    { model, runId := args.runId, costUsd := none, response := some accepted.response,
      prompt := some prompt, completion := some accepted.content,
      promptTokens := accepted.promptTokens, completionTokens := accepted.completionTokens }
  if args.useCache then
    KVCache.set p cacheKey model (buildPromptHash p prompt args.inputs)
      (payloadOf model accepted.content accepted.data) args.ttlSeconds
  else pure ()
  pure ⟨accepted.content, accepted.data, model, args.tier, some cost, false, cacheKey,
    accepted.promptTokens, accepted.completionTokens⟩

/-- `LLMGateway.complete` -/
def complete (gateway : LLMGateway) (args : CompleteArgs) : Action GatewayResult := do
  let p := gateway.platform
  let model := gateway.resolveModel args.tier
  let messages ← Prog.ofExcept (buildMessages args)
  let prompt := match args.prompt with
    | some prompt => if prompt.isEmpty then dumpMessages p messages else prompt
    | none => dumpMessages p messages
  let cacheKey := buildKey p model prompt args.inputs
  let cached ← if args.useCache then KVCache.get cacheKey else pure none
  match cached with
  | some payload => Prog.ofExcept (cachedResult gateway args cacheKey payload)
  | none =>
      let accepted ← Prog.forElse (attemptCall gateway args model messages cacheKey)
        (.raise (quarantine gateway)) (List.range (gateway.maxRetries + 1))
      meterAndCache gateway args model prompt cacheKey accepted

/-- A call whose caller uses the data as an instance of the response model. -/
def completeModel (gateway : LLMGateway) (responseModel : ResponseModel) (args : CompleteArgs) :
    Action (GatewayResult × responseModel.Data) := do
  let result ← complete gateway { args with responseModel := some responseModel }
  match result.data with
  | .model found data =>
      if h : found = responseModel then pure (result, h ▸ data)
      else raiseError .attributeError "unexpected response model".toList
  | .text _ => raiseError .attributeError "'str' object has no such attribute".toList

end Ecrke
