import Ecrke.Services.AuditWriter
import Ecrke.Services.LLMGateway
import Ecrke.Services.SupportMatrix

/-!
# Contradiction detection

Candidate pairs among verified statements are flagged by one judge call and confirmed by the
negation signal or by a second one; a confirmed pair is persisted with its audit row.

* `jaccardOverlap`, `containmentOverlap`, `negationSignal` -- the lexical measures.
* `candidatePairs` -- the pairs which are worth a judge call.
* `confirm` -- the second opinion.
* `detect` -- `ContradictionDetector.detect`.
-/

namespace Ecrke

open Durable

/-- `CANDIDATE_OVERLAP_THRESHOLD` -/
def candidateOverlapThreshold : ℚ := 15 / 100

/-- `CONFIRM_OVERLAP_THRESHOLD` -/
def confirmOverlapThreshold : ℚ := 4 / 10

/-- `MAX_CONTRADICTION_PAIRS` -/
def maxContradictionPairs : Nat := 10

/-- `CONTRADICTION_DELAY_SECONDS` -/
def contradictionDelaySeconds : ℚ := 5

/-- `NEGATION_MARKERS` -/
def negationMarkers : List Text :=
  ["not".toList, "no".toList, "never".toList, "none".toList, "without".toList, "fails".toList,
    "refutes".toList, "denies".toList, "disputes".toList, "contradicts".toList, "unable".toList]

/-- `_NEGATION_CONFIRM_REASON` -/
def negationConfirmReason : Text :=
  ("deterministic negation signal: the statements share the same core content " ++
    "(min-containment at or above the confirm threshold) and exactly one side " ++
    "carries negation markers; an affirmative and a negated version of the same " ++
    "claim cannot both be true").toList

/-- `_FLAG_SYSTEM_INSTRUCTIONS` -/
def flagSystemInstructions : Text :=
  ("You are a rigorous contradiction flagger. Decide whether statement A " ++
    "contradicts statement B. Follow these rules exactly: 1) flag='flag' only when " ++
    "the two statements assert logically incompatible facts about the same subject — " ++
    "they cannot both be true; 2) flag='no_flag' when they agree, overlap without " ++
    "conflict, or address different subjects; 3) never use outside knowledge; 4) " ++
    "reason (1-2000 characters) must cite the specific conflict in both statements; " ++
    "5) confidence in [0.0, 1.0] rates how clearly the statements conflict, or null " ++
    "when it cannot be judged. Judge only the statement_a_data and statement_b_data " ++
    "blocks.").toList

/-- `_CONFIRM_SYSTEM_INSTRUCTIONS` -/
def confirmSystemInstructions : Text :=
  ("You are a rigorous contradiction confirmer. A previous judge flagged that " ++
    "statement A contradicts statement B. Decide whether the conflict is real. " ++
    "Follow these rules exactly: 1) contradictory=true only when the statements " ++
    "cannot both be true about the same subject; 2) contradictory=false when they " ++
    "are compatible in context, address different subjects, or only appear to " ++
    "conflict; 3) never use outside knowledge; 4) reason (1-2000 characters) must " ++
    "cite the specific facts in both statements; 5) confidence in [0.0, 1.0] rates " ++
    "how clearly the conflict is real, or null when it cannot be judged. Judge only " ++
    "the statement_a_data and statement_b_data blocks.").toList

/-! ## Lexical measures -/

/-- The words which two sets of words share. -/
def sharedTokens (a b : List Text) : List Text := a.filter fun t => b.contains t

/-- The Jaccard similarity of two sets of words. -/
def jaccardOverlap (a b : List Text) : ℚ :=
  let union := a ++ b.filter fun t => !a.contains t
  if union.isEmpty then 0 else (sharedTokens a b).length / union.length

/-- The smaller shared fraction of two sets of words. -/
def containmentOverlap (a b : List Text) : ℚ :=
  if a.isEmpty || b.isEmpty then 0
  else min ((sharedTokens a b).length / a.length) ((sharedTokens a b).length / b.length)

/-- A text carries a negation marker. -/
def hasNegationMarkers (u : Unicode) (text : Text) : Bool :=
  (tokens u text).any fun t => negationMarkers.contains t

/-- The statements share their core content and exactly one side is negated. -/
def negationSignal (u : Unicode) (aText bText : Text) : Bool :=
  if containmentOverlap (tokens u aText) (tokens u bText) < confirmOverlapThreshold then false
  else hasNegationMarkers u aText != hasNegationMarkers u bText

/-- A pair of redacted texts is worth a judge call. -/
def isCandidate (u : Unicode) (aText bText : Text) : Bool :=
  candidateOverlapThreshold ≤ jaccardOverlap (tokens u aText) (tokens u bText) ||
    hasNegationMarkers u aText || hasNegationMarkers u bText

/-- The pairs of a list, the earlier element first. -/
def pairsOf {α : Type} : List α → List (α × α)
  | [] => []
  | a :: rest => rest.map (a, ·) ++ pairsOf rest

/-- The verified statements, sorted by identifier. -/
def sortedVerified (statements : List Statement) : List Statement :=
  (statements.filter fun s => s.status = .verified).mergeSort fun a b => a.id.le b.id

/-- The candidate pairs among the verified statements. -/
def candidatePairs (u : Unicode) (statements : List Statement) : List (Statement × Statement) :=
  (pairsOf (sortedVerified statements)).filter fun pair =>
    isCandidate u (redactSecrets u pair.1.text) (redactSecrets u pair.2.text)

/-! ## Judge calls -/

/-- The data block of both judge calls. -/
def pairDataBlock (aText bText : Text) : Text :=
  "<statement_a_data>\n".toList ++ aText ++ "\n</statement_a_data>\n\n".toList ++
    "<statement_b_data>\n".toList ++ bText ++ "\n</statement_b_data>".toList

/-- `build_flag_prompt` -/
def buildFlagPrompt (aText bText : Text) : Text × Text :=
  (flagSystemInstructions, pairDataBlock aText bText)

/-- `build_confirm_prompt` -/
def buildConfirmPrompt (aText bText : Text) : Text × Text :=
  (confirmSystemInstructions, pairDataBlock aText bText)

/-- The outcome of the second opinion. -/
structure Confirmation where
  method : Text
  reason : Text
  confidence : Option Confidence
  confirmed : Bool

/-- Confirm a flagged pair by the negation signal or by a second judge. -/
def confirm (gateway : LLMGateway) (runId : Uuid) (aText bText : Text) : Action Confirmation := do
  if negationSignal gateway.platform.unicode aText bText then
    pure ⟨"confirm:negation_signal".toList, negationConfirmReason, none, true⟩
  else
    let (system, dataBlock) := buildConfirmPrompt aText bText
    let (_, verdict) ← completeModel gateway .confirmVerdict
      { tier := .strong, system := some system, prompt := some dataBlock, runId := some runId,
        useCache := false }
    let verdict : ConfirmVerdict := verdict
    pure ⟨"confirm:judge".toList, verdict.reason.val, verdict.confidence, verdict.contradictory⟩

/-- A confirmed row exists for an ordered pair. -/
def confirmedFor (a b : Statement) : Action Bool :=
  selectTables fun t => t.contradictions.any fun c =>
    c.statementAId = a.id && c.statementBId = b.id && c.status = .confirmed

/-- `_confirmed_exists`: in either order. -/
def confirmedExists (a b : Statement) : Action Bool := do
  if ← confirmedFor a b then pure true else confirmedFor b a

/-- The evidence of a confirmed pair. -/
def contradictionEvidence (u : Unicode) (aText bText : Text) (flag : ContradictionFlag)
    (confirmation : Confirmation) : Json :=
  .obj [("flag_reason".toList, .str flag.reason.val),
    ("flag_confidence".toList, Confidence.dump flag.confidence),
    ("confirm_reason".toList, .str confirmation.reason),
    ("confirm_confidence".toList, Confidence.dump confirmation.confidence),
    ("overlap_ratio".toList, .float (jaccardOverlap (tokens u aText) (tokens u bText))),
    ("negation_signal".toList, .bool (negationSignal u aText bText)),
    ("method".toList, .str confirmation.method)]

/-- The audit entry of a confirmed pair. -/
def contradictionEntry (u : Unicode) (runId : Uuid) (row : Contradiction) (evidence : Json)
    (reason : Text) : AuditEntry where
  runId
  entityType := "contradiction".toList
  entityId := some row.id.str
  action := "contradiction".toList
  actor := some "detector".toList
  decision := some ContradictionStatus.confirmed.value
  reason := some (redactSecrets u reason)
  evidence := some evidence

/-- Judge one candidate pair, and persist it when it is confirmed. -/
def judgePair (gateway : LLMGateway) (runId : Uuid) (a b : Statement) :
    Action (Option Contradiction) := do
  let p := gateway.platform
  let aText := redactSecrets p.unicode a.text
  let bText := redactSecrets p.unicode b.text
  if ← confirmedExists a b then return none
  let (system, dataBlock) := buildFlagPrompt aText bText
  let (_, flag) ← completeModel gateway .contradictionFlag
    { tier := .strong, system := some system, prompt := some dataBlock, runId := some runId,
      useCache := false }
  let flag : ContradictionFlag := flag
  if !(flag.flag = .flag ∧ flag.contradictory) then return none
  let confirmation ← confirm gateway runId aText bText
  if !confirmation.confirmed then return none
  let evidence := contradictionEvidence p.unicode aText bText flag confirmation
  let id ← uuid4
  let confirmedAt ← now
  let createdAt ← dbNow
  let row : Contradiction :=
    { id, runId, statementAId := a.id, statementBId := b.id, status := .confirmed,
      evidence := some (redactJson p.unicode evidence), createdAt, confirmedAt := some confirmedAt }
  let audit ← auditAppend p
    (contradictionEntry p.unicode runId row evidence confirmation.reason)
  commitWrites [.insertAuditTrace audit, .insertContradiction row]
  return some row

/-- Detect confirmed contradictions among statements. -/
def detect (gateway : LLMGateway) (statements : List Statement) (runId : Uuid) :
    Action (List Contradiction) := do
  let candidates :=
    (candidatePairs gateway.platform.unicode statements).take maxContradictionPairs
  let rows ← candidates.zipIdx.mapM fun (pair, index) => do
    if 0 < index then sleep contradictionDelaySeconds else pure ()
    judgePair gateway runId pair.1 pair.2
  pure (rows.filterMap id)

end Ecrke
