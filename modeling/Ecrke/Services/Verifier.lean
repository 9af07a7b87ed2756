import Ecrke.Services.AuditWriter
import Ecrke.Services.LLMGateway
import Ecrke.Services.SupportMatrix

/-!
# The verify-first gate

A draft statement is scored against its passage, judged by the model where the score allows it, and
promoted or quarantined, together with a link and an audit row, in one transaction.

* `buildJudgePrompt` -- the judge's system and user message.
* `judge` -- the decision with its reason.
* `Merged` -- a detached statement merged into a session.
* `verify` -- `Verifier.verify`.
-/

namespace Ecrke

open Durable

/-- `_SYSTEM_INSTRUCTIONS` -/
def verifySystemInstructions : Text :=
  ("You are a rigorous evidence judge. Decide whether the statement is directly " ++
    "supported by the passage. Follow these rules exactly: 1) verdict is 'supported' " ++
    "only when the passage directly states the claim or its essential facts; 2) " ++
    "'unsupported' when the passage contradicts, omits, or only weakly implies the " ++
    "claim; 3) never use outside knowledge; 4) reason (1-2000 characters) must cite " ++
    "the specific passage evidence; 5) confidence in [0.0, 1.0] rates how clearly " ++
    "the passage supports the verdict, or null when it cannot be judged. Judge only " ++
    "the statement_data and passage_data blocks.").toList

/-- The system instructions and the data block of the judge call. -/
def buildJudgePrompt (statementText passageText : Text) : Text × Text :=
  (verifySystemInstructions,
    "<statement_data>\n".toList ++ statementText ++ "\n</statement_data>\n\n".toList ++
      "<passage_data>\n".toList ++ passageText ++ "\n</passage_data>".toList)

/-- `VerificationOutcome` -/
structure VerificationOutcome where
  decision : StatementStatus
  supportScore : Option EvidenceScore := none
  matrixRatio : Option ℚ := none
  judgeSupported : Option Bool := none
  judgeConfidence : Option Confidence := none
  skipped : Bool := false

/-- What the gate decides about a statement, and why. -/
structure Judgement where
  decision : StatementStatus
  supported : Bool
  confidence : Option Confidence
  reason : Text

/-- Ask the judge where the support matrix allows it; otherwise quarantine. -/
def judge (gateway : LLMGateway) (runId : Uuid) (statementText passageText : Text)
    (score : EvidenceScore) (ratio : ℚ) : Action Judgement :=
  match score with
  | .none => pure
      { decision := .quarantined, supported := false, confidence := none,
        reason := "lexical support ratio ".toList ++ Text.ofFixed 3 ratio ++
          " below partial threshold; quarantined by deterministic support matrix".toList }
  | _ => do
      let (system, dataBlock) := buildJudgePrompt statementText passageText
      let (_, verdict) ← completeModel gateway .verificationVerdict
        { tier := .strong, system := some system, prompt := some dataBlock,
          runId := some runId, useCache := false }
      let verdict : VerificationVerdict := verdict
      pure
        { decision := if verdict.supported then .verified else .quarantined,
          supported := verdict.supported, confidence := verdict.confidence,
          reason := verdict.reason.val }

/-- A detached statement merged into a session: the row it was loaded from, if there is one, and the
values which the session now holds, those of the detached object. -/
structure Merged where
  loaded : Option Statement
  current : Statement

/-- `await session.merge(statement)` -/
def mergeStatement (statement : Statement) : Action Merged := do
  let loaded ← selectTables fun t => findRow Statement.id statement.id t.statements
  pure ⟨loaded, statement⟩

/-- No column has changed. -/
def StatementChanges.isEmpty (changes : StatementChanges) : Bool :=
  changes.text.isNone && changes.status.isNone && changes.confidence.isNone

/-- What a session writes for a merged statement: the columns which differ from the loaded row, or
the whole row where there was none. -/
def Merged.writes (merged : Merged) : List Write :=
  match merged.loaded with
  | none => [.insertStatement merged.current]
  | some loaded =>
      let changes : StatementChanges :=
        { text := if merged.current.text = loaded.text then none else some merged.current.text
          status :=
            if merged.current.status = loaded.status then none else some merged.current.status
          confidence := if merged.current.confidence = loaded.confidence then none
            else some merged.current.confidence }
      if changes.isEmpty then [] else [.updateStatement loaded.id changes]

/-- The evidence which the audit row keeps. -/
def verifyEvidence (score : EvidenceScore) (ratio : ℚ) (judgement : Judgement) : Json :=
  .obj [("support_score".toList, .str score.value),
    ("matrix_ratio".toList, .float ratio),
    ("judge_supported".toList, .bool judgement.supported),
    ("judge_confidence".toList, Confidence.dump judgement.confidence)]

/-- The audit entry of a verdict. -/
def verifyEntry (u : Unicode) (runId : Uuid) (statement : Statement) (score : EvidenceScore)
    (ratio : ℚ) (judgement : Judgement) : AuditEntry where
  runId
  entityType := "statement".toList
  entityId := some statement.id.str
  action := "verify".toList
  actor := some "verifier".toList
  decision := some judgement.decision.value
  reason := some (redactSecrets u judgement.reason)
  evidence := some (verifyEvidence score ratio judgement)

theorem verifyEntry_labelled {u : Unicode} {runId : Uuid} {statement : Statement}
    {score : EvidenceScore} {ratio : ℚ} {judgement : Judgement} :
    (verifyEntry u runId statement score ratio judgement).Labelled := by
  have hDecision : optionalString (some judgement.decision.value) "decision" = .ok () := by
    cases judgement.decision <;> rfl
  exact ⟨rfl, rfl, optionalString_uuid _ _, rfl, hDecision⟩

/-- Run the verify-first gate on one statement. -/
def verify (gateway : LLMGateway) (statement : Statement) (passage : Passage) (runId : Uuid)
    (force : Bool := false) : Action VerificationOutcome := do
  let p := gateway.platform
  let merged ← mergeStatement statement
  if merged.current.status ≠ .draft ∧ !force then
    return { decision := merged.current.status, skipped := true }
  let statementText := redactSecrets p.unicode merged.current.text
  let passageText := redactSecrets p.unicode passage.text
  let (score, ratio) ← Prog.ofExcept (scoreSupport p.unicode statementText passageText)
  let judgement ← judge gateway runId statementText passageText score ratio
  let merged := { merged with current := { merged.current with status := judgement.decision } }
  let linkId ← uuid4
  let createdAt ← dbNow
  let link : EvidenceLink :=
    { id := linkId, statementId := merged.current.id, passageId := passage.id, runId,
      score, method := some "verify".toList, createdAt }
  let audit ← auditAppend p (verifyEntry p.unicode runId merged.current score ratio judgement)
  commitWrites ([.insertAuditTrace audit, .insertEvidenceLink link] ++ merged.writes)
  pure
    { decision := judgement.decision, supportScore := some score, matrixRatio := some ratio,
      judgeSupported := some judgement.supported, judgeConfidence := judgement.confidence }

end Ecrke
