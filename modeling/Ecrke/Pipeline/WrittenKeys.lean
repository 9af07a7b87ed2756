import Ecrke.Durable.Executions
import Ecrke.Pipeline.StageSpecs
import Ecrke.Services.StructuralRedaction

/-!
# The keys which the pipeline writes

The keys of the evidence of audit rows and of the states of checkpoints are names of the program,
too plain to match a secret pattern, whatever the strings beside them are.

* `PlainEvidence`, `verifyEntry_plain`, `conclusionEntry_plain`, `contradictionEntry_plain`,
  `sourceEntry_plain` -- the evidence of the audit rows.
* `PlainDetail`, `stageTasks_details` -- the states of the checkpoints.
-/

namespace Ecrke

open Durable

/-! ## Evidence -/

/-- The evidence of an entry has plain keys. -/
def PlainEvidence (entry : AuditEntry) : Prop :=
  ∀ evidence, entry.evidence = some evidence → evidence.PlainKeys

theorem PlainEvidence.row_clean {entry : AuditEntry} (h : PlainEvidence entry) {u : Unicode}
    {id : Uuid} {ts : Instant} : (entry.row u id ts).Clean u :=
  AuditEntry.row_clean h

@[simp] theorem Confidence.dump_plain (confidence : Option Confidence) :
    (Confidence.dump confidence).PlainKeys := by
  cases confidence <;> exact plainKeys_of_keys rfl

theorem sourceEntry_plain {outcome : CollectOutcome} {runId id : Uuid} :
    PlainEvidence (outcome.entry runId id) := by
  rintro _ ⟨⟩
  exact plainKeys_named rfl (by simp)

theorem verifyEntry_plain {u : Unicode} {runId : Uuid} {statement : Statement}
    {score : EvidenceScore} {ratio : ℚ} {judgement : Judgement} :
    PlainEvidence (verifyEntry u runId statement score ratio judgement) := by
  rintro _ ⟨⟩
  exact plainKeys_named rfl (by simp)

theorem contradictionEntry_plain {u : Unicode} {runId : Uuid} {row : Contradiction}
    {aText bText : Text} {flag : ContradictionFlag} {confirmation : Confirmation} :
    PlainEvidence (contradictionEntry u runId row
      (contradictionEvidence u aText bText flag confirmation) confirmation.reason) := by
  rintro _ ⟨⟩
  exact plainKeys_named rfl (by simp)

theorem conclusionEntry_plain {runId id : Uuid} {text : Text} {cited : List Statement}
    {oneSided highStakes : Bool} :
    PlainEvidence (conclusionEntry runId id text cited oneSided highStakes) := by
  rintro _ ⟨⟩
  exact plainKeys_named rfl (by simp)

/-! ## Reports -/

theorem plainKeys_map {α : Type} {dump : α → Json} {items : List α}
    (h : ∀ item, (dump item).PlainKeys) : (Json.arr (items.map dump)).PlainKeys := by
  rw [plainKeys_arr]
  intro value hValue
  obtain ⟨item, -, rfl⟩ := List.mem_map.mp hValue
  exact h item

theorem ReportSupportEntry.dump_plain (entry : ReportSupportEntry) : entry.dump.PlainKeys :=
  plainKeys_named rfl (by simp)

theorem ReportEvidenceStatement.dump_plain (evidence : ReportEvidenceStatement) :
    evidence.dump.PlainKeys :=
  plainKeys_named rfl (by simp)

theorem ReportConclusion.dump_plain (conclusion : ReportConclusion) :
    conclusion.dump.PlainKeys := by
  have hMatrix : (Json.arr (conclusion.supportMatrix.map ReportSupportEntry.dump)).PlainKeys :=
    plainKeys_map ReportSupportEntry.dump_plain
  have hEvidence : (Json.arr
      (conclusion.evidenceStatements.map ReportEvidenceStatement.dump)).PlainKeys :=
    plainKeys_map ReportEvidenceStatement.dump_plain
  exact plainKeys_named rfl (by simp [hMatrix, hEvidence])

theorem Report.dump_plain (isoformat : Instant → Text) (report : Report) :
    (report.dump isoformat).PlainKeys := by
  have hConclusions : (Json.arr (report.conclusions.map ReportConclusion.dump)).PlainKeys :=
    plainKeys_map ReportConclusion.dump_plain
  exact plainKeys_named rfl (by simp [hConclusions])

/-! ## Details -/

/-- The detail of a result has plain keys. -/
def PlainDetail (result : StageResult) : Prop :=
  ∀ detail, result.detail = some detail → detail.PlainKeys

theorem returns_success {stage : Stage} {fields : List (Text × Json)}
    (hNames : plainNames (fields.map Prod.fst) = true)
    (hFields : ∀ value ∈ fields.map Prod.snd, value.PlainKeys) :
    Returns PlainDetail (.done (.success stage fields) : Action StageResult) := by
  refine returns_done ?_
  rintro _ ⟨⟩
  exact plainKeys_named hNames hFields

theorem stageTasks_details (stage : Stage) (ctx : PipelineContext) :
    Returns PlainDetail (stageTasks stage ctx) := by
  cases stage with
  | define =>
      refine returns_bind fun found => ?_
      cases found with
      | none => exact returns_raise
      | some run =>
          refine returns_bind fun plan => returns_success rfl ?_
          have hQuestions : plan.subQuestions.dump.PlainKeys := plainKeys_map fun _ => by simp
          simp [hQuestions]
  | search =>
      refine returns_bind fun found => ?_
      cases found with
      | none => exact returns_raise
      | some plan =>
          exact returns_bind fun _ => returns_bind fun _ => returns_success rfl (by simp)
  | collect =>
      exact returns_bind fun _ => returns_bind fun _ => returns_bind fun _ => returns_bind fun _ =>
        returns_success rfl (by simp [countField])
  | store =>
      refine returns_bind fun _ => .ite (fun _ => returns_success rfl (by simp [countField]))
        fun _ => ?_
      exact returns_bind fun _ => returns_bind fun _ => returns_success rfl (by simp [countField])
  | extract =>
      refine returns_bind fun _ => .ite (fun _ => returns_success rfl (by simp [countField]))
        fun _ => ?_
      refine returns_bind fun _ => returns_bind fun _ => returns_bind fun _ => returns_success ?_ ?_
      · split <;> rfl
      · split <;> simp [countField]
  | verify =>
      have hRest (passages : List Passage) : Returns PlainDetail (verifyDrafts ctx passages) := by
        refine returns_bind fun _ => returns_bind fun _ => returns_success ?_ ?_
        · split <;> rfl
        · split <;> simp [countField]
      refine returns_bind fun _ => .ite (fun _ => hRest _) fun _ => ?_
      exact returns_bind fun _ => hRest _
  | find =>
      have hRest (sources : List Source) (passages : List Passage) :
          Returns PlainDetail (findAmong ctx sources passages) :=
        returns_bind fun _ => returns_bind fun _ => returns_bind fun _ => returns_bind fun _ =>
          returns_success rfl (by simp [countField])
      refine returns_bind fun _ => .ite (fun _ => hRest _ _) fun _ => ?_
      exact returns_bind fun _ => hRest _ _
  | detect =>
      refine returns_bind fun _ => returns_bind fun _ => returns_success ?_ ?_
      · split <;> rfl
      · split <;> simp [countField]
  | conclude =>
      refine returns_bind fun found => ?_
      cases found with
      | none => exact returns_raise
      | some run =>
          refine returns_bind fun _ => returns_bind fun _ => returns_bind fun report =>
            returns_bind fun _ => returns_success rfl ?_
          have hReport := report.dump_plain ctx.services.platform.isoformat
          simp [countField, hReport]
  | trace =>
      refine returns_bind fun found => ?_
      cases found with
      | none => exact returns_raise
      | some run =>
          exact returns_bind fun _ => returns_bind fun _ => returns_bind fun _ =>
            returns_bind fun _ => returns_success rfl (by simp)

end Ecrke
