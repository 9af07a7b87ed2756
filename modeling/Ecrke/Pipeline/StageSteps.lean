import Ecrke.Pipeline.Stages
import Ecrke.Services.Metering

/-!
# What the task of a stage can do

Every transaction of the ten stages, once and for all, with what is known of its rows.  The
invariants of the pipeline are derived from this list by cases.

* `Resolves` -- a passage which belongs to a source of the run.
* `TaskStep` -- one step of the task of a stage, as a change of the tables.
* `TaskMoment` -- the same of a step of an execution.
* `Grows` -- what no task ever takes away.
-/

namespace Ecrke

open Durable

/-- A passage which belongs to a source of a run. -/
def Resolves (runId : Uuid) (passage : Passage) (t : Tables) : Prop :=
  passage ∈ t.passages ∧
    ∃ source ∈ t.sources, source.id = passage.sourceId ∧ source.runId = runId

/-- A verified statement of a run. -/
def VerifiedStatement (runId statementId : Uuid) (t : Tables) : Prop :=
  ∃ statement ∈ t.statements, statement.id = statementId ∧ statement.runId = runId ∧
    statement.status = .verified

/-- The audit row of a verdict about a statement. -/
def IsVerifyAudit (statementId : Uuid) (row : AuditTrace) : Prop :=
  row.entityType = "statement".toList ∧ row.action = "verify".toList ∧
    row.entityId = some statementId.str

/-- The rows of an extraction belong together. -/
structure Extraction (runId : Uuid) (passage : Passage) (statements : List Statement)
    (links : List EvidenceLink) : Prop where
  drafts : ∀ s ∈ statements, s.passageId = passage.id ∧ s.runId = runId ∧ s.status = .draft
  resolved : ∀ l ∈ links, l.method = some "extract".toList ∧ l.passageId = passage.id ∧
    l.runId = runId ∧ ∃ s ∈ statements, s.id = l.statementId

/-- The rows of a verdict belong together. -/
structure Verification (runId : Uuid) (statement : Statement) (passage : Passage)
    (decision : StatementStatus) (link : EvidenceLink) (audit : AuditTrace) : Prop where
  statementRun : statement.runId = runId
  draft : statement.status = .draft
  passageOf : passage.id = statement.passageId
  decided : decision ≠ .draft
  linkStatement : link.statementId = statement.id
  linkPassage : link.passageId = passage.id
  linkRun : link.runId = runId
  linkMethod : link.method = some "verify".toList
  covered : decision = .verified → link.score ≠ .none
  auditOf : IsVerifyAudit statement.id audit
  auditDecision : audit.decision = some decision.value

/-- The rows of a conclusion belong together. -/
structure Citation (runId : Uuid) (t : Tables) (row : Cited) : Prop where
  run : row.conclusion.runId = runId
  nonempty : row.evidence ≠ []
  evidence : ∀ e ∈ row.evidence, e.conclusionId = row.conclusion.id ∧
    VerifiedStatement runId e.statementId t
  audit : row.audit.entityType = "conclusion".toList

/-- A verdict on a statement, as a change of its status. -/
def setStatus (statementId : Uuid) (decision : StatementStatus) (statements : List Statement) :
    List Statement :=
  modifyRow Statement.id statementId (fun s => { s with status := decision }) statements

/-- The finished run. -/
def Run.finalized (run : Run) (completedAt : Instant) : Run :=
  { run with
    stage := some "done".toList, status := .completed, progress := 1,
    completedAt := some completedAt }

/-- What one step of the task of a stage can do to the tables. -/
inductive TaskStep (runId : Uuid) (t : Tables) : Stage → Tables → Prop where
  | metered {stage : Stage} {t' : Tables} (h : MeterStep runId t t') : TaskStep runId t stage t'
  | collected (source : Source) (audit : AuditTrace) (hRun : source.runId = runId)
      (hAudit : audit.entityType = "source".toList) :
      TaskStep runId t .collect
        { t with sources := t.sources ++ [source], auditTrace := t.auditTrace ++ [audit] }
  | stored (sourceId : Uuid) (passages : List Passage) (sources : List Source)
      (hPassages : ∀ p ∈ passages, p.sourceId = sourceId)
      (hSources : sources = t.sources ∨ sources =
        modifyRow Source.id sourceId (fun s => { s with status := .normalized }) t.sources) :
      TaskStep runId t .store { t with passages := t.passages ++ passages, sources }
  | extracted (passage : Passage) (hPassage : Resolves runId passage t)
      (statements : List Statement) (links : List EvidenceLink)
      (hRows : Extraction runId passage statements links) :
      TaskStep runId t .extract
        { t with
          statements := t.statements ++ statements, evidenceLinks := t.evidenceLinks ++ links }
  | verified (statement : Statement) (hStatement : statement ∈ t.statements) (passage : Passage)
      (hPassage : Resolves runId passage t) (decision : StatementStatus) (link : EvidenceLink)
      (audit : AuditTrace) (hRows : Verification runId statement passage decision link audit) :
      TaskStep runId t .verify
        { t with
          statements := setStatus statement.id decision t.statements
          evidenceLinks := t.evidenceLinks ++ [link], auditTrace := t.auditTrace ++ [audit] }
  | found (findings : List Finding) (findingStatements : List FindingStatement) :
      TaskStep runId t .find { t with findings, findingStatements }
  | contradicted (row : Contradiction) (audit : AuditTrace)
      (hAudit : audit.entityType = "contradiction".toList) :
      TaskStep runId t .detect
        { t with
          contradictions := t.contradictions ++ [row], auditTrace := t.auditTrace ++ [audit] }
  | concluded (rows : List Cited) (hRows : ∀ row ∈ rows, Citation runId t row) :
      TaskStep runId t .conclude
        { t with
          conclusions := t.conclusions ++ rows.map Cited.conclusion
          conclusionEvidence := t.conclusionEvidence ++ rows.flatMap Cited.evidence
          auditTrace := t.auditTrace ++ rows.map Cited.audit }
  | finalized (run : Run) (hRun : runOf runId t = some run) (completedAt : Instant) :
      TaskStep runId t .trace (t.setRun (run.finalized completedAt))

/-- A step of the task of a stage: the change of the tables, and no line in the log but the mark of
a call of the extractor. -/
def TaskMoment (runId : Uuid) (stage : Stage) (m : Moment Vocabulary) : Prop :=
  TaskStep runId m.before.tables stage m.after.tables ∧
    ∀ event, m.happening = .wrote event →
      stage = .extract ∧ ∃ passageId, event = .extractorCalled runId passageId

section Moments

variable {runId : Uuid} {stage : Stage} {s : World}

theorem TaskMoment.of_meter (m : Moment Vocabulary) (h : MeterMoment runId m) :
    TaskMoment runId stage m :=
  ⟨.metered h.1, fun event hEvent => absurd hEvent (h.2 event)⟩

theorem TaskMoment.of_quiet (m : Moment Vocabulary) (h : Quiet m) : TaskMoment runId stage m :=
  .of_meter m (.of_quiet m h)

theorem TaskMoment.moved {t : World} (h : TaskStep runId s.tables stage t.tables) :
    TaskMoment runId stage ⟨s, .moved, t⟩ :=
  ⟨h, by simp⟩

/-- What a task never takes away: a passage, and a source of a run. -/
structure Grows (t t' : Tables) : Prop where
  passages : ∀ p ∈ t.passages, p ∈ t'.passages
  sources : ∀ s ∈ t.sources, ∃ s' ∈ t'.sources, s'.id = s.id ∧ s'.runId = s.runId

theorem Grows.refl (t : Tables) : Grows t t := ⟨fun _ h => h, fun s h => ⟨s, h, rfl, rfl⟩⟩

theorem Grows.trans {t t' t'' : Tables} (h : Grows t t') (h' : Grows t' t'') : Grows t t'' := by
  refine ⟨fun p hp => h'.passages p (h.passages p hp), fun s hs => ?_⟩
  obtain ⟨s', hs', hId, hRun⟩ := h.sources s hs
  obtain ⟨s'', hs'', hId', hRun'⟩ := h'.sources s' hs'
  exact ⟨s'', hs'', hId'.trans hId, hRun'.trans hRun⟩

theorem Grows.of_eq {t t' : Tables} (hPassages : t'.passages = t.passages)
    (hSources : t'.sources = t.sources) : Grows t t' := by
  refine ⟨fun p hp => hPassages ▸ hp, fun s hs => ⟨s, hSources ▸ hs, rfl, rfl⟩⟩

theorem TaskStep.grows {t t' : Tables} (h : TaskStep runId t stage t') : Grows t t' := by
  cases h with
  | metered h => exact .of_eq h.frame.passages h.frame.sources
  | collected source audit hRun hAudit =>
      exact ⟨fun _ hp => hp, fun s hs => ⟨s, List.mem_append_left _ hs, rfl, rfl⟩⟩
  | stored sourceId passages sources hPassages hSources =>
      refine ⟨fun p hp => List.mem_append_left _ hp, fun s hs => ?_⟩
      rcases hSources with rfl | rfl
      · exact ⟨s, hs, rfl, rfl⟩
      · by_cases hKey : s.id = sourceId
        · exact ⟨_, mem_modifyRow.mpr (.inl ⟨s, hs, hKey, rfl⟩), rfl, rfl⟩
        · exact ⟨s, mem_modifyRow.mpr (.inr ⟨hs, hKey⟩), rfl, rfl⟩
  | _ => exact .of_eq rfl rfl

theorem Resolves.grows {passage : Passage} {t t' : Tables} (h : Resolves runId passage t)
    (hGrows : Grows t t') : Resolves runId passage t' := by
  obtain ⟨hPassage, source, hSource, hId, hRun⟩ := h
  obtain ⟨source', hSource', hId', hRun'⟩ := hGrows.sources source hSource
  exact ⟨hGrows.passages _ hPassage, source', hSource', hId'.trans hId, hRun'.trans hRun⟩

/-- A task only adds to what resolves. -/
theorem Alone.growing {α : Type} {p : Action α} {Q : Except PyError α → World → Prop}
    (h : Alone (TaskMoment runId stage) Q p s) :
    Alone (TaskMoment runId stage) (fun r t => Q r t ∧ Grows s.tables t.tables) p s :=
  Alone.along (S := Vocabulary) (T := fun s t : World => Grows s.tables t.tables)
    (fun _ => .refl _) (fun _ _ _ h h' => h.trans h') (fun _ hm => hm.1.grows) h

/-- A metered call inside a task. -/
theorem Alone.metered {α : Type} {p : Action α} (h : Alone (MeterMoment runId) anyEnd p s) :
    Alone (TaskMoment runId stage) (fun _ t => MeterFrame s.tables t.tables) p s :=
  (Alone.metering h).mono TaskMoment.of_meter fun _ _ h => h.2

end Moments

end Ecrke
