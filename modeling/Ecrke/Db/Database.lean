import Ecrke.Db.Models
import Ecrke.Durable.Rows

/-!
# The database and its transactions

A `Database` is a set of tables together with the proof that they satisfy the constraints of the
schema, so a state which violates a key or a reference cannot be built.  The session layer turns
every transaction of the program into a list of `Write`s; `Database.applyAll` carries them out all
or not at all.

* `Tables`, `Tables.Valid`, `Database` -- the tables and their constraints.
* `Write`, `Write.violation`, `Write.effect` -- one row change, why it may be rejected and what it
  does.
* `Tables.Valid.effect` -- an accepted write keeps the constraints.
* `Database.applyAll_ok` -- what a committed transaction has done to the tables.
-/

namespace Ecrke

open Durable

/-- The tables. -/
structure Tables where
  runs : List Run
  sources : List Source
  passages : List Passage
  statements : List Statement
  evidenceLinks : List EvidenceLink
  findings : List Finding
  findingStatements : List FindingStatement
  contradictions : List Contradiction
  conclusions : List Conclusion
  conclusionEvidence : List ConclusionEvidence
  auditTrace : List AuditTrace
  checkpoints : List Checkpoint
  kvCache : List KVEntry

/-- The check constraints of a run, and the range of its amounts. -/
def Run.Checks (run : Run) : Prop :=
  0 ≤ run.progress ∧ run.progress ≤ 1 ∧ 0 ≤ run.costSpentUsd ∧ run.costSpentUsd < 10 ^ 8

instance (run : Run) : Decidable run.Checks :=
  inferInstanceAs (Decidable (_ ∧ _ ∧ _ ∧ _))

/-- The constraints of the schema. -/
structure Tables.Valid (t : Tables) : Prop where
  runsKey : Keyed Run.id t.runs
  runsChecks : ∀ run ∈ t.runs, run.Checks
  sourcesKey : Keyed Source.id t.sources
  sourcesHash : Keyed (fun s => (s.runId, s.contentHash)) t.sources
  sourcesRun : Refers Source.runId Run.id t.sources t.runs
  passagesKey : Keyed Passage.id t.passages
  passagesSeq : Keyed (fun p => (p.sourceId, p.seq)) t.passages
  passagesSource : Refers Passage.sourceId Source.id t.passages t.sources
  statementsKey : Keyed Statement.id t.statements
  statementsPassage : Refers Statement.passageId Passage.id t.statements t.passages
  statementsRun : Refers Statement.runId Run.id t.statements t.runs
  linksKey : Keyed EvidenceLink.id t.evidenceLinks
  linksStatement : Refers EvidenceLink.statementId Statement.id t.evidenceLinks t.statements
  linksPassage : Refers EvidenceLink.passageId Passage.id t.evidenceLinks t.passages
  linksRun : Refers EvidenceLink.runId Run.id t.evidenceLinks t.runs
  findingsKey : Keyed Finding.id t.findings
  findingsRun : Refers Finding.runId Run.id t.findings t.runs
  findingStatementsKey : Keyed id t.findingStatements
  findingStatementsFinding :
    Refers FindingStatement.findingId Finding.id t.findingStatements t.findings
  findingStatementsStatement :
    Refers FindingStatement.statementId Statement.id t.findingStatements t.statements
  contradictionsKey : Keyed Contradiction.id t.contradictions
  contradictionsRun : Refers Contradiction.runId Run.id t.contradictions t.runs
  contradictionsA : Refers Contradiction.statementAId Statement.id t.contradictions t.statements
  contradictionsB : Refers Contradiction.statementBId Statement.id t.contradictions t.statements
  conclusionsKey : Keyed Conclusion.id t.conclusions
  conclusionsRun : Refers Conclusion.runId Run.id t.conclusions t.runs
  evidenceKey : Keyed id t.conclusionEvidence
  evidenceConclusion :
    Refers ConclusionEvidence.conclusionId Conclusion.id t.conclusionEvidence t.conclusions
  evidenceStatement :
    Refers ConclusionEvidence.statementId Statement.id t.conclusionEvidence t.statements
  auditKey : Keyed AuditTrace.id t.auditTrace
  auditRun : Refers AuditTrace.runId Run.id t.auditTrace t.runs
  checkpointsKey : Keyed Checkpoint.id t.checkpoints
  checkpointsStage : Keyed (fun c => (c.runId, c.stage)) t.checkpoints
  checkpointsRun : Refers Checkpoint.runId Run.id t.checkpoints t.runs
  kvKey : Keyed KVEntry.key t.kvCache

/-! ## Row changes -/

/-- The columns of a run which an UPDATE sets. -/
structure RunChanges where
  stage : Option (Option Text)
  status : Option RunStatus
  progress : Option ℚ
  costBudgetUsd : Option Usd
  costSpentUsd : Option Usd
  checkpoint : Option (Option Json)
  completedAt : Option (Option Instant)

/-- An UPDATE of a run. -/
def RunChanges.apply (changes : RunChanges) (run : Run) : Run :=
  { run with
    stage := changes.stage.getD run.stage
    status := changes.status.getD run.status
    progress := changes.progress.getD run.progress
    costBudgetUsd := changes.costBudgetUsd.getD run.costBudgetUsd
    costSpentUsd := changes.costSpentUsd.getD run.costSpentUsd
    checkpoint := changes.checkpoint.getD run.checkpoint
    completedAt := changes.completedAt.getD run.completedAt }

/-- An UPDATE which sets no column. -/
def RunChanges.nothing : RunChanges := ⟨none, none, none, none, none, none, none⟩

/-- The columns which the session writes for an edited run: those whose value has changed.  A JSON
column is compared by the caller. -/
def Run.changes (loaded edited : Run) : RunChanges where
  stage := if edited.stage = loaded.stage then none else some edited.stage
  status := if edited.status = loaded.status then none else some edited.status
  progress := if edited.progress = loaded.progress then none else some edited.progress
  costBudgetUsd :=
    if edited.costBudgetUsd = loaded.costBudgetUsd then none else some edited.costBudgetUsd
  costSpentUsd :=
    if edited.costSpentUsd = loaded.costSpentUsd then none else some edited.costSpentUsd
  checkpoint := none
  completedAt := if edited.completedAt = loaded.completedAt then none else some edited.completedAt

/-- No column has changed. -/
def RunChanges.isEmpty (changes : RunChanges) : Bool :=
  changes.stage.isNone && changes.status.isNone && changes.progress.isNone &&
    changes.costBudgetUsd.isNone && changes.costSpentUsd.isNone && changes.checkpoint.isNone &&
    changes.completedAt.isNone

/-- The columns of a statement which an UPDATE sets. -/
structure StatementChanges where
  text : Option Text
  status : Option StatementStatus
  confidence : Option (Option Confidence)

/-- An UPDATE of a statement. -/
def StatementChanges.apply (changes : StatementChanges) (statement : Statement) : Statement :=
  { statement with
    text := changes.text.getD statement.text
    status := changes.status.getD statement.status
    confidence := changes.confidence.getD statement.confidence }

/-- One row change of a transaction. -/
inductive Write where
  | insertRun (row : Run)
  | insertSource (row : Source)
  | insertPassage (row : Passage)
  | insertStatement (row : Statement)
  | insertEvidenceLink (row : EvidenceLink)
  | insertFinding (row : Finding)
  | insertFindingStatement (row : FindingStatement)
  | insertContradiction (row : Contradiction)
  | insertConclusion (row : Conclusion)
  | insertConclusionEvidence (row : ConclusionEvidence)
  | insertAuditTrace (row : AuditTrace)
  | insertCheckpoint (row : Checkpoint)
  | insertKVEntry (row : KVEntry)
  | updateRun (id : Uuid) (changes : RunChanges)
  | updateSource (id : Uuid) (status : SourceStatus)
  | updateStatement (id : Uuid) (changes : StatementChanges)
  | updateCheckpoint (id : Uuid) (state : Option Json)
  | updateKVEntry (row : KVEntry)
  | deleteKVEntry (key : Text)

/-- What a session writes for an edited run: nothing, where no column has changed. -/
def Run.updates (loaded edited : Run) : List Write :=
  let changes := loaded.changes edited
  if changes.isEmpty then [] else [.updateRun loaded.id changes]

/-- The exception for a violated constraint. -/
def integrity (constraint : String) : PyError := ⟨.integrityError, constraint.toList⟩

/-- The exception for a value which is too long for its column. -/
def tooLong (column : String) : PyError := ⟨.dataError, column.toList⟩

/-- The exception for an UPDATE which matched no row. -/
def stale (table : String) : PyError := ⟨.staleDataError, table.toList⟩

/-- The first constraint which is violated. -/
def firstViolation : List (Bool × PyError) → Option PyError
  | [] => none
  | (violated, error) :: rest => if violated then some error else firstViolation rest

@[simp] theorem firstViolation_none {checks : List (Bool × PyError)} :
    firstViolation checks = none ↔ ∀ check ∈ checks, check.1 = false := by
  induction checks with
  | nil => simp [firstViolation]
  | cons check rest ih =>
      obtain ⟨violated, error⟩ := check
      cases violated <;> simp [firstViolation, ih]

/-- Each check has passed where no constraint is violated. -/
theorem passed_of_none {checks : List (Bool × PyError)} (h : firstViolation checks = none) :
    ∀ check ∈ checks, check.1 = false :=
  firstViolation_none.mp h

/-- A value is too long for a `String(most)` column. -/
def exceeds (most : Nat) (t : Text) : Bool := most < t.length

/-- A reference does not resolve. -/
def dangling {ρ : Type} (key : ρ → Uuid) (id : Uuid) (rows : List ρ) : Bool :=
  !rows.any fun row => key row = id

namespace Write

/-- The constraint which rejects a write. -/
def violation (t : Tables) : Write → Option PyError
  | insertRun row => firstViolation [
      (t.runs.any fun r => r.id = row.id, integrity "pk_runs"),
      (!decide row.Checks, integrity "ck_runs"),
      (row.stage.any (exceeds 64), tooLong "runs.stage")]
  | insertSource row => firstViolation [
      (t.sources.any fun s => s.id = row.id, integrity "pk_sources"),
      (t.sources.any fun s => (s.runId, s.contentHash) = (row.runId, row.contentHash),
        integrity "uq_sources_run_content_hash"),
      (dangling Run.id row.runId t.runs, integrity "fk_sources_run_id_runs"),
      (row.title.any (exceeds 1024), tooLong "sources.title"),
      (exceeds 64 row.contentHash, tooLong "sources.content_hash"),
      (row.rawRef.any (exceeds 512), tooLong "sources.raw_ref")]
  | insertPassage row => firstViolation [
      (t.passages.any fun p => p.id = row.id, integrity "pk_passages"),
      (t.passages.any fun p => (p.sourceId, p.seq) = (row.sourceId, row.seq),
        integrity "uq_passages_source_seq"),
      (dangling Source.id row.sourceId t.sources, integrity "fk_passages_source_id_sources"),
      (exceeds 64 row.hash, tooLong "passages.hash")]
  | insertStatement row => firstViolation [
      (t.statements.any fun s => s.id = row.id, integrity "pk_statements"),
      (dangling Passage.id row.passageId t.passages,
        integrity "fk_statements_passage_id_passages"),
      (dangling Run.id row.runId t.runs, integrity "fk_statements_run_id_runs")]
  | insertEvidenceLink row => firstViolation [
      (t.evidenceLinks.any fun l => l.id = row.id, integrity "pk_evidence_links"),
      (dangling Statement.id row.statementId t.statements,
        integrity "fk_evidence_links_statement_id_statements"),
      (dangling Passage.id row.passageId t.passages,
        integrity "fk_evidence_links_passage_id_passages"),
      (dangling Run.id row.runId t.runs, integrity "fk_evidence_links_run_id_runs"),
      (row.method.any (exceeds 64), tooLong "evidence_links.method")]
  | insertFinding row => firstViolation [
      (t.findings.any fun f => f.id = row.id, integrity "pk_findings"),
      (dangling Run.id row.runId t.runs, integrity "fk_findings_run_id_runs"),
      (exceeds 512 row.title, tooLong "findings.title")]
  | insertFindingStatement row => firstViolation [
      (t.findingStatements.any fun f => f = row, integrity "pk_finding_statements"),
      (dangling Finding.id row.findingId t.findings,
        integrity "fk_finding_statements_finding_id_findings"),
      (dangling Statement.id row.statementId t.statements,
        integrity "fk_finding_statements_statement_id_statements")]
  | insertContradiction row => firstViolation [
      (t.contradictions.any fun c => c.id = row.id, integrity "pk_contradictions"),
      (dangling Run.id row.runId t.runs, integrity "fk_contradictions_run_id_runs"),
      (dangling Statement.id row.statementAId t.statements,
        integrity "fk_contradictions_statement_a_id_statements"),
      (dangling Statement.id row.statementBId t.statements,
        integrity "fk_contradictions_statement_b_id_statements")]
  | insertConclusion row => firstViolation [
      (t.conclusions.any fun c => c.id = row.id, integrity "pk_conclusions"),
      (dangling Run.id row.runId t.runs, integrity "fk_conclusions_run_id_runs")]
  | insertConclusionEvidence row => firstViolation [
      (t.conclusionEvidence.any fun e => e = row, integrity "pk_conclusion_evidence"),
      (dangling Conclusion.id row.conclusionId t.conclusions,
        integrity "fk_conclusion_evidence_conclusion_id_conclusions"),
      (dangling Statement.id row.statementId t.statements,
        integrity "fk_conclusion_evidence_statement_id_statements")]
  | insertAuditTrace row => firstViolation [
      (t.auditTrace.any fun a => a.id = row.id, integrity "pk_audit_trace"),
      (dangling Run.id row.runId t.runs, integrity "fk_audit_trace_run_id_runs"),
      (exceeds 64 row.entityType, tooLong "audit_trace.entity_type"),
      (row.entityId.any (exceeds 64), tooLong "audit_trace.entity_id"),
      (exceeds 64 row.action, tooLong "audit_trace.action"),
      (row.actor.any (exceeds 64), tooLong "audit_trace.actor"),
      (row.decision.any (exceeds 64), tooLong "audit_trace.decision")]
  | insertCheckpoint row => firstViolation [
      (t.checkpoints.any fun c => c.id = row.id, integrity "pk_checkpoints"),
      (t.checkpoints.any fun c => (c.runId, c.stage) = (row.runId, row.stage),
        integrity "uq_checkpoints_run_stage"),
      (dangling Run.id row.runId t.runs, integrity "fk_checkpoints_run_id_runs"),
      (exceeds 64 row.stage, tooLong "checkpoints.stage")]
  | insertKVEntry row => firstViolation [
      (t.kvCache.any fun e => e.key = row.key, integrity "pk_kv_cache"),
      (exceeds 128 row.key, tooLong "kv_cache.key"),
      (exceeds 128 row.model, tooLong "kv_cache.model"),
      (exceeds 64 row.promptHash, tooLong "kv_cache.prompt_hash")]
  | updateRun id changes => firstViolation [
      (dangling Run.id id t.runs, stale "runs"),
      (t.runs.any fun r => r.id = id && !decide (changes.apply r).Checks, integrity "ck_runs"),
      (changes.stage.any fun stage => stage.any (exceeds 64), tooLong "runs.stage")]
  | updateSource id _ => firstViolation [(dangling Source.id id t.sources, stale "sources")]
  | updateStatement id _ =>
      firstViolation [(dangling Statement.id id t.statements, stale "statements")]
  | updateCheckpoint id _ =>
      firstViolation [(dangling Checkpoint.id id t.checkpoints, stale "checkpoints")]
  | updateKVEntry row => firstViolation [
      (!t.kvCache.any fun e => e.key = row.key, stale "kv_cache"),
      (exceeds 128 row.model, tooLong "kv_cache.model"),
      (exceeds 64 row.promptHash, tooLong "kv_cache.prompt_hash")]
  -- A DELETE which matches no row only warns.
  | deleteKVEntry _ => none

/-- What a write does to the tables. -/
def effect (t : Tables) : Write → Tables
  | insertRun row => { t with runs := t.runs ++ [row] }
  | insertSource row => { t with sources := t.sources ++ [row] }
  | insertPassage row => { t with passages := t.passages ++ [row] }
  | insertStatement row => { t with statements := t.statements ++ [row] }
  | insertEvidenceLink row => { t with evidenceLinks := t.evidenceLinks ++ [row] }
  | insertFinding row => { t with findings := t.findings ++ [row] }
  | insertFindingStatement row => { t with findingStatements := t.findingStatements ++ [row] }
  | insertContradiction row => { t with contradictions := t.contradictions ++ [row] }
  | insertConclusion row => { t with conclusions := t.conclusions ++ [row] }
  | insertConclusionEvidence row =>
      { t with conclusionEvidence := t.conclusionEvidence ++ [row] }
  | insertAuditTrace row => { t with auditTrace := t.auditTrace ++ [row] }
  | insertCheckpoint row => { t with checkpoints := t.checkpoints ++ [row] }
  | insertKVEntry row => { t with kvCache := t.kvCache ++ [row] }
  | updateRun id changes => { t with runs := modifyRow Run.id id changes.apply t.runs }
  | updateSource id status =>
      { t with sources := modifyRow Source.id id (fun s => { s with status }) t.sources }
  | updateStatement id changes =>
      { t with statements := modifyRow Statement.id id changes.apply t.statements }
  | updateCheckpoint id state =>
      { t with checkpoints := modifyRow Checkpoint.id id (fun c => { c with state }) t.checkpoints }
  | updateKVEntry row =>
      { t with kvCache := modifyRow KVEntry.key row.key (fun _ => row) t.kvCache }
  | deleteKVEntry key => { t with kvCache := t.kvCache.filter fun e => e.key ≠ key }

end Write

theorem resolves_of_passed {ρ : Type} {key : ρ → Uuid} {id : Uuid} {rows : List ρ}
    (h : dangling key id rows = false) : ∃ row ∈ rows, key row = id := by
  simpa [dangling] using h

theorem firstViolation_mem {checks : List (Bool × PyError)} {error : PyError}
    (h : firstViolation checks = some error) : (true, error) ∈ checks := by
  induction checks with
  | nil => simp [firstViolation] at h
  | cons check rest ih =>
      obtain ⟨violated, other⟩ := check
      cases violated with
      | true =>
          have hError : other = error := by simpa [firstViolation] using h
          rw [hError]
          exact List.mem_cons_self
      | false => exact List.mem_cons_of_mem _ (ih (by simpa [firstViolation] using h))

/-- The exceptions of the database. -/
def IsDbError (error : PyError) : Prop :=
  error.kind ∈ [.operationalError, .integrityError, .dataError, .staleDataError]

@[simp] theorem isDbError_integrity (constraint : String) : IsDbError (integrity constraint) := by
  simp [IsDbError, integrity]

@[simp] theorem isDbError_tooLong (column : String) : IsDbError (tooLong column) := by
  simp [IsDbError, tooLong]

@[simp] theorem isDbError_stale (table : String) : IsDbError (stale table) := by
  simp [IsDbError, stale]

theorem Write.violation_kind {t : Tables} {w : Write} {error : PyError}
    (h : w.violation t = some error) : IsDbError error := by
  have hAll (checks : List (Bool × PyError)) (hFirst : firstViolation checks = some error)
      (hKinds : ∀ check ∈ checks, IsDbError check.2) : IsDbError error :=
    hKinds (true, error) (firstViolation_mem hFirst)
  cases w with
  | deleteKVEntry key => cases h
  | _ =>
      refine hAll _ h ?_
      simp only [List.forall_mem_cons, isDbError_integrity, isDbError_tooLong, isDbError_stale,
        List.not_mem_nil, false_imp_iff, implies_true, and_self]

/-! ## Accepted writes keep the constraints -/

namespace Tables.Valid

variable {t : Tables}

theorem insertRun (h : t.Valid) {row : Run} (hNone : (Write.insertRun row).violation t = none) :
    ((Write.insertRun row).effect t).Valid := by
  have hPassed := passed_of_none hNone
  simp only [List.forall_mem_cons] at hPassed
  obtain ⟨hKey, hChecks, -, -⟩ := hPassed
  exact { h with
    runsKey := h.runsKey.append_one (by simpa using hKey)
    runsChecks := by
      intro run hRun
      rcases List.mem_append.mp hRun with hIn | hIn
      · exact h.runsChecks run hIn
      · rw [List.mem_singleton.mp hIn]
        simpa using hChecks
    sourcesRun := h.sourcesRun.inserted row
    statementsRun := h.statementsRun.inserted row
    linksRun := h.linksRun.inserted row
    findingsRun := h.findingsRun.inserted row
    contradictionsRun := h.contradictionsRun.inserted row
    conclusionsRun := h.conclusionsRun.inserted row
    auditRun := h.auditRun.inserted row
    checkpointsRun := h.checkpointsRun.inserted row }

theorem insertSource (h : t.Valid) {row : Source}
    (hNone : (Write.insertSource row).violation t = none) :
    ((Write.insertSource row).effect t).Valid := by
  have hPassed := passed_of_none hNone
  simp only [List.forall_mem_cons] at hPassed
  obtain ⟨hKey, hHash, hRun, -⟩ := hPassed
  exact { h with
    sourcesKey := h.sourcesKey.append_one (by simpa using hKey)
    sourcesHash := h.sourcesHash.append_one (by simpa using hHash)
    sourcesRun := h.sourcesRun.append_one (resolves_of_passed hRun)
    passagesSource := h.passagesSource.inserted row }

theorem insertPassage (h : t.Valid) {row : Passage}
    (hNone : (Write.insertPassage row).violation t = none) :
    ((Write.insertPassage row).effect t).Valid := by
  have hPassed := passed_of_none hNone
  simp only [List.forall_mem_cons] at hPassed
  obtain ⟨hKey, hSeq, hSource, -⟩ := hPassed
  exact { h with
    passagesKey := h.passagesKey.append_one (by simpa using hKey)
    passagesSeq := h.passagesSeq.append_one (by simpa using hSeq)
    passagesSource := h.passagesSource.append_one (resolves_of_passed hSource)
    statementsPassage := h.statementsPassage.inserted row
    linksPassage := h.linksPassage.inserted row }

theorem insertStatement (h : t.Valid) {row : Statement}
    (hNone : (Write.insertStatement row).violation t = none) :
    ((Write.insertStatement row).effect t).Valid := by
  have hPassed := passed_of_none hNone
  simp only [List.forall_mem_cons] at hPassed
  obtain ⟨hKey, hPassage, hRun, -⟩ := hPassed
  exact { h with
    statementsKey := h.statementsKey.append_one (by simpa using hKey)
    statementsPassage := h.statementsPassage.append_one (resolves_of_passed hPassage)
    statementsRun := h.statementsRun.append_one (resolves_of_passed hRun)
    linksStatement := h.linksStatement.inserted row
    findingStatementsStatement := h.findingStatementsStatement.inserted row
    contradictionsA := h.contradictionsA.inserted row
    contradictionsB := h.contradictionsB.inserted row
    evidenceStatement := h.evidenceStatement.inserted row }

theorem insertEvidenceLink (h : t.Valid) {row : EvidenceLink}
    (hNone : (Write.insertEvidenceLink row).violation t = none) :
    ((Write.insertEvidenceLink row).effect t).Valid := by
  have hPassed := passed_of_none hNone
  simp only [List.forall_mem_cons] at hPassed
  obtain ⟨hKey, hStatement, hPassage, hRun, -⟩ := hPassed
  exact { h with
    linksKey := h.linksKey.append_one (by simpa using hKey)
    linksStatement := h.linksStatement.append_one (resolves_of_passed hStatement)
    linksPassage := h.linksPassage.append_one (resolves_of_passed hPassage)
    linksRun := h.linksRun.append_one (resolves_of_passed hRun) }

theorem insertFinding (h : t.Valid) {row : Finding}
    (hNone : (Write.insertFinding row).violation t = none) :
    ((Write.insertFinding row).effect t).Valid := by
  have hPassed := passed_of_none hNone
  simp only [List.forall_mem_cons] at hPassed
  obtain ⟨hKey, hRun, -⟩ := hPassed
  exact { h with
    findingsKey := h.findingsKey.append_one (by simpa using hKey)
    findingsRun := h.findingsRun.append_one (resolves_of_passed hRun)
    findingStatementsFinding := h.findingStatementsFinding.inserted row }

theorem insertFindingStatement (h : t.Valid) {row : FindingStatement}
    (hNone : (Write.insertFindingStatement row).violation t = none) :
    ((Write.insertFindingStatement row).effect t).Valid := by
  have hPassed := passed_of_none hNone
  simp only [List.forall_mem_cons] at hPassed
  obtain ⟨hKey, hFinding, hStatement, -⟩ := hPassed
  exact { h with
    findingStatementsKey := h.findingStatementsKey.append_one (by simpa using hKey)
    findingStatementsFinding := h.findingStatementsFinding.append_one (resolves_of_passed hFinding)
    findingStatementsStatement :=
      h.findingStatementsStatement.append_one (resolves_of_passed hStatement) }

theorem insertContradiction (h : t.Valid) {row : Contradiction}
    (hNone : (Write.insertContradiction row).violation t = none) :
    ((Write.insertContradiction row).effect t).Valid := by
  have hPassed := passed_of_none hNone
  simp only [List.forall_mem_cons] at hPassed
  obtain ⟨hKey, hRun, hA, hB, -⟩ := hPassed
  exact { h with
    contradictionsKey := h.contradictionsKey.append_one (by simpa using hKey)
    contradictionsRun := h.contradictionsRun.append_one (resolves_of_passed hRun)
    contradictionsA := h.contradictionsA.append_one (resolves_of_passed hA)
    contradictionsB := h.contradictionsB.append_one (resolves_of_passed hB) }

theorem insertConclusion (h : t.Valid) {row : Conclusion}
    (hNone : (Write.insertConclusion row).violation t = none) :
    ((Write.insertConclusion row).effect t).Valid := by
  have hPassed := passed_of_none hNone
  simp only [List.forall_mem_cons] at hPassed
  obtain ⟨hKey, hRun, -⟩ := hPassed
  exact { h with
    conclusionsKey := h.conclusionsKey.append_one (by simpa using hKey)
    conclusionsRun := h.conclusionsRun.append_one (resolves_of_passed hRun)
    evidenceConclusion := h.evidenceConclusion.inserted row }

theorem insertConclusionEvidence (h : t.Valid) {row : ConclusionEvidence}
    (hNone : (Write.insertConclusionEvidence row).violation t = none) :
    ((Write.insertConclusionEvidence row).effect t).Valid := by
  have hPassed := passed_of_none hNone
  simp only [List.forall_mem_cons] at hPassed
  obtain ⟨hKey, hConclusion, hStatement, -⟩ := hPassed
  exact { h with
    evidenceKey := h.evidenceKey.append_one (by simpa using hKey)
    evidenceConclusion := h.evidenceConclusion.append_one (resolves_of_passed hConclusion)
    evidenceStatement := h.evidenceStatement.append_one (resolves_of_passed hStatement) }

theorem insertAuditTrace (h : t.Valid) {row : AuditTrace}
    (hNone : (Write.insertAuditTrace row).violation t = none) :
    ((Write.insertAuditTrace row).effect t).Valid := by
  have hPassed := passed_of_none hNone
  simp only [List.forall_mem_cons] at hPassed
  obtain ⟨hKey, hRun, -⟩ := hPassed
  exact { h with
    auditKey := h.auditKey.append_one (by simpa using hKey)
    auditRun := h.auditRun.append_one (resolves_of_passed hRun) }

theorem insertCheckpoint (h : t.Valid) {row : Checkpoint}
    (hNone : (Write.insertCheckpoint row).violation t = none) :
    ((Write.insertCheckpoint row).effect t).Valid := by
  have hPassed := passed_of_none hNone
  simp only [List.forall_mem_cons] at hPassed
  obtain ⟨hKey, hStage, hRun, -⟩ := hPassed
  exact { h with
    checkpointsKey := h.checkpointsKey.append_one (by simpa using hKey)
    checkpointsStage := h.checkpointsStage.append_one (by simpa using hStage)
    checkpointsRun := h.checkpointsRun.append_one (resolves_of_passed hRun) }

theorem insertKVEntry (h : t.Valid) {row : KVEntry}
    (hNone : (Write.insertKVEntry row).violation t = none) :
    ((Write.insertKVEntry row).effect t).Valid := by
  have hPassed := passed_of_none hNone
  simp only [List.forall_mem_cons] at hPassed
  exact { h with kvKey := h.kvKey.append_one (by simpa using hPassed.1) }

theorem updateRun (h : t.Valid) {id : Uuid} {changes : RunChanges}
    (hNone : (Write.updateRun id changes).violation t = none) :
    ((Write.updateRun id changes).effect t).Valid := by
  have hPassed := passed_of_none hNone
  simp only [List.forall_mem_cons] at hPassed
  obtain ⟨-, hChecks, -⟩ := hPassed
  have hId : ∀ run, (changes.apply run).id = run.id := fun _ => rfl
  exact { h with
    runsKey := h.runsKey.modifyRow hId
    runsChecks := by
      intro run hRun
      rcases mem_modifyRow.mp hRun with ⟨old, hOld, hKey, rfl⟩ | ⟨hOld, -⟩
      · simp only [List.any_eq_false, Bool.and_eq_true, decide_eq_true_eq, not_and] at hChecks
        simpa using hChecks old hOld hKey
      · exact h.runsChecks run hOld
    sourcesRun := h.sourcesRun.updated hId
    statementsRun := h.statementsRun.updated hId
    linksRun := h.linksRun.updated hId
    findingsRun := h.findingsRun.updated hId
    contradictionsRun := h.contradictionsRun.updated hId
    conclusionsRun := h.conclusionsRun.updated hId
    auditRun := h.auditRun.updated hId
    checkpointsRun := h.checkpointsRun.updated hId }

theorem updateSource (h : t.Valid) (id : Uuid) (status : SourceStatus) :
    ((Write.updateSource id status).effect t).Valid :=
  { h with
    sourcesKey := h.sourcesKey.modifyRow fun _ => rfl
    sourcesHash := h.sourcesHash.modifyRow fun _ => rfl
    sourcesRun := h.sourcesRun.modifyRow fun _ => rfl
    passagesSource := h.passagesSource.updated fun _ => rfl }

theorem updateStatement (h : t.Valid) (id : Uuid) (changes : StatementChanges) :
    ((Write.updateStatement id changes).effect t).Valid :=
  { h with
    statementsKey := h.statementsKey.modifyRow fun _ => rfl
    statementsPassage := h.statementsPassage.modifyRow fun _ => rfl
    statementsRun := h.statementsRun.modifyRow fun _ => rfl
    linksStatement := h.linksStatement.updated fun _ => rfl
    findingStatementsStatement := h.findingStatementsStatement.updated fun _ => rfl
    contradictionsA := h.contradictionsA.updated fun _ => rfl
    contradictionsB := h.contradictionsB.updated fun _ => rfl
    evidenceStatement := h.evidenceStatement.updated fun _ => rfl }

theorem updateCheckpoint (h : t.Valid) (id : Uuid) (state : Option Json) :
    ((Write.updateCheckpoint id state).effect t).Valid :=
  { h with
    checkpointsKey := h.checkpointsKey.modifyRow fun _ => rfl
    checkpointsStage := h.checkpointsStage.modifyRow fun _ => rfl
    checkpointsRun := h.checkpointsRun.modifyRow fun _ => rfl }

theorem updateKVEntry (h : t.Valid) (row : KVEntry) :
    ((Write.updateKVEntry row).effect t).Valid := by
  refine { h with kvKey := ?_ }
  have hMap : (modifyRow KVEntry.key row.key (fun _ => row) t.kvCache).map KVEntry.key =
      t.kvCache.map KVEntry.key := by
    simp only [modifyRow, List.map_map]
    refine List.map_congr_left fun entry _ => ?_
    by_cases hKey : entry.key = row.key <;> simp [hKey]
  have hKey := h.kvKey
  simpa only [Write.effect, Keyed, hMap] using hKey

/-- An accepted write keeps the constraints. -/
theorem effect (h : t.Valid) {w : Write} (hNone : w.violation t = none) : (w.effect t).Valid := by
  cases w with
  | insertRun row => exact h.insertRun hNone
  | insertSource row => exact h.insertSource hNone
  | insertPassage row => exact h.insertPassage hNone
  | insertStatement row => exact h.insertStatement hNone
  | insertEvidenceLink row => exact h.insertEvidenceLink hNone
  | insertFinding row => exact h.insertFinding hNone
  | insertFindingStatement row => exact h.insertFindingStatement hNone
  | insertContradiction row => exact h.insertContradiction hNone
  | insertConclusion row => exact h.insertConclusion hNone
  | insertConclusionEvidence row => exact h.insertConclusionEvidence hNone
  | insertAuditTrace row => exact h.insertAuditTrace hNone
  | insertCheckpoint row => exact h.insertCheckpoint hNone
  | insertKVEntry row => exact h.insertKVEntry hNone
  | updateRun id changes => exact h.updateRun hNone
  | updateSource id status => exact h.updateSource id status
  | updateStatement id changes => exact h.updateStatement id changes
  | updateCheckpoint id state => exact h.updateCheckpoint id state
  | updateKVEntry row => exact h.updateKVEntry row
  | deleteKVEntry key => exact { h with kvKey := h.kvKey.filter _ }

end Tables.Valid

/-! ## Transactions -/

/-- The tables after a list of writes. -/
def Tables.after (t : Tables) (writes : List Write) : Tables :=
  writes.foldl (fun t w => w.effect t) t

/-- A list of writes is accepted, each one after the others. -/
def Tables.Accepts (t : Tables) : List Write → Prop
  | [] => True
  | w :: rest => w.violation t = none ∧ (w.effect t).Accepts rest

/-- Tables which satisfy the constraints of the schema. -/
structure Database where
  tables : Tables
  valid : tables.Valid

namespace Database

/-- Carry out one write, or reject it. -/
def apply (db : Database) (w : Write) : Except PyError Database :=
  match h : w.violation db.tables with
  | some error => .error error
  | none => .ok ⟨w.effect db.tables, db.valid.effect h⟩

/-- Carry out the writes of a transaction, all or none. -/
def applyAll (db : Database) : List Write → Except PyError Database
  | [] => .ok db
  | w :: rest => do
      let db ← db.apply w
      db.applyAll rest

@[ext] theorem ext {a b : Database} (h : a.tables = b.tables) : a = b := by
  cases a
  cases b
  simpa using h

theorem apply_ok {db db' : Database} {w : Write} (h : db.apply w = .ok db') :
    w.violation db.tables = none ∧ db'.tables = w.effect db.tables := by
  unfold apply at h
  split at h
  · cases h
  · cases h
    exact ⟨‹_›, rfl⟩

theorem apply_error {db : Database} {w : Write} {error : PyError} (h : db.apply w = .error error) :
    w.violation db.tables = some error := by
  unfold apply at h
  split at h
  · cases h
    exact ‹_›
  · cases h

theorem applyAll_cons {db db' : Database} {w : Write} {rest : List Write}
    (h : db.applyAll (w :: rest) = .ok db') :
    ∃ mid, db.apply w = .ok mid ∧ mid.applyAll rest = .ok db' := by
  rw [applyAll] at h
  cases hMid : db.apply w with
  | error error => simp [hMid, bind, Except.bind] at h
  | ok mid => exact ⟨mid, rfl, by simpa [hMid, bind, Except.bind] using h⟩

/-- What a committed transaction has done. -/
theorem applyAll_ok {db db' : Database} {ws : List Write} (h : db.applyAll ws = .ok db') :
    db'.tables = db.tables.after ws := by
  induction ws generalizing db with
  | nil =>
      cases h
      rfl
  | cons w rest ih =>
      obtain ⟨mid, hMid, hRest⟩ := applyAll_cons h
      rw [ih hRest, (apply_ok hMid).2]
      rfl

/-- A transaction is carried out just if its writes are accepted. -/
theorem applyAll_isOk {db : Database} {ws : List Write} :
    (∃ db', db.applyAll ws = .ok db') ↔ db.tables.Accepts ws := by
  induction ws generalizing db with
  | nil => exact ⟨fun _ => trivial, fun _ => ⟨db, rfl⟩⟩
  | cons w rest ih =>
      constructor
      · rintro ⟨db', h⟩
        obtain ⟨mid, hMid, hRest⟩ := applyAll_cons h
        obtain ⟨hNone, hEffect⟩ := apply_ok hMid
        refine ⟨hNone, ?_⟩
        rw [← hEffect]
        exact ih.mp ⟨db', hRest⟩
      · rintro ⟨hNone, hRest⟩
        cases hMid : db.apply w with
        | error error =>
            rw [apply_error hMid] at hNone
            cases hNone
        | ok mid =>
            rw [← (apply_ok hMid).2] at hRest
            obtain ⟨db', hDb⟩ := ih.mpr hRest
            exact ⟨db', by rw [applyAll, hMid]; exact hDb⟩

/-- A DELETE is never rejected. -/
theorem applyAll_delete (db : Database) (k : Text) :
    ∃ db', db.applyAll [.deleteKVEntry k] = .ok db' :=
  ⟨_, rfl⟩

theorem applyAll_error {db : Database} {ws : List Write} {error : PyError}
    (h : db.applyAll ws = .error error) : IsDbError error := by
  induction ws generalizing db with
  | nil => cases h
  | cons w rest ih =>
      rw [applyAll] at h
      cases hMid : db.apply w with
      | error other =>
          simp only [hMid, bind, Except.bind, Except.error.injEq] at h
          subst h
          exact Write.violation_kind (apply_error hMid)
      | ok mid => exact ih (by simpa [hMid, bind, Except.bind] using h)

end Database

/-! ## The effect of a list of writes -/

/-- An edit of a run which leaves the columns alone which `Run.changes` does not compare. -/
structure Run.EditOf (edited loaded : Run) : Prop where
  id : edited.id = loaded.id
  tenantId : edited.tenantId = loaded.tenantId
  question : edited.question = loaded.question
  checkpoint : edited.checkpoint = loaded.checkpoint
  createdAt : edited.createdAt = loaded.createdAt

namespace Tables

variable {t : Tables}

@[simp] theorem after_nil : t.after [] = t := rfl

@[simp] theorem after_cons (w : Write) (rest : List Write) :
    t.after (w :: rest) = (w.effect t).after rest := rfl

@[simp] theorem after_append (ws rest : List Write) :
    t.after (ws ++ rest) = (t.after ws).after rest := by
  simp [after]

/-- The effect of inserting rows one by one. -/
theorem after_inserts {ρ : Type} {w : ρ → Write} {f : Tables → List ρ → Tables}
    (hNil : ∀ t, f t [] = t) (hCons : ∀ t row rest, f ((w row).effect t) rest = f t (row :: rest))
    (rows : List ρ) : t.after (rows.map w) = f t rows := by
  induction rows generalizing t with
  | nil => exact (hNil t).symm
  | cons row rest ih => rw [List.map_cons, after_cons, ih, hCons]

@[simp] theorem after_insertPassages (rows : List Passage) :
    t.after (rows.map .insertPassage) = { t with passages := t.passages ++ rows } :=
  after_inserts (f := fun t rows => { t with passages := t.passages ++ rows }) (by simp)
    (by simp [Write.effect]) rows

@[simp] theorem after_insertStatements (rows : List Statement) :
    t.after (rows.map .insertStatement) = { t with statements := t.statements ++ rows } :=
  after_inserts (f := fun t rows => { t with statements := t.statements ++ rows }) (by simp)
    (by simp [Write.effect]) rows

@[simp] theorem after_insertEvidenceLinks (rows : List EvidenceLink) :
    t.after (rows.map .insertEvidenceLink) =
      { t with evidenceLinks := t.evidenceLinks ++ rows } :=
  after_inserts (f := fun t rows => { t with evidenceLinks := t.evidenceLinks ++ rows }) (by simp)
    (by simp [Write.effect]) rows

@[simp] theorem after_insertFindingStatements (rows : List FindingStatement) :
    t.after (rows.map .insertFindingStatement) =
      { t with findingStatements := t.findingStatements ++ rows } :=
  after_inserts (f := fun t rows => { t with findingStatements := t.findingStatements ++ rows })
    (by simp) (by simp [Write.effect]) rows

@[simp] theorem after_insertAuditTraces (rows : List AuditTrace) :
    t.after (rows.map .insertAuditTrace) = { t with auditTrace := t.auditTrace ++ rows } :=
  after_inserts (f := fun t rows => { t with auditTrace := t.auditTrace ++ rows }) (by simp)
    (by simp [Write.effect]) rows

@[simp] theorem after_insertConclusions (rows : List Conclusion) :
    t.after (rows.map .insertConclusion) = { t with conclusions := t.conclusions ++ rows } :=
  after_inserts (f := fun t rows => { t with conclusions := t.conclusions ++ rows }) (by simp)
    (by simp [Write.effect]) rows

@[simp] theorem after_insertConclusionEvidence (rows : List ConclusionEvidence) :
    t.after (rows.map .insertConclusionEvidence) =
      { t with conclusionEvidence := t.conclusionEvidence ++ rows } :=
  after_inserts (f := fun t rows => { t with conclusionEvidence := t.conclusionEvidence ++ rows })
    (by simp) (by simp [Write.effect]) rows

/-- Replace the row of a run. -/
def setRun (t : Tables) (run : Run) : Tables :=
  { t with runs := modifyRow Run.id run.id (fun _ => run) t.runs }

/-- What a session writes for an edited run replaces the row which it has loaded. -/
theorem after_updates (hKey : Keyed Run.id t.runs) {loaded edited : Run} (hMem : loaded ∈ t.runs)
    (hEdit : edited.EditOf loaded) : t.after (loaded.updates edited) = t.setRun edited := by
  have hApply : (loaded.changes edited).apply loaded = edited := by
    obtain ⟨hId, hTenant, hQuestion, hCheckpoint, hCreated⟩ := hEdit
    cases loaded
    cases edited
    simp only [RunChanges.apply, Run.changes] at *
    congr 1 <;> first | exact Eq.symm ‹_› | (split <;> simp_all)
  simp only [Run.updates]
  split
  · -- No column has changed, so the row is the loaded one.
    rename_i hEmpty
    have hEq : edited = loaded := by
      rw [← hApply]
      simp only [RunChanges.isEmpty, Bool.and_eq_true, Option.isNone_iff_eq_none] at hEmpty
      simp only [RunChanges.apply, hEmpty, Option.getD_none]
    subst hEq
    simp [setRun, hKey.modifyRow_self hMem]
  · simp only [after_cons, after_nil, Write.effect, setRun, hEdit.id]
    rw [hKey.modifyRow_const hMem, hApply]

theorem findRow_setRun {run : Run} (k : Uuid) :
    findRow Run.id k (t.setRun run).runs =
      if k = run.id then (findRow Run.id run.id t.runs).map fun _ => run
      else findRow Run.id k t.runs :=
  findRow_modifyRow (fun _ _ => rfl) k

end Tables

/-! ## The row of a run -/

/-- The row of a run. -/
def runOf (runId : Uuid) (t : Tables) : Option Run := findRow Run.id runId t.runs

section RunOf

variable {runId : Uuid} {t : Tables} {run edited : Run}

theorem runOf_mem (h : runOf runId t = some run) : run ∈ t.runs := (findRow_some h).1

theorem runOf_id (h : runOf runId t = some run) : run.id = runId := (findRow_some h).2

theorem runOf_setRun (h : runOf runId t = some run) (hId : edited.id = run.id) :
    runOf runId (t.setRun edited) = some edited := by
  have hKey : runId = edited.id := (runOf_id h).symm.trans hId.symm
  rw [runOf] at h
  rw [runOf, Tables.findRow_setRun, if_pos hKey, ← hKey, h]
  rfl

end RunOf

end Ecrke
