import Ecrke.Durable.Executions
import Ecrke.Pipeline.Flows
import Ecrke.Pipeline.WrittenKeys
import Ecrke.Services.Bookkeeping

/-!
# The footprint of the pipeline

What the pipeline may do in one step, whatever state it finds and whatever the other processes do:
it leaves the state alone, it keeps the books of a model call, or it commits one of a short list of
transactions.  A relation which allows these holds of every step of every task and of the flow.

* `IsAudit`, `IsRunFailed` -- the audit rows which belong to another change.
* `Transaction` -- the lists of writes which the pipeline commits.
* `Unstarted` -- no stage is reported as started.
* `Allows` -- a relation which holds of the three kinds of steps.
* `Allows.runDefine` ... `Allows.runTrace`, `Allows.stageTasks` -- the tasks of the stages.
* `Allows.executeStages` -- the flow.
-/

namespace Ecrke

open Durable

/-! ## Transactions -/

/-- An audit row which is about an entity. -/
structure IsAudit (entityType : Text) (id : Uuid) (row : AuditTrace) : Prop where
  entityType : row.entityType = entityType
  entityId : row.entityId = some id.str

/-- The audit row of a failed run. -/
structure IsRunFailed (runId : Uuid) (row : AuditTrace) : Prop where
  run : row.runId = runId
  audit : IsAudit "run".toList runId row
  action : row.action = "run.failed".toList

/-- The transaction which records a failure. -/
def failureWrites (run : Run) (audit : AuditTrace) : List Write :=
  run.updates { run with status := .failed } ++ [.insertAuditTrace audit]

/-- The transactions of the pipeline, but for the one which records a failure.  The evidence of
the audit rows and the states of the checkpoints are clean. -/
inductive Transaction (u : Unicode) : List Write → Prop where
  | sourced (row : Source) (audit : AuditTrace) (h : IsAudit "source".toList row.id audit)
      (hClean : audit.Clean u) : Transaction u [.insertAuditTrace audit, .insertSource row]
  | stored (rows : List Passage) (status : List Write)
      (h : status = [] ∨ ∃ id value, status = [.updateSource id value]) :
      Transaction u (rows.map .insertPassage ++ status)
  | drafted (statements : List Statement) (links : List EvidenceLink) :
      Transaction u (statements.map .insertStatement ++ links.map .insertEvidenceLink)
  | judged (audit : AuditTrace) (link : EvidenceLink) (merged : Merged)
      (h : audit.entityType = "statement".toList) (hClean : audit.Clean u) :
      Transaction u ([.insertAuditTrace audit, .insertEvidenceLink link] ++ merged.writes)
  | found (row : Finding) (rows : List FindingStatement) :
      Transaction u (.insertFinding row :: rows.map .insertFindingStatement)
  | contradicted (row : Contradiction) (audit : AuditTrace)
      (h : IsAudit "contradiction".toList row.id audit) (hClean : audit.Clean u) :
      Transaction u [.insertAuditTrace audit, .insertContradiction row]
  | concluded (rows : List Cited)
      (h : ∀ row ∈ rows, IsAudit "conclusion".toList row.conclusion.id row.audit)
      (hClean : ∀ row ∈ rows, row.audit.Clean u) : Transaction u (conclusionWrites rows)
  | saved (row : Checkpoint) (hClean : ∀ state, row.state = some state → state.Clean u) :
      Transaction u [.insertCheckpoint row]
  | resaved (id : Uuid) (state : Option Json) (hClean : ∀ value, state = some value → value.Clean u) :
      Transaction u [.updateCheckpoint id state]
  | nothing : Transaction u []
  | updated (id : Uuid) (changes : RunChanges) (h : changes.status ≠ some .failed) :
      Transaction u [.updateRun id changes]

section Transactions

variable {u : Unicode}

theorem Transaction.updates {loaded edited : Run} (h : edited.status ≠ .failed) :
    Transaction u (loaded.updates edited) := by
  unfold Run.updates
  dsimp only
  split
  · exact .nothing
  · refine .updated _ _ ?_
    simp only [Run.changes]
    split
    · simp
    · simpa using h

/-- What a session writes for a merged statement. -/
theorem after_mergedWrites_statements (t : Tables) (merged : Merged) :
    ∃ statements, t.after merged.writes = { t with statements } := by
  cases hLoaded : merged.loaded with
  | none => exact ⟨_, by rw [Merged.writes, hLoaded]; rfl⟩
  | some loaded =>
      have hChanges (changes : StatementChanges) : ∃ statements, t.after
          (if changes.isEmpty then [] else [.updateStatement loaded.id changes]) =
            { t with statements } := by
        split
        · exact ⟨t.statements, rfl⟩
        · exact ⟨_, rfl⟩
      rw [Merged.writes, hLoaded]
      exact hChanges _

/-- Apart from its failure, no audit row is about a run. -/
theorem Transaction.audits {writes : List Write} (h : Transaction u writes) (t : Tables) :
    ∃ rows, (t.after writes).auditTrace = t.auditTrace ++ rows ∧
      ∀ row ∈ rows, row.entityType ≠ "run".toList := by
  cases h with
  | sourced row audit hAudit =>
      exact ⟨[audit], rfl, List.forall_mem_singleton.mpr (by rw [hAudit.entityType]; decide)⟩
  | stored rows status hStatus =>
      refine ⟨[], ?_, by simp⟩
      rw [Tables.after_append, Tables.after_insertPassages]
      rcases hStatus with rfl | ⟨id, value, rfl⟩ <;> exact (List.append_nil _).symm
  | drafted statements links =>
      refine ⟨[], ?_, by simp⟩
      rw [Tables.after_append, Tables.after_insertStatements, Tables.after_insertEvidenceLinks]
      exact (List.append_nil _).symm
  | judged audit link merged hAudit =>
      refine ⟨[audit], ?_, List.forall_mem_singleton.mpr (by rw [hAudit]; decide)⟩
      rw [Tables.after_append]
      obtain ⟨statements, hAfter⟩ := after_mergedWrites_statements
        (t.after [.insertAuditTrace audit, .insertEvidenceLink link]) merged
      rw [hAfter]
      rfl
  | found row rows =>
      refine ⟨[], ?_, by simp⟩
      rw [Tables.after_cons, Tables.after_insertFindingStatements]
      exact (List.append_nil _).symm
  | contradicted row audit hAudit =>
      exact ⟨[audit], rfl, List.forall_mem_singleton.mpr (by rw [hAudit.entityType]; decide)⟩
  | concluded rows hRows =>
      refine ⟨rows.map Cited.audit, by rw [after_conclusionWrites], fun audit hAudit => ?_⟩
      obtain ⟨row, hRow, rfl⟩ := List.mem_map.mp hAudit
      rw [(hRows row hRow).entityType]
      decide
  | _ => exact ⟨[], (List.append_nil _).symm, by simp⟩

/-- No transaction adds or removes a run. -/
theorem Transaction.runs {writes : List Write} (h : Transaction u writes) (t : Tables) :
    (t.after writes).runs.map Run.id = t.runs.map Run.id := by
  cases h with
  | stored rows status hStatus =>
      rw [Tables.after_append, Tables.after_insertPassages]
      rcases hStatus with rfl | ⟨id, value, rfl⟩ <;> rfl
  | drafted statements links =>
      rw [Tables.after_append, Tables.after_insertStatements, Tables.after_insertEvidenceLinks]
  | judged audit link merged hAudit =>
      rw [Tables.after_append]
      obtain ⟨statements, hAfter⟩ := after_mergedWrites_statements
        (t.after [.insertAuditTrace audit, .insertEvidenceLink link]) merged
      rw [hAfter]
      rfl
  | found row rows =>
      rw [Tables.after_cons, Tables.after_insertFindingStatements]
      rfl
  | concluded rows hRows => rw [after_conclusionWrites]
  | updated id changes hChanges => exact map_modifyRow fun _ => rfl
  | _ => rfl

end Transactions

/-- No stage is reported as started. -/
def Unstarted (happening : Happening Vocabulary) : Prop :=
  ∀ runId stage, happening ≠ .wrote (.stageStarted runId stage)

/-- What the pipeline may do in one step, but for the line which reports a stage as started, is in a
relation. -/
structure Allows (u : Unicode) (R : Moment Vocabulary → Prop) : Prop where
  still : ∀ (s : World) happening, Unstarted happening → R ⟨s, happening, s⟩
  book : ∀ m, Bookkeeping m → R m
  commit : ∀ writes, Transaction u writes → ∀ s t : World, t.tables = s.tables.after writes →
    t.blobs = s.blobs → R ⟨s, .moved, t⟩

/-- The tasks of a context keep to a relation, and their details have plain keys. -/
structure TasksKeep (R : Moment Vocabulary → Prop) (tasks : StageTasks) (ctx : PipelineContext) :
    Prop where
  keeps : ∀ stage, Keeps R (tasks stage ctx)
  details : ∀ stage, Returns PlainDetail (tasks stage ctx)

namespace Allows

variable {u : Unicode} {R : Moment Vocabulary → Prop}

theorem query (h : Allows u R) (question : Query) :
    Keeps R (Prog.query (S := Vocabulary) question : Action (Answer question)) :=
  keeps_query fun _ _ => h.still _ _ (by rintro _ _ ⟨⟩)

theorem emit (h : Allows u R) {event : Event} (hEvent : Unstarted (.wrote event)) :
    Keeps R (emit event) :=
  keeps_log fun _ => h.still _ _ hEvent

theorem modifyMemory (h : Allows u R) (f : Memory → Memory) : Keeps R (modifyMemory f) :=
  (book_modifyMemory f).mono h.book

theorem readMemory (h : Allows u R) {α : Type} (f : Memory → α) : Keeps R (readMemory f) :=
  (book_readMemory f).mono h.book

theorem selectTables (h : Allows u R) {α : Type} (f : Tables → α) : Keeps R (selectTables f) :=
  (book_selectTables f).mono h.book

theorem getRun (h : Allows u R) (runId : Uuid) : Keeps R (getRun runId) := h.selectTables _

theorem selectRows (h : Allows u R) {ρ : Type} (f : Tables → List ρ) : Keeps R (selectRows f) :=
  keeps_bind (h.selectTables f) fun _ => keeps_bind (h.query _) fun _ => keeps_done _

theorem commitWrites (h : Allows u R) {writes : List Write} (hWrites : Transaction u writes) :
    Keeps R (commitWrites writes) :=
  keeps_commitWrites (fun _ => h.still _ _ (by rintro _ _ ⟨⟩)) fun s t hTables hBlobs _ =>
    h.commit writes hWrites s t hTables hBlobs

theorem kvGet (h : Allows u R) (key : Text) : Keeps R (KVCache.get key) :=
  (book_kvGet key).mono h.book

theorem kvSet (h : Allows u R) (p : Platform) (key model promptHash : Text)
    (payload : List (Text × Json)) (ttlSeconds : Option Int) :
    Keeps R (KVCache.set p key model promptHash payload ttlSeconds) :=
  (book_kvSet p key model promptHash payload ttlSeconds).mono h.book

theorem completeModel (h : Allows u R) (gateway : LLMGateway) (hHooks : gateway.hooks = [])
    (responseModel : ResponseModel) (args : CompleteArgs) :
    Keeps R (completeModel gateway responseModel args) :=
  keeps_completeModel (fun _ _ _ _ _ => h.still _ _ (by rintro _ _ ⟨⟩)) (by simp [hHooks]) h.book
    responseModel args

theorem auditAppend (h : Allows u R) (p : Platform) (entry : AuditEntry) :
    Keeps R (auditAppend p entry) :=
  keeps_bind (keeps_ofExcept _) fun _ => keeps_bind (h.query _) fun _ =>
    keeps_bind (h.query _) fun _ => keeps_done _

/-! ## The stages -/

theorem runDefine (h : Allows u R) (ctx : PipelineContext) : Keeps R (runDefine ctx) := by
  refine keeps_bind (h.getRun _) fun found => ?_
  cases found with
  | none => exact keeps_raise _
  | some run =>
      refine keeps_bind ?_ fun _ => keeps_done _
      unfold plan
      simp only [raiseError_bind]
      refine keeps_ite (fun _ => keeps_raise _) fun _ => ?_
      refine keeps_bind (h.completeModel _ rfl _ _) fun _ => ?_
      refine keeps_bind (keeps_ofExcept _) fun _ => ?_
      exact keeps_bind (h.kvSet _ _ _ _ _ _) fun _ => keeps_done _

theorem runSearch (h : Allows u R) (ctx : PipelineContext) : Keeps R (runSearch ctx) := by
  refine keeps_bind (h.kvGet _) fun found => ?_
  cases found with
  | none => exact keeps_raise _
  | some plan =>
      refine keeps_bind (keeps_ofExcept _) fun _ => keeps_bind (keeps_foldlM ?_ _) fun _ =>
        keeps_done _
      intro urls query _
      exact keeps_bind (keeps_bind (h.query _) fun _ => keeps_ofExcept _) fun _ => keeps_done _

theorem recordSource (ctx : PipelineContext) (h : Allows ctx.services.platform.unicode R)
    (outcome : CollectOutcome) :
    Keeps R (recordSource ctx outcome) := by
  refine keeps_bind (h.query _) fun id => auditAppend_returns.keeps_bind (h.auditAppend _ _) ?_
  rintro audit ⟨auditId, ts, rfl⟩
  refine h.commitWrites (.sourced _ _ ⟨AuditEntry.row_entityType rfl (by decide), ?_⟩
    sourceEntry_plain.row_clean)
  exact congrArg some (redactSecrets_uuid _ id)

theorem awaitRateLimit (h : Allows u R) (settings : Settings) (connector : Text) :
    Keeps R (awaitRateLimit settings connector) := by
  refine keeps_bind (h.query _) fun _ => keeps_bind (h.readMemory _) fun last => ?_
  cases last with
  | none => exact keeps_done _
  | some last => exact keeps_ite (fun _ => h.query _) (fun _ => keeps_done _)

theorem fetchFile (h : Allows u R) (p : Platform) (uri connector : Text) :
    Keeps R (fetchFile p uri connector) := by
  refine keeps_bind (h.query _) fun answer => keeps_bind (keeps_ofExcept _) fun found => ?_
  cases found with
  | none => exact keeps_raise _
  | some content =>
      exact keeps_bind (h.query _) fun _ => keeps_bind (h.modifyMemory _) fun _ =>
        keeps_bind (h.query _) fun _ => keeps_done _

theorem fetchHttp (h : Allows u R) (p : Platform) (uri connector : Text) :
    Keeps R (fetchHttp p uri connector) := by
  refine keeps_bind (h.query _) fun answer => ?_
  cases (answer : Except Text HttpResponse) with
  | error message => exact keeps_raise _
  | ok response =>
      refine keeps_bind (h.query _) fun _ => keeps_bind (h.modifyMemory _) fun _ => ?_
      exact keeps_ite (fun _ => keeps_raise _)
        (fun _ => keeps_bind (h.query _) fun _ => keeps_done _)

theorem tryFetch (h : Allows u R) (ctx : PipelineContext) (uri : Text) : Keeps R (tryFetch ctx uri) := by
  have hFetch (settings : Settings) (connector : Text) :
      Keeps R (fetch ctx.services.platform settings uri connector) := by
    have hRest : Keeps R (do
        Ecrke.awaitRateLimit settings connector
        if Text.startsWith fileScheme uri then
          Ecrke.fetchFile ctx.services.platform uri connector
        else Ecrke.fetchHttp ctx.services.platform uri connector) :=
      keeps_bind (h.awaitRateLimit _ _) fun _ =>
        keeps_ite (fun _ => h.fetchFile _ _ _) (fun _ => h.fetchHttp _ _ _)
    exact keeps_ite (fun _ => hRest) (fun _ => keeps_bind (keeps_ofExcept _) fun _ => hRest)
  exact keeps_tryCatch (keeps_bind (hFetch _ _) fun _ => keeps_done _)
    fun _ => keeps_ite (fun _ => keeps_done _) (fun _ => keeps_raise _)

theorem runStore (h : Allows u R) (ctx : PipelineContext) : Keeps R (runStore ctx) := by
  have hGet (ref : Text) :
      Keeps R (BlobStore.get ctx.services.platform ctx.services.settings ref) := by
    refine keeps_bind (keeps_select (fun _ => h.still _ _ (by rintro _ _ ⟨⟩))
      fun _ => h.still _ _ (by rintro _ _ ⟨⟩)) fun found => ?_
    cases found with
    | none => exact keeps_raise _
    | some content => exact keeps_done _
  refine keeps_bind (h.selectRows _) fun _ => keeps_ite (fun _ => keeps_done _) fun _ => ?_
  refine keeps_bind (h.selectTables _) fun _ => ?_
  refine keeps_bind (keeps_foldlM (fun total source _ => ?_) _) fun _ => keeps_done _
  refine keeps_bind (keeps_bind (hGet _) fun content => ?_) fun _ => keeps_done _
  refine keeps_bind (keeps_ofExcept _) fun text => keeps_bind ?_ fun passages => ?_
  · refine keeps_bind (keeps_mapM fun entry _ => ?_) fun _ => keeps_done _
    exact keeps_ite (fun _ => keeps_done _) fun _ =>
      keeps_bind (h.query _) fun _ => keeps_done _
  · refine keeps_bind (h.selectTables _) fun current => ?_
    refine keeps_bind (h.commitWrites (.stored passages _ ?_)) fun _ => keeps_done _
    cases current with
    | none => exact .inl rfl
    | some current =>
        dsimp only
        split
        · exact .inl rfl
        · exact .inr ⟨_, _, rfl⟩

theorem extract (h : Allows u R) (gateway : LLMGateway) (hHooks : gateway.hooks = [])
    (passage : Passage) (runId : Uuid) : Keeps R (extract gateway passage runId) := by
  refine keeps_bind (h.emit (by rintro _ _ ⟨⟩)) fun _ => ?_
  simp only [raiseError_bind]
  refine keeps_ite (fun _ => keeps_raise _) fun _ => ?_
  refine keeps_bind (h.completeModel _ hHooks _ _) fun _ => ?_
  refine keeps_ite (fun _ => keeps_done _) fun _ => ?_
  refine keeps_bind (keeps_mapM fun _ _ => keeps_bind (h.query _) fun _ => keeps_done _)
    fun statements => ?_
  refine keeps_bind (keeps_mapM fun _ _ => keeps_bind (h.query _) fun _ =>
    keeps_bind (h.query _) fun _ => keeps_done _) fun links => ?_
  exact keeps_bind (h.commitWrites (.drafted statements links)) fun _ => keeps_done _

theorem runExtract (h : Allows u R) (ctx : PipelineContext) : Keeps R (runExtract ctx) := by
  refine keeps_bind (h.selectTables _) fun _ => keeps_ite (fun _ => keeps_done _) fun _ => ?_
  refine keeps_bind (h.selectRows _) fun _ => keeps_bind (h.selectTables _) fun existing => ?_
  refine keeps_bind (keeps_foldlM (fun count entry _ => ?_) _) fun _ => keeps_done _
  have hRest : Keeps R
      (if (entry.1.id, entry.1.text) ∈ existing then pure count
        else do
          let statements ← Ecrke.extract ctx.services.gateway entry.1 ctx.runId
          pure (count + statements.length) : Action Nat) :=
    keeps_ite (fun _ => keeps_done _) fun _ =>
      keeps_bind (h.extract _ rfl _ _) fun _ => keeps_done _
  exact keeps_ite (fun _ => keeps_bind (h.query _) fun _ => hRest) fun _ => hRest

theorem judge (h : Allows u R) (gateway : LLMGateway) (hHooks : gateway.hooks = []) (runId : Uuid)
    (statementText passageText : Text) (score : EvidenceScore) (ratio : ℚ) :
    Keeps R (judge gateway runId statementText passageText score ratio) := by
  cases score with
  | none => exact keeps_done _
  | full => exact keeps_bind (h.completeModel _ hHooks _ _) fun _ => keeps_done _
  | partial_ => exact keeps_bind (h.completeModel _ hHooks _ _) fun _ => keeps_done _

theorem verify (gateway : LLMGateway) (h : Allows gateway.platform.unicode R)
    (hHooks : gateway.hooks = []) (statement : Statement) (passage : Passage) (runId : Uuid)
    (force : Bool) :
    Keeps R (verify gateway statement passage runId force) := by
  refine keeps_bind (keeps_bind (h.selectTables _) fun _ => keeps_done _) fun _ => ?_
  refine keeps_ite (fun _ => keeps_done _) fun _ => ?_
  refine keeps_bind (keeps_ofExcept _) fun _ => ?_
  refine keeps_bind (h.judge _ hHooks _ _ _ _ _) fun _ => ?_
  refine keeps_bind (h.query _) fun _ => keeps_bind (h.query _) fun _ => ?_
  refine auditAppend_returns.keeps_bind (h.auditAppend _ _) ?_
  rintro audit ⟨auditId, ts, rfl⟩
  refine keeps_bind (h.commitWrites (.judged _ _ _ ?_ verifyEntry_plain.row_clean)) fun _ =>
    keeps_done _
  exact AuditEntry.row_entityType rfl (by decide)

theorem runVerify (ctx : PipelineContext) (h : Allows ctx.services.platform.unicode R) :
     Keeps R (runVerify ctx) := by
  have hVerify (passages : List Passage) (count : Nat) (entry : Statement × Nat) :
      Keeps R (verifyStatement ctx passages count entry) := by
    have hRest : Keeps R (verifyAgainst ctx passages count entry.1) := by
      unfold verifyAgainst
      split
      · exact keeps_done _
      · exact keeps_bind (h.verify _ rfl _ _ _ _) fun _ => keeps_done _
    exact keeps_ite (fun _ => keeps_bind (h.query _) fun _ => hRest) fun _ => hRest
  have hRest (passages : List Passage) : Keeps R (verifyDrafts ctx passages) :=
    keeps_bind (h.selectRows _) fun _ =>
      keeps_bind (keeps_foldlM (fun count entry _ => hVerify _ count entry) _) fun _ => keeps_done _
  refine keeps_bind (h.selectTables _) fun _ => keeps_ite (fun _ => hRest _) fun _ => ?_
  exact keeps_bind (h.selectTables _) fun _ => hRest _

theorem runFind (h : Allows u R) (ctx : PipelineContext) : Keeps R (runFind ctx) := by
  have hRest (sources : List Source) (passages : List Passage) :
      Keeps R (findAmong ctx sources passages) := by
    refine keeps_bind (h.selectRows _) fun _ => keeps_bind (h.selectTables _) fun links => ?_
    refine keeps_bind (keeps_ofExcept _) fun _ => keeps_bind (keeps_forM fun group _ => ?_)
      fun _ => keeps_done _
    refine keeps_bind (h.query _) fun id => h.commitWrites ?_
    simpa [Function.comp_def] using
      Transaction.found _ (group.2.map fun s => (⟨id, s.id⟩ : FindingStatement))
  refine keeps_bind (h.selectTables _) fun _ => keeps_ite (fun _ => hRest _ _) fun _ => ?_
  exact keeps_bind (h.selectTables _) fun _ => hRest _ _

theorem judgePair (gateway : LLMGateway) (h : Allows gateway.platform.unicode R)
    (hHooks : gateway.hooks = []) (runId : Uuid) (a b : Statement) :
    Keeps R (judgePair gateway runId a b) := by
  have hExists : Keeps R (confirmedExists a b) :=
    keeps_bind (h.selectTables _) fun _ =>
      keeps_ite (fun _ => keeps_done _) (fun _ => h.selectTables _)
  have hConfirm (aText bText : Text) : Keeps R (confirm gateway runId aText bText) :=
    keeps_ite (fun _ => keeps_done _) fun _ =>
      keeps_bind (h.completeModel _ hHooks _ _) fun _ => keeps_done _
  refine keeps_bind hExists fun _ => keeps_ite (fun _ => keeps_done _) fun _ => ?_
  refine keeps_bind (h.completeModel _ hHooks _ _) fun _ => ?_
  refine keeps_ite (fun _ => keeps_done _) fun _ => keeps_bind (hConfirm _ _) fun _ => ?_
  refine keeps_ite (fun _ => keeps_done _) fun _ => keeps_bind (h.query _) fun id => ?_
  refine keeps_bind (h.query _) fun _ => keeps_bind (h.query _) fun _ => ?_
  refine auditAppend_returns.keeps_bind (h.auditAppend _ _) ?_
  rintro audit ⟨auditId, ts, rfl⟩
  refine keeps_bind (h.commitWrites (.contradicted _ _ ⟨?_, ?_⟩
    contradictionEntry_plain.row_clean)) fun _ => keeps_done _
  · exact AuditEntry.row_entityType rfl (by decide)
  · exact congrArg some (redactSecrets_uuid _ _)

theorem detect (gateway : LLMGateway) (h : Allows gateway.platform.unicode R)
    (hHooks : gateway.hooks = []) (statements : List Statement) (runId : Uuid) :
    Keeps R (detect gateway statements runId) := by
  refine keeps_bind (keeps_mapM fun entry _ => ?_) fun _ => keeps_done _
  have hPair := h.judgePair gateway hHooks runId entry.1.1 entry.1.2
  exact keeps_ite (fun _ => keeps_bind (h.query _) fun _ => hPair) fun _ => hPair

theorem runDetect (ctx : PipelineContext) (h : Allows ctx.services.platform.unicode R) :
    Keeps R (runDetect ctx) :=
  keeps_bind (h.selectRows _) fun _ => keeps_bind (h.detect _ rfl _ _) fun _ => keeps_done _

theorem conclude (h : Allows u R) (p : Platform) (synthesis : Synthesis) (draft : ConclusionDraft) :
    Keeps R (conclude p synthesis draft) :=
  keeps_ite (fun _ => keeps_done _) fun _ => keeps_bind (h.query _) fun _ =>
    keeps_bind (h.query _) fun _ => keeps_bind (h.auditAppend _ _) fun _ => keeps_done _

/-- The audit row of a conclusion is about it, and clean. -/
theorem conclude_returns (p : Platform) (synthesis : Synthesis) (draft : ConclusionDraft) :
    Returns (fun result => ∀ row, result = some row →
        IsAudit "conclusion".toList row.conclusion.id row.audit ∧ row.audit.Clean p.unicode)
      (Ecrke.conclude p synthesis draft) := by
  refine .ite (fun _ => returns_done (by rintro row ⟨⟩)) fun _ => ?_
  refine returns_bind fun id => returns_bind fun createdAt => ?_
  refine auditAppend_returns.bind ?_
  rintro audit ⟨auditId, ts, rfl⟩
  refine returns_done ?_
  rintro row ⟨⟩
  exact ⟨⟨AuditEntry.row_entityType rfl (by decide), congrArg some (redactSecrets_uuid _ id)⟩,
    conclusionEntry_plain.row_clean⟩

theorem generate (gateway : LLMGateway) (h : Allows gateway.platform.unicode R)
    (hHooks : gateway.hooks = []) (runId : Uuid) (topic : Text) (statements : List Statement) (contradictions : List Contradiction) :
    Keeps R (generate gateway runId topic statements contradictions) := by
  unfold Ecrke.generate
  simp only [raiseError_bind]
  refine keeps_ite (fun _ => keeps_raise _) fun _ => ?_
  refine keeps_bind (h.completeModel _ hHooks _ _) fun _ => ?_
  refine keeps_bind (h.selectRows _) fun _ => keeps_bind ?_ fun _ => ?_
  · refine keeps_bind (h.selectRows _) fun _ => ?_
    refine keeps_ite (fun _ => keeps_ofExcept _) fun _ => ?_
    exact keeps_bind (h.selectRows _) fun _ => keeps_ofExcept _
  · refine (Returns.mapM fun _ _ => conclude_returns _ _ _).keeps_bind
      (keeps_mapM fun _ _ => h.conclude _ _ _) fun results hResults => ?_
    have hRows : ∀ row ∈ results.filterMap id,
        IsAudit "conclusion".toList row.conclusion.id row.audit ∧
          row.audit.Clean gateway.platform.unicode := by
      intro row hRow
      obtain ⟨result, hResult, hSome⟩ := List.mem_filterMap.mp hRow
      exact hResults result hResult row hSome
    exact keeps_bind (h.commitWrites (.concluded _ (fun row hRow => (hRows row hRow).1)
      fun row hRow => (hRows row hRow).2)) fun _ => keeps_bind (h.query _) fun _ => keeps_done _

theorem finalizeRun (h : Allows u R) (runId : Uuid) : Keeps R (finalizeRun runId) := by
  refine keeps_bind (h.getRun _) fun found => ?_
  cases found with
  | none => exact keeps_done _
  | some run => exact keeps_bind (h.query _) fun _ => h.commitWrites (.updates (by simp))

theorem runTrace (h : Allows u R) (ctx : PipelineContext) : Keeps R (runTrace ctx) := by
  refine keeps_bind (h.getRun _) fun found => ?_
  cases found with
  | none => exact keeps_raise _
  | some run =>
      refine keeps_bind (h.selectRows _) fun _ => keeps_bind (h.selectTables _) fun _ => ?_
      refine keeps_bind (h.kvSet _ _ _ _ _ _) fun _ => ?_
      exact keeps_bind (h.finalizeRun _) fun _ => keeps_done _

/-! ## The stages which store a blob -/

section Puts

variable (hPut : ∀ s t : World, t.db = s.db → R ⟨s, .moved, t⟩)

include hPut

theorem put (h : Allows u R) (ref : Text) (content : Bytes) : Keeps R (BlobStore.put ref content) := by
  refine keeps_bind (keeps_select (fun _ => h.still _ _ (by rintro _ _ ⟨⟩))
    fun _ => h.still _ _ (by rintro _ _ ⟨⟩)) fun found => ?_
  refine keeps_ite (fun _ => keeps_done _) fun _ =>
    keeps_commit ?_ fun _ => h.still _ _ (by rintro _ _ ⟨⟩)
  rintro s value t ⟨⟩
  exact hPut _ _ rfl

theorem runCollect (ctx : PipelineContext) (h : Allows ctx.services.platform.unicode R) :
    Keeps R (runCollect ctx) := by
  have hContent (uri : Text) (content : FetchedContent) (state : Collected) :
      Keeps R (recordContent ctx uri content state) := by
    refine keeps_ite (fun _ => keeps_bind (h.recordSource _ _) fun _ => keeps_done _) fun _ => ?_
    refine keeps_bind (keeps_bind (h.query _) fun sourceId => ?_) fun _ =>
      keeps_bind (h.recordSource _ _) fun _ => keeps_done _
    cases state.seenHashes.find? fun entry =>
        entry.1 = contentHash ctx.services.platform content.content with
    | some entry => exact keeps_done _
    | none => exact keeps_bind (h.put hPut _ _) fun _ => keeps_done _
  have hUri (uri : Text) (state : Collected) : Keeps R (collectUri ctx uri state) := by
    refine keeps_bind (keeps_ofExcept _) fun reason => ?_
    cases reason with
    | some reason => exact keeps_bind (h.recordSource _ _) fun _ => keeps_done _
    | none =>
        refine keeps_bind (h.tryFetch _ _) fun fetched => ?_
        cases fetched with
        | error reason => exact keeps_bind (h.recordSource _ _) fun _ => keeps_done _
        | ok content => exact hContent uri content state
  refine keeps_bind (h.selectTables _) fun _ => keeps_bind (keeps_ofExcept _) fun urls => ?_
  refine keeps_bind (h.selectTables _) fun existing =>
    keeps_bind (keeps_foldlM (fun state url _ => ?_) _) fun _ => keeps_done _
  cases url with
  | str uri => exact keeps_ite (fun _ => keeps_done _) fun _ => hUri uri state
  | _ => exact keeps_raise _

theorem runConclude (ctx : PipelineContext) (h : Allows ctx.services.platform.unicode R) :
    Keeps R (runConclude ctx) := by
  refine keeps_bind (h.getRun _) fun found => ?_
  cases found with
  | none => exact keeps_raise _
  | some run =>
      refine keeps_bind (h.selectRows _) fun _ => keeps_bind (h.selectRows _) fun _ => ?_
      refine keeps_bind (h.generate _ rfl _ _ _ _) fun _ => ?_
      exact keeps_bind (h.put hPut _ _) fun _ => keeps_done _

theorem stageTasks (stage : Stage) (ctx : PipelineContext)
    (h : Allows ctx.services.platform.unicode R) : Keeps R (stageTasks stage ctx) := by
  cases stage with
  | define => exact h.runDefine ctx
  | search => exact h.runSearch ctx
  | collect => exact h.runCollect hPut ctx
  | store => exact h.runStore ctx
  | extract => exact h.runExtract ctx
  | verify => exact h.runVerify ctx
  | find => exact h.runFind ctx
  | detect => exact h.runDetect ctx
  | conclude => exact h.runConclude hPut ctx
  | trace => exact h.runTrace ctx

/-- The tasks of the pipeline. -/
theorem tasksKeep (ctx : PipelineContext) (h : Allows ctx.services.platform.unicode R) :
    TasksKeep R Ecrke.stageTasks ctx :=
  ⟨fun stage => h.stageTasks hPut stage ctx, fun stage => stageTasks_details stage ctx⟩

end Puts

/-! ## The flow -/

theorem markStageStart (h : Allows u R) (runId : Uuid) (stage : Stage) :
    Keeps R (markStageStart runId stage) := by
  refine keeps_bind (h.getRun _) fun found => ?_
  cases found with
  | none => exact keeps_raise _
  | some run =>
      refine h.commitWrites (.updates ?_)
      cases stage <;> simp [Stage.status]

theorem save (p : Platform) (h : Allows p.unicode R) (runId : Uuid) (stage : Text)
    {state : Option Json} (hPlain : ∀ value, state = some value → value.PlainKeys) :
    Keeps R (CheckpointStore.save p runId stage state) := by
  have hClean : ∀ value, state.map (redactJson p.unicode) = some value →
      value.Clean p.unicode := by
    intro value hValue
    obtain ⟨before, hBefore, rfl⟩ := Option.map_eq_some_iff.mp hValue
    exact redactJson_clean (hPlain before hBefore)
  refine keeps_bind (h.selectTables _) fun found => ?_
  cases found with
  | none => exact keeps_bind (h.query _) fun _ => h.commitWrites (.saved _ hClean)
  | some row => exact h.commitWrites (.resaved _ _ hClean)

theorem markCheckpoint (h : Allows u R) (runId : Uuid) : Keeps R (markCheckpoint runId) := by
  refine keeps_bind (h.selectTables _) fun _ => keeps_bind (h.getRun _) fun found => ?_
  cases found with
  | none => exact keeps_done _
  | some run =>
      refine h.commitWrites ?_
      split
      · exact .nothing
      · exact .updated _ _ (by simp [RunChanges.nothing])

theorem checkBreaker (h : Allows u R) (breaker : CircuitBreaker) (ctx : PipelineContext)
    (budget : Usd) (stage : Stage) : Keeps R (checkBreaker breaker ctx budget stage) :=
  keeps_ite (fun _ => keeps_done _) fun _ =>
    keeps_bind (h.getRun _) fun _ => keeps_ofExcept _

theorem recordRunCost (h : Allows u R) (runId : Uuid) : Keeps R (recordRunCost runId) := by
  refine keeps_tryCatch (keeps_bind (h.getRun _) fun found => ?_) fun _ => keeps_done _
  cases found with
  | none => exact keeps_done _
  | some run => exact h.modifyMemory _

theorem onBreach (h : Allows u R) (ctx : PipelineContext) (error : PyError) :
    Keeps R (onBreach ctx error) := by
  refine keeps_bind (keeps_bind (h.getRun _) fun found => ?_) fun _ =>
    keeps_bind (h.recordRunCost _) fun _ => keeps_bind (h.emit (by rintro _ _ ⟨⟩)) fun _ =>
      keeps_bind (h.modifyMemory _) fun _ => keeps_done _
  cases found with
  | none => exact keeps_done _
  | some run => exact h.commitWrites (.updates (by simp))

theorem readStart (h : Allows u R) (ctx : PipelineContext) : Keeps R (readStart ctx) := by
  refine keeps_bind (h.selectTables _) fun _ => keeps_bind (h.getRun _) fun found => ?_
  cases found with
  | none => exact keeps_raise _
  | some run => exact keeps_done _

/-- A stage reports its start, and no other after it. -/
theorem runStage_started {tasks : StageTasks} (ctx : PipelineContext)
    (h : Allows ctx.services.platform.unicode R) (hTasks : TasksKeep R tasks ctx)
    (breaker : CircuitBreaker) (budget : Usd) (stage : Stage) :
    ∃ rest, runStage tasks breaker ctx budget stage =
      (Ecrke.markStageStart ctx.runId stage).bind (fun _ =>
        (Ecrke.emit (.stageStarted ctx.runId
          (redactSecrets ctx.services.platform.unicode stage.name))).bind fun _ => rest) ∧
      Keeps R rest := by
  refine ⟨_, rfl, ?_⟩
  simp only [raiseError_bind]
  refine keeps_bind (h.query _) fun _ => (hTasks.details stage).keeps_bind (hTasks.keeps stage) ?_
  intro result hDetail
  refine keeps_ite (fun _ => keeps_raise _) fun _ => keeps_bind (h.save _ _ _ hDetail) fun _ => ?_
  refine keeps_bind (h.markCheckpoint _) fun _ => keeps_bind (h.query _) fun _ => ?_
  exact keeps_bind (h.modifyMemory _) fun _ => keeps_bind (h.emit (by rintro _ _ ⟨⟩)) fun _ =>
    h.checkBreaker _ _ _ _

theorem onCompletion (h : Allows u R) (ctx : PipelineContext) : Keeps R (onCompletion ctx) :=
  keeps_bind (h.recordRunCost _) fun _ => keeps_bind (h.emit (by rintro _ _ ⟨⟩)) fun _ =>
    keeps_bind (h.modifyMemory _) fun _ => keeps_done _

section Started

variable (hStarted : ∀ (s : World) runId stage, R ⟨s, .wrote (.stageStarted runId stage), s⟩)

include hStarted

theorem runStage {tasks : StageTasks} (ctx : PipelineContext)
    (h : Allows ctx.services.platform.unicode R) (hTasks : TasksKeep R tasks ctx)
    (breaker : CircuitBreaker) (budget : Usd) (stage : Stage) :
    Keeps R (runStage tasks breaker ctx budget stage) := by
  obtain ⟨rest, hStage, hRest⟩ := h.runStage_started ctx hTasks breaker budget stage
  rw [hStage]
  exact keeps_bind (h.markStageStart _ _) fun _ =>
    keeps_bind (keeps_log fun s => hStarted s _ _) fun _ => hRest

theorem forM_executeStage {tasks : StageTasks} (ctx : PipelineContext)
    (h : Allows ctx.services.platform.unicode R) (hTasks : TasksKeep R tasks ctx)
    (breaker : CircuitBreaker) (start : FlowStart) (items : List Stage) :
    Keeps R (items.forM (executeStage tasks breaker ctx start)) :=
  keeps_forM fun _ _ => keeps_ite (fun _ => keeps_done _) fun _ =>
    h.runStage hStarted ctx hTasks _ _ _

end Started

section Failure

variable (hFail : ∀ (run : Run) audit, IsRunFailed run.id audit → audit.evidence = none →
  ∀ s t : World,
  t.tables = s.tables.after (failureWrites run audit) → t.blobs = s.blobs → R ⟨s, .moved, t⟩)

include hFail

theorem failRun (h : Allows u R) (tables : Unicode) (runId : Uuid) (error : PyError) :
    Keeps R (failRun tables runId error) := by
  refine keeps_bind (h.getRun _) fun found => ?_
  cases found with
  | none => exact keeps_done _
  | some run =>
      refine keeps_bind (h.query _) fun id => keeps_bind (h.query _) fun ts => ?_
      exact keeps_commitWrites (fun _ => h.still _ _ (by rintro _ _ ⟨⟩)) fun s t hTables hBlobs _ =>
        hFail run _ ⟨rfl, ⟨rfl, rfl⟩, rfl⟩ rfl s t hTables hBlobs

theorem onFailure (h : Allows u R) (ctx : PipelineContext) (error : PyError) :
    Keeps R (onFailure ctx error) :=
  keeps_bind (h.failRun hFail _ _ _) fun _ => keeps_bind (h.recordRunCost _) fun _ =>
    keeps_bind (h.emit (by rintro _ _ ⟨⟩)) fun _ => keeps_bind (h.modifyMemory _) fun _ =>
      keeps_raise _

variable (hStarted : ∀ (s : World) runId stage, R ⟨s, .wrote (.stageStarted runId stage), s⟩)

include hStarted

theorem executeStagesWith {tasks : StageTasks} (ctx : PipelineContext)
    (h : Allows ctx.services.platform.unicode R) (hTasks : TasksKeep R tasks ctx)
    (breaker : CircuitBreaker) :
    Keeps R (executeStagesWith tasks breaker ctx) := by
  refine keeps_bind (h.readStart ctx) fun start => keeps_bind ?_ fun outcome => ?_
  · refine keeps_tryCatch
      (keeps_bind (h.forM_executeStage hStarted ctx hTasks _ _ _) fun _ => keeps_done _) ?_
    exact fun error => keeps_ite
      (fun _ => keeps_bind (h.onBreach _ _) fun _ => keeps_done _)
      fun _ => keeps_bind (h.onFailure hFail _ _) fun _ => keeps_done _
  · cases outcome with
    | some outcome => exact keeps_done _
    | none => exact h.onCompletion ctx

/-- The footprint of the flow. -/
theorem executeStages (ctx : PipelineContext) (h : Allows ctx.services.platform.unicode R)
    (hPut : ∀ s t : World, t.db = s.db → R ⟨s, .moved, t⟩) : Keeps R (executeStages ctx) :=
  h.executeStagesWith hFail hStarted ctx (h.tasksKeep hPut ctx) _

end Failure

end Allows

end Ecrke
