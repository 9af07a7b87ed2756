import Ecrke.Pipeline.StageSteps

/-!
# The stage tasks keep to their steps

For each stage, whatever the providers answer and wherever the task is cut off: every step of the
task is one of `TaskStep`, and a task which returns reports success.

* `runDefine_spec` ... `runTrace_spec` -- the ten tasks.
* `stageTasks_spec` -- all of them at once.
-/

namespace Ecrke

open Durable

variable {s : World}

/-- What a task which returns has reached. -/
def TaskEnd (runId : Uuid) (stage : Stage) (result : StageResult) (w : World) : Prop :=
  result.ok = true ∧
    (stage = .trace → ∀ run ∈ w.tables.runs, run.id = runId → run.status = .completed)

theorem TaskEnd.success {runId : Uuid} {stage : Stage} (hStage : stage ≠ .trace)
    (detail : List (Text × Json)) (w : World) :
    TaskEnd runId stage (.success stage detail) w :=
  ⟨rfl, fun h => absurd h hStage⟩

section Common

variable {runId : Uuid} {stage : Stage}

/-- A transaction of a task. -/
theorem Alone.commitTask {writes : List Write} {Q : Except PyError Unit → World → Prop}
    (hStep : TaskStep runId s.tables stage (s.tables.after writes))
    (hOk : ∀ t : World, t.tables = s.tables.after writes → ∀ r, Q r t)
    (hError : ∀ error, IsDbError error → Q (.error error) s) :
    Alone (TaskMoment runId stage) Q (Ecrke.commitWrites writes) s := by
  refine Alone.commitWrites TaskMoment.of_quiet (fun t ht => ?_) hError
  exact ⟨.moved (ht ▸ hStep), hOk t ht _, fun error _ => hOk t ht _⟩

/-- A quiet program inside a task, with the database as it was. -/
theorem Alone.quietTask {α : Type} {p : Action α} (h : Keeps Quiet p) :
    Alone (TaskMoment runId stage) (onOk fun _ t => t.db = s.db) p s :=
  Alone.quietDb TaskMoment.of_quiet h

/-- A metered call inside a task. -/
theorem Alone.meteredOk {α : Type} {p : Action α} (h : Alone (MeterMoment runId) anyEnd p s) :
    Alone (TaskMoment runId stage) (onOk fun _ t => MeterFrame s.tables t.tables) p s := by
  refine (Alone.metered h).post fun r t ht => ?_
  cases r with
  | error error => trivial
  | ok value => exact ht

theorem Alone.toOk {E : Moment Vocabulary → Prop} {α : Type} {p : Action α}
    (h : Alone E anyEnd p s) : Alone E (onOk fun _ _ => True) p s :=
  h.post fun r _ _ => by cases r <;> trivial

theorem quiet_auditAppend (p : Platform) (entry : AuditEntry) :
    Keeps Quiet (auditAppend p entry) :=
  keeps_bind (quiet_ofExcept _) fun _ => keeps_bind quiet_uuid4 fun _ =>
    keeps_bind quiet_dbNow fun _ => keeps_done _

/-- The row of an audit entry. -/
theorem auditAppend_spec (p : Platform) (entry : AuditEntry) :
    Alone (TaskMoment runId stage)
      (onOk fun audit t => t.db = s.db ∧ ∃ id ts, audit = entry.row p.unicode id ts)
      (auditAppend p entry) s := by
  refine Alone.bind_ok _ (Alone.quietTask (quiet_ofExcept _)) fun _ t ht => ?_
  refine Alone.bind_ok _ (Alone.quietTask quiet_uuid4) fun id u hu => ?_
  refine Alone.bind_ok _ (Alone.quietTask quiet_dbNow) fun ts v hv => ?_
  exact Alone.done ⟨hv.trans (hu.trans ht), id, ts, rfl⟩

end Common

/-! ## Define and search -/

theorem plan_spec {runId : Uuid} (gateway : LLMGateway) (hHooks : gateway.hooks = [])
    (topic : Text) : Alone (MeterMoment runId) anyEnd (plan gateway topic runId) s := by
  unfold plan
  simp only [raiseError_bind]
  refine Alone.ite (fun _ => Alone.raise trivial) (fun _ => ?_)
  refine Alone.seq (completeModel_spec gateway hHooks _ _ rfl) fun result t => ?_
  refine Alone.seq (Alone.ofExcept trivial) fun redacted u => ?_
  exact Alone.seq (kvSet_spec _ _ _ _ _ _) fun _ _ => Alone.done trivial

theorem runDefine_spec (ctx : PipelineContext) :
    Alone (TaskMoment ctx.runId .define) (onOk (TaskEnd ctx.runId .define)) (runDefine ctx) s := by
  refine Alone.bind_ok _ (Alone.quietTask (quiet_getRun _)) fun found t _ => ?_
  cases found with
  | none => exact Alone.raise trivial
  | some run =>
      refine Alone.bind_ok _ (Alone.meteredOk (plan_spec _ rfl _)) fun plan u _ => ?_
      exact Alone.done (.success (by decide) _ _)

theorem quiet_search (settings : Settings) (query : Json) (limit : Nat) :
    Keeps Quiet (search settings query limit) :=
  keeps_bind (quiet_query _) fun _ => quiet_ofExcept _

theorem runSearch_spec (ctx : PipelineContext) :
    Alone (TaskMoment ctx.runId .search) (onOk (TaskEnd ctx.runId .search)) (runSearch ctx) s := by
  refine Alone.bind_ok _ (Alone.meteredOk (kvGet_spec _)) fun found t _ => ?_
  cases found with
  | none => exact Alone.raise trivial
  | some plan =>
      refine Alone.bind_ok _ (Alone.quietTask (quiet_ofExcept _)) fun queries u _ => ?_
      refine Alone.bind_ok _ (Alone.quietTask (keeps_foldlM ?_ _)) fun urls v _ =>
        Alone.done (.success (by decide) _ _)
      exact fun _ _ _ => keeps_bind (quiet_search _ _ _) fun _ => keeps_done _

/-! ## Collect -/

theorem recordSource_spec (ctx : PipelineContext) (outcome : CollectOutcome) :
    Alone (TaskMoment ctx.runId .collect) anyEnd (recordSource ctx outcome) s := by
  refine Alone.seq (Alone.quietly TaskMoment.of_quiet quiet_uuid4) fun id t => ?_
  refine Alone.bind _ (auditAppend_spec _ _) (fun audit u hu => ?_) (fun _ _ _ => trivial)
  obtain ⟨-, auditId, ts, rfl⟩ := hu
  refine Alone.commitTask ?_ (fun _ _ _ => trivial) (fun _ _ => trivial)
  exact .collected _ _ rfl (AuditEntry.row_entityType rfl (by decide))

theorem quiet_put (ref : Text) (content : Bytes) : Keeps Quiet (BlobStore.put ref content) := by
  refine keeps_bind (keeps_select (fun _ => ⟨rfl, by simp⟩) fun _ => ⟨rfl, by simp⟩) fun found => ?_
  refine keeps_ite (fun _ => keeps_done _) (fun _ => keeps_commit ?_ fun _ => ⟨rfl, by simp⟩)
  rintro w value t hRun
  cases hRun
  exact ⟨rfl, by simp⟩

theorem quiet_awaitRateLimit (settings : Settings) (connector : Text) :
    Keeps Quiet (awaitRateLimit settings connector) := by
  refine keeps_bind quiet_now fun _ => keeps_bind (quiet_readMemory _) fun last => ?_
  cases last with
  | none => exact keeps_done _
  | some last => exact keeps_ite (fun _ => quiet_sleep _) (fun _ => keeps_done _)

theorem quiet_fetchFile (p : Platform) (uri connector : Text) :
    Keeps Quiet (fetchFile p uri connector) := by
  refine keeps_bind (quiet_query _) fun answer => keeps_bind (quiet_ofExcept _) fun found => ?_
  cases found with
  | none => exact quiet_raiseError _ _
  | some content =>
      exact keeps_bind quiet_now fun _ => keeps_bind (quiet_modifyMemory _) fun _ =>
        keeps_bind quiet_now fun _ => keeps_done _

theorem quiet_fetchHttp (p : Platform) (uri connector : Text) :
    Keeps Quiet (fetchHttp p uri connector) := by
  refine keeps_bind (quiet_query _) fun answer => ?_
  cases (answer : Except Text HttpResponse) with
  | error message => exact quiet_raiseError _ _
  | ok response =>
      refine keeps_bind quiet_now fun _ => keeps_bind (quiet_modifyMemory _) fun _ => ?_
      exact keeps_ite (fun _ => quiet_raiseError _ _)
        (fun _ => keeps_bind quiet_now fun _ => keeps_done _)

theorem quiet_fetch (p : Platform) (settings : Settings) (uri connector : Text) :
    Keeps Quiet (fetch p settings uri connector) := by
  have hRest : Keeps Quiet (do
      awaitRateLimit settings connector
      if Text.startsWith fileScheme uri then fetchFile p uri connector
      else fetchHttp p uri connector) :=
    keeps_bind (quiet_awaitRateLimit _ _) fun _ =>
      keeps_ite (fun _ => quiet_fetchFile _ _ _) (fun _ => quiet_fetchHttp _ _ _)
  exact keeps_ite (fun _ => hRest) (fun _ => keeps_bind (quiet_ofExcept _) fun _ => hRest)

theorem quiet_tryFetch (ctx : PipelineContext) (uri : Text) : Keeps Quiet (tryFetch ctx uri) :=
  keeps_tryCatch (keeps_bind (quiet_fetch _ _ _ _) fun _ => keeps_done _)
    fun _ => keeps_ite (fun _ => keeps_done _) (fun _ => keeps_raise _)

theorem quiet_storeContent (ctx : PipelineContext) (hash : Text) (content : Bytes)
    (state : Collected) : Keeps Quiet (storeContent ctx hash content state) := by
  refine keeps_bind quiet_uuid4 fun _ => ?_
  split
  · exact keeps_done _
  · exact keeps_bind (quiet_put _ _) fun _ => keeps_done _

theorem recordContent_spec (ctx : PipelineContext) (uri : Text) (content : FetchedContent)
    (state : Collected) :
    Alone (TaskMoment ctx.runId .collect) anyEnd (recordContent ctx uri content state) s := by
  refine Alone.ite (fun _ => ?_) (fun _ => ?_)
  · exact Alone.seq (recordSource_spec _ _) fun _ _ => Alone.done trivial
  · refine Alone.seq (Alone.quietly TaskMoment.of_quiet (quiet_storeContent _ _ _ _))
      fun stored t => ?_
    exact Alone.seq (recordSource_spec _ _) fun _ _ => Alone.done trivial

theorem collectUri_spec (ctx : PipelineContext) (uri : Text) (state : Collected) :
    Alone (TaskMoment ctx.runId .collect) anyEnd (collectUri ctx uri state) s := by
  refine Alone.seq (Alone.ofExcept trivial) fun refused t => ?_
  cases refused with
  | some reason => exact Alone.seq (recordSource_spec _ _) fun _ _ => Alone.done trivial
  | none =>
      refine Alone.seq (Alone.quietly TaskMoment.of_quiet (quiet_tryFetch _ _)) fun answer u => ?_
      cases answer with
      | error reason => exact Alone.seq (recordSource_spec _ _) fun _ _ => Alone.done trivial
      | ok content => exact recordContent_spec _ _ _ _

theorem runCollect_spec (ctx : PipelineContext) :
    Alone (TaskMoment ctx.runId .collect) (onOk (TaskEnd ctx.runId .collect)) (runCollect ctx)
      s := by
  refine Alone.bind_ok _ (Alone.quietTask (quiet_selectTables _)) fun state t _ => ?_
  refine Alone.bind_ok _ (Alone.quietTask (quiet_ofExcept _)) fun urls u _ => ?_
  refine Alone.bind_ok _ (Alone.quietTask (quiet_selectTables _)) fun existing v _ => ?_
  refine Alone.bind_ok _ (Alone.foldlM_ok (fun _ _ => True) ?_ urls trivial) fun total w _ =>
    Alone.done (.success (by decide) _ _)
  intro url rest acc w _
  split
  · exact Alone.ite (fun _ => Alone.done trivial) (fun _ => Alone.toOk (collectUri_spec _ _ _))
  · exact Alone.raise trivial

/-! ## Store -/

theorem newPassages_spec {runId : Uuid} (p : Platform) (sourceId : Uuid)
    (storedHashes : List Text) (chunks : List Chunk) :
    Alone (TaskMoment runId .store)
      (onOk fun passages _ => ∀ row ∈ passages, row.sourceId = sourceId)
      (newPassages p sourceId storedHashes chunks) s := by
  refine Alone.bind_ok _ (Alone.mapM (S := Vocabulary)
    (fun _ found => ∀ row, found = some row → row.sourceId = sourceId) (fun _ => True) _ ?_ trivial)
    fun found t hFound => ?_
  · intro entry _ t _
    refine Alone.ite (fun _ => Alone.done ⟨by simp, trivial⟩) (fun _ => ?_)
    refine Alone.bind_ok _ (Alone.quietTask quiet_uuid4) fun id u _ => Alone.done ⟨?_, trivial⟩
    rintro row hRow
    cases hRow
    rfl
  · refine Alone.done fun row hRow => ?_
    obtain ⟨entry, -, hEntry⟩ := hFound.1 (some row) (by simpa using hRow)
    exact hEntry row rfl

theorem storeSource_spec (ctx : PipelineContext) (storedHashes : List Text) (source : Source) :
    Alone (TaskMoment ctx.runId .store) anyEnd (storeSource ctx storedHashes source) s := by
  have hGet : Keeps Quiet (BlobStore.get ctx.services.platform ctx.services.settings
      (source.rawRef.getD [])) := by
    refine keeps_bind (keeps_select (fun _ => ⟨rfl, by simp⟩) fun _ => ⟨rfl, by simp⟩)
      fun found => ?_
    cases found with
    | none => exact quiet_raiseError _ _
    | some content => exact keeps_done _
  refine Alone.seq (Alone.quietly TaskMoment.of_quiet hGet) fun content t => ?_
  refine Alone.seq (Alone.ofExcept trivial) fun text u => ?_
  refine Alone.bind _ (newPassages_spec _ _ _ _) (fun passages v hPassages => ?_)
    (fun _ _ _ => trivial)
  refine Alone.seq (Alone.quietly TaskMoment.of_quiet (quiet_selectTables _)) fun current w => ?_
  refine Alone.seq (Alone.commitTask ?_ (fun _ _ _ => trivial) fun _ _ => trivial)
    fun _ _ => Alone.done trivial
  have hStored (sources : List Source) (hSources : sources = w.tables.sources ∨ sources =
      modifyRow Source.id source.id (fun s => { s with status := .normalized })
        w.tables.sources) :
      TaskStep ctx.runId w.tables .store
        { w.tables with passages := w.tables.passages ++ passages, sources } :=
    .stored source.id passages sources hPassages hSources
  rw [Tables.after_append, Tables.after_insertPassages]
  split
  · split
    · exact hStored _ (.inl rfl)
    · exact hStored _ (.inr rfl)
  · exact hStored _ (.inl rfl)

theorem runStore_spec (ctx : PipelineContext) :
    Alone (TaskMoment ctx.runId .store) (onOk (TaskEnd ctx.runId .store)) (runStore ctx) s := by
  refine Alone.bind_ok _ (Alone.quietTask (quiet_selectRows _)) fun rows t _ => ?_
  refine Alone.ite (fun _ => Alone.done (.success (by decide) _ _)) (fun _ => ?_)
  refine Alone.bind_ok _ (Alone.quietTask (quiet_selectTables _)) fun hashes u _ => ?_
  refine Alone.bind_ok _ (Alone.foldlM_ok (fun _ _ => True) ?_ _ trivial) fun total v _ =>
    Alone.done (.success (by decide) _ _)
  intro source rest acc v _
  exact Alone.toOk (Alone.seq (storeSource_spec _ _ _) fun _ _ => Alone.done trivial)

/-! ## Extract -/

theorem draftStatements_spec {runId : Uuid} (u : Unicode) (passage : Passage)
    (items : List ExtractedStatement) :
    Alone (TaskMoment runId .extract)
      (onOk fun statements t => (∀ row ∈ statements, row.passageId = passage.id ∧
        row.runId = runId ∧ row.status = .draft) ∧ t.db = s.db)
      (draftStatements u passage runId items) s := by
  refine (Alone.mapM (S := Vocabulary) (fun _ (row : Statement) => row.passageId = passage.id ∧
    row.runId = runId ∧ row.status = .draft) (fun t => t.db = s.db) items ?_ rfl).post ?_
  · intro item _ t ht
    refine Alone.bind_ok _ (Alone.quietTask quiet_uuid4) fun id v hv => ?_
    exact Alone.done ⟨⟨rfl, rfl, rfl⟩, hv.trans ht⟩
  · rintro (error | statements) t h
    · trivial
    · refine ⟨fun row hRow => ?_, h.2⟩
      obtain ⟨item, -, hRow⟩ := h.1 row hRow
      exact hRow

theorem extractLinks_spec {runId : Uuid} (passage : Passage) (statements : List Statement) :
    Alone (TaskMoment runId .extract)
      (onOk fun links t => (∀ row ∈ links, row.method = some "extract".toList ∧
        row.passageId = passage.id ∧ row.runId = runId ∧
          ∃ s ∈ statements, s.id = row.statementId) ∧ t.db = s.db)
      (extractLinks passage runId statements) s := by
  refine (Alone.mapM (S := Vocabulary) (fun (item : Statement) (row : EvidenceLink) =>
    row.method = some "extract".toList ∧ row.passageId = passage.id ∧ row.runId = runId ∧
      item.id = row.statementId) (fun t => t.db = s.db) statements ?_ rfl).post ?_
  · intro item _ t ht
    refine Alone.bind_ok _ (Alone.quietTask quiet_uuid4) fun id v hv => ?_
    refine Alone.bind_ok _ (Alone.quietTask quiet_dbNow) fun ts w hw => ?_
    exact Alone.done ⟨⟨rfl, rfl, rfl, rfl⟩, hw.trans (hv.trans ht)⟩
  · rintro (error | links) t h
    · trivial
    · refine ⟨fun row hRow => ?_, h.2⟩
      obtain ⟨item, hItem, hMethod, hPassage, hRun, hId⟩ := h.1 row hRow
      exact ⟨hMethod, hPassage, hRun, item, hItem, hId⟩

theorem Resolves.frame {runId : Uuid} {passage : Passage} {t t' : Tables}
    (h : Resolves runId passage t) (hFrame : MeterFrame t t') : Resolves runId passage t' :=
  h.grows (.of_eq hFrame.passages hFrame.sources)

/-- The extractor on a passage of the run. -/
theorem extract_spec {runId : Uuid} (gateway : LLMGateway) (hHooks : gateway.hooks = [])
    (passage : Passage) (hPassage : Resolves runId passage s.tables) :
    Alone (TaskMoment runId .extract) anyEnd (extract gateway passage runId) s := by
  refine Alone.bind (fun _ t => t = s) (Alone.log ?_ rfl) ?_ (fun _ _ _ => trivial)
  · refine ⟨.metered .idle, fun event hEvent => ⟨rfl, passage.id, ?_⟩⟩
    cases hEvent
    rfl
  rintro - t rfl
  simp only [raiseError_bind]
  refine Alone.ite (fun _ => Alone.raise trivial) (fun _ => ?_)
  refine Alone.bind _ (Alone.meteredOk (completeModel_spec gateway hHooks _ _ rfl)) ?_
    (fun _ _ _ => trivial)
  intro result u hFrame
  refine Alone.ite (fun _ => Alone.done trivial) (fun _ => ?_)
  refine Alone.bind _ (draftStatements_spec _ _ _) ?_ (fun _ _ _ => trivial)
  rintro statements v ⟨hStatements, hv⟩
  refine Alone.bind _ (extractLinks_spec _ _) ?_ (fun _ _ _ => trivial)
  rintro links w ⟨hLinks, hw⟩
  refine Alone.seq (Alone.commitTask ?_ (fun _ _ _ => trivial) fun _ _ => trivial)
    fun _ _ => Alone.done trivial
  rw [Tables.after_append, Tables.after_insertStatements, Tables.after_insertEvidenceLinks]
  refine .extracted passage ?_ statements links ⟨hStatements, hLinks⟩
  rw [World.tables, hw, hv]
  exact hPassage.frame hFrame

/-- The passages of a list belong to the run. -/
def AllResolve (runId : Uuid) (passages : List Passage) (t : Tables) : Prop :=
  ∀ passage ∈ passages, Resolves runId passage t

theorem extractPassage_spec (ctx : PipelineContext) (existing : List (Uuid × Text)) (count : Nat)
    (entry : Passage × Nat) (hPassage : Resolves ctx.runId entry.1 s.tables) :
    Alone (TaskMoment ctx.runId .extract) anyEnd (extractPassage ctx existing count entry) s := by
  have hRest (t : World) (ht : t.db = s.db) : Alone (TaskMoment ctx.runId .extract) anyEnd
      (if (entry.1.id, entry.1.text) ∈ existing then pure count
        else do
          let statements ← extract ctx.services.gateway entry.1 ctx.runId
          pure (count + statements.length) : Action Nat) t := by
    refine Alone.ite (fun _ => Alone.done trivial) (fun _ => ?_)
    refine Alone.seq (extract_spec _ rfl _ ?_) fun _ _ => Alone.done trivial
    rw [World.tables, ht]
    exact hPassage
  refine Alone.ite (fun _ => ?_) (fun _ => hRest s rfl)
  exact Alone.bind _ (Alone.quietTask (quiet_sleep _)) (fun _ t ht => hRest t ht)
    (fun _ _ _ => trivial)

theorem runExtract_spec (ctx : PipelineContext) :
    Alone (TaskMoment ctx.runId .extract) (onOk (TaskEnd ctx.runId .extract)) (runExtract ctx)
      s := by
  refine Alone.bind_ok (fun ids t => t = s ∧ ids = (s.tables.sources.filter fun source =>
    source.runId = ctx.runId && source.status = .normalized).map Source.id)
    (Alone.selectTables TaskMoment.of_quiet ⟨rfl, rfl⟩ fun _ _ => trivial) ?_
  rintro ids t ⟨rfl, hIds⟩
  refine Alone.ite (fun _ => Alone.done (.success (by decide) _ _)) (fun _ => ?_)
  refine Alone.bind_ok (fun rows u => u = t ∧ AllResolve ctx.runId rows t.tables)
    (Alone.selectRows TaskMoment.of_quiet (fun rows hRows => ⟨rfl, ?_⟩) fun _ _ => trivial) ?_
  · intro passage hMem
    obtain ⟨hMem, hSource⟩ := List.mem_filter.mp (hRows.mem_iff.mp hMem)
    simp only [hIds, List.mem_map, List.mem_filter, Bool.and_eq_true, decide_eq_true_eq] at hSource
    obtain ⟨source, ⟨hSource, hRun, -⟩, hId⟩ := hSource
    exact ⟨hMem, source, hSource, hId, hRun⟩
  rintro rows u ⟨rfl, hRows⟩
  refine Alone.bind_ok _ (Alone.quietTask (quiet_selectTables _)) fun existing v hv => ?_
  refine Alone.bind_ok _ (Alone.foldlM_ok
    (fun (entries : List (Passage × Nat)) (w : World) =>
      ∀ entry ∈ entries, Resolves ctx.runId entry.1 w.tables) ?_ _ ?_) fun count w _ => ?_
  · intro entry rest count w hEntries
    refine (Alone.growing (extractPassage_spec ctx existing count entry
      (hEntries entry (by simp)))).post ?_
    rintro (error | count') w' ⟨-, hGrows⟩
    · trivial
    · exact fun other hOther => (hEntries other (by simp [hOther])).grows hGrows
  · rintro ⟨passage, index⟩ hEntry
    rw [World.tables, hv]
    exact hRows passage (List.mem_of_mem_take (List.fst_mem_of_mem_zipIdx hEntry))
  · exact Alone.done (.success (by decide) _ _)

/-! ## Verify -/

/-- What `judge` does unless the statement has no lexical support. -/
def judgeByModel (gateway : LLMGateway) (runId : Uuid) (statementText passageText : Text) :
    Action Judgement := do
  let (system, dataBlock) := buildJudgePrompt statementText passageText
  let (_, verdict) ← completeModel gateway .verificationVerdict
    { tier := .strong, system := some system, prompt := some dataBlock,
      runId := some runId, useCache := false }
  let verdict : VerificationVerdict := verdict
  pure
    { decision := if verdict.supported then .verified else .quarantined,
      supported := verdict.supported, confidence := verdict.confidence,
      reason := verdict.reason.val }

theorem judge_spec {runId : Uuid} (gateway : LLMGateway) (hHooks : gateway.hooks = [])
    (statementText passageText : Text) (score : EvidenceScore) (ratio : ℚ) :
    Alone (MeterMoment runId)
      (onOk fun judgement _ => judgement.decision ≠ .draft ∧
        (judgement.decision = .verified → score ≠ .none))
      (judge gateway runId statementText passageText score ratio) s := by
  have hAsk (hScore : score ≠ .none) : Alone (MeterMoment runId)
      (onOk fun (judgement : Judgement) _ => judgement.decision ≠ .draft ∧
        (judgement.decision = .verified → score ≠ .none))
      (judgeByModel gateway runId statementText passageText) s := by
    refine Alone.bind anyEnd (completeModel_spec gateway hHooks _ _ rfl) (fun result t _ => ?_)
      (fun _ _ _ => trivial)
    refine Alone.done ⟨?_, fun _ => hScore⟩
    dsimp only
    split <;> simp
  cases score with
  | none => exact Alone.done ⟨by simp, by simp⟩
  | full => exact hAsk (by simp)
  | partial_ => exact hAsk (by simp)

/-- The merge of an unchanged row writes its new status and nothing else. -/
theorem after_mergedWrites {t : Tables} {statement : Statement} {decision : StatementStatus}
    (hDecision : decision ≠ statement.status) :
    t.after (Merged.writes ⟨some statement, { statement with status := decision }⟩) =
      { t with statements := setStatus statement.id decision t.statements } := by
  simp only [Merged.writes, if_true, hDecision, if_false, StatementChanges.isEmpty]
  rfl

theorem verifyEntry_audit (u : Unicode) (runId : Uuid) (statement : Statement)
    (score : EvidenceScore) (ratio : ℚ) (judgement : Judgement) (id : Uuid) (ts : Instant) :
    IsVerifyAudit statement.id ((verifyEntry u runId statement score ratio judgement).row u id ts) ∧
      ((verifyEntry u runId statement score ratio judgement).row u id ts).decision =
        some judgement.decision.value := by
  have hAction : redactSecrets u "verify".toList = "verify".toList :=
    redactSecrets_eq_self u (by decide)
  have hDecision : redactSecrets u judgement.decision.value = judgement.decision.value :=
    redactSecrets_eq_self u (by cases judgement.decision <;> decide)
  have hEntity : redactSecrets u "statement".toList = "statement".toList :=
    redactSecrets_eq_self u (by decide)
  simp only [IsVerifyAudit, AuditEntry.row, verifyEntry, Option.map_some, hAction, hDecision,
    hEntity, redactSecrets_uuid, and_self]

/-- A statement which waits for its verdict. -/
def Pending (runId : Uuid) (statement : Statement) (t : Tables) : Prop :=
  statement ∈ t.statements ∧ statement.runId = runId ∧ statement.status = .draft

/-- The gate on a pending statement; the other statements stay as they are. -/
theorem verify_spec {runId : Uuid} (gateway : LLMGateway) (hHooks : gateway.hooks = [])
    (statement : Statement) (passage : Passage) (hPending : Pending runId statement s.tables)
    (hPassage : Resolves runId passage s.tables) (hId : passage.id = statement.passageId) :
    Alone (TaskMoment runId .verify)
      (onOk fun _ t => ∀ other ∈ s.tables.statements, other.id ≠ statement.id →
        other ∈ t.tables.statements)
      (verify gateway statement passage runId) s := by
  obtain ⟨hMem, hRun, hDraft⟩ := hPending
  refine Alone.bind_ok (fun merged t => t = s ∧ merged = ⟨some statement, statement⟩) ?_ ?_
  · refine Alone.bind_ok (fun loaded t => t = s ∧ loaded = some statement)
      (Alone.selectTables TaskMoment.of_quiet ⟨rfl, ?_⟩ fun _ _ => trivial) ?_
    · exact s.db.valid.statementsKey.findRow_eq hMem
    · rintro loaded t ⟨rfl, rfl⟩
      exact Alone.done ⟨rfl, rfl⟩
  rintro merged t ⟨rfl, rfl⟩
  simp only [hDraft]
  refine Alone.ite (fun h => absurd rfl h.1) (fun _ => ?_)
  refine Alone.bind_ok _ (Alone.quietTask (quiet_ofExcept _)) ?_
  rintro ⟨score, ratio⟩ u hu
  refine Alone.bind_ok (fun (judgement : Judgement) (v : World) => (judgement.decision ≠ .draft ∧
    (judgement.decision = .verified → score ≠ .none)) ∧ MeterFrame u.tables v.tables) ?_ ?_
  · refine (Alone.metering (judge_spec gateway hHooks _ _ score ratio)).mono TaskMoment.of_meter ?_
    rintro (error | judgement) v h
    · trivial
    · exact h
  rintro judgement v ⟨⟨hDecided, hCovered⟩, hFrame⟩
  refine Alone.bind_ok _ (Alone.quietTask quiet_uuid4) fun linkId w hw => ?_
  refine Alone.bind_ok _ (Alone.quietTask quiet_dbNow) fun createdAt x hx => ?_
  refine Alone.bind_ok _ (auditAppend_spec _ _) ?_
  rintro audit y ⟨hy, auditId, ts, rfl⟩
  -- Nothing but the meter has moved since the statement was merged.
  have hSame : MeterFrame t.tables y.tables := by
    have hDb : y.db = v.db := hy.trans (hx.trans hw)
    rw [World.tables, World.tables, hu] at hFrame
    rw [World.tables, World.tables, hDb]
    exact hFrame
  obtain ⟨hAudit, hAuditDecision⟩ := verifyEntry_audit gateway.platform.unicode runId
    { statement with status := judgement.decision } score ratio judgement auditId ts
  refine Alone.bind_ok (fun _ (z : World) => z.tables.statements =
    setStatus statement.id judgement.decision t.tables.statements) ?_ ?_
  · refine Alone.commitTask ?_ ?_ (fun _ _ => trivial)
    · rw [Tables.after_append, after_mergedWrites (by rw [hDraft]; exact hDecided)]
      refine .verified statement (by rw [hSame.statements]; exact hMem) passage
        (hPassage.frame hSame) judgement.decision _ _ ?_
      exact
        { statementRun := hRun, draft := hDraft, passageOf := hId, decided := hDecided,
          linkStatement := rfl, linkPassage := rfl, linkRun := rfl, linkMethod := rfl,
          covered := hCovered, auditOf := hAudit, auditDecision := hAuditDecision }
    · rintro z hz (error | _)
      · trivial
      · show z.tables.statements = _
        rw [hz, Tables.after_append, after_mergedWrites (by rw [hDraft]; exact hDecided)]
        simp only [Tables.after_cons, Tables.after_nil, Write.effect, hSame.statements]
  · rintro _ z hz
    refine Alone.done fun other hOther hNe => ?_
    rw [hz]
    exact mem_modifyRow.mpr (.inr ⟨hOther, hNe⟩)

/-- The drafts which a task still has to verify, and the passages it has read. -/
structure VerifyLoop (runId : Uuid) (passages : List Passage) (entries : List (Statement × Nat))
    (t : Tables) : Prop where
  distinct : (entries.map fun entry => entry.1.id).Nodup
  pending : ∀ entry ∈ entries, Pending runId entry.1 t
  resolve : AllResolve runId passages t

/-- The last part of `verifyStatement`, behind the pause. -/
def verifyAgainst (ctx : PipelineContext) (passages : List Passage) (count : Nat)
    (statement : Statement) : Action Nat :=
  match findRow Passage.id statement.passageId passages with
  | none => pure count
  | some passage => do
      let _ ← verify ctx.services.gateway statement passage ctx.runId
      pure (count + 1)

theorem verifyStatement_spec (ctx : PipelineContext) (passages : List Passage) (count : Nat)
    (entry : Statement × Nat) (rest : List (Statement × Nat))
    (h : VerifyLoop ctx.runId passages (entry :: rest) s.tables) :
    Alone (TaskMoment ctx.runId .verify)
      (onOk fun _ t => VerifyLoop ctx.runId passages rest t.tables)
      (verifyStatement ctx passages count entry) s := by
  obtain ⟨hDistinct, hPending, hResolve⟩ := h
  simp only [List.map_cons, List.nodup_cons, List.mem_map, not_exists, not_and] at hDistinct
  have hKeep (t : World) (hStatements : ∀ other ∈ s.tables.statements, other.id ≠ entry.1.id →
      other ∈ t.tables.statements) (hGrows : Grows s.tables t.tables) :
      VerifyLoop ctx.runId passages rest t.tables := by
    refine ⟨hDistinct.2, fun other hOther => ?_, fun p hp => (hResolve p hp).grows hGrows⟩
    obtain ⟨hMem, hRun, hDraft⟩ := hPending other (by simp [hOther])
    exact ⟨hStatements _ hMem (hDistinct.1 other hOther), hRun, hDraft⟩
  have hRest (t : World) (ht : t.db = s.db) : Alone (TaskMoment ctx.runId .verify)
      (onOk fun _ (t : World) => VerifyLoop ctx.runId passages rest t.tables)
      (verifyAgainst ctx passages count entry.1) t := by
    unfold verifyAgainst
    cases hFind : findRow Passage.id entry.1.passageId passages with
    | none =>
        exact Alone.done (hKeep t (fun other hOther _ => by rwa [World.tables, ht])
          (by rw [World.tables, World.tables, ht]; exact .refl _))
    | some passage =>
        obtain ⟨hPassage, hId⟩ := findRow_some hFind
        refine Alone.bind_ok _ ((Alone.growing (verify_spec _ rfl entry.1 passage ?_ ?_ hId)).post
          (R := onOk fun _ (t : World) => VerifyLoop ctx.runId passages rest t.tables) ?_)
          fun _ _ h => Alone.done h
        · rw [World.tables, ht]
          exact hPending entry (by simp)
        · rw [World.tables, ht]
          exact hResolve passage hPassage
        · rintro (error | _) u ⟨hStatements, hGrows⟩
          · trivial
          · rw [World.tables, ht] at hGrows
            refine hKeep u (fun other hOther hNe => hStatements other ?_ hNe) hGrows
            rwa [World.tables, ht]
  refine Alone.ite (fun _ => ?_) (fun _ => hRest s rfl)
  exact Alone.bind_ok _ (Alone.quietTask (quiet_sleep _)) fun _ t ht => hRest t ht

/-- The last part of `runVerify`, behind the reads of the sources and of their passages. -/
def verifyDrafts (ctx : PipelineContext) (passages : List Passage) : Action StageResult := do
  let statements ← selectRows fun t => t.statements.filter fun s => s.runId = ctx.runId
  let allDrafts := statements.filter fun s => s.status = .draft
  let drafts := allDrafts.take maxVerify
  let count ← drafts.zipIdx.foldlM (verifyStatement ctx passages) 0
  pure <| .success .verify ([countField "verified" count] ++
    if drafts.length = allDrafts.length then []
    else [countField "skipped" (allDrafts.length - drafts.length)])

theorem runVerify_spec (ctx : PipelineContext) :
    Alone (TaskMoment ctx.runId .verify) (onOk (TaskEnd ctx.runId .verify)) (runVerify ctx) s := by
  have hRest (t : World) (passages : List Passage) (ht : t.db = s.db)
      (hPassages : AllResolve ctx.runId passages s.tables) :
      Alone (TaskMoment ctx.runId .verify) (onOk (TaskEnd ctx.runId .verify))
        (verifyDrafts ctx passages) t := by
    refine Alone.bind_ok (S := Vocabulary) (fun rows u => u.db = s.db ∧
      rows.Perm (s.tables.statements.filter fun row => row.runId = ctx.runId))
      (Alone.selectRows TaskMoment.of_quiet (fun rows hRows => ⟨ht, ?_⟩) fun _ _ => trivial) ?_
    · rw [World.tables, ht] at hRows
      exact hRows
    rintro rows u ⟨hu, hRows⟩
    refine Alone.bind_ok _ (Alone.foldlM_ok
      (fun entries (v : World) => VerifyLoop ctx.runId passages entries v.tables) ?_ _ ?_)
      fun _ v _ => Alone.done (.success (by decide) _ _)
    · exact fun entry rest count v h => verifyStatement_spec ctx passages count entry rest h
    rw [World.tables, hu]
    have hKeyed : Keyed Statement.id rows :=
      (hRows.map _).nodup_iff.mpr (s.db.valid.statementsKey.filter _)
    refine ⟨?_, ?_, hPassages⟩
    · have hSub : ((rows.filter fun row => row.status = .draft).take maxVerify).Sublist rows :=
        (List.take_sublist _ _).trans List.filter_sublist
      have hIds (l : List Statement) : (l.zipIdx.map fun entry => entry.1.id) =
          l.map Statement.id := by
        conv_rhs => rw [← List.zipIdx_map_fst 0 l, List.map_map]
        rfl
      rw [hIds]
      exact List.Nodup.sublist (hSub.map Statement.id) hKeyed
    · intro entry hEntry
      have hMem := List.mem_of_mem_take (List.fst_mem_of_mem_zipIdx hEntry)
      obtain ⟨hMem, hDraft⟩ := List.mem_filter.mp hMem
      obtain ⟨hMem, hRun⟩ := List.mem_filter.mp (hRows.mem_iff.mp hMem)
      exact ⟨hMem, by simpa using hRun, by simpa using hDraft⟩
  refine Alone.bind_ok (fun ids t => t = s ∧ ids = (s.tables.sources.filter fun source =>
    source.runId = ctx.runId).map Source.id)
    (Alone.selectTables TaskMoment.of_quiet ⟨rfl, rfl⟩ fun _ _ => trivial) ?_
  rintro ids t ⟨rfl, hIds⟩
  refine Alone.ite (fun _ => ?_) (fun _ => ?_)
  · exact hRest t [] rfl (by simp [AllResolve])
  refine Alone.bind_ok (fun passages u => u = t ∧ AllResolve ctx.runId passages t.tables)
    (Alone.selectTables TaskMoment.of_quiet ⟨rfl, ?_⟩ fun _ _ => trivial) ?_
  · intro passage hMem
    obtain ⟨hMem, hSource⟩ := List.mem_filter.mp hMem
    simp only [hIds, List.mem_map, List.mem_filter, decide_eq_true_eq] at hSource
    obtain ⟨source, ⟨hSource, hRun⟩, hId⟩ := hSource
    exact ⟨hMem, source, hSource, hId, hRun⟩
  · rintro passages u ⟨rfl, hPassages⟩
    exact hRest u passages rfl hPassages

/-! ## Find -/

/-- The last part of `runFind`, behind the reads of the sources and of their passages. -/
def findAmong (ctx : PipelineContext) (sources : List Source) (passages : List Passage) :
    Action StageResult := do
  let rows ← selectRows fun t => t.statements.filter fun s => s.runId = ctx.runId
  let links ← selectTables fun t => t.evidenceLinks.filter fun l => l.runId = ctx.runId
  let domains ← Prog.ofExcept (groupByDomain ctx.services.platform sources passages
    (rows.filter fun s => s.status = .verified))
  domains.forM (recordFinding ctx links)
  pure <| .success .find [countField "findings" domains.length]

theorem runFind_spec (ctx : PipelineContext) :
    Alone (TaskMoment ctx.runId .find) (onOk (TaskEnd ctx.runId .find)) (runFind ctx) s := by
  have hRecord (links : List EvidenceLink) (group : Text × List Statement) (t : World) :
      Alone (TaskMoment ctx.runId .find) anyEnd (recordFinding ctx links group) t := by
    refine Alone.seq (Alone.quietly TaskMoment.of_quiet quiet_uuid4) fun id u => ?_
    refine Alone.commitTask ?_ (fun _ _ _ => trivial) (fun _ _ => trivial)
    have hRows : (group.2.map fun s => Write.insertFindingStatement ⟨id, s.id⟩) =
        (group.2.map fun s => (⟨id, s.id⟩ : FindingStatement)).map .insertFindingStatement := by
      simp
    rw [Tables.after_cons, hRows, Tables.after_insertFindingStatements]
    exact .found _ _
  have hRest (t : World) (sources : List Source) (passages : List Passage) :
      Alone (TaskMoment ctx.runId .find) (onOk (TaskEnd ctx.runId .find))
        (findAmong ctx sources passages) t := by
    refine Alone.bind_ok _ (Alone.quietTask (quiet_selectRows _)) fun rows u _ => ?_
    refine Alone.bind_ok _ (Alone.quietTask (quiet_selectTables _)) fun links v _ => ?_
    refine Alone.bind_ok _ (Alone.quietTask (quiet_ofExcept _)) fun domains w _ => ?_
    refine Alone.bind_ok (fun _ _ => True) (Alone.forM (fun _ _ => True) ?_ ?_ domains trivial)
      fun _ x _ => Alone.done (.success (by decide) _ _)
    · intro group rest x _
      refine (hRecord links group x).post fun r _ _ => ?_
      cases r <;> trivial
    · exact fun _ _ => trivial
  refine Alone.bind_ok _ (Alone.quietTask (quiet_selectTables _)) fun sources t _ => ?_
  refine Alone.ite (fun _ => hRest _ _ _) (fun _ => ?_)
  exact Alone.bind_ok _ (Alone.quietTask (quiet_selectTables _)) fun passages u _ => hRest _ _ _

/-! ## Detect -/

theorem confirm_spec {runId : Uuid} (gateway : LLMGateway) (hHooks : gateway.hooks = [])
    (aText bText : Text) :
    Alone (MeterMoment runId) anyEnd (confirm gateway runId aText bText) s := by
  refine Alone.ite (fun _ => Alone.done trivial) (fun _ => ?_)
  exact Alone.seq (completeModel_spec gateway hHooks _ _ rfl) fun _ _ => Alone.done trivial

theorem judgePair_spec {runId : Uuid} (gateway : LLMGateway) (hHooks : gateway.hooks = [])
    (a b : Statement) :
    Alone (TaskMoment runId .detect) anyEnd (judgePair gateway runId a b) s := by
  have hExists : Keeps Quiet (confirmedExists a b) :=
    keeps_bind (quiet_selectTables _) fun _ =>
      keeps_ite (fun _ => keeps_done _) (fun _ => quiet_selectTables _)
  refine Alone.seq (Alone.quietly TaskMoment.of_quiet hExists) fun found t => ?_
  refine Alone.ite (fun _ => Alone.done trivial) (fun _ => ?_)
  refine Alone.seq ((completeModel_spec gateway hHooks _ _ rfl).mono TaskMoment.of_meter
    fun _ _ h => h) fun flag u => ?_
  refine Alone.ite (fun _ => Alone.done trivial) (fun _ => ?_)
  refine Alone.seq ((confirm_spec gateway hHooks _ _).mono TaskMoment.of_meter fun _ _ h => h)
    fun confirmation v => ?_
  refine Alone.ite (fun _ => Alone.done trivial) (fun _ => ?_)
  refine Alone.seq (Alone.quietly TaskMoment.of_quiet quiet_uuid4) fun id w => ?_
  refine Alone.seq (Alone.quietly TaskMoment.of_quiet quiet_now) fun confirmedAt x => ?_
  refine Alone.seq (Alone.quietly TaskMoment.of_quiet quiet_dbNow) fun createdAt y => ?_
  refine Alone.bind _ (auditAppend_spec _ _) (fun audit z hAudit => ?_) (fun _ _ _ => trivial)
  obtain ⟨-, auditId, ts, rfl⟩ := hAudit
  refine Alone.seq (Alone.commitTask ?_ (fun _ _ _ => trivial) fun _ _ => trivial)
    fun _ _ => Alone.done trivial
  exact .contradicted _ _ (AuditEntry.row_entityType rfl (by decide))

theorem detect_spec {runId : Uuid} (gateway : LLMGateway) (hHooks : gateway.hooks = [])
    (statements : List Statement) :
    Alone (TaskMoment runId .detect) anyEnd (detect gateway statements runId) s := by
  refine Alone.bind _ (Alone.mapM (S := Vocabulary) (fun _ _ => True) (fun _ => True) _ ?_ trivial)
    (fun _ _ _ => Alone.done trivial) (fun _ _ _ => trivial)
  rintro ⟨pair, index⟩ - t -
  have hPair (u : World) : Alone (TaskMoment runId .detect)
      (onOk fun _ _ => True ∧ True) (judgePair gateway runId pair.1 pair.2) u :=
    (judgePair_spec gateway hHooks pair.1 pair.2).post fun r _ _ => by cases r <;> trivial
  refine Alone.ite (fun _ => ?_) (fun _ => hPair t)
  exact Alone.bind_ok _ (Alone.quietTask (quiet_sleep _)) fun _ u _ => hPair u

theorem runDetect_spec (ctx : PipelineContext) :
    Alone (TaskMoment ctx.runId .detect) (onOk (TaskEnd ctx.runId .detect)) (runDetect ctx) s := by
  refine Alone.bind_ok _ (Alone.quietTask (quiet_selectRows _)) fun rows t _ => ?_
  refine Alone.bind_ok _ (Alone.toOk (detect_spec _ rfl _)) fun contradictions u _ => ?_
  exact Alone.done (.success (by decide) _ _)

/-! ## Conclude -/

theorem quiet_sourceDomains (p : Platform) (statements : List Statement) :
    Keeps Quiet (sourceDomains p statements) := by
  refine keeps_bind (quiet_selectRows _) fun passages => ?_
  refine keeps_ite (fun _ => quiet_ofExcept _) (fun _ => ?_)
  exact keeps_bind (quiet_selectRows _) fun _ => quiet_ofExcept _

/-- The rows of a conclusion, before they are known to cite verified rows of the database. -/
structure CitedFrom (runId : Uuid) (verified : List Statement) (row : Cited) : Prop where
  run : row.conclusion.runId = runId
  nonempty : row.evidence ≠ []
  evidence : ∀ e ∈ row.evidence, e.conclusionId = row.conclusion.id ∧
    ∃ s ∈ verified, s.id = e.statementId
  audit : row.audit.entityType = "conclusion".toList

theorem conclude_spec {runId : Uuid} (p : Platform) (synthesis : Synthesis)
    (draft : ConclusionDraft) :
    Alone (TaskMoment runId .conclude)
      (onOk fun found t => (∀ row, found = some row →
        CitedFrom synthesis.runId synthesis.verified row) ∧ t.db = s.db)
      (conclude p synthesis draft) s := by
  refine Alone.ite (fun _ => Alone.done ⟨by simp, rfl⟩) (fun hCited => ?_)
  refine Alone.bind_ok _ (Alone.quietTask quiet_uuid4) fun id t ht => ?_
  refine Alone.bind_ok _ (Alone.quietTask quiet_dbNow) fun createdAt u hu => ?_
  refine Alone.bind_ok _ (auditAppend_spec _ _) ?_
  rintro audit v ⟨hv, auditId, ts, rfl⟩
  refine Alone.done ⟨?_, hv.trans (hu.trans ht)⟩
  rintro row hRow
  cases hRow
  refine ⟨rfl, by simpa using hCited, fun e he => ?_, AuditEntry.row_entityType rfl (by decide)⟩
  obtain ⟨statement, hStatement, rfl⟩ := List.mem_map.mp he
  obtain ⟨text, -, hFind⟩ := List.mem_filterMap.mp hStatement
  exact ⟨rfl, statement, List.mem_of_find?_eq_some hFind, rfl⟩

theorem after_conclusionWrites {t : Tables} (rows : List Cited) :
    t.after (conclusionWrites rows) = { t with
      conclusions := t.conclusions ++ rows.map Cited.conclusion
      conclusionEvidence := t.conclusionEvidence ++ rows.flatMap Cited.evidence
      auditTrace := t.auditTrace ++ rows.map Cited.audit } := by
  have hWrites : conclusionWrites rows = (rows.map Cited.audit).map .insertAuditTrace ++
      (rows.map Cited.conclusion).map .insertConclusion ++
        (rows.flatMap Cited.evidence).map .insertConclusionEvidence := by
    simp [conclusionWrites, List.map_flatMap, Function.comp_def]
  rw [hWrites, Tables.after_append, Tables.after_append, Tables.after_insertAuditTraces,
    Tables.after_insertConclusions, Tables.after_insertConclusionEvidence]

theorem mem_sortedVerified {statements : List Statement} {statement : Statement} :
    statement ∈ sortedVerified statements ↔
      statement ∈ statements ∧ statement.status = .verified := by
  simp [sortedVerified]

/-- The report generator on statements of the run. -/
theorem generate_spec {runId : Uuid} (gateway : LLMGateway) (hHooks : gateway.hooks = [])
    (topic : Text) (statements : List Statement) (contradictions : List Contradiction)
    (hStatements : ∀ row ∈ statements, row ∈ s.tables.statements ∧ row.runId = runId) :
    Alone (TaskMoment runId .conclude) anyEnd
      (generate gateway runId topic statements contradictions) s := by
  unfold generate
  simp only [raiseError_bind]
  refine Alone.ite (fun _ => Alone.raise trivial) (fun _ => ?_)
  refine Alone.bind _ (Alone.meteredOk (completeModel_spec gateway hHooks _ _ rfl)) ?_
    (fun _ _ _ => trivial)
  intro result t hFrame
  refine Alone.bind _ (Alone.quietTask (quiet_selectRows _)) ?_ (fun _ _ _ => trivial)
  intro links u hu
  refine Alone.bind _ (Alone.quietTask (quiet_sourceDomains _ _)) ?_ (fun _ _ _ => trivial)
  intro domains v hv
  refine Alone.bind _ (Alone.mapM (S := Vocabulary)
    (fun _ found => ∀ row, found = some row → CitedFrom runId (sortedVerified statements) row)
    (fun w => w.db = t.db) _ ?_ (hv.trans hu)) ?_ (fun _ _ _ => trivial)
  · intro draft _ w hw
    refine (conclude_spec _ _ draft).post ?_
    rintro (error | found) x h
    · trivial
    · exact ⟨h.1, h.2.trans hw⟩
  rintro found w ⟨hFound, hw⟩
  refine Alone.seq (Alone.commitTask ?_ (fun _ _ _ => trivial) fun _ _ => trivial) ?_
  · rw [after_conclusionWrites]
    refine .concluded _ fun row hRow => ?_
    obtain ⟨_, _, hCited⟩ := hFound (some row) (by simpa using hRow)
    obtain ⟨hRun, hNonempty, hEvidence, hAudit⟩ := hCited row rfl
    refine ⟨hRun, hNonempty, fun e he => ⟨(hEvidence e he).1, ?_⟩, hAudit⟩
    -- The statements which the model was given are still there.
    obtain ⟨statement, hMem, hId⟩ := (hEvidence e he).2
    obtain ⟨hMem, hVerified⟩ := mem_sortedVerified.mp hMem
    obtain ⟨hRow, hStatementRun⟩ := hStatements statement hMem
    refine ⟨statement, ?_, hId, hStatementRun, hVerified⟩
    rw [World.tables, hw]
    exact hFrame.statements ▸ hRow
  · intro _ x
    exact Alone.seq (Alone.quietly TaskMoment.of_quiet quiet_now) fun _ _ => Alone.done trivial

theorem runConclude_spec (ctx : PipelineContext) :
    Alone (TaskMoment ctx.runId .conclude) (onOk (TaskEnd ctx.runId .conclude)) (runConclude ctx)
      s := by
  refine Alone.bind_ok _ (Alone.quietTask (quiet_getRun _)) fun found t ht => ?_
  cases found with
  | none => exact Alone.raise trivial
  | some run =>
      refine Alone.bind_ok (fun rows u => u = t ∧
        rows.Perm (t.tables.statements.filter fun row => row.runId = ctx.runId))
        (Alone.selectRows TaskMoment.of_quiet (fun rows hRows => ⟨rfl, hRows⟩)
          fun _ _ => trivial) ?_
      rintro rows u ⟨rfl, hRows⟩
      refine Alone.bind_ok _ (Alone.quietTask (quiet_selectRows _)) fun contradictions v hv => ?_
      refine Alone.bind_ok _ (Alone.toOk (generate_spec _ rfl _ _ _ ?_)) fun report w _ => ?_
      · intro row hRow
        have hMem := (List.mem_filter.mp (List.mem_of_mem_take hRow)).1
        obtain ⟨hMem, hRun⟩ := List.mem_filter.mp (hRows.mem_iff.mp hMem)
        rw [World.tables, hv]
        exact ⟨hMem, by simpa using hRun⟩
      · refine Alone.bind_ok _ (Alone.quietTask (quiet_put _ _)) fun _ x _ => ?_
        exact Alone.done (.success (by decide) _ _)

/-! ## Trace -/

/-- The run is finished, if it exists. -/
def Finished (runId : Uuid) (t : Tables) : Prop :=
  ∀ run ∈ t.runs, run.id = runId → run.status = .completed

theorem Finished.setRun {t : Tables} {run : Run} (hStatus : run.status = .completed) :
    Finished run.id (t.setRun run) := by
  intro other hOther hId
  rcases mem_modifyRow.mp hOther with ⟨_, _, _, rfl⟩ | ⟨_, hNe⟩
  · exact hStatus
  · exact absurd hId hNe

theorem finalizeRun_spec (runId : Uuid) :
    Alone (TaskMoment runId .trace) (onOk fun _ t => Finished runId t.tables)
      (finalizeRun runId) s := by
  refine Alone.withRun TaskMoment.of_quiet ?_ ?_ fun _ _ => trivial
  · intro run hRun
    refine Alone.bind_ok _ (Alone.quietTask quiet_now) fun completedAt t ht => ?_
    have hFound : runOf runId (World.tables t) = some run := by
      rw [World.tables, ht]
      exact hRun
    have hEdit : (run.finalized completedAt).EditOf run := ⟨rfl, rfl, rfl, rfl, rfl⟩
    refine Alone.commitRun TaskMoment.of_quiet hFound hEdit (fun u hu => ?_) fun _ _ => trivial
    refine ⟨.moved ?_, ?_, fun _ _ => trivial⟩
    · rw [hu]
      exact .finalized run hFound completedAt
    · show Finished runId u.tables
      rw [hu, ← runOf_id hRun]
      exact Finished.setRun rfl
  · intro hNone
    exact Alone.done fun run hMem hId => absurd hId (findRow_none hNone run hMem)

theorem runTrace_spec (ctx : PipelineContext) :
    Alone (TaskMoment ctx.runId .trace) (onOk (TaskEnd ctx.runId .trace)) (runTrace ctx) s := by
  refine Alone.bind_ok _ (Alone.quietTask (quiet_getRun _)) fun found t _ => ?_
  cases found with
  | none => exact Alone.raise trivial
  | some run =>
      refine Alone.bind_ok _ (Alone.quietTask (quiet_selectRows _)) fun rows u _ => ?_
      refine Alone.bind_ok _ (Alone.quietTask (quiet_selectTables _)) fun state v _ => ?_
      refine Alone.bind_ok _ (Alone.meteredOk (kvSet_spec _ _ _ _ _ _)) fun _ w _ => ?_
      refine Alone.bind_ok _ (finalizeRun_spec _) fun _ x hFinished => ?_
      exact Alone.done ⟨rfl, fun _ => hFinished⟩

/-- Every task keeps to the steps of its stage. -/
theorem stageTasks_spec (stage : Stage) (ctx : PipelineContext) :
    Alone (TaskMoment ctx.runId stage) (onOk (TaskEnd ctx.runId stage)) (stageTasks stage ctx)
      s := by
  cases stage with
  | define => exact runDefine_spec ctx
  | search => exact runSearch_spec ctx
  | collect => exact runCollect_spec ctx
  | store => exact runStore_spec ctx
  | extract => exact runExtract_spec ctx
  | verify => exact runVerify_spec ctx
  | find => exact runFind_spec ctx
  | detect => exact runDetect_spec ctx
  | conclude => exact runConclude_spec ctx
  | trace => exact runTrace_spec ctx

end Ecrke
