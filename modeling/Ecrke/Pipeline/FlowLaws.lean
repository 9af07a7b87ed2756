import Ecrke.Durable.Recorded
import Ecrke.Pipeline.RunHistory

/-!
# Laws of the flow

A law about a run is a condition on the world and on the log of the run.  To hold in every history
it has to be kept by the steps of the flow itself, by the task of each stage when its turn has come,
and by the commit which saves the checkpoint of a stage.

* `Control` -- a step of the flow itself.
* `FlowLaw` -- a law, what each stage may start from and what it leaves, with the proofs.
* `FlowLaw.executeStages_wp` -- the flow keeps the law.
* `FlowLaw.history` -- the law holds after every history all of whose stages have started from where
  they may.
* `Milestone` -- what holds from the checkpoint of a stage on, and `Milestone.history`.
-/

namespace Ecrke

open Durable

/-! ## The steps of the flow itself -/

/-- The extractor is not called. -/
def Uncalled (happening : Happening Vocabulary) : Prop :=
  ∀ runId passageId, happening ≠ .wrote (.extractorCalled runId passageId)

/-- A step which changes nothing but the rows of the runs, the audit trail and the memory of the
process, and which is no call of the extractor. -/
structure Control (m : Moment Vocabulary) : Prop where
  uncalled : Uncalled m.happening
  blobs : m.after.blobs = m.before.blobs
  tables : ∃ runs rows, m.after.tables =
    { m.before.tables with runs, auditTrace := m.before.tables.auditTrace ++ rows }

theorem Control.still {s : World} {happening : Happening Vocabulary} (h : Uncalled happening) :
    Control ⟨s, happening, s⟩ :=
  ⟨h, rfl, s.tables.runs, [], by simp⟩

theorem uncalled_asked (question : Query) (answer : Answer question) :
    Uncalled (.asked question answer) := by
  rintro _ _ ⟨⟩

theorem uncalled_looked : Uncalled .looked := by
  rintro _ _ ⟨⟩

theorem uncalled_moved : Uncalled .moved := by
  rintro _ _ ⟨⟩

theorem uncalled_refused : Uncalled .refused := by
  rintro _ _ ⟨⟩

section Footprints

theorem control_query (question : Query) :
    Keeps Control (Prog.query (S := Vocabulary) question : Action (Answer question)) :=
  keeps_query fun _ _ => .still (uncalled_asked _ _)

theorem control_emit {event : Event} (h : Uncalled (.wrote event)) : Keeps Control (emit event) :=
  keeps_log fun _ => .still h

theorem control_modifyMemory (f : Memory → Memory) : Keeps Control (modifyMemory f) :=
  keeps_atomically fun s => ⟨uncalled_moved, rfl, s.tables.runs, [], by simp [World.tables]⟩

theorem control_selectTables {α : Type} (f : Tables → α) : Keeps Control (selectTables f) :=
  keeps_select (fun _ => .still uncalled_looked) (fun _ => .still uncalled_refused)

theorem control_getRun (runId : Uuid) : Keeps Control (getRun runId) := control_selectTables _

theorem control_commitWrites {writes : List Write} (h : ∀ t : Tables, ∃ runs rows,
    t.after writes = { t with runs, auditTrace := t.auditTrace ++ rows }) :
    Keeps Control (commitWrites writes) := by
  refine keeps_commit ?_ (fun _ => .still uncalled_refused)
  intro s value t hRun
  cases hWrites : s.db.applyAll writes with
  | error error => simp [hWrites] at hRun
  | ok db =>
      simp only [hWrites, Except.ok.injEq] at hRun
      cases hRun
      refine ⟨uncalled_moved, rfl, ?_⟩
      obtain ⟨runs, rows, hAfter⟩ := h s.tables
      exact ⟨runs, rows, (Database.applyAll_ok hWrites).trans hAfter⟩

/-- What a session writes for an edited run. -/
theorem after_runUpdates (t : Tables) (loaded edited : Run) :
    ∃ runs, t.after (loaded.updates edited) = { t with runs } := by
  simp only [Run.updates]
  split
  · exact ⟨t.runs, rfl⟩
  · exact ⟨_, rfl⟩

theorem control_updates (loaded edited : Run) :
    Keeps Control (commitWrites (loaded.updates edited)) := by
  refine control_commitWrites fun t => ?_
  obtain ⟨runs, hAfter⟩ := after_runUpdates t loaded edited
  exact ⟨runs, [], by simp [hAfter]⟩

theorem control_markStageStart (runId : Uuid) (stage : Stage) :
    Keeps Control (markStageStart runId stage) := by
  refine keeps_bind (control_getRun _) fun found => ?_
  cases found with
  | none => exact keeps_raise _
  | some run => exact control_updates _ _

theorem control_markCheckpoint (runId : Uuid) : Keeps Control (markCheckpoint runId) := by
  refine keeps_bind (control_selectTables _) fun _ => ?_
  refine keeps_bind (control_getRun _) fun found => ?_
  cases found with
  | none => exact keeps_done _
  | some run =>
      refine control_commitWrites fun t => ?_
      split
      · exact ⟨t.runs, [], by simp [Tables.after]⟩
      · exact ⟨_, [], by simp [Tables.after, Write.effect]; rfl⟩

theorem control_checkBreaker (breaker : CircuitBreaker) (ctx : PipelineContext) (budget : Usd)
    (stage : Stage) : Keeps Control (checkBreaker breaker ctx budget stage) :=
  keeps_ite (fun _ => keeps_done _) fun _ =>
    keeps_bind (control_getRun _) fun _ => keeps_ofExcept (S := Vocabulary) _

theorem control_recordRunCost (runId : Uuid) : Keeps Control (recordRunCost runId) := by
  refine keeps_tryCatch (keeps_bind (control_getRun _) fun found => ?_) fun _ => keeps_done _
  cases found with
  | none => exact keeps_done _
  | some run => exact control_modifyMemory _

theorem control_onBreach (ctx : PipelineContext) (error : PyError) :
    Keeps Control (onBreach ctx error) := by
  refine keeps_bind (keeps_bind (control_getRun _) fun found => ?_) fun _ =>
    keeps_bind (control_recordRunCost _) fun _ =>
      keeps_bind (control_emit (by rintro _ _ ⟨⟩)) fun _ =>
        keeps_bind (control_modifyMemory _) fun _ => keeps_done _
  cases found with
  | none => exact keeps_done _
  | some run => exact control_updates _ _

theorem control_failRun (u : Unicode) (runId : Uuid) (error : PyError) :
    Keeps Control (failRun u runId error) := by
  refine keeps_bind (control_getRun _) fun found => ?_
  cases found with
  | none => exact keeps_done _
  | some run =>
      refine keeps_bind (control_query _) fun id => keeps_bind (control_query _) fun ts => ?_
      refine control_commitWrites fun t => ?_
      obtain ⟨runs, hAfter⟩ := after_runUpdates t run { run with status := .failed }
      exact ⟨runs, [_], by rw [Tables.after_append, hAfter]; rfl⟩

theorem control_onFailure (ctx : PipelineContext) (error : PyError) :
    Keeps Control (onFailure ctx error) :=
  keeps_bind (control_failRun _ _ _) fun _ => keeps_bind (control_recordRunCost _) fun _ =>
    keeps_bind (control_emit (by rintro _ _ ⟨⟩)) fun _ =>
      keeps_bind (control_modifyMemory _) fun _ => keeps_raise _

theorem control_onCompletion (ctx : PipelineContext) : Keeps Control (onCompletion ctx) :=
  keeps_bind (control_recordRunCost _) fun _ =>
    keeps_bind (control_emit (by rintro _ _ ⟨⟩)) fun _ =>
      keeps_bind (control_modifyMemory _) fun _ => keeps_done _

theorem control_readStart (ctx : PipelineContext) : Keeps Control (readStart ctx) := by
  refine keeps_bind (control_selectTables _) fun _ => keeps_bind (control_getRun _) fun found => ?_
  cases found with
  | none => exact keeps_raise _
  | some run => exact keeps_done _

end Footprints

/-! ## Laws -/

/-- A law about a run, on a platform. -/
structure FlowLaw (runId : Uuid) (p : Platform) where
  /-- The law itself. -/
  Holds : World → Log Vocabulary → Prop
  /-- Where a stage may start. -/
  May : Stage → World → Prop
  /-- What the task of a stage leaves behind. -/
  Done : Stage → StageResult → World → Log Vocabulary → Prop
  control : ∀ l m, Control m → Holds m.before l → Holds m.after (l ++ [m])
  still : ∀ stage result w l happening, Done stage result w l →
    Done stage result w (l ++ [⟨w, happening, w⟩])
  task : ∀ stage services t l, services.platform = p → Ready runId stage t.tables →
    May stage t → Holds t l →
    wp (.alongside (fun m => TaskMoment runId stage m ∧ Ready runId stage m.before.tables)
        fun l m => Holds m.before l → Holds m.after (l ++ [m]))
      (fun r w l' => ∀ result, r = .ok result → Holds w l' → Done stage result w l')
      (stageTasks stage ⟨runId, services⟩) t l
  saved : ∀ stage result id w v l, Ready runId stage w.tables → Holds w l →
    Done stage result w l → v.blobs = w.blobs →
    v.tables = { w.tables with checkpoints := w.tables.checkpoints ++
      [⟨id, runId, stage.name, result.detail.map (redactJson p.unicode)⟩] } →
    Holds v (l ++ [⟨w, .moved, v⟩])

namespace FlowLaw

variable {runId : Uuid} {p : Platform} (law : FlowLaw runId p)

/-- The stages of a history have started from where they may. -/
def Started (m : Moment Vocabulary) : Prop :=
  ∀ stage : Stage, m.happening = .wrote (.stageStarted runId stage.name) → law.May stage m.before

/-- The contract of an execution: its steps are known, its stages start from where they may, and the
law is kept. -/
abbrev contract : Contract Vocabulary :=
  .alongside (fun m => (∃ start, FlowMoment runId start m) ∧ law.Started m)
    fun l m => law.Holds m.before l → law.Holds m.after (l ++ [m])

/-- The condition on a program which goes on under the law. -/
abbrev post {α : Type} : Post Vocabulary α := fun _ t l => law.Holds t l

variable {law} {s : World} {l : Log Vocabulary}

/-- A program which keeps the contract keeps the law. -/
theorem keeping {α : Type} {program : Action α} {Q : Post Vocabulary α}
    (h : wp law.contract Q program s l) (hs : law.Holds s l) :
    wp law.contract (fun r t l' => Q r t l' ∧ law.Holds t l') program s l :=
  wp_keeping law.Holds (fun _ _ _ hBefore hKept => hKept hBefore) h hs

/-- A step which changes nothing keeps the law. -/
theorem holds_still {happening : Happening Vocabulary} (h : Uncalled happening)
    (hs : law.Holds s l) : law.Holds s (l ++ [⟨s, happening, s⟩]) :=
  law.control l ⟨s, happening, s⟩ (.still h) hs

/-- A part of the flow itself. -/
theorem control_wp {α : Type} {program : Action α} (h : Keeps Control program)
    (hs : law.Holds s l) : wp law.contract law.post program s l := by
  refine wp_post (keeping (Q := fun _ _ _ => True) ?_ hs) fun _ _ _ hEnd => hEnd.2
  refine h.wp (T := fun _ _ => True) (fun _ => trivial) (fun _ _ _ _ _ => trivial)
    (fun _ _ _ => trivial) (fun _ _ => trivial) ?_ fun _ _ _ _ _ => trivial
  exact fun l m _ hm => law.control l m hm

/-- A part of the flow itself in front of the rest. -/
theorem control_bind {α β : Type} {program : Action α} {f : α → Action β}
    (h : Keeps Control program) (hs : law.Holds s l)
    (hRest : ∀ value t l', law.Holds t l' → wp law.contract law.post (f value) t l') :
    wp law.contract law.post (program.bind f) s l :=
  wp_bind _ (control_wp h hs) hRest fun _ _ _ hEnd => hEnd

/-- The task of a stage whose turn has come. -/
theorem task_wp {stage : Stage} {services : PipelineServices} (hServices : services.platform = p)
    (hReady : Ready runId stage s.tables) (hMay : law.May stage s) (hs : law.Holds s l) :
    wp law.contract (fun r t l' => (onOk (TaskEnd runId stage) r t ∧
        Ready runId stage t.tables ∧ law.Holds t l') ∧
        ∀ result, r = .ok result → law.Done stage result t l')
      (stageTasks stage ⟨runId, services⟩) s l := by
  have hKnown : Alone (fun m => TaskMoment runId stage m ∧ Ready runId stage m.before.tables)
      (fun r t => onOk (TaskEnd runId stage) r t ∧ Ready runId stage t.tables)
      (stageTasks stage ⟨runId, services⟩) s := by
    refine Alone.keeping (I := fun w : World => Ready runId stage w.tables) ?_
      (stageTasks_spec stage ⟨runId, services⟩) hReady
    intro m hm hTask
    rw [Ready, completedOf_congr hTask.1.checkpoints]
    exact hm
  have hTask := wp_granted hKnown (fun _ h => h) (law.task stage services s l hServices hReady
    hMay hs)
  have hKept := wp_mono (C := .alone _) (D := law.contract) (fun _ _ h => h)
    (fun _ _ _ => trivial) (fun _ _ _ h => h.1) (fun _ _ _ h => h) hTask
  refine wp_post (keeping hKept hs) ?_
  rintro r t l' ⟨⟨hDone, hEnd, hReady⟩, hHolds⟩
  exact ⟨⟨hEnd, hReady, hHolds⟩, fun result hResult => hDone result hResult hHolds⟩

/-- The commit which saves the checkpoint of a stage. -/
theorem save_wp {stage : Stage} {result : StageResult} (hReady : Ready runId stage s.tables)
    (hs : law.Holds s l) (hDone : law.Done stage result s l) :
    wp law.contract law.post (CheckpointStore.save p runId stage.name result.detail) s l := by
  unfold CheckpointStore.save
  refine wp_bind (fun r t l' => law.Holds t l' ∧ ∀ found, r = .ok found →
      found = none ∧ t = s ∧ law.Done stage result t l') (wp_select ?_ ?_) ?_
    fun _ _ _ hEnd => hEnd.1
  · rintro t ⟨rfl, -⟩
    refine ⟨fun _ => holds_still uncalled_looked hs, holds_still uncalled_looked hs, ?_⟩
    rintro found ⟨⟩
    exact ⟨hReady.noCheckpoint, rfl, law.still _ _ _ _ _ hDone⟩
  · rintro fault t ⟨rfl, -⟩
    exact ⟨fun _ => holds_still uncalled_refused hs, holds_still uncalled_refused hs,
      by rintro found ⟨⟩⟩
  rintro found t l' ⟨hHolds, hFound⟩
  obtain ⟨rfl, rfl, hLeft⟩ := hFound found rfl
  refine wp_bind (fun r u l' => ∃ id, r = .ok id ∧ u = t ∧ law.Holds u l' ∧
    law.Done stage result u l') (wp_query (S := Vocabulary) (q := .uuid4) fun id => ?_) ?_
    fun _ _ _ ⟨_, hEq, _⟩ => nomatch hEq
  · rintro u ⟨rfl, -⟩
    have hKept := holds_still (uncalled_asked .uuid4 id) hHolds
    exact ⟨fun _ => hKept, id, rfl, rfl, hKept, law.still _ _ _ _ _ hLeft⟩
  rintro id u l'' ⟨_, -, rfl, hHolds, hDone⟩
  refine wp_commit ?_ ?_
  · rintro v value w hRun ⟨rfl, -⟩
    have hSaved : law.Holds w (l'' ++ [⟨u, .moved, w⟩]) := by
      cases hWrites : u.db.applyAll [.insertCheckpoint
          ⟨id, runId, stage.name, result.detail.map (redactJson p.unicode)⟩] with
      | error error => simp [hWrites] at hRun
      | ok db =>
          simp only [hWrites, Except.ok.injEq] at hRun
          cases hRun
          exact law.saved stage result id u _ l'' hReady hHolds hDone rfl
            (Database.applyAll_ok hWrites)
    exact ⟨fun _ => hSaved, hSaved, fun _ => hSaved⟩
  · rintro v error - ⟨rfl, -⟩
    exact ⟨fun _ => holds_still uncalled_refused hHolds, holds_still uncalled_refused hHolds⟩

/-- A stage without a checkpoint. -/
theorem runStage_wp {breaker : CircuitBreaker} {services : PipelineServices} {budget : Usd}
    {stage : Stage} (hServices : services.platform = p) (hs : law.Holds s l) :
    wp law.contract law.post (runStage stageTasks breaker ⟨runId, services⟩ budget stage) s l := by
  subst hServices
  refine control_bind (control_markStageStart _ _) hs fun _ t l hHolds => ?_
  -- The line of the log tells that the turn of the stage has come, and that it may start here.
  refine wp_bind (fun r u l' => (∃ value, r = .ok value) ∧ law.Holds u l' ∧
      Ready runId stage u.tables ∧ law.May stage u) (wp_log ?_) ?_
    fun _ _ _ ⟨⟨_, hEq⟩, _⟩ => nomatch hEq
  · rintro u ⟨rfl, ⟨start, -, hEvent⟩, hStarted⟩
    have hUncalled : Uncalled (.wrote (.stageStarted runId (redactSecrets
        services.platform.unicode stage.name))) := by
      rintro _ _ ⟨⟩
    have hKept := holds_still hUncalled hHolds
    obtain ⟨-, other, hName, hReady, -⟩ := hEvent _ rfl
    obtain rfl : stage = other :=
      Stage.name_injective ((redactSecrets_stage _ stage).symm.trans hName)
    exact ⟨fun _ => hKept, ⟨(), rfl⟩, hKept, hReady, hStarted stage (by rw [redactSecrets_stage])⟩
  rintro _ u l ⟨-, hHolds, hReady, hMay⟩
  refine wp_bind (fun r v l' => (∃ value, r = .ok value) ∧ law.Holds v l' ∧
      Ready runId stage v.tables ∧ law.May stage v)
    (wp_query (S := Vocabulary) (q := .perfCounter) fun time => ?_) ?_
    fun _ _ _ ⟨⟨_, hEq⟩, _⟩ => nomatch hEq
  · rintro v ⟨rfl, -⟩
    have hKept := holds_still (uncalled_asked .perfCounter time) hHolds
    exact ⟨fun _ => hKept, ⟨time, rfl⟩, hKept, hReady, hMay⟩
  rintro _ v l ⟨-, hHolds, hReady, hMay⟩
  refine wp_bind _ (task_wp rfl hReady hMay hHolds) ?_ fun _ _ _ hEnd => hEnd.1.2.2
  rintro result w l ⟨⟨hEnd, hReady, hHolds⟩, hDone⟩
  simp only [show result.ok = true from hEnd.1, Bool.not_true, Bool.false_eq_true, if_false]
  refine wp_bind _ (save_wp hReady hHolds (hDone result rfl)) ?_ fun _ _ _ hEnd => hEnd
  intro _ x l hHolds
  refine control_bind (control_markCheckpoint _) hHolds fun _ y l hHolds => ?_
  refine control_bind (control_query _) hHolds fun _ y l hHolds => ?_
  refine control_bind (control_modifyMemory _) hHolds fun _ y l hHolds => ?_
  refine control_bind (control_emit (by rintro _ _ ⟨⟩)) hHolds fun _ y l hHolds => ?_
  exact control_wp (control_checkBreaker _ _ _ _) hHolds

/-- The flow keeps the law. -/
theorem executeStages_wp {services : PipelineServices} (hServices : services.platform = p)
    (hs : law.Holds s l) : wp law.contract law.post (executeStages ⟨runId, services⟩) s l := by
  refine control_bind (control_readStart _) hs fun start t l hHolds => ?_
  have hSome {program : Action Text} {u : World} {l : Log Vocabulary}
      (h : Keeps Control program) (hu : law.Holds u l) :
      wp law.contract law.post (some <$> program) u l :=
    control_bind h hu fun _ _ _ hEnd => .done hEnd
  refine wp_bind law.post (wp_tryCatch law.post ?_ (fun _ _ _ hEnd => hEnd) ?_) ?_
    fun _ _ _ hEnd => hEnd
  · refine wp_bind law.post (wp_forM (fun _ u l => law.Holds u l) ?_ (fun _ _ hEnd => hEnd) stages
      hHolds) (fun _ _ _ hEnd => .done hEnd) fun _ _ _ hEnd => hEnd
    intro stage rest u l hu
    have hStage : wp law.contract law.post
        (executeStage stageTasks .default ⟨runId, services⟩ start stage) u l := by
      unfold executeStage
      split
      · exact .done hu
      · exact runStage_wp hServices hu
    exact wp_post hStage fun r _ _ hEnd => by cases r <;> exact hEnd
  · intro error u l hu
    split
    · exact hSome (control_onBreach _ _) hu
    · exact hSome (control_onFailure _ _) hu
  · rintro (_ | outcome) u l hu
    · exact control_wp (control_onCompletion _) hu
    · exact .done hu

/-- The law holds after every history all of whose stages have started from where they may. -/
theorem history {t : World} {log : Log Vocabulary}
    (h : HistoryWhere (flowJob runId) (fun services _ => services.platform = p) s log t)
    (hOrderly : Orderly runId s.tables) (hs : law.Holds s [])
    (hStarted : ∀ m ∈ log, law.Started m) : law.Holds t log := by
  have hMoments := (History.flow_moments h hOrderly).2
  have hGranted (l : Log Vocabulary) (earlier later : Log Vocabulary)
      (hLog : log = earlier ++ later) : law.contract.Granted l later := by
    induction later generalizing l earlier with
    | nil => trivial
    | cons m rest ih =>
        have hMem : m ∈ log := by simp [hLog]
        obtain ⟨⟨start, _, -, hMoment⟩, -⟩ := hMoments m hMem
        exact ⟨⟨⟨start.tables, hMoment⟩, hStarted m hMem⟩, ih _ (earlier ++ [m]) (by simp [hLog])⟩
  obtain ⟨-, hEnd⟩ := h.invariant (C := law.contract) (l := []) (fun _ => rfl) law.Holds
    (fun l m hBefore hKept => hKept hBefore)
    (fun services u l hServices hu => wp_post (executeStages_wp hServices hu)
      fun _ _ _ _ => trivial) hs (hGranted [] [] log rfl)
  simpa using hEnd

end FlowLaw

/-! ## Milestones -/

section Completed

variable {runId : Uuid} {stage : Stage} {t t' : Tables}

/-- A ready stage has exactly the stages before it behind it. -/
theorem Ready.completed_iff (h : Ready runId stage t) (other : Stage) :
    other.name ∈ completedOf runId t ↔ other.index < stage.index := by
  rw [h, Stage.name_mem, Stage.mem_take]

/-- The stages after the checkpoint of one of them. -/
theorem completedOf_saved {row : Checkpoint} (hRun : row.runId = runId)
    (h : t'.checkpoints = t.checkpoints ++ [row]) :
    completedOf runId t' = completedOf runId t ++ [row.stage] := by
  simp [completedOf, h, hRun]

theorem findCheckpoint_new {row : Checkpoint} {checkpoints : List Checkpoint} {name : Text}
    (hNone : findCheckpoint runId name checkpoints = none)
    (hRow : row.runId = runId ∧ row.stage = name) :
    findCheckpoint runId name (checkpoints ++ [row]) = some row := by
  rw [findCheckpoint] at hNone
  rw [findCheckpoint, findRow_append, hNone, Option.none_or]
  simp [findRow, hRow]

theorem findCheckpoint_old {row added : Checkpoint} {checkpoints : List Checkpoint} {name : Text}
    (hFound : findCheckpoint runId name checkpoints = some row) :
    findCheckpoint runId name (checkpoints ++ [added]) = some row := by
  rw [findCheckpoint] at hFound
  rw [findCheckpoint, findRow_append, hFound, Option.some_or]

end Completed

/-- What holds of a run from the checkpoint of a stage on. -/
structure Milestone (runId : Uuid) (p : Platform) (pivot : Stage) where
  /-- What holds throughout. -/
  Always : World → Log Vocabulary → Prop
  /-- What holds from the checkpoint on. -/
  Reached : World → Log Vocabulary → Prop
  /-- Where the stage may start. -/
  May : World → Prop
  /-- What the task of the stage leaves behind. -/
  Left : StageResult → World → Log Vocabulary → Prop
  always_control : ∀ l m, Control m → Always m.before l → Always m.after (l ++ [m])
  reached_control : ∀ l m, Control m → Reached m.before l → Reached m.after (l ++ [m])
  always_saved : ∀ w v l row, Always w l → v.blobs = w.blobs →
    v.tables = { w.tables with checkpoints := w.tables.checkpoints ++ [row] } →
    Always v (l ++ [⟨w, .moved, v⟩])
  /-- The checkpoint of a later stage. -/
  reached_saved : ∀ w v l row, row.stage ≠ pivot.name → Reached w l → v.blobs = w.blobs →
    v.tables = { w.tables with checkpoints := w.tables.checkpoints ++ [row] } →
    Reached v (l ++ [⟨w, .moved, v⟩])
  /-- The task of another stage; that of a later one keeps what has been reached. -/
  task : ∀ stage services t l, stage ≠ pivot → services.platform = p → Always t l →
    wp (.alongside (fun m => TaskMoment runId stage m)
        fun l m => (Always m.before l → Always m.after (l ++ [m])) ∧
          (pivot.index < stage.index → Always m.before l → Reached m.before l →
            Reached m.after (l ++ [m])))
      (fun _ _ _ => True) (stageTasks stage ⟨runId, services⟩) t l
  turn : ∀ services t l, services.platform = p → May t → Always t l →
    wp (.alongside (fun m => TaskMoment runId pivot m)
        fun l m => Always m.before l → Always m.after (l ++ [m]))
      (fun r w l' => ∀ result, r = .ok result → Always w l' → Left result w l')
      (stageTasks pivot ⟨runId, services⟩) t l
  left_still : ∀ result w l happening, Left result w l → Left result w (l ++ [⟨w, happening, w⟩])
  left_saved : ∀ result id w v l, findCheckpoint runId pivot.name w.tables.checkpoints = none →
    Always w l → Left result w l → v.blobs = w.blobs →
    v.tables = { w.tables with checkpoints := w.tables.checkpoints ++
      [⟨id, runId, pivot.name, result.detail.map (redactJson p.unicode)⟩] } →
    Reached v (l ++ [⟨w, .moved, v⟩])

namespace Milestone

variable {runId : Uuid} {p : Platform} {pivot : Stage} (stone : Milestone runId p pivot)

/-- A milestone as a law. -/
def law : FlowLaw runId p where
  Holds w l := stone.Always w l ∧ (pivot.name ∈ completedOf runId w.tables → stone.Reached w l)
  May stage w := stage = pivot → stone.May w
  Done stage result w l := stage = pivot → stone.Left result w l
  control := by
    rintro l m hControl ⟨hAlways, hReached⟩
    refine ⟨stone.always_control l m hControl hAlways, fun hDone => ?_⟩
    obtain ⟨runs, rows, hTables⟩ := hControl.tables
    rw [completedOf_congr (by rw [hTables])] at hDone
    exact stone.reached_control l m hControl (hReached hDone)
  still := fun stage result w l happening hDone hStage =>
    stone.left_still result w l happening (hDone hStage)
  task := by
    rintro stage services t l hServices hReady hMay ⟨hAlways, -⟩
    by_cases hPivot : stage = pivot
    · subst hPivot
      refine wp_weaken (stone.turn services t l hServices (hMay rfl) hAlways) (fun _ h => h.1) ?_ ?_
      · rintro l m ⟨hTask, hTurn⟩ hKept ⟨hBefore, -⟩
        refine ⟨hKept hBefore, fun hDone => ?_⟩
        rw [completedOf_congr hTask.1.checkpoints] at hDone
        exact absurd hDone hTurn.not_completed
      · rintro r w l' hLeft result hResult ⟨hEnd, -⟩ -
        exact hLeft result hResult hEnd
    · refine wp_weaken (stone.task stage services t l hPivot hServices hAlways) (fun _ h => h.1)
        ?_ ?_
      · rintro l m ⟨hTask, hTurn⟩ ⟨hKept, hLater⟩ ⟨hBefore, hReached⟩
        refine ⟨hKept hBefore, fun hDone => ?_⟩
        rw [completedOf_congr hTask.1.checkpoints] at hDone
        exact hLater ((hTurn.completed_iff pivot).mp hDone) hBefore (hReached hDone)
      · exact fun _ _ _ _ _ _ _ hStage => absurd hStage hPivot
  saved := by
    rintro stage result id w v l hReady ⟨hAlways, hReached⟩ hDone hBlobs hTables
    refine ⟨stone.always_saved w v l _ hAlways hBlobs hTables, fun hSaved => ?_⟩
    by_cases hPivot : stage = pivot
    · subst hPivot
      exact stone.left_saved result id w v l hReady.noCheckpoint hAlways (hDone rfl) hBlobs hTables
    · have hName : stage.name ≠ pivot.name := fun hName => hPivot (Stage.name_injective hName)
      have hCheckpoints : v.tables.checkpoints = w.tables.checkpoints ++
          [⟨id, runId, stage.name, result.detail.map (redactJson p.unicode)⟩] := by rw [hTables]
      rw [completedOf_saved rfl hCheckpoints, List.mem_append, List.mem_singleton] at hSaved
      exact stone.reached_saved w v l _ hName
        (hReached (hSaved.resolve_right fun h => hName h.symm)) hBlobs hTables

/-- What holds from the checkpoint on, in every history in which the stage has always started from
where it may. -/
theorem history {s t : World} {log : Log Vocabulary}
    (h : HistoryWhere (flowJob runId) (fun services _ => services.platform = p) s log t)
    (hOrderly : Orderly runId s.tables) (hOpen : pivot.name ∉ completedOf runId s.tables)
    (hs : stone.Always s [])
    (hStarted : ∀ m ∈ log, m.happening = .wrote (.stageStarted runId pivot.name) →
      stone.May m.before) :
    stone.Always t log ∧ (pivot.name ∈ completedOf runId t.tables → stone.Reached t log) := by
  refine stone.law.history h hOrderly ⟨hs, fun hDone => absurd hDone hOpen⟩
    fun m hm stage hEvent => ?_
  rintro rfl
  exact hStarted m hm hEvent

end Milestone

end Ecrke
