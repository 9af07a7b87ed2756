import Ecrke.Pipeline.FlowSteps

/-!
# The flow keeps to its steps

Whatever the providers answer, wherever a database step fails and wherever an execution is cut off,
every step of `executeStages` is one of `FlowStep`, and an execution which returns an outcome has
reached the state which the outcome names.

* `Running`, `StageReady`, `Failing` -- the assertions between the parts of a stage.
* `runStage_spec` -- a stage without a checkpoint.
* `guardedStages_spec` -- the loop with its handlers.
* `executeStages_spec` -- the flow.
-/

namespace Ecrke

open Durable

/-- What an execution which returns has reached. -/
def FlowEnd (runId : Uuid) (outcome : Text) (t : Tables) : Prop :=
  ∃ run, runOf runId t = some run ∧
    ((outcome = "completed".toList ∧ Stage.trace.name ∈ completedOf runId t) ∨
      (outcome = "paused".toList ∧ run.status = .paused))

/-- The end of an execution. -/
abbrev flowEnds (runId : Uuid) : Except PyError Text → World → Prop :=
  onOk (S := Vocabulary) fun outcome (t : World) => FlowEnd runId outcome t.tables

/-- The run exists, with the budget which the execution has read. -/
def Running (runId : Uuid) (budget : Usd) (t : Tables) : Prop :=
  ∃ run, runOf runId t = some run ∧ run.costBudgetUsd = budget

/-- A stage may be executed: its turn has come, and the spend of the run did not get over the budget
during the execution. -/
structure StageReady (runId : Uuid) (start : Tables) (budget : Usd) (stage : Stage) (t : Tables) :
    Prop where
  ready : Ready runId stage t
  running : Running runId budget t
  fresh : stage.name ∉ completedOf runId start
  within : Over runId start ∨ ¬ Over runId t

/-- The checkpoint of a stage has been saved. -/
structure Saved (runId : Uuid) (budget : Usd) (stage : Stage) (t : Tables) : Prop where
  completed : completedOf runId t = (stages.take (stage.index + 1)).map Stage.name
  running : Running runId budget t

/-- What holds when an exception leaves a stage: a breach never follows the last stage. -/
structure Failing (runId : Uuid) (budget : Usd) (error : PyError) (t : Tables) : Prop where
  running : Running runId budget t
  breach : error.kind = .circuitBreakerError → Stage.trace.name ∉ completedOf runId t

/-- The end of a part of a stage which either reaches a condition or fails. -/
def orFailing {α : Type} (runId : Uuid) (budget : Usd) (Q : α → Tables → Prop) :
    Except PyError α → World → Prop
  | .ok value, w => Q value w.tables
  | .error error, w => Failing runId budget error w.tables

section Assertions

variable {runId : Uuid} {start t t' : Tables} {budget : Usd} {stage : Stage} {run : Run}

theorem over_iff (hRun : runOf runId t = some run) :
    Over runId t ↔ run.costBudgetUsd < run.costSpentUsd := by
  constructor
  · rintro ⟨found, hFound, hOver⟩
    obtain rfl : found = run := Option.some.inj (hFound.symm.trans hRun)
    exact hOver
  · exact fun hOver => ⟨run, hRun, hOver⟩

theorem FlowStep.running (h : FlowStep runId start t t') (hRunning : Running runId budget t) :
    Running runId budget t' := by
  obtain ⟨run, hRun, hBudget⟩ := hRunning
  obtain ⟨run', hRun', hKept, -⟩ := h.runRow hRun
  exact ⟨run', hRun', hKept.budget.trans hBudget⟩

theorem Failing.of_dbError {error : PyError} (hRunning : Running runId budget t)
    (hError : IsDbError error) : Failing runId budget error t := by
  refine ⟨hRunning, fun hKind => ?_⟩
  rw [IsDbError, hKind] at hError
  exact absurd hError (by decide)

theorem Failing.of_ready {error : PyError} (hRunning : Running runId budget t)
    (hReady : Ready runId stage t) : Failing runId budget error t :=
  ⟨hRunning, fun _ => hReady.open⟩

theorem FlowMoment.of_quiet (m : Moment Vocabulary) (h : Quiet m) : FlowMoment runId start m := by
  refine ⟨?_, fun event hEvent => absurd hEvent (h.2 event)⟩
  rw [World.tables, World.tables, h.1]
  exact .idle

theorem FlowMoment.moved {s w : World} (h : FlowStep runId start s.tables w.tables) :
    FlowMoment runId start ⟨s, .moved, w⟩ :=
  ⟨h, by simp⟩

theorem FlowMoment.of_task (m : Moment Vocabulary) (h : TaskMoment runId stage m)
    (hReady : Ready runId stage m.before.tables) : FlowMoment runId start m := by
  refine ⟨.task stage hReady h.1, fun event hEvent => ?_⟩
  obtain ⟨-, passageId, rfl⟩ := h.2 event hEvent
  trivial

/-- A line of the log inside the flow. -/
theorem Alone.emit {s : World} {event : Event} {Q : Except PyError Unit → World → Prop}
    (hEvent : FlowEvent runId start s.tables event) (hQ : Q (.ok ()) s) :
    Alone (FlowMoment runId start) Q (Ecrke.emit event) s := by
  refine Alone.log ⟨.idle, fun other hOther => ?_⟩ hQ
  cases hOther
  exact hEvent

end Assertions

/-! ## The parts of a stage -/

section Parts

variable {s : World} {start : Tables} {budget : Usd} {stage : Stage} {runId : Uuid}

theorem markStageStart_spec (h : StageReady runId start budget stage s.tables) :
    Alone (FlowMoment runId start)
      (orFailing runId budget fun _ => StageReady runId start budget stage)
      (markStageStart runId stage) s := by
  obtain ⟨run, hRun, hBudget⟩ := h.running
  refine Alone.withRun FlowMoment.of_quiet ?_ ?_ fun _ hError => .of_dbError h.running hError
  · intro found hFound
    have hStep : FlowStep runId start s.tables (s.tables.setRun (found.atStage stage)) :=
      .started stage h.ready found hFound
    have hEdit : (found.atStage stage).EditOf found := ⟨rfl, rfl, rfl, rfl, rfl⟩
    refine Alone.commitRun FlowMoment.of_quiet hFound hEdit (fun t ht => ?_)
      fun _ hError => .of_dbError h.running hError
    have hRunning : Running runId budget t.tables := ht ▸ hStep.running h.running
    refine ⟨.moved (ht ▸ hStep), ⟨?_, hRunning, h.fresh, ?_⟩, fun _ => .of_dbError hRunning⟩
    · rw [ht]
      exact h.ready
    · refine h.within.imp_right fun hWithin => ?_
      rw [over_iff hFound] at hWithin
      rwa [ht, over_iff (runOf_setRun hFound rfl : runOf runId _ = some (found.atStage stage))]
  · intro hNone
    simp [hNone] at hRun

/-- The task of a stage inside the flow. -/
theorem task_spec {tasks : StageTasks} {ctx : PipelineContext}
    (hTask : Alone (TaskMoment ctx.runId stage) (onOk (TaskEnd ctx.runId stage))
      (tasks stage ctx) s)
    (hReady : Ready ctx.runId stage s.tables) (hRunning : Running ctx.runId budget s.tables) :
    Alone (FlowMoment ctx.runId start)
      (orFailing ctx.runId budget fun result t => result.ok = true ∧ Ready ctx.runId stage t ∧
        Running ctx.runId budget t ∧ (stage = .trace → Finished ctx.runId t))
      (tasks stage ctx) s := by
  have hI : ∀ m : Moment Vocabulary,
      Ready ctx.runId stage m.before.tables ∧ Running ctx.runId budget m.before.tables →
      TaskMoment ctx.runId stage m →
      Ready ctx.runId stage m.after.tables ∧ Running ctx.runId budget m.after.tables := by
    rintro m ⟨hReady, hRunning⟩ hm
    have hStep : FlowStep ctx.runId start m.before.tables m.after.tables := .task stage hReady hm.1
    refine ⟨?_, hStep.running hRunning⟩
    rw [Ready, completedOf_congr hm.1.checkpoints]
    exact hReady
  refine (Alone.keeping (I := fun w : World => Ready ctx.runId stage w.tables ∧
    Running ctx.runId budget w.tables) hI hTask ⟨hReady, hRunning⟩).mono
      (fun m hm => .of_task m hm.1 hm.2.1) ?_
  rintro (error | result) t ⟨hEnd, hReady, hRunning⟩
  · exact .of_ready hRunning hReady
  · exact ⟨hEnd.1, hReady, hRunning, hEnd.2⟩

theorem save_spec {p : Platform} {state : Option Json} (hReady : Ready runId stage s.tables)
    (hRunning : Running runId budget s.tables)
    (hFinished : stage = .trace → Finished runId s.tables) :
    Alone (FlowMoment runId start) (orFailing runId budget fun _ => Saved runId budget stage)
      (CheckpointStore.save p runId stage.name state) s := by
  unfold CheckpointStore.save
  refine Alone.withTables FlowMoment.of_quiet ?_ fun _ hError => Failing.of_dbError hRunning hError
  rw [hReady.noCheckpoint]
  refine Alone.ask FlowMoment.of_quiet fun id => ?_
  have hStep : FlowStep runId start s.tables _ := .saved stage hReady hFinished
    ⟨id, runId, stage.name, state.map (redactJson p.unicode)⟩ ⟨rfl, rfl⟩
  refine Alone.commitWrites FlowMoment.of_quiet (fun t ht => ?_)
    fun _ hError => .of_dbError hRunning hError
  have hTables : t.tables = { s.tables with
      checkpoints := s.tables.checkpoints ++
        [⟨id, runId, stage.name, state.map (redactJson p.unicode)⟩] } := ht
  have hRunning' : Running runId budget t.tables := hTables ▸ hStep.running hRunning
  refine ⟨.moved (hTables ▸ hStep), ⟨?_, hRunning'⟩, fun _ => .of_dbError hRunning'⟩
  rw [hTables, stage.take_index, List.map_append, ← hReady]
  simp [completedOf]

theorem markCheckpoint_spec (h : Saved runId budget stage s.tables) :
    Alone (FlowMoment runId start) (orFailing runId budget fun _ => Saved runId budget stage)
      (markCheckpoint runId) s := by
  refine Alone.withTables FlowMoment.of_quiet ?_ fun _ hError => .of_dbError h.running hError
  refine Alone.withRun FlowMoment.of_quiet ?_ (fun _ => Alone.done h)
    fun _ hError => .of_dbError h.running hError
  intro run hRun
  refine Alone.commitWrites FlowMoment.of_quiet (fun t ht => ?_)
    fun _ hError => .of_dbError h.running hError
  have hStep : FlowStep runId start s.tables t.tables := by
    split at ht
    · rw [ht]
      exact .idle
    · rw [ht, Tables.after_cons, Tables.after_nil, Write.effect,
        s.db.valid.runsKey.modifyRow_const (runOf_mem hRun)]
      exact FlowStep.mirrored run hRun (some _)
  have hSaved : Saved runId budget stage t.tables := by
    refine ⟨?_, hStep.running h.running⟩
    rw [← h.completed]
    apply completedOf_congr
    split at ht <;> rw [ht] <;> rfl
  exact ⟨.moved hStep, hSaved, fun _ => .of_dbError hSaved.running⟩

theorem getLast_stages : stages.getLast? = some stage ↔ stage = .trace := by
  cases stage <;> decide

theorem checkBreaker_spec {breaker : CircuitBreaker} {ctx : PipelineContext}
    (h : Saved ctx.runId budget stage s.tables) :
    Alone (FlowMoment ctx.runId start)
      (orFailing ctx.runId budget fun _ t => Saved ctx.runId budget stage t ∧
        (stage = .trace ∨ ¬ Over ctx.runId t))
      (checkBreaker breaker ctx budget stage) s := by
  refine Alone.ite (fun hLast => Alone.done ⟨h, .inl (getLast_stages.mp hLast)⟩) fun hLast => ?_
  obtain ⟨run, hRun, hBudget⟩ := h.running
  refine Alone.withRun FlowMoment.of_quiet ?_ ?_ fun _ hError => .of_dbError h.running hError
  · intro found hFound
    obtain rfl : found = run := Option.some.inj (hFound.symm.trans hRun)
    refine Alone.ofExcept ?_
    simp only [Option.map_some, Option.getD_some]
    cases hCheck : breaker.check ctx.services.platform stage.name found.costSpentUsd budget with
    | ok value =>
        refine ⟨h, .inr ?_⟩
        rw [over_iff hRun, hBudget]
        exact not_lt.mpr ((breaker.check_ok_iff _ _ _ _).mp hCheck).1
    | error error =>
        refine ⟨h.running, fun _ => ?_⟩
        rw [h.completed, Stage.name_mem]
        have hStage : stage ≠ .trace := fun hEq => hLast (getLast_stages.mpr hEq)
        cases stage <;> first | exact absurd rfl hStage | decide
  · intro hNone
    simp [hNone] at hRun

/-- A stage without a checkpoint. -/
theorem runStage_spec {tasks : StageTasks} {breaker : CircuitBreaker} {ctx : PipelineContext}
    (hTask : ∀ t, Alone (TaskMoment ctx.runId stage) (onOk (TaskEnd ctx.runId stage))
      (tasks stage ctx) t)
    (h : StageReady ctx.runId start budget stage s.tables) :
    Alone (FlowMoment ctx.runId start)
      (orFailing ctx.runId budget fun _ t => Saved ctx.runId budget stage t ∧
        (stage = .trace ∨ ¬ Over ctx.runId t))
      (runStage tasks breaker ctx budget stage) s := by
  refine Alone.bind _ (markStageStart_spec h) (fun _ t ht => ?_) fun _ _ h => h
  refine Alone.bind _ (Alone.emit (Q := orFailing ctx.runId budget fun _ =>
    StageReady ctx.runId start budget stage) ?_ ht) (fun _ u hu => ?_) fun _ _ h => h
  · exact ⟨rfl, stage, redactSecrets_stage _ _, ht.ready, ht.fresh, ht.within⟩
  refine Alone.ask FlowMoment.of_quiet fun startedAt => ?_
  refine Alone.bind _ (task_spec (hTask u) hu.ready hu.running) ?_ fun _ _ h => h
  rintro result v ⟨hOk, hReady, hRunning, hFinished⟩
  simp only [hOk, Bool.not_true, Bool.false_eq_true, if_false]
  refine Alone.bind _ (save_spec hReady hRunning hFinished) (fun _ w hw => ?_) fun _ _ h => h
  refine Alone.bind _ (markCheckpoint_spec hw) (fun _ x hx => ?_) fun _ _ h => h
  refine Alone.ask FlowMoment.of_quiet fun endedAt => ?_
  refine Alone.bind (orFailing ctx.runId budget fun _ => Saved ctx.runId budget stage)
    (Alone.modifyMemory FlowMoment.of_quiet fun y hy => ?_) (fun _ y hy => ?_) fun _ _ h => h
  · show Saved ctx.runId budget stage y.tables
    exact hy ▸ hx
  refine Alone.bind (orFailing ctx.runId budget fun _ => Saved ctx.runId budget stage)
    (Alone.emit trivial hy) (fun _ z hz => ?_) fun _ _ h => h
  exact checkBreaker_spec hz

end Parts

/-! ## The loop -/

theorem Stage.mem_take {stage : Stage} {n : Nat} : stage ∈ stages.take n ↔ stage.index < n :=
  List.mem_take_iff_idxOf_lt stage.mem_stages

theorem Stage.index_of_drop {stage : Stage} {k : Nat} {rest : List Stage}
    (h : stages.drop k = stage :: rest) : stage.index = k ∧ stages.drop (k + 1) = rest := by
  have hLt : k < stages.length := by
    by_contra hNot
    simp [List.drop_eq_nil_of_le (not_lt.mp hNot)] at h
  rw [List.drop_eq_getElem_cons hLt, List.cons.injEq] at h
  refine ⟨?_, h.2⟩
  rw [Stage.index, ← h.1]
  exact List.Nodup.idxOf_getElem (by decide) k hLt

/-- Between two turns of the loop: the stages up to here are checkpointed, and the spend of the run
did not get over the budget during the execution, unless the loop is over. -/
structure Turn (runId : Uuid) (start : Tables) (n : Nat) (budget : Usd) (k : Nat) (t : Tables) :
    Prop where
  completed : completedOf runId t = (stages.take (max n k)).map Stage.name
  running : Running runId budget t
  within : stages.drop k = [] ∨ Over runId start ∨ ¬ Over runId t

section Loop

variable {s : World} {tasks : StageTasks} {breaker : CircuitBreaker} {ctx : PipelineContext}
  {start : Tables} {budget : Usd} {n : Nat}

theorem executeStage_spec {stage : Stage} {rest : List Stage} {k : Nat}
    (hTask : ∀ t, Alone (TaskMoment ctx.runId stage) (onOk (TaskEnd ctx.runId stage))
      (tasks stage ctx) t)
    (hStart : completedOf ctx.runId start = (stages.take n).map Stage.name)
    (hItems : stages.drop k = stage :: rest) (h : Turn ctx.runId start n budget k s.tables) :
    Alone (FlowMoment ctx.runId start)
      (orFailing ctx.runId budget fun _ => Turn ctx.runId start n budget (k + 1))
      (executeStage tasks breaker ctx ⟨completedOf ctx.runId start, budget⟩ stage) s := by
  obtain ⟨hIndex, hRest⟩ := Stage.index_of_drop hItems
  have hMem : stage.name ∈ completedOf ctx.runId start ↔ k < n := by
    rw [hStart, Stage.name_mem, Stage.mem_take, hIndex]
  have hWithin := h.within.resolve_left (by simp [hItems])
  refine Alone.ite (fun hSkip => Alone.done ?_) fun hRun => ?_
  · refine ⟨?_, h.running, .inr hWithin⟩
    have hLt := hMem.mp hSkip
    rw [h.completed, Nat.max_eq_left (by omega), Nat.max_eq_left (by omega)]
  · have hLe : n ≤ k := by
      rw [hMem] at hRun
      omega
    have hReady : Ready ctx.runId stage s.tables := by
      rw [Ready, h.completed, hIndex, Nat.max_eq_right hLe]
    refine (runStage_spec hTask ⟨hReady, h.running, hRun, hWithin⟩).post ?_
    rintro (error | _) t ht
    · exact ht
    · obtain ⟨hSaved, hOver⟩ := ht
      refine ⟨?_, hSaved.running, ?_⟩
      · rw [hSaved.completed, hIndex, Nat.max_eq_right (by omega)]
      · refine hOver.imp ?_ .inr
        rintro rfl
        rw [← hIndex]
        decide

/-- The loop over the stages. -/
theorem stageLoop_spec
    (hTasks : ∀ stage t, Alone (TaskMoment ctx.runId stage) (onOk (TaskEnd ctx.runId stage))
      (tasks stage ctx) t)
    (hStart : completedOf ctx.runId start = (stages.take n).map Stage.name)
    (h : Turn ctx.runId start n budget 0 s.tables) :
    Alone (FlowMoment ctx.runId start)
      (orFailing ctx.runId budget fun _ t =>
        Running ctx.runId budget t ∧ Stage.trace.name ∈ completedOf ctx.runId t)
      (stages.forM (executeStage tasks breaker ctx ⟨completedOf ctx.runId start, budget⟩)) s := by
  refine Alone.forM (fun items (t : World) => ∃ k, items = stages.drop k ∧
    Turn ctx.runId start n budget k t.tables) ?_ ?_ stages ⟨0, rfl, h⟩
  · rintro stage rest t ⟨k, hItems, hTurn⟩
    refine (executeStage_spec (hTasks stage) hStart hItems.symm hTurn).post ?_
    rintro (error | _) u hu
    · exact hu
    · exact ⟨k + 1, (Stage.index_of_drop hItems.symm).2.symm, hu⟩
  · rintro t ⟨k, hItems, hTurn⟩
    have hLe : stages.length ≤ k := List.drop_eq_nil_iff.mp hItems.symm
    refine ⟨hTurn.running, ?_⟩
    rw [hTurn.completed, List.take_of_length_le (by omega)]
    decide

/-! ## The handlers -/

theorem quiet_recordRunCost (runId : Uuid) : Keeps Quiet (recordRunCost runId) := by
  refine keeps_tryCatch (keeps_bind (quiet_getRun _) fun found => ?_) fun _ => keeps_done _
  cases found with
  | none => exact keeps_done _
  | some run => exact quiet_modifyMemory _

/-- The run exists and is paused. -/
def Paused (runId : Uuid) (t : Tables) : Prop :=
  ∃ run, runOf runId t = some run ∧ run.status = .paused

theorem pauseRun_spec {runId : Uuid} (hRunning : Running runId budget s.tables)
    (hOpen : Stage.trace.name ∉ completedOf runId s.tables) :
    Alone (FlowMoment runId start) (onOk fun _ t => Paused runId t.tables) (pauseRun runId) s := by
  obtain ⟨run, hRun, -⟩ := hRunning
  refine Alone.withRun FlowMoment.of_quiet ?_ ?_ fun _ _ => trivial
  · intro found hFound
    have hEdit : { found with status := RunStatus.paused }.EditOf found :=
      ⟨rfl, rfl, rfl, rfl, rfl⟩
    refine Alone.commitRun FlowMoment.of_quiet hFound hEdit (fun t ht => ?_) fun _ _ => trivial
    refine ⟨.moved (ht ▸ .paused hOpen found hFound), ?_, fun _ _ => trivial⟩
    show Paused runId t.tables
    exact ht ▸ ⟨_, runOf_setRun hFound rfl, rfl⟩
  · intro hNone
    simp [hNone] at hRun

theorem onBreach_spec {error : PyError} (hRunning : Running ctx.runId budget s.tables)
    (hOpen : Stage.trace.name ∉ completedOf ctx.runId s.tables) :
    Alone (FlowMoment ctx.runId start) (flowEnds ctx.runId) (onBreach ctx error) s := by
  refine Alone.bind_ok _ (pauseRun_spec hRunning hOpen) fun _ t ht => ?_
  refine Alone.bind_ok _ (Alone.quietOk FlowMoment.of_quiet (quiet_recordRunCost _) ht)
    fun _ u hu => ?_
  refine Alone.bind_ok _
    (Alone.emit (Q := onOk (S := Vocabulary) fun _ (v : World) => Paused ctx.runId v.tables) ?_ hu)
    fun _ v hv => ?_
  · trivial
  refine Alone.bind_ok _ (Alone.quietOk FlowMoment.of_quiet (quiet_modifyMemory _) hv) ?_
  rintro _ w ⟨run, hRun, hStatus⟩
  exact Alone.done ⟨run, hRun, .inr ⟨rfl, hStatus⟩⟩

theorem failRun_spec {runId : Uuid} (u : Unicode) (error : PyError) :
    Alone (FlowMoment runId start) (onOk fun _ _ => True) (failRun u runId error) s := by
  refine Alone.withRun FlowMoment.of_quiet ?_ (fun _ => Alone.done trivial) fun _ _ => trivial
  intro run hRun
  refine Alone.ask FlowMoment.of_quiet fun id => Alone.ask FlowMoment.of_quiet fun ts => ?_
  refine Alone.commitWrites FlowMoment.of_quiet (fun t ht => ?_) fun _ _ => trivial
  refine ⟨.moved ?_, trivial, fun _ _ => trivial⟩
  have hEdit : { run with status := RunStatus.failed }.EditOf run := ⟨rfl, rfl, rfl, rfl, rfl⟩
  rw [ht, Tables.after_append, Tables.after_updates s.db.valid.runsKey (runOf_mem hRun) hEdit]
  exact .failed run hRun _ rfl

theorem onFailure_spec (error : PyError) :
    Alone (FlowMoment ctx.runId start) (flowEnds ctx.runId) (onFailure ctx error) s := by
  refine Alone.bind_ok _ (failRun_spec _ _) fun _ t _ => ?_
  refine Alone.bind_ok _ (Alone.toOk (Alone.quietly FlowMoment.of_quiet (quiet_recordRunCost _)))
    fun _ u _ => ?_
  refine Alone.bind_ok (fun _ _ => True) (Alone.emit trivial trivial) fun _ v _ => ?_
  refine Alone.bind_ok _ (Alone.toOk (Alone.quietly FlowMoment.of_quiet (quiet_modifyMemory _)))
    fun _ w _ => ?_
  exact Alone.raise trivial

theorem onCompletion_spec (hEnd : FlowEnd ctx.runId "completed".toList s.tables) :
    Alone (FlowMoment ctx.runId start) (flowEnds ctx.runId) (onCompletion ctx) s := by
  refine Alone.bind_ok _ (Alone.quietOk FlowMoment.of_quiet (quiet_recordRunCost _) hEnd)
    fun _ t ht => ?_
  refine Alone.bind_ok _ (Alone.emit (Q := onOk (S := Vocabulary) fun _ (u : World) =>
    FlowEnd ctx.runId "completed".toList u.tables) ?_ ht) fun _ u hu => ?_
  · trivial
  refine Alone.bind_ok _ (Alone.quietOk FlowMoment.of_quiet (quiet_modifyMemory _) hu) ?_
  exact fun _ v hv => Alone.done hv

/-- The loop with its handlers. -/
theorem guardedStages_spec
    (hTasks : ∀ stage t, Alone (TaskMoment ctx.runId stage) (onOk (TaskEnd ctx.runId stage))
      (tasks stage ctx) t)
    (hStart : completedOf ctx.runId start = (stages.take n).map Stage.name)
    (h : Turn ctx.runId start n budget 0 s.tables) :
    Alone (FlowMoment ctx.runId start)
      (onOk fun outcome t => FlowEnd ctx.runId (outcome.getD "completed".toList) t.tables)
      (guardedStages tasks breaker ctx ⟨completedOf ctx.runId start, budget⟩) s := by
  have hSome {p : Action Text} {t : World}
      (hp : Alone (FlowMoment ctx.runId start) (flowEnds ctx.runId) p t) :
      Alone (FlowMoment ctx.runId start)
        (onOk fun outcome t => FlowEnd ctx.runId (outcome.getD "completed".toList) t.tables)
        (some <$> p) t :=
    Alone.bind_ok _ hp fun _ _ hEnd => Alone.done hEnd
  refine Alone.tryCatch (orFailing ctx.runId budget fun (outcome : Option Text) t =>
    outcome = none ∧ Running ctx.runId budget t ∧ Stage.trace.name ∈ completedOf ctx.runId t)
    (Alone.bind _ (stageLoop_spec hTasks hStart h) (fun _ _ ht => Alone.done ⟨rfl, ht⟩)
      fun _ _ h => h) ?_ ?_
  · rintro outcome t ⟨rfl, ⟨run, hRun, -⟩, hCompleted⟩
    exact ⟨run, hRun, .inl ⟨rfl, hCompleted⟩⟩
  · intro error t hFailing
    refine Alone.ite (fun hKind => hSome ?_) fun _ => hSome (onFailure_spec error)
    exact onBreach_spec hFailing.running (hFailing.breach hKind)

/-- The flow over any tasks which keep to the steps of their stages. -/
theorem executeStagesWith_spec
    (hTasks : ∀ stage t, Alone (TaskMoment ctx.runId stage) (onOk (TaskEnd ctx.runId stage))
      (tasks stage ctx) t)
    (hOrderly : Orderly ctx.runId s.tables) :
    Alone (FlowMoment ctx.runId s.tables) (flowEnds ctx.runId)
      (executeStagesWith tasks breaker ctx) s := by
  obtain ⟨n, hStart⟩ := hOrderly
  refine Alone.bind_ok (S := Vocabulary) (fun (start : FlowStart) (t : World) => t = s ∧
    start.completed = completedOf ctx.runId s.tables ∧
    Running ctx.runId start.runBudget s.tables) ?_ ?_
  · refine Alone.withTables FlowMoment.of_quiet ?_ fun _ _ => trivial
    refine Alone.withRun FlowMoment.of_quiet ?_ (fun _ => Alone.raise trivial) fun _ _ => trivial
    exact fun run hRun => Alone.done ⟨rfl, rfl, run, hRun, rfl⟩
  rintro ⟨completed, budget⟩ t ⟨rfl, rfl, hRunning⟩
  have hTurn : Turn ctx.runId t.tables n budget 0 t.tables := by
    refine ⟨by simpa using hStart, hRunning, .inr ?_⟩
    exact Classical.em _
  refine Alone.bind_ok _ (guardedStages_spec hTasks hStart hTurn) fun outcome u hEnd => ?_
  cases outcome with
  | some outcome => exact Alone.done hEnd
  | none => exact onCompletion_spec hEnd

end Loop

/-- The flow. -/
theorem executeStages_spec {s : World} (ctx : PipelineContext)
    (hOrderly : Orderly ctx.runId s.tables) :
    Alone (FlowMoment ctx.runId s.tables) (flowEnds ctx.runId) (executeStages ctx) s :=
  executeStagesWith_spec (fun stage _ => stageTasks_spec stage ctx) hOrderly

end Ecrke
