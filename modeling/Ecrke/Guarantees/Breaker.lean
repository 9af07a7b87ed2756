import Ecrke.Durable.Watched
import Ecrke.Pipeline.RunHistory

/-!
# What the circuit breaker stops at

The breaker of the flow is handed the spend of the whole run and compares it with the budget of the
run and with the budget of a stage.  An execution is read as a list of marks, each with the spend of
the run at that moment.

* `Mark`, `marks` -- the stages, the pauses and the failures of an execution.
* `Boundary` -- a stage which is not the last one, and what followed its completion.
* `breaker_pauses` -- the run pauses if and only if its whole spend breaches one of the budgets.
* `breaker_own_spend` -- when this is what a limit on the spend of the stage itself would do.
* `breaker_own_spend_fails` -- a stage which spends nothing, and pauses the run.
-/

namespace Ecrke

open Durable

/-- The recorded spend of a run. -/
def spentOf (runId : Uuid) (t : Tables) : Usd := ((runOf runId t).map Run.costSpentUsd).getD 0

theorem spentOf_nonneg (runId : Uuid) (w : World) : 0 ≤ spentOf runId w.tables := by
  unfold spentOf
  cases hRun : runOf runId w.tables with
  | none => exact le_rfl
  | some run => exact (w.db.valid.runsChecks run (runOf_mem hRun)).2.2.1

/-! ## Marks -/

/-- What an execution reports, with the spend of the run at that moment. -/
inductive Mark where
  | started (stage : Text) (spent : Usd)
  | completed (stage : Text) (spent : Usd)
  | paused
  | failed
  | finished
  deriving DecidableEq

/-- The mark of a step. -/
def mark (runId : Uuid) (m : Moment Vocabulary) : Option Mark :=
  match m.happening with
  | .wrote (.stageStarted _ stage) => some (.started stage (spentOf runId m.before.tables))
  | .wrote (.stageCompleted _ stage _ _) => some (.completed stage (spentOf runId m.before.tables))
  | .wrote (.runPaused ..) => some .paused
  | .wrote (.runFailed ..) => some .failed
  | .wrote (.runCompleted _) => some .finished
  | _ => none

/-- The marks of an execution. -/
def marks (runId : Uuid) (log : Log Vocabulary) : List Mark := log.filterMap (mark runId)

/-- The monitor which collects the marks. -/
def markMonitor (runId : Uuid) (ms : List Mark) (m : Moment Vocabulary) : List Mark :=
  ms ++ (mark runId m).toList

theorem watch_marks (runId : Uuid) (ms : List Mark) (log : Log Vocabulary) :
    watch (markMonitor runId) ms log = ms ++ marks runId log := by
  induction log generalizing ms with
  | nil => simp [watch, marks]
  | cons m rest ih =>
      show watch (markMonitor runId) (markMonitor runId ms m) rest = _
      rw [ih, markMonitor, List.append_assoc]
      cases hMark : mark runId m <;> simp [marks, hMark]

/-- A stage which is not the last one was completed, and what the execution did next: it paused, or
it went on.  An execution which fails there decides nothing. -/
def Boundary (ms : List Mark) (stage : Stage) (before after : Usd) (next : Mark) : Prop :=
  stage ≠ .trace ∧ next ≠ .failed ∧ ∃ front rest,
    ms = front ++ .started stage.name before :: .completed stage.name after :: next :: rest

/-- The spend of the run breaches its budget or the budget of a stage. -/
def Breach (breaker : CircuitBreaker) (budget spent : Usd) : Prop :=
  budget < spent ∨ breaker.stageBudget budget < spent

/-- At every boundary the execution pauses if and only if the spend of the run is a breach. -/
def Lawful (breaker : CircuitBreaker) (budget : Usd) (ms : List Mark) : Prop :=
  ∀ stage before after next, Boundary ms stage before after next →
    (next = .paused ↔ Breach breaker budget after)

/-- A stage which is not the last one has just been completed. -/
def EndsAt (ms : List Mark) (stage : Stage) (after : Usd) : Prop :=
  stage ≠ .trace ∧ ∃ front before,
    ms = front ++ [.started stage.name before, .completed stage.name after]

section Lists

variable {breaker : CircuitBreaker} {budget : Usd} {ms : List Mark} {next : Mark}

theorem Lawful.nil : Lawful breaker budget [] := by
  rintro stage before after next ⟨-, -, front, rest, hEq⟩
  simp at hEq

/-- One more mark. -/
theorem Lawful.snoc (h : Lawful breaker budget ms)
    (hNext : ∀ stage after, EndsAt ms stage after → next ≠ .failed →
      (next = .paused ↔ Breach breaker budget after)) : Lawful breaker budget (ms ++ [next]) := by
  rintro stage before after other ⟨hStage, hOther, front, rest, hEq⟩
  rcases List.eq_nil_or_concat rest with rfl | ⟨rest, last, rfl⟩
  · -- The boundary ends with the new mark.
    have hSplit : ms ++ [next] =
        (front ++ [Mark.started stage.name before, Mark.completed stage.name after]) ++
          [other] := by
      simpa using hEq
    obtain ⟨rfl, hLast⟩ := List.append_inj' hSplit rfl
    cases hLast
    exact hNext stage after ⟨hStage, front, before, rfl⟩ hOther
  · have hSplit : ms ++ [next] = (front ++ Mark.started stage.name before ::
        Mark.completed stage.name after :: other :: rest) ++ [last] := by
      simpa using hEq
    exact h stage before after other
      ⟨hStage, hOther, front, rest, (List.append_inj' hSplit rfl).1⟩

/-- Nothing ends with the start of a stage. -/
theorem not_endsAt_started {name : Text} {before after : Usd} {stage : Stage} :
    ¬ EndsAt (ms ++ [.started name before]) stage after := by
  rintro ⟨-, front, other, hEq⟩
  have hSplit : ms ++ [Mark.started name before] =
      (front ++ [Mark.started stage.name other]) ++ [Mark.completed stage.name after] := by
    simpa using hEq
  simpa using (List.append_inj' hSplit rfl).2

theorem endsAt_completed {name : Text} {before spent after : Usd} {stage : Stage}
    (h : EndsAt (ms ++ [.started name before, .completed name spent]) stage after) :
    stage ≠ .trace ∧ stage.name = name ∧ after = spent := by
  obtain ⟨hStage, front, other, hEq⟩ := h
  have hLast := (List.append_inj' hEq rfl).2
  simp only [List.cons.injEq, Mark.started.injEq, Mark.completed.injEq] at hLast
  exact ⟨hStage, hLast.2.1.1.symm, hLast.2.1.2.symm⟩

end Lists

/-- The execution may go on. -/
structure Calm (breaker : CircuitBreaker) (budget : Usd) (ms : List Mark) : Prop where
  lawful : Lawful breaker budget ms
  within : ∀ stage after, EndsAt ms stage after → ¬ Breach breaker budget after

/-- The execution has raised an exception; the exception of the breaker follows a breach. -/
structure Raised (breaker : CircuitBreaker) (budget : Usd) (error : PyError) (ms : List Mark) :
    Prop where
  lawful : Lawful breaker budget ms
  breach : error.kind = .circuitBreakerError →
    ∀ stage after, EndsAt ms stage after → Breach breaker budget after

/-! ## Steps without a mark -/

/-- A step which writes no line. -/
def Silent (m : Moment Vocabulary) : Prop := ∀ event, m.happening ≠ .wrote event

theorem Silent.mark {runId : Uuid} {m : Moment Vocabulary} (h : Silent m) :
    mark runId m = none := by
  unfold Ecrke.mark
  split <;> first | rfl | exact absurd ‹_› (h _)

theorem Silent.of_quiet (m : Moment Vocabulary) (h : Quiet m) : Silent m := h.2

theorem silent_of_quiet {α : Type} {p : Action α} (h : Keeps Quiet p) : Keeps Silent p :=
  h.mono Silent.of_quiet

theorem silent_commitWrites (writes : List Write) : Keeps Silent (commitWrites writes) :=
  keeps_commit (fun _ _ _ _ => by simp [Silent]) fun _ => by simp [Silent]

theorem silent_save (p : Platform) (runId : Uuid) (stage : Text) (state : Option Json) :
    Keeps Silent (CheckpointStore.save p runId stage state) := by
  refine keeps_bind (silent_of_quiet (quiet_selectTables _)) fun found => ?_
  cases found with
  | none => exact keeps_bind (silent_of_quiet quiet_uuid4) fun _ => silent_commitWrites _
  | some row => exact silent_commitWrites _

theorem silent_markCheckpoint (runId : Uuid) : Keeps Silent (markCheckpoint runId) := by
  refine keeps_bind (silent_of_quiet (quiet_selectTables _)) fun _ => ?_
  refine keeps_bind (silent_of_quiet (quiet_getRun _)) fun found => ?_
  cases found with
  | none => exact keeps_done _
  | some run => exact silent_commitWrites _

theorem silent_pauseRun (runId : Uuid) : Keeps Silent (pauseRun runId) := by
  refine keeps_bind (silent_of_quiet (quiet_getRun _)) fun found => ?_
  cases found with
  | none => exact keeps_done _
  | some run => exact silent_commitWrites _

theorem silent_failRun (u : Unicode) (runId : Uuid) (error : PyError) :
    Keeps Silent (failRun u runId error) := by
  refine keeps_bind (silent_of_quiet (quiet_getRun _)) fun found => ?_
  cases found with
  | none => exact keeps_done _
  | some run =>
      exact keeps_bind (silent_of_quiet quiet_uuid4) fun _ =>
        keeps_bind (silent_of_quiet quiet_dbNow) fun _ => silent_commitWrites _

theorem Alone.silent {s : World} {α : Type} {p : Action α} (h : Keeps Silent p) :
    Alone Silent anyEnd p s :=
  Alone.of_keeps (S := Vocabulary) (T := fun _ _ => True) (fun _ => trivial)
    (fun _ _ _ _ _ => trivial) (fun _ _ => trivial) h (fun _ hm => hm) fun _ _ _ => trivial

/-- The entry into a stage never raises the exception of the breaker. -/
theorem markStageStart_silent {s : World} (runId : Uuid) (stage : Stage) :
    Alone Silent (fun r _ => ∀ error, r = .error error → error.kind ≠ .circuitBreakerError)
      (markStageStart runId stage) s := by
  have hDb (error : PyError) (hError : IsDbError error) (other : PyError)
      (hEq : (.error error : Except PyError Unit) = .error other) :
      other.kind ≠ .circuitBreakerError := by
    cases hEq
    intro hKind
    rw [IsDbError, hKind] at hError
    exact absurd hError (by decide)
  refine Alone.withRun Silent.of_quiet (fun run _ => ?_) (fun _ => Alone.raise ?_) hDb
  · refine Alone.commitWrites Silent.of_quiet (fun t _ => ?_) hDb
    exact ⟨by simp [Silent], by simp, hDb⟩
  · rintro _ ⟨⟩ hKind
    cases hKind

/-- The check after a stage raises the exception of the breaker if and only if there is a breach. -/
theorem checkBreaker_silent {s : World} (breaker : CircuitBreaker) (ctx : PipelineContext)
    (budget : Usd) (stage : Stage) :
    Alone Silent (fun r _ => match r with
      | .ok _ => stage = .trace ∨ ¬ Breach breaker budget (spentOf ctx.runId s.tables)
      | .error error => error.kind = .circuitBreakerError →
          Breach breaker budget (spentOf ctx.runId s.tables))
      (checkBreaker breaker ctx budget stage) s := by
  refine Alone.ite (fun hLast => Alone.done (.inl (getLast_stages.mp hLast))) fun _ => ?_
  refine Alone.withTables Silent.of_quiet ?_ fun error hError hKind => ?_
  · refine Alone.ofExcept ?_
    show match breaker.check ctx.services.platform stage.name (spentOf ctx.runId s.tables)
        budget with
      | .ok _ => _
      | .error error => _
    cases hCheck : breaker.check ctx.services.platform stage.name
        (spentOf ctx.runId s.tables) budget with
    | ok value =>
        obtain ⟨hRun, hStage⟩ := (breaker.check_ok_iff _ _ _ _).mp hCheck
        exact .inr (by simp [Breach, hRun, hStage])
    | error error => exact fun _ => (CircuitBreaker.check_error hCheck).2
  · rw [IsDbError, hKind] at hError
    exact absurd hError (by decide)

/-! ## The flow under the monitor -/

section Flow

variable {s : World} {breaker : CircuitBreaker} {budget : Usd} {ctx : PipelineContext}
  {tasks : StageTasks} {g : List Mark}

/-- An execution under the monitor: its marks are lawful after every step. -/
abbrev Marked {α : Type} (breaker : CircuitBreaker) (budget : Usd) (runId : Uuid)
    (Q : Except PyError α → World → List Mark → Prop) (p : Action α) (s : World) (g : List Mark) :
    Prop :=
  Watched (S := Vocabulary) (markMonitor runId)
    (fun ms m => Lawful breaker budget (markMonitor runId ms m)) Q p s g

/-- A part of an execution without marks. -/
theorem Marked.unmarked {α : Type} {p : Action α} {F : Moment Vocabulary → Prop}
    {Q : Except PyError α → World → Prop} (h : Alone F Q p s)
    (hF : ∀ m, F m → mark ctx.runId m = none) (hLawful : Lawful breaker budget g) :
    Marked breaker budget ctx.runId (fun r t g' => Q r t ∧ g' = g) p s g := by
  have hNote (m : Moment Vocabulary) (hm : F m) : markMonitor ctx.runId g m = g := by
    simp [markMonitor, hF m hm]
  exact Watched.of_alone h hNote fun m hm => (hNote m hm).symm ▸ hLawful

/-- A part without marks in front of the rest. -/
theorem Marked.silentThen {α β : Type} {p : Action α} {f : α → Action β}
    {Q : Except PyError β → World → List Mark → Prop} (h : Keeps Silent p)
    (hLawful : Lawful breaker budget g)
    (hOk : ∀ value t, Marked breaker budget ctx.runId Q (f value) t g)
    (hError : ∀ error t, Q (.error error) t g) :
    Marked breaker budget ctx.runId Q (p.bind f) s g := by
  refine Watched.bind _ (Marked.unmarked (Alone.silent h) (fun _ hm => hm.mark) hLawful) ?_ ?_
  · rintro value t _ ⟨-, rfl⟩
    exact hOk value t
  · rintro error t _ ⟨-, rfl⟩
    exact hError error t

/-- A line with a mark in front of the rest. -/
theorem Marked.emitThen {α : Type} {event : Event} {next : Mark} {f : Unit → Action α}
    {Q : Except PyError α → World → List Mark → Prop}
    (hMark : mark ctx.runId ⟨s, .wrote event, s⟩ = some next)
    (hLawful : Lawful breaker budget (g ++ [next]))
    (hRest : Marked breaker budget ctx.runId Q (f ()) s (g ++ [next])) :
    Marked breaker budget ctx.runId Q ((emit event).bind f) s g := by
  have hNote : markMonitor ctx.runId g ⟨s, .wrote event, s⟩ = g ++ [next] := by
    simp [markMonitor, hMark]
  refine Watched.bind (fun r t g' => r = .ok () ∧ t = s ∧ g' = g ++ [next])
    (Watched.log (hNote.symm ▸ hLawful) ⟨rfl, rfl, hNote⟩) ?_ ?_
  · rintro _ t _ ⟨-, rfl, rfl⟩
    exact hRest
  · rintro error t _ ⟨hError, -⟩
    cases hError

/-- What a stage leaves behind. -/
def stageEnds (breaker : CircuitBreaker) (budget : Usd) :
    Except PyError PUnit → World → List Mark → Prop
  | .ok _, _, ms => Calm breaker budget ms
  | .error error, _, ms => Raised breaker budget error ms

theorem runStage_marked {stage : Stage} {F : Moment Vocabulary → Prop}
    (hTask : ∀ t, Alone F anyEnd (tasks stage ctx) t) (hF : ∀ m, F m → mark ctx.runId m = none)
    (h : Calm breaker budget g) :
    Marked breaker budget ctx.runId (stageEnds breaker budget)
      (runStage tasks breaker ctx budget stage) s g := by
  refine Watched.bind _
    (Marked.unmarked (markStageStart_silent ctx.runId stage) (fun _ hm => hm.mark) h.lawful) ?_ ?_
  · rintro _ t ms ⟨-, rfl⟩
    let started := ms ++ [Mark.started stage.name (spentOf ctx.runId t.tables)]
    have hStarted : Lawful breaker budget started := by
      refine h.lawful.snoc fun other after hEnds _ => ?_
      simpa using h.within other after hEnds
    have hRaised (error : PyError) : Raised breaker budget error started :=
      ⟨hStarted, fun _ other after hEnds => absurd hEnds not_endsAt_started⟩
    refine Marked.emitThen (by simp [mark, redactSecrets_stage]) hStarted ?_
    refine Marked.silentThen (silent_of_quiet quiet_perfCounter) hStarted (fun _ u => ?_)
      fun error _ => hRaised error
    refine Watched.bind _ (Marked.unmarked (hTask u) hF hStarted) ?_ ?_
    · rintro result v _ ⟨-, rfl⟩
      cases hOk : result.ok with
      | false =>
          simp only [Bool.not_false, if_true]
          exact Watched.raise (hRaised _)
      | true =>
          simp only [Bool.not_true, Bool.false_eq_true, if_false]
          refine Marked.silentThen (silent_save _ _ _ _) hStarted (fun _ w => ?_)
            fun error _ => hRaised error
          refine Marked.silentThen (silent_markCheckpoint _) hStarted (fun _ w => ?_)
            fun error _ => hRaised error
          refine Marked.silentThen (silent_of_quiet quiet_perfCounter) hStarted (fun _ w => ?_)
            fun error _ => hRaised error
          refine Marked.silentThen (silent_of_quiet (quiet_modifyMemory _)) hStarted
            (fun _ w => ?_) fun error _ => hRaised error
          let completed := started ++ [Mark.completed stage.name (spentOf ctx.runId w.tables)]
          have hCompleted : Lawful breaker budget completed :=
            hStarted.snoc fun other after hEnds => absurd hEnds not_endsAt_started
          refine Marked.emitThen (by simp [mark, redactSecrets_stage]) hCompleted ?_
          refine (Marked.unmarked (checkBreaker_silent breaker ctx budget stage)
            (fun _ hm => hm.mark) hCompleted).post ?_
          have hEnd (other : Stage) (after : Usd) (hEnds : EndsAt completed other after) :
              stage ≠ .trace ∧ after = spentOf ctx.runId w.tables := by
            obtain ⟨hOther, hName, hAfter⟩ := endsAt_completed
              (show EndsAt (ms ++ [Mark.started stage.name _, Mark.completed stage.name _])
                  other after by
                simpa [completed, started] using hEnds)
            exact ⟨Stage.name_injective hName ▸ hOther, hAfter⟩
          rintro (error | _) x _ ⟨hCheck, rfl⟩
          · refine ⟨hCompleted, fun hKind other after hEnds => ?_⟩
            rw [(hEnd other after hEnds).2]
            exact hCheck hKind
          · refine ⟨hCompleted, fun other after hEnds => ?_⟩
            obtain ⟨hStage, hAfter⟩ := hEnd other after hEnds
            rw [hAfter]
            exact hCheck.resolve_left hStage
    · rintro error v _ ⟨-, rfl⟩
      exact hRaised error
  · rintro error t ms ⟨hKind, rfl⟩
    exact ⟨h.lawful, fun hBreach => absurd hBreach (hKind error rfl)⟩

theorem stageLoop_marked {start : FlowStart} {F : Moment Vocabulary → Prop}
    (hTasks : ∀ stage t, Alone F anyEnd (tasks stage ctx) t)
    (hF : ∀ m, F m → mark ctx.runId m = none) (h : Calm breaker start.runBudget g) :
    Marked breaker start.runBudget ctx.runId (stageEnds breaker start.runBudget)
      (stages.forM (executeStage tasks breaker ctx start)) s g := by
  refine Watched.forM (fun _ _ ms => Calm breaker start.runBudget ms) ?_ (fun _ _ h => h) stages h
  intro stage rest t ms hCalm
  refine Watched.ite (fun _ => Watched.done hCalm) fun _ => ?_
  refine (runStage_marked (hTasks stage) hF hCalm).post ?_
  rintro (error | _) u ms' h <;> exact h

theorem onBreach_marked {error : PyError} (h : Raised breaker budget error g)
    (hKind : error.kind = .circuitBreakerError) :
    Marked breaker budget ctx.runId (fun _ _ _ => True) (onBreach ctx error) s g := by
  have hPaused : Lawful breaker budget (g ++ [Mark.paused]) :=
    h.lawful.snoc fun stage after hEnds _ => by simpa using h.breach hKind stage after hEnds
  refine Marked.silentThen (silent_pauseRun _) h.lawful (fun _ t => ?_) fun _ _ => trivial
  refine Marked.silentThen (silent_of_quiet (quiet_recordRunCost _)) h.lawful (fun _ u => ?_)
    fun _ _ => trivial
  refine Marked.emitThen rfl hPaused ?_
  exact Marked.silentThen (silent_of_quiet (quiet_modifyMemory _)) hPaused
    (fun _ v => Watched.done trivial) fun _ _ => trivial

theorem onFailure_marked {error : PyError} (h : Lawful breaker budget g) :
    Marked breaker budget ctx.runId (fun _ _ _ => True) (onFailure ctx error) s g := by
  have hFailed : Lawful breaker budget (g ++ [Mark.failed]) :=
    h.snoc fun _ _ _ hNot => absurd rfl hNot
  refine Marked.silentThen (silent_failRun _ _ _) h (fun _ t => ?_) fun _ _ => trivial
  refine Marked.silentThen (silent_of_quiet (quiet_recordRunCost _)) h (fun _ u => ?_)
    fun _ _ => trivial
  refine Marked.emitThen rfl hFailed ?_
  exact Marked.silentThen (silent_of_quiet (quiet_modifyMemory _)) hFailed
    (fun _ v => Watched.raise trivial) fun _ _ => trivial

theorem onCompletion_marked (h : Calm breaker budget g) :
    Marked breaker budget ctx.runId (fun _ _ _ => True) (onCompletion ctx) s g := by
  have hFinished : Lawful breaker budget (g ++ [Mark.finished]) :=
    h.lawful.snoc fun stage after hEnds _ => by simpa using h.within stage after hEnds
  refine Marked.silentThen (silent_of_quiet (quiet_recordRunCost _)) h.lawful (fun _ u => ?_)
    fun _ _ => trivial
  refine Marked.emitThen rfl hFinished ?_
  exact Marked.silentThen (silent_of_quiet (quiet_modifyMemory _)) hFinished
    (fun _ v => Watched.done trivial) fun _ _ => trivial

theorem guardedStages_marked {start : FlowStart} {F : Moment Vocabulary → Prop}
    (hTasks : ∀ stage t, Alone F anyEnd (tasks stage ctx) t)
    (hF : ∀ m, F m → mark ctx.runId m = none) (h : Calm breaker start.runBudget g) :
    Marked breaker start.runBudget ctx.runId
      (fun r _ ms => r = .ok none → Calm breaker start.runBudget ms)
      (guardedStages tasks breaker ctx start) s g := by
  have hSome {p : Action Text} {t : World} {ms : List Mark}
      (hp : Marked breaker start.runBudget ctx.runId (fun _ _ _ => True) p t ms) :
      Marked breaker start.runBudget ctx.runId
        (fun r _ ms => r = .ok none → Calm breaker start.runBudget ms) (some <$> p) t ms :=
    Watched.bind _ hp (fun _ _ _ _ => Watched.done (by simp)) (by simp)
  refine Watched.tryCatch (fun r _ ms => match r with
      | .ok outcome => outcome = none ∧ Calm breaker start.runBudget ms
      | .error error => Raised breaker start.runBudget error ms)
    (Watched.bind _ (stageLoop_marked hTasks hF h)
      (fun _ _ _ hCalm => Watched.done ⟨rfl, hCalm⟩) fun _ _ _ h => h) ?_ ?_
  · exact fun _ _ _ hEnd _ => hEnd.2
  · intro error t ms hRaised
    refine Watched.ite (fun hKind => hSome (onBreach_marked hRaised hKind)) fun _ => ?_
    exact hSome (onFailure_marked hRaised.lawful)

theorem executeStagesWith_marked {run : Run} {F : Moment Vocabulary → Prop}
    (hTasks : ∀ stage t, Alone F anyEnd (tasks stage ctx) t)
    (hF : ∀ m, F m → mark ctx.runId m = none) (hRun : runOf ctx.runId s.tables = some run) :
    Marked breaker run.costBudgetUsd ctx.runId (fun _ _ _ => True)
      (executeStagesWith tasks breaker ctx) s [] := by
  have hStart : Alone Silent (fun r _ => ∀ start, r = .ok start →
      start.runBudget = run.costBudgetUsd) (readStart ctx) s := by
    refine Alone.withTables Silent.of_quiet ?_ (by simp)
    refine Alone.withRun Silent.of_quiet (fun found hFound => Alone.done ?_)
      (fun hNone => by simp [hNone] at hRun) (by simp)
    obtain rfl : found = run := Option.some.inj (hFound.symm.trans hRun)
    rintro _ ⟨⟩
    rfl
  have hCalm : Calm breaker run.costBudgetUsd [] :=
    ⟨.nil, by rintro stage after ⟨-, front, before, hEq⟩; simp at hEq⟩
  refine Watched.bind _ (Marked.unmarked hStart (fun _ hm => hm.mark) .nil) ?_
    fun _ _ _ _ => trivial
  rintro start t _ ⟨hBudget, rfl⟩
  rw [← hBudget start rfl] at hCalm ⊢
  refine Watched.bind _ (guardedStages_marked hTasks hF hCalm) (fun outcome u ms hEnd => ?_)
    fun _ _ _ _ => trivial
  cases outcome with
  | some outcome => exact Watched.done trivial
  | none => exact onCompletion_marked (hEnd rfl)

end Flow

/-! ## The meaning of a pause -/

section Meaning

variable {breaker : CircuitBreaker} {ctx : PipelineContext} {run : Run} {s t : World}
  {log : Log Vocabulary} {left : Action Text}

/-- After a stage which is not the last one the execution pauses if and only if the spend of the
whole run exceeds the budget of the run or the budget of a stage. -/
theorem breaker_pauses (hRun : runOf ctx.runId s.tables = some run)
    (h : Exec (executeStagesWith stageTasks breaker ctx) s log left t) :
    Lawful breaker run.costBudgetUsd (marks ctx.runId log) := by
  have hMarked : Marked breaker run.costBudgetUsd ctx.runId (fun _ _ _ => True)
      (executeStagesWith stageTasks breaker ctx) s [] := by
    refine executeStagesWith_marked (F := fun m => ∃ stage, TaskMoment ctx.runId stage m)
      (fun stage w => ?_) ?_ hRun
    · exact (stageTasks_spec stage ctx).mono (fun m hm => ⟨stage, hm⟩) fun _ _ _ => trivial
    · rintro m ⟨stage, -, hEvents⟩
      unfold mark
      split <;> first | rfl | (obtain ⟨-, _, hEvent⟩ := hEvents _ ‹_›; cases hEvent)
  rcases List.eq_nil_or_concat log with rfl | ⟨earlier, m, rfl⟩
  · exact .nil
  · have hNote := watch_marks ctx.runId [] (earlier ++ [m])
    rw [watch_append, List.nil_append] at hNote
    rw [List.concat_eq_append] at h ⊢
    rw [← hNote]
    exact (hMarked.exec h).1 earlier m [] rfl

/-- The spend of the run at the start of a stage is not negative. -/
theorem before_nonneg {runId : Uuid} {stage : Stage} {before after : Usd} {next : Mark}
    (h : Boundary (marks runId log) stage before after next) : 0 ≤ before := by
  obtain ⟨-, -, front, rest, hEq⟩ := h
  have hMem : Mark.started stage.name before ∈ marks runId log := by simp [hEq]
  obtain ⟨m, -, hMark⟩ := List.mem_filterMap.mp hMem
  unfold mark at hMark
  split at hMark <;> cases hMark
  exact spentOf_nonneg runId m.before

/-- The run pauses after a stage exactly for the breach of its whole budget or for the spend of the
stage itself, unless the stage and the run stay within their budgets while the spend of the run
exceeds the budget of a stage. -/
theorem breaker_own_spend (hRun : runOf ctx.runId s.tables = some run)
    (h : Exec (executeStagesWith stageTasks breaker ctx) s log left t) {stage : Stage}
    {before after : Usd} {next : Mark}
    (hBoundary : Boundary (marks ctx.runId log) stage before after next) :
    (next = .paused ↔ run.costBudgetUsd < after ∨
        breaker.stageBudget run.costBudgetUsd < after - before) ↔
      ¬ (after ≤ run.costBudgetUsd ∧ after - before ≤ breaker.stageBudget run.costBudgetUsd ∧
        breaker.stageBudget run.costBudgetUsd < after) := by
  have hPauses := breaker_pauses hRun h stage before after next hBoundary
  have hBefore := before_nonneg hBoundary
  have hOwn : breaker.stageBudget run.costBudgetUsd < after - before →
      breaker.stageBudget run.costBudgetUsd < after := fun hLt => by linarith
  rw [hPauses, Breach]
  constructor
  · rintro hSame ⟨hRunWithin, hStageWithin, hOver⟩
    rcases hSame.mp (.inr hOver) with hTotal | hStage
    · exact absurd hTotal (not_lt.mpr hRunWithin)
    · exact absurd hStage (not_lt.mpr hStageWithin)
  · intro hNot
    refine ⟨fun hBreach => ?_, fun hBreach => hBreach.imp_right hOwn⟩
    by_contra hNeither
    obtain ⟨hTotal, hStage⟩ := not_or.mp hNeither
    exact hNot ⟨not_lt.mp hTotal, not_lt.mp hStage, hBreach.resolve_left hTotal⟩

end Meaning

/-! ## A run within its budgets -/

/-- A run which was paused after its fifth stage.  Its stages have spent 0.08 and 0.07 dollars of
one. -/
def Run.halfway : Run :=
  { Run.submitted 1 with
    status := .paused, stage := some "extract".toList, progress := Stage.extract.progress
    costSpentUsd := 15 / 100 }

/-- The world of that run. -/
def World.halfway : World :=
  .single .halfway ((stages.take 5).map fun stage =>
      ⟨⟨BitVec.ofNat 128 (1000 + stage.index)⟩, ⟨1⟩, stage.name, none⟩)
    (by decide +kernel) (by decide) (by decide) (by decide)

/-- The resumed run, which has no statement to verify. -/
def halfwayLog : Log Vocabulary :=
  (simulate (quietOutside fun _ => .grant) 100 0
    (executeStagesWith stageTasks .default ⟨⟨1⟩, .plain⟩) World.halfway).1

theorem marks_halfwayLog :
    marks ⟨1⟩ halfwayLog =
      [.started "verify".toList (15 / 100), .completed "verify".toList (15 / 100), .paused] := by
  decide +kernel

theorem runOf_halfway : runOf ⟨1⟩ World.halfway.tables = some .halfway := rfl

theorem halfwayLog_exec :
    ∃ left t, Exec (executeStagesWith stageTasks .default ⟨⟨1⟩, .plain⟩) World.halfway halfwayLog
      left t :=
  ⟨_, _, simulate_exec _ _ _ _ _⟩

theorem boundary_halfwayLog :
    Boundary (marks ⟨1⟩ halfwayLog) .verify (15 / 100) (15 / 100) .paused :=
  ⟨by decide, by decide, [], [], marks_halfwayLog⟩

/-- The spend of the run is within its budget, that of the stage is nothing, and the run pauses. -/
theorem breaker_own_spend_halfway :
    (Mark.paused = .paused ↔ Run.halfway.costBudgetUsd < 15 / 100 ∨
        CircuitBreaker.default.stageBudget Run.halfway.costBudgetUsd < 15 / 100 - 15 / 100) ↔
      ¬ (15 / 100 ≤ Run.halfway.costBudgetUsd ∧
        15 / 100 - 15 / 100 ≤ CircuitBreaker.default.stageBudget Run.halfway.costBudgetUsd ∧
        CircuitBreaker.default.stageBudget Run.halfway.costBudgetUsd < 15 / 100) := by
  obtain ⟨left, t, hExec⟩ := halfwayLog_exec
  exact breaker_own_spend runOf_halfway hExec boundary_halfwayLog

/-- A run all of whose stages stay within the budget of a stage, and which stays within its own
budget, is paused. -/
theorem breaker_own_spend_fails :
    ∃ log left t, Exec (executeStagesWith stageTasks .default ⟨⟨1⟩, .plain⟩) World.halfway log
        left t ∧
      runOf ⟨1⟩ World.halfway.tables = some .halfway ∧
      Boundary (marks ⟨1⟩ log) .verify (15 / 100) (15 / 100) .paused ∧
      ¬ (Run.halfway.costBudgetUsd < 15 / 100 ∨
        CircuitBreaker.default.stageBudget Run.halfway.costBudgetUsd < 15 / 100 - 15 / 100) := by
  obtain ⟨left, t, hExec⟩ := halfwayLog_exec
  refine ⟨halfwayLog, left, t, hExec, runOf_halfway, boundary_halfwayLog, ?_⟩
  decide +kernel

end Ecrke
