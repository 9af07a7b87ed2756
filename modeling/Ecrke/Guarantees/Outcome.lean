import Ecrke.Pipeline.RunHistory

/-!
# The outcome and the status

The last stage completes the run, and the outcome of an execution is read off the end of the loop,
not off the run.  The two agree as long as no failure is recorded behind the last checkpoint.

* `Settled` -- a run whose last stage is checkpointed is completed.
* `LateFailure` -- a failure which is recorded although the last stage is checkpointed.
* `outcome_status` -- without late failures, the outcome is the status of the run.
* `outcome_status_fails` -- a late failure, and a resume which reports the run as completed.
-/

namespace Ecrke

open Durable

/-- A run whose last stage is checkpointed is completed. -/
def Settled (runId : Uuid) (t : Tables) : Prop :=
  Stage.trace.name ∈ completedOf runId t →
    ∀ run, runOf runId t = some run → run.status = .completed

/-- A step records a failure of a run whose last stage is checkpointed. -/
def LateFailure (runId : Uuid) (m : Moment Vocabulary) : Prop :=
  Stage.trace.name ∈ completedOf runId m.before.tables ∧
    ∃ run', runOf runId m.after.tables = some run' ∧ run'.status = .failed

/-- A step which is not a late failure keeps a run settled. -/
theorem FlowStep.settled {runId : Uuid} {start t t' : Tables} (h : FlowStep runId start t t')
    (hSettled : Settled runId t)
    (hTimely : Stage.trace.name ∈ completedOf runId t →
      ∀ run', runOf runId t' = some run' → run'.status ≠ .failed) : Settled runId t' := by
  intro hDone run' hRun'
  rcases h.checkpoints with hEq | ⟨stage, hReady, hFinished, hRuns, hEq⟩
  · rw [hEq] at hDone
    obtain ⟨run, hRun, -, hStep⟩ := h.rowBefore hRun'
    cases hStep with
    | stays hStatus _ => rw [hStatus, hSettled hDone run hRun]
    | enters stage hReady _ _ => exact absurd hDone hReady.open
    | finishes hReady _ _ => exact absurd hDone hReady.open
    | pauses hOpen _ _ => exact absurd hDone hOpen
    | fails hStatus _ => exact absurd hStatus (hTimely hDone run' hRun')
  · -- The checkpoint of the last stage is saved when the run is completed.
    rw [hEq, Stage.name_mem, Stage.mem_take] at hDone
    have hTrace : stage = .trace := by
      cases stage <;> first | rfl | exact absurd hDone (by decide)
    have hMem := runOf_mem hRun'
    rw [hRuns] at hMem
    exact hFinished hTrace run' hMem (runOf_id hRun')

/-- Without late failures, an execution which returns has left the status which it reports. -/
theorem outcome_status {runId : Uuid} {services : PipelineServices} {s t u : World}
    {earlier now : Log Vocabulary} {outcome : Text} (hOrderly : Orderly runId s.tables)
    (hSettled : Settled runId s.tables) (past : History (flowJob runId) s earlier t)
    (last : Exec (flowJob runId services) t now (.done outcome) u)
    (hTimely : ∀ m ∈ earlier ++ now, ¬ LateFailure runId m) :
    ∃ run, runOf runId u.tables = some run ∧ run.status.value = outcome := by
  have hAll : History (flowJob runId) s (earlier ++ now) u := .snoc past services trivial last
  have hLog := (History.flow_moments hAll hOrderly).2
  have hStep (m : Moment Vocabulary) (hm : m ∈ earlier ++ now)
      (hBefore : Settled runId m.before.tables) : Settled runId m.after.tables := by
    obtain ⟨⟨_, _, _, hMoment⟩, -⟩ := hLog m hm
    exact hMoment.1.settled hBefore fun hDone run' hRun' hStatus =>
      hTimely m hm ⟨hDone, run', hRun', hStatus⟩
  obtain ⟨hEnd, -⟩ :=
    hAll.linked.invariant (fun w : World => Settled runId w.tables) hStep hSettled
  have hMid := (History.flow_moments past hOrderly).1
  obtain ⟨run, hRun, hCase⟩ := ((executeStages_spec ⟨runId, services⟩ hMid).exec last).2 _ rfl
  refine ⟨run, hRun, ?_⟩
  rcases hCase with ⟨rfl, hDone⟩ | ⟨rfl, hStatus⟩
  · rw [hEnd hDone run hRun]
    rfl
  · rw [hStatus]
    rfl

/-! ## A run whose process ended before its last stage -/

/-- The run, in the stage before the last one. -/
def Run.nearlyDone : Run :=
  { Run.submitted 1 with
    status := .concluding, stage := some "conclude".toList, progress := Stage.conclude.progress }

/-- The checkpoints of all stages but the last one. -/
def nineCheckpoints : List Checkpoint :=
  (stages.take 9).map fun stage =>
    ⟨⟨BitVec.ofNat 128 (1000 + stage.index)⟩, ⟨1⟩, stage.name, none⟩

/-- The world of that run. -/
def World.nearlyDone : World :=
  .single .nearlyDone nineCheckpoints (by decide +kernel) (by decide) (by decide)
    (by decide)

/-- The value of a program which has returned. -/
def returned {α : Type} : Action α → Option α
  | .done value => some value
  | _ => none

theorem returned_some {α : Type} {p : Action α} {value : α} (h : returned p = some value) :
    p = .done value := by
  cases p <;> simp_all [returned]

instance (runId : Uuid) (m : Moment Vocabulary) : Decidable (LateFailure runId m) :=
  decidable_of_iff (Stage.trace.name ∈ completedOf runId m.before.tables ∧
      (runOf runId m.after.tables).any fun run => run.status = .failed)
    (by simp [LateFailure, Option.any_eq_true])

theorem nearlyDone_orderly : Orderly ⟨1⟩ World.nearlyDone.tables := ⟨9, by decide⟩

theorem nearlyDone_settled : Settled ⟨1⟩ World.nearlyDone.tables :=
  fun hDone => absurd hDone (by decide)

/-- Where no database step fails, the resume completes the run. -/
theorem outcome_status_nearlyDone :
    ∃ run, runOf ⟨1⟩ (simulate (quietOutside fun _ => .grant) 100 0 (flowJob ⟨1⟩ .plain)
      World.nearlyDone).2.2.tables = some run ∧ run.status.value = "completed".toList := by
  let now := simulate (quietOutside fun _ => .grant) 100 0 (flowJob ⟨1⟩ .plain) World.nearlyDone
  obtain ⟨hReturned, hTimely⟩ : returned now.2.1 = some "completed".toList ∧
      ∀ m ∈ [] ++ now.1, ¬ LateFailure ⟨1⟩ m := by
    decide +kernel
  have hExec : Exec (flowJob ⟨1⟩ .plain) World.nearlyDone now.1 (.done "completed".toList)
      now.2.2 := by
    rw [← returned_some hReturned]
    exact simulate_exec _ _ _ _ _
  exact outcome_status nearlyDone_orderly nearlyDone_settled (.nil _) hExec hTimely

/-- The connection is lost right after the checkpoint of the last stage has been saved. -/
def lostAfterTrace : Environment Vocabulary :=
  quietOutside fun n => if n = 19 then .refuse "connection lost".toList else .grant

/-- The failure is recorded, and the resume, which finds nothing to do, reports completion. -/
theorem outcome_status_fails :
    ∃ earlier t now u, Orderly ⟨1⟩ World.nearlyDone.tables ∧ Settled ⟨1⟩ World.nearlyDone.tables ∧
      History (flowJob ⟨1⟩) World.nearlyDone earlier t ∧
      Exec (flowJob ⟨1⟩ .plain) t now (.done "completed".toList) u ∧
      ¬ ∃ run, runOf ⟨1⟩ u.tables = some run ∧ run.status.value = "completed".toList := by
  let first := simulate lostAfterTrace 100 0 (flowJob ⟨1⟩ .plain) World.nearlyDone
  let second := simulate (quietOutside fun _ => .grant) 100 0 (flowJob ⟨1⟩ .plain) first.2.2
  obtain ⟨hReturned, hStatus⟩ : returned second.2.1 = some "completed".toList ∧
      (runOf ⟨1⟩ second.2.2.tables).map Run.status = some .failed := by
    decide +kernel
  refine ⟨[] ++ first.1, first.2.2, second.1, second.2.2, nearlyDone_orderly, nearlyDone_settled,
    ?_, ?_, ?_⟩
  · exact .snoc (.nil _) .plain trivial (simulate_exec _ _ _ _ _)
  · rw [← returned_some hReturned]
    exact simulate_exec _ _ _ _ _
  · rintro ⟨run, hRun, hValue⟩
    rw [hRun, Option.map_some, Option.some.injEq] at hStatus
    rw [hStatus] at hValue
    exact absurd hValue (by decide)

end Ecrke
