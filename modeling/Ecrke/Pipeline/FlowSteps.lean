import Ecrke.Pipeline.Flows
import Ecrke.Pipeline.StageSpecs

/-!
# What an execution of the flow can do

Every step of `executeStages`, with what is known of the state in which it is taken.  Together with
`TaskStep` this is the whole list of what can happen to a run.

* `Ready` -- exactly the stages before a given one are checkpointed.
* `FlowStep`, `FlowMoment` -- the steps of an execution which started from given tables.
* `RunStep` -- what a step can do to the row of the run.
* `FlowStep.checkpoints`, `FlowStep.runRow` -- the effect on the checkpoints and on the run.
-/

namespace Ecrke

open Durable

/-- Exactly the stages before a given one are checkpointed. -/
def Ready (runId : Uuid) (stage : Stage) (t : Tables) : Prop :=
  completedOf runId t = (stages.take stage.index).map Stage.name

/-- The checkpointed stages of a run are the first ones. -/
def Orderly (runId : Uuid) (t : Tables) : Prop :=
  ∃ n, completedOf runId t = (stages.take n).map Stage.name

/-- The recorded spend of a run exceeds its budget. -/
def Over (runId : Uuid) (t : Tables) : Prop :=
  ∃ run, runOf runId t = some run ∧ run.costBudgetUsd < run.costSpentUsd

/-- The row of a run while a stage executes. -/
def Run.atStage (run : Run) (stage : Stage) : Run :=
  { run with stage := some stage.name, status := stage.status, progress := stage.progress }

/-- What one step of an execution which started from the tables `start` can do to the tables. -/
inductive FlowStep (runId : Uuid) (start t : Tables) : Tables → Prop where
  | idle : FlowStep runId start t t
  | started (stage : Stage) (hReady : Ready runId stage t) (run : Run)
      (hRun : runOf runId t = some run) : FlowStep runId start t (t.setRun (run.atStage stage))
  | task (stage : Stage) (hReady : Ready runId stage t) {t' : Tables}
      (h : TaskStep runId t stage t') : FlowStep runId start t t'
  | saved (stage : Stage) (hReady : Ready runId stage t)
      (hFinished : stage = .trace → Finished runId t) (row : Checkpoint)
      (hRow : row.runId = runId ∧ row.stage = stage.name) :
      FlowStep runId start t { t with checkpoints := t.checkpoints ++ [row] }
  | mirrored (run : Run) (hRun : runOf runId t = some run) (checkpoint : Option Json) :
      FlowStep runId start t (t.setRun { run with checkpoint })
  | paused (hOpen : Stage.trace.name ∉ completedOf runId t) (run : Run)
      (hRun : runOf runId t = some run) :
      FlowStep runId start t (t.setRun { run with status := .paused })
  | failed (run : Run) (hRun : runOf runId t = some run) (audit : AuditTrace)
      (hAudit : audit.entityType = "run".toList) :
      FlowStep runId start t
        { t.setRun { run with status := .failed } with auditTrace := t.auditTrace ++ [audit] }

/-- What a line of the log of an execution says about the state in which it is written. -/
def FlowEvent (runId : Uuid) (start t : Tables) : Event → Prop
  | .stageStarted id name => id = runId ∧ ∃ stage : Stage, name = stage.name ∧
      Ready runId stage t ∧ stage.name ∉ completedOf runId start ∧
        (Over runId start ∨ ¬ Over runId t)
  | _ => True

/-- A step of an execution which started from the tables `start`. -/
def FlowMoment (runId : Uuid) (start : Tables) (m : Moment Vocabulary) : Prop :=
  FlowStep runId start m.before.tables m.after.tables ∧
    ∀ event, m.happening = .wrote event → FlowEvent runId start m.before.tables event

/-! ## Stages in order -/

theorem Stage.take_index (stage : Stage) :
    stages.take (stage.index + 1) = stages.take stage.index ++ [stage] := by
  cases stage <;> rfl

theorem Stage.not_mem_take_index (stage : Stage) : stage ∉ stages.take stage.index := by
  cases stage <;> decide

theorem Stage.name_mem {stage : Stage} {found : List Stage} :
    stage.name ∈ found.map Stage.name ↔ stage ∈ found := by
  constructor
  · intro h
    obtain ⟨other, hOther, hName⟩ := List.mem_map.mp h
    rwa [← Stage.name_injective hName]
  · exact fun h => List.mem_map.mpr ⟨stage, h, rfl⟩

/-- The name of a stage holds no secret. -/
theorem redactSecrets_stage (u : Unicode) (stage : Stage) :
    redactSecrets u stage.name = stage.name :=
  redactSecrets_eq_self u (by cases stage <;> decide)

section Steps

variable {runId : Uuid} {start t t' : Tables} {stage : Stage} {run : Run}

theorem Ready.not_completed (h : Ready runId stage t) : stage.name ∉ completedOf runId t := by
  rw [h, Stage.name_mem]
  exact stage.not_mem_take_index

theorem Ready.noCheckpoint (h : Ready runId stage t) :
    findCheckpoint runId stage.name t.checkpoints = none := by
  cases hFind : findCheckpoint runId stage.name t.checkpoints with
  | none => rfl
  | some row =>
      obtain ⟨hMem, hKey⟩ := findRow_some hFind
      simp only [Prod.mk.injEq] at hKey
      refine absurd (List.mem_map.mpr ⟨row, ?_, hKey.2⟩) h.not_completed
      simpa using ⟨hMem, hKey.1⟩

theorem Ready.orderly (h : Ready runId stage t) : Orderly runId t := ⟨_, h⟩

/-- While a stage is ready, the last one is not checkpointed. -/
theorem Ready.open (h : Ready runId stage t) : Stage.trace.name ∉ completedOf runId t := by
  rw [h, Stage.name_mem]
  cases stage <;> decide

/-! ## Effects -/

theorem TaskStep.checkpoints (h : TaskStep runId t stage t') : t'.checkpoints = t.checkpoints := by
  cases h with
  | metered h => exact h.frame.checkpoints
  | _ => rfl

theorem completedOf_congr (h : t'.checkpoints = t.checkpoints) :
    completedOf runId t' = completedOf runId t := by
  rw [completedOf, completedOf, h]

/-- The checkpoints after a step: at most one more, that of the stage which was ready. -/
theorem FlowStep.checkpoints (h : FlowStep runId start t t') :
    completedOf runId t' = completedOf runId t ∨
      ∃ stage, Ready runId stage t ∧ (stage = .trace → Finished runId t) ∧ t'.runs = t.runs ∧
        completedOf runId t' = (stages.take (stage.index + 1)).map Stage.name := by
  cases h with
  | task stage hReady h => exact .inl (completedOf_congr h.checkpoints)
  | saved stage hReady hFinished row hRow =>
      refine .inr ⟨stage, hReady, hFinished, rfl, ?_⟩
      rw [stage.take_index, List.map_append, ← hReady]
      simp [completedOf, hRow]
  | _ => exact .inl rfl

theorem FlowStep.orderly (h : FlowStep runId start t t') (hOrderly : Orderly runId t) :
    Orderly runId t' := by
  rcases h.checkpoints with hEq | ⟨stage, -, -, -, hEq⟩
  · rw [Orderly, hEq]
    exact hOrderly
  · exact ⟨_, hEq⟩

/-- What every step keeps of the row of a run. -/
structure RunKept (run run' : Run) : Prop where
  budget : run'.costBudgetUsd = run.costBudgetUsd
  spent : run.costSpentUsd ≤ run'.costSpentUsd

theorem RunKept.refl (run : Run) : RunKept run run := ⟨rfl, le_rfl⟩

theorem RunKept.trans {run run' run'' : Run} (h : RunKept run run') (h' : RunKept run' run'') :
    RunKept run run'' :=
  ⟨h'.budget.trans h.budget, h.spent.trans h'.spent⟩

/-- What one step can do to the status and the progress of a run. -/
inductive RunStep (runId : Uuid) (t : Tables) (run run' : Run) : Prop where
  | stays (hStatus : run'.status = run.status) (hProgress : run'.progress = run.progress)
  | enters (stage : Stage) (hReady : Ready runId stage t) (hStatus : run'.status = stage.status)
      (hProgress : run'.progress = stage.progress)
  | finishes (hReady : Ready runId .trace t) (hStatus : run'.status = .completed)
      (hProgress : run'.progress = 1)
  | pauses (hOpen : Stage.trace.name ∉ completedOf runId t) (hStatus : run'.status = .paused)
      (hProgress : run'.progress = run.progress)
  | fails (hStatus : run'.status = .failed) (hProgress : run'.progress = run.progress)

theorem TaskStep.runRow (h : TaskStep runId t stage t') (hReady : Ready runId stage t)
    (hRun : runOf runId t = some run) :
    ∃ run', runOf runId t' = some run' ∧ RunKept run run' ∧ RunStep runId t run run' := by
  cases h with
  | metered h =>
      cases h with
      | idle => exact ⟨run, hRun, .refl run, .stays rfl rfl⟩
      | cached entries => exact ⟨run, hRun, .refl run, .stays rfl rfl⟩
      | spent found hFound cost hCost =>
          obtain rfl : found = run := Option.some.inj (hFound.symm.trans hRun)
          exact ⟨_, runOf_setRun hRun rfl, ⟨rfl, by simpa using hCost⟩, .stays rfl rfl⟩
  | finalized found hFound completedAt =>
      obtain rfl : found = run := Option.some.inj (hFound.symm.trans hRun)
      exact ⟨_, runOf_setRun hRun rfl, ⟨rfl, le_rfl⟩, .finishes hReady rfl rfl⟩
  | _ => exact ⟨run, hRun, .refl run, .stays rfl rfl⟩

/-- The row of the run after a step. -/
theorem FlowStep.runRow (h : FlowStep runId start t t') (hRun : runOf runId t = some run) :
    ∃ run', runOf runId t' = some run' ∧ RunKept run run' ∧ RunStep runId t run run' := by
  cases h with
  | idle => exact ⟨run, hRun, .refl run, .stays rfl rfl⟩
  | started stage hReady found hFound =>
      obtain rfl : found = run := Option.some.inj (hFound.symm.trans hRun)
      exact ⟨_, runOf_setRun hRun rfl, ⟨rfl, le_rfl⟩, .enters stage hReady rfl rfl⟩
  | task stage hReady h => exact h.runRow hReady hRun
  | saved stage hReady hFinished row hRow => exact ⟨run, hRun, .refl run, .stays rfl rfl⟩
  | mirrored found hFound checkpoint =>
      obtain rfl : found = run := Option.some.inj (hFound.symm.trans hRun)
      exact ⟨_, runOf_setRun hRun rfl, ⟨rfl, le_rfl⟩, .stays rfl rfl⟩
  | paused hOpen found hFound =>
      obtain rfl : found = run := Option.some.inj (hFound.symm.trans hRun)
      exact ⟨_, runOf_setRun hRun rfl, ⟨rfl, le_rfl⟩, .pauses hOpen rfl rfl⟩
  | failed found hFound audit hAudit =>
      obtain rfl : found = run := Option.some.inj (hFound.symm.trans hRun)
      exact ⟨_, runOf_setRun hRun rfl, ⟨rfl, le_rfl⟩, .fails rfl rfl⟩

/-- A step creates no run. -/
theorem FlowStep.runOf_none (h : FlowStep runId start t t') (hNone : runOf runId t = none) :
    runOf runId t' = none := by
  have hNot (found : Run) : runOf runId t ≠ some found := by simp [hNone]
  cases h with
  | started stage hReady found hFound => exact absurd hFound (hNot found)
  | task stage hReady h =>
      cases h with
      | metered h =>
          cases h with
          | spent found hFound cost hCost => exact absurd hFound (hNot found)
          | _ => exact hNone
      | finalized found hFound completedAt => exact absurd hFound (hNot found)
      | _ => exact hNone
  | mirrored found hFound checkpoint => exact absurd hFound (hNot found)
  | paused hOpen found hFound => exact absurd hFound (hNot found)
  | failed found hFound audit hAudit => exact absurd hFound (hNot found)
  | _ => exact hNone

/-- Where the row of the run comes from. -/
theorem FlowStep.rowBefore (h : FlowStep runId start t t') {run' : Run}
    (hRun : runOf runId t' = some run') :
    ∃ run, runOf runId t = some run ∧ RunKept run run' ∧ RunStep runId t run run' := by
  cases hBefore : runOf runId t with
  | none => simp [h.runOf_none hBefore] at hRun
  | some run =>
      obtain ⟨other, hOther, hKept, hStep⟩ := h.runRow hBefore
      obtain rfl : other = run' := Option.some.inj (hOther.symm.trans hRun)
      exact ⟨run, rfl, hKept, hStep⟩

end Steps

end Ecrke
