import Ecrke.Pipeline.CircuitBreaker
import Ecrke.Pipeline.Stages

/-!
# The research pipeline flow

The ten stages in order, with a checkpoint after each of them and the circuit breaker in between.

* `markStageStart`, `markCheckpoint` -- what the row of the run shows of a stage.
* `executeStage` -- one turn of the loop over the stages.
* `executeStagesWith` -- the flow over any family of stage tasks and any breaker.
* `executeStages` -- `_execute_stages`, which a resume enters again.
-/

namespace Ecrke

open Durable

/-! ## Metrics -/

/-- `metrics.record_stage_duration` -/
def recordStageDuration (stage : Text) (seconds : ℚ) : Action Unit :=
  modifyMemory fun m => { m with metrics := { m.metrics with
    stageDurations := m.metrics.stageDurations ++ [(stage, max 0 seconds)] } }

/-- `metrics.record_run_status` -/
def recordRunStatus (status : Text) : Action Unit :=
  modifyMemory fun m => { m with metrics := { m.metrics with
    runsTotal := m.metrics.runsTotal ++ [status] } }

/-- `_record_run_cost`: a failure is swallowed. -/
def recordRunCost (runId : Uuid) : Action Unit :=
  tryCatch
    (do
      match ← getRun runId with
      | none => pure ()
      | some run => modifyMemory fun m => { m with metrics := { m.metrics with
          runCost := (run.id.str, run.costSpentUsd) ::
            m.metrics.runCost.filter fun entry => entry.1 ≠ run.id.str } })
    fun _ => pure ()

/-! ## The row of the run -/

/-- `_mark_stage_start` -/
def markStageStart (runId : Uuid) (stage : Stage) : Action Unit := do
  match ← getRun runId with
  | none => noRun runId
  | some run =>
      commitWrites (run.updates
        { run with
          stage := some stage.name, status := stage.status, progress := stage.progress })

/-- The mirror of the checkpoints on the run, equal to a value which the column holds. -/
def isMirror (completed : List Text) : Option Json → Bool
  | some (.obj [(key, .arr items)]) =>
      key = "completed_stages".toList && items.length = completed.length &&
        (items.zip completed).all fun (item, stage) =>
          match item with
          | .str value => value = stage
          | _ => false
  | _ => false

/-- `_mark_checkpoint` -/
def markCheckpoint (runId : Uuid) : Action Unit := do
  let completed ← CheckpointStore.completedStages runId
  let sorted := completed.mergeSort Text.le
  match ← getRun runId with
  | none => pure ()
  | some run =>
      let mirror : Json := .obj [("completed_stages".toList, .ofTexts sorted)]
      commitWrites (if isMirror sorted run.checkpoint then []
        else [.updateRun run.id { RunChanges.nothing with checkpoint := some (some mirror) }])

/-- Set the status of a run to `paused`. -/
def pauseRun (runId : Uuid) : Action Unit := do
  match ← getRun runId with
  | none => pure ()
  | some run => commitWrites (run.updates { run with status := .paused })

/-- The audit row of a failure. -/
def failureAudit (u : Unicode) (run : Run) (error : PyError) (id : Uuid) (ts : Instant) :
    AuditTrace where
  id
  runId := run.id
  entityType := "run".toList
  entityId := some run.id.str
  action := "run.failed".toList
  actor := some "pipeline".toList
  decision := some "failed".toList
  reason := some ((redactSecrets u error.message).take 2000)
  evidence := none
  ts

/-- Set the status of a run to `failed` and append the audit row. -/
def failRun (u : Unicode) (runId : Uuid) (error : PyError) : Action Unit := do
  match ← getRun runId with
  | none => pure ()
  | some run =>
      let id ← uuid4
      let ts ← dbNow
      commitWrites (run.updates { run with status := .failed } ++
        [.insertAuditTrace (failureAudit u run error id ts)])

/-! ## The stage loop -/

/-- The tasks of the stages. -/
abbrev StageTasks := Stage → PipelineContext → Action StageResult

/-- What an execution of the flow has read before it enters the loop. -/
structure FlowStart where
  completed : List Text
  runBudget : Usd

/-- The breaker after a stage which is not the last one. -/
def checkBreaker (breaker : CircuitBreaker) (ctx : PipelineContext) (runBudget : Usd)
    (stage : Stage) : Action Unit := do
  if stages.getLast? = some stage then pure ()
  else
    let run ← getRun ctx.runId
    let spent := (run.map Run.costSpentUsd).getD 0
    Prog.ofExcept (breaker.check ctx.services.platform stage.name spent runBudget)

/-- A stage without a checkpoint: the task, its checkpoint, the breaker. -/
def runStage (tasks : StageTasks) (breaker : CircuitBreaker) (ctx : PipelineContext)
    (runBudget : Usd) (stage : Stage) : Action Unit := do
  let u := ctx.services.platform.unicode
  markStageStart ctx.runId stage
  emit (.stageStarted ctx.runId (redactSecrets u stage.name))
  let startedAt ← perfCounter
  let result ← tasks stage ctx
  if !result.ok then
    raiseError .runtimeError
      ("stage ".toList ++ Text.repr u stage.name ++ " reported failure".toList)
  CheckpointStore.save ctx.services.platform ctx.runId stage.name result.detail
  markCheckpoint ctx.runId
  let endedAt ← perfCounter
  recordStageDuration stage.name (endedAt - startedAt)
  emit (.stageCompleted ctx.runId (redactSecrets u stage.name) true
    (result.detail.map (redactJson u)))
  checkBreaker breaker ctx runBudget stage

/-- One turn of the loop: a stage which was checkpointed at the start is skipped. -/
def executeStage (tasks : StageTasks) (breaker : CircuitBreaker) (ctx : PipelineContext)
    (start : FlowStart) (stage : Stage) : Action Unit :=
  if stage.name ∈ start.completed then pure ()
  else runStage tasks breaker ctx start.runBudget stage

/-- What follows a breach of a budget. -/
def onBreach (ctx : PipelineContext) (error : PyError) : Action Text := do
  pauseRun ctx.runId
  recordRunCost ctx.runId
  emit (.runPaused ctx.runId (redactSecrets ctx.services.platform.unicode error.message))
  recordRunStatus "paused".toList
  pure "paused".toList

/-- What follows any other exception, which is raised again. -/
def onFailure (ctx : PipelineContext) (error : PyError) : Action Text := do
  let u := ctx.services.platform.unicode
  failRun u ctx.runId error
  recordRunCost ctx.runId
  emit (.runFailed ctx.runId (redactSecrets u error.message))
  recordRunStatus "failed".toList
  throw error

/-- What follows the last stage. -/
def onCompletion (ctx : PipelineContext) : Action Text := do
  recordRunCost ctx.runId
  emit (.runCompleted ctx.runId)
  recordRunStatus "completed".toList
  pure "completed".toList

/-- What an execution reads before it enters the loop. -/
def readStart (ctx : PipelineContext) : Action FlowStart := do
  let completed ← CheckpointStore.completedStages ctx.runId
  match ← getRun ctx.runId with
  | none => noRun ctx.runId
  | some run => pure ⟨completed, run.costBudgetUsd⟩

/-- The loop over the stages with its handlers; nothing when it has come to its end. -/
def guardedStages (tasks : StageTasks) (breaker : CircuitBreaker) (ctx : PipelineContext)
    (start : FlowStart) : Action (Option Text) :=
  tryCatch
    (do
      stages.forM (executeStage tasks breaker ctx start)
      pure none)
    fun error =>
      if error.kind = .circuitBreakerError then some <$> onBreach ctx error
      else some <$> onFailure ctx error

/-- The flow over any stage tasks and any breaker. -/
def executeStagesWith (tasks : StageTasks) (breaker : CircuitBreaker) (ctx : PipelineContext) :
    Action Text := do
  let start ← readStart ctx
  match ← guardedStages tasks breaker ctx start with
  | some outcome => pure outcome
  | none => onCompletion ctx

/-- `_execute_stages`, the body of `research_pipeline` and of `resume_pipeline`. -/
def executeStages (ctx : PipelineContext) : Action Text :=
  executeStagesWith stageTasks .default ctx

end Ecrke
