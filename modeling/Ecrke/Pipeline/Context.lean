import Ecrke.Services.Collection
import Ecrke.Services.LLMGateway

/-!
# Pipeline orchestration contracts

* `Stage`, `stages` -- the ten stages in the order of their execution.
* `Stage.status`, `Stage.progress` -- what the run shows while a stage executes.
* `PipelineServices`, `PipelineContext`, `StageResult` -- the bundle, the argument and the result of
  a stage task.
-/

namespace Ecrke

/-- The stages of the pipeline. -/
inductive Stage where
  | define
  | search
  | collect
  | store
  | extract
  | verify
  | find
  | detect
  | conclude
  | trace
  deriving DecidableEq

/-- `STAGES` -/
def stages : List Stage :=
  [.define, .search, .collect, .store, .extract, .verify, .find, .detect, .conclude, .trace]

namespace Stage

/-- The name of a stage. -/
def name : Stage → Text
  | define => "define".toList
  | search => "search".toList
  | collect => "collect".toList
  | store => "store".toList
  | extract => "extract".toList
  | verify => "verify".toList
  | find => "find".toList
  | detect => "detect".toList
  | conclude => "conclude".toList
  | trace => "trace".toList

/-- `STAGE_STATUS` -/
def status : Stage → RunStatus
  | define => .planning
  | search => .searching
  | collect => .collecting
  | store => .storing
  | extract => .extracting
  | verify => .verifying
  | find => .comparing
  | detect => .detecting
  | conclude => .concluding
  | trace => .tracing

/-- The position of a stage in the order of execution. -/
def index (stage : Stage) : Nat := stages.idxOf stage

/-- `STAGE_PROGRESS`: evenly spaced from 0.1 to 1.0. -/
def progress (stage : Stage) : ℚ := (stage.index + 1 : ℕ) / (stages.length : ℕ)

theorem mem_stages (stage : Stage) : stage ∈ stages := by
  cases stage <;> decide

theorem name_injective {a b : Stage} (h : a.name = b.name) : a = b := by
  revert h
  cases a <;> cases b <;> decide

end Stage

/-- The service bundle. -/
structure PipelineServices where
  platform : Platform
  settings : Settings

/-- The gateway of the bundle: two retries, no hooks. -/
def PipelineServices.gateway (services : PipelineServices) : LLMGateway where
  platform := services.platform
  settings := services.settings

/-- The argument of every stage task. -/
structure PipelineContext where
  runId : Uuid
  services : PipelineServices

/-- The outcome of a stage. -/
structure StageResult where
  stage : Stage
  ok : Bool
  detail : Option Json

/-- The exception for a run which does not exist. -/
def noRun {α : Type} (runId : Uuid) : Action α :=
  raiseError .valueError ("no Run row for run_id=".toList ++ runId.str)

end Ecrke
