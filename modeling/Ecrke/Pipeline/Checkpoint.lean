import Ecrke.Pipeline.Context

/-!
# Durable stage checkpoints

* `CheckpointStore.save` -- upsert the checkpoint of a stage, with its state redacted.
* `CheckpointStore.load` -- the state of a stage.
* `CheckpointStore.completedStages` -- the names of the checkpointed stages of a run.
-/

namespace Ecrke

open Durable

/-- The checkpoint of a stage of a run. -/
def findCheckpoint (runId : Uuid) (stage : Text) (checkpoints : List Checkpoint) :
    Option Checkpoint :=
  findRow (fun c : Checkpoint => (c.runId, c.stage)) (runId, stage) checkpoints

/-- The names of the checkpointed stages of a run. -/
def completedOf (runId : Uuid) (t : Tables) : List Text :=
  (t.checkpoints.filter fun c => c.runId = runId).map Checkpoint.stage

namespace CheckpointStore

/-- Upsert a checkpoint.  Every `Json` value is serializable, so the check of the source passes. -/
def save (p : Platform) (runId : Uuid) (stage : Text) (state : Option Json) : Action Unit := do
  let redacted := state.map (redactJson p.unicode)
  let existing ← selectTables fun t => findCheckpoint runId stage t.checkpoints
  match existing with
  | none => do
      let id ← uuid4
      commitWrites [.insertCheckpoint ⟨id, runId, stage, redacted⟩]
  | some row => commitWrites [.updateCheckpoint row.id redacted]

/-- The state of a checkpoint. -/
def load (runId : Uuid) (stage : Text) : Action (Option Json) :=
  selectTables fun t => (findCheckpoint runId stage t.checkpoints).bind Checkpoint.state

/-- The checkpointed stages of a run, a set. -/
def completedStages (runId : Uuid) : Action (List Text) := selectTables (completedOf runId)

end CheckpointStore

end Ecrke
