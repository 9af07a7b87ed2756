import Ecrke.Pipeline.Flows

/-!
# The in-process runner

The runner behind `POST /runs` without a worker queue: it builds the services, executes the flow and
reports every failure as an outcome.

* `persistStartFailure` -- `_persist_start_failure`.
* `DefaultPipelineRunner.run` -- `run`, in-process.
-/

namespace Ecrke

open Durable

/-- `_persist_start_failure`: only a run which is still submitted fails; an exception is swallowed. -/
def persistStartFailure (u : Unicode) (runId : Uuid) (reason : PyError) : Action Unit :=
  tryCatch
    (do
      match ← getRun runId with
      | none => pure ()
      | some run =>
          if run.status ≠ .submitted then pure ()
          else
            let _ ← now
            let id ← uuid4
            let ts ← dbNow
            commitWrites (run.updates { run with status := .failed } ++
              [.insertAuditTrace (failureAudit u run reason id ts)]))
    fun _ => pure ()

/-- `DefaultPipelineRunner.run` in-process; `services` is what the environment comes to. -/
def DefaultPipelineRunner.run (u : Unicode) (runId : Uuid)
    (services : Except PyError PipelineServices) : Action Text :=
  match services with
  | .error error => do
      persistStartFailure u runId error
      pure "failed".toList
  | .ok services => tryCatch (executeStages ⟨runId, services⟩) fun _ => pure "failed".toList

end Ecrke
