import Ecrke.World

/-!
# The cost circuit breaker

* `CircuitBreaker.check` -- raise when the spend breaches the budget of the run or the budget of a
  stage; `CircuitBreaker.check_ok_iff` says when it does not.
-/

namespace Ecrke

/-- `DEFAULT_STAGE_FRACTION` -/
def defaultStageFraction : ℚ := 10 / 100

/-- A breaker with the fraction of the budget which a stage is entitled to. -/
structure CircuitBreaker where
  fraction : ℚ

/-- `CircuitBreaker()` -/
def CircuitBreaker.default : CircuitBreaker := ⟨defaultStageFraction⟩

/-- `stage_budget` -/
def CircuitBreaker.stageBudget (breaker : CircuitBreaker) (runBudget : Usd) : Usd :=
  runBudget * breaker.fraction

/-- The check after a stage: the budget of the run first, then the budget of the stage. -/
def CircuitBreaker.check (p : Platform) (breaker : CircuitBreaker) (stage : Text)
    (spent runBudget : Usd) : Except PyError Unit :=
  if runBudget < spent then
    .error ⟨.circuitBreakerError, "total budget breached for ".toList ++ stage ++
      ": spent ".toList ++ p.decimalStr spent ++ " > run budget ".toList ++ p.decimalStr runBudget⟩
  else if breaker.stageBudget runBudget < spent then
    .error ⟨.circuitBreakerError, "stage budget breached for ".toList ++ stage ++
      ": spent ".toList ++ p.decimalStr spent ++ " > stage budget ".toList ++
      p.decimalStr (breaker.stageBudget runBudget) ++ " (run budget ".toList ++
      p.decimalStr runBudget ++ " * fraction ".toList ++ p.decimalStr breaker.fraction ++
      ")".toList⟩
  else .ok ()

theorem CircuitBreaker.check_ok_iff (p : Platform) (breaker : CircuitBreaker) (stage : Text)
    (spent runBudget : Usd) : breaker.check p stage spent runBudget = .ok () ↔
      spent ≤ runBudget ∧ spent ≤ breaker.stageBudget runBudget := by
  unfold CircuitBreaker.check
  split
  · simp_all
  · split <;> simp_all

theorem CircuitBreaker.check_error {p : Platform} {breaker : CircuitBreaker} {stage : Text}
    {spent runBudget : Usd} {error : PyError}
    (h : breaker.check p stage spent runBudget = .error error) :
    error.kind = .circuitBreakerError ∧
      (runBudget < spent ∨ breaker.stageBudget runBudget < spent) := by
  unfold CircuitBreaker.check at h
  split at h
  · cases h
    exact ⟨rfl, .inl ‹_›⟩
  · split at h
    · cases h
      exact ⟨rfl, .inr ‹_›⟩
    · cases h

end Ecrke
