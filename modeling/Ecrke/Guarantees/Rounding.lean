import Ecrke.Guarantees.MeteredCalls
import Mathlib.Algebra.Order.BigOperators.Group.List

/-!
# Rounding before adding up

The meter rounds the cost of every call to the four decimals of the storage and then adds it, so the
errors of the calls add up.

* `halfUp`, `halfUp_error`, `sum_halfUp_error` -- rounding to a unit, of one amount and of many.
* `Meterings` -- calls of the meter on one run, one after the other.
* `meterings_spent` -- the spend which they leave.
-/

namespace Ecrke

open Durable

/-! ## Rounding to a unit -/

section HalfUp

variable {unit cost : ℚ}

/-- The multiple of the unit next to an amount, the greater one of two. -/
def halfUp (unit cost : ℚ) : ℚ := ⌊cost / unit + 1 / 2⌋ * unit

theorem halfUp_nonneg (hUnit : 0 < unit) (hCost : 0 ≤ cost) : 0 ≤ halfUp unit cost := by
  have hFloor : (0 : ℤ) ≤ ⌊cost / unit + 1 / 2⌋ := by
    apply Int.floor_nonneg.mpr
    positivity
  have hCast : (0 : ℚ) ≤ (⌊cost / unit + 1 / 2⌋ : ℤ) := by exact_mod_cast hFloor
  exact mul_nonneg hCast hUnit.le

/-- One amount is rounded by half a unit at most. -/
theorem halfUp_error (hUnit : 0 < unit) (cost : ℚ) : |halfUp unit cost - cost| ≤ unit / 2 := by
  have hLow := Int.floor_le (cost / unit + 1 / 2)
  have hHigh := Int.lt_floor_add_one (cost / unit + 1 / 2)
  have hBack : cost / unit * unit = cost := div_mul_cancel₀ cost hUnit.ne'
  have hBelow : halfUp unit cost ≤ (cost / unit + 1 / 2) * unit :=
    mul_le_mul_of_nonneg_right hLow hUnit.le
  have hAbove : (cost / unit + 1 / 2) * unit ≤ (⌊cost / unit + 1 / 2⌋ + 1) * unit :=
    mul_le_mul_of_nonneg_right hHigh.le hUnit.le
  rw [halfUp] at hBelow ⊢
  rw [abs_le]
  constructor
  · linarith
  · linarith

/-- Many amounts by half a unit each. -/
theorem sum_halfUp_error {α : Type} (hUnit : 0 < unit) (amount : α → ℚ) (items : List α) :
    |(items.map fun item => halfUp unit (amount item)).sum - (items.map amount).sum| ≤
      items.length * (unit / 2) := by
  induction items with
  | nil => simp
  | cons item rest ih =>
      have hOne := halfUp_error hUnit (amount item)
      have hParts : ((item :: rest).map fun item => halfUp unit (amount item)).sum -
          ((item :: rest).map amount).sum = (halfUp unit (amount item) - amount item) +
            ((rest.map fun item => halfUp unit (amount item)).sum - (rest.map amount).sum) := by
        simp only [List.map_cons, List.sum_cons]
        ring
      have hLength : ((item :: rest).length : ℚ) = rest.length + 1 := by simp
      have hTriangle := abs_add_le (halfUp unit (amount item) - amount item)
        ((rest.map fun item => halfUp unit (amount item)).sum - (rest.map amount).sum)
      rw [hParts, hLength]
      linarith

theorem sum_halfUp_nonneg {α : Type} (hUnit : 0 < unit) {amount : α → ℚ} {items : List α}
    (h : ∀ item ∈ items, 0 ≤ amount item) :
    0 ≤ (items.map fun item => halfUp unit (amount item)).sum := by
  apply List.sum_nonneg
  intro value hValue
  obtain ⟨item, hItem, rfl⟩ := List.mem_map.mp hValue
  exact halfUp_nonneg hUnit (h item hItem)

end HalfUp

/-! ## The cost of a call -/

theorem storageUnit_pos : 0 < storageUnit := by norm_num [storageUnit]

/-- A cost which is not negative is rounded half up to the unit of the storage. -/
theorem callCost_halfUp {p : Platform} {call : MeteredCall} {cost : Usd}
    (h : callCost p call = .ok cost) (hCost : 0 ≤ rawCost p call) :
    cost = halfUp storageUnit (rawCost p call) := by
  unfold callCost at h
  cases hQuantize : quantize (rawCost p call) with
  | error error => simp [hQuantize, bind, Except.bind] at h
  | ok rounded =>
      simp only [hQuantize, bind, Except.bind] at h
      split at h
      · cases h
      · cases h
        unfold quantize at hQuantize
        dsimp only at hQuantize
        split at hQuantize
        · cases hQuantize
        · cases hQuantize
          have hFloor : (0 : ℤ) ≤ ⌊rawCost p call / storageUnit + 1 / 2⌋ := by
            have hUnit := storageUnit_pos
            apply Int.floor_nonneg.mpr
            positivity
          have hCast : ((⌊rawCost p call / storageUnit + 1 / 2⌋.toNat : ℕ) : ℚ) =
              (⌊rawCost p call / storageUnit + 1 / 2⌋ : ℤ) := by
            exact_mod_cast Int.toNat_of_nonneg hFloor
          rw [if_neg (not_lt.mpr hCost), abs_of_nonneg hCost, one_mul, hCast]
          rfl

/-! ## Calls one after the other -/

/-- Calls of the meter on a run, one after the other, each with the cost which it returns, if it
returns: it may also raise or be cut off. -/
inductive Meterings (p : Platform) (runId : Uuid) :
    World → List (MeteredCall × Option Usd) → World → Prop where
  | nil (s : World) : Meterings p runId s [] s
  | cons {s t u : World} {log : Log Vocabulary} {call : MeteredCall} {left : Action Usd}
      {later : List (MeteredCall × Option Usd)} (hRun : call.runId = some runId)
      (hCall : Exec (recordCall p call) s log left t) (hLater : Meterings p runId t later u) :
      Meterings p runId s ((call, left.returned) :: later) u

/-- The calls which have returned. -/
def returnedCalls (calls : List (MeteredCall × Option Usd)) : List MeteredCall :=
  (calls.filter fun entry => entry.2.isSome).map Prod.fst

/-- What some calls leave on record: the spend does not fall, it grows by the rounded cost of every
recorded call, and it is off by half a unit for each of these at most.  Every call which has returned
is recorded, in order. -/
structure Accounted (p : Platform) (calls : List (MeteredCall × Option Usd)) (before after : Usd)
    (recorded : List MeteredCall) : Prop where
  among : recorded.Sublist (calls.map Prod.fst)
  returned : (returnedCalls calls).Sublist recorded
  grows : before ≤ after
  total : after = before + (recorded.map fun call => halfUp storageUnit (rawCost p call)).sum
  error : |after - before - (recorded.map (rawCost p)).sum| ≤
    recorded.length * (storageUnit / 2)

section Meterings

variable {p : Platform} {runId : Uuid} {s t : World} {calls : List (MeteredCall × Option Usd)}

/-- One call is recorded, at its rounded cost, or it leaves the spend. -/
theorem recordCall_halfUp {call : MeteredCall} {left : Action Usd} {log : Log Vocabulary}
    {before : Usd} (hRun : call.runId = some runId) (hCall : Exec (recordCall p call) s log left t)
    (hCost : 0 ≤ rawCost p call) (hBefore : spentIn runId s = some before) :
    spentIn runId t = some (before + halfUp storageUnit (rawCost p call)) ∨
      spentIn runId t = some before ∧ left.returned = none := by
  obtain ⟨hSpent, hDone⟩ := recordCall_spent hRun hCall
  cases hReturned : left.returned with
  | some cost =>
      left
      obtain ⟨hOk, hAfter⟩ := hDone cost (Prog.eq_done hReturned)
      rw [hAfter, hBefore, callCost_halfUp hOk hCost]
      rfl
  | none =>
      rcases hSpent with hSame | hAdded
      · exact .inr ⟨hSame.trans hBefore, rfl⟩
      · cases hOk : callCost p call with
        | error error =>
            right
            have hZero : costOf p call = 0 := by simp [costOf, hOk, Except.toOption]
            refine ⟨?_, rfl⟩
            rw [hAdded, hBefore, hZero, Option.map_some, add_zero]
        | ok cost =>
            left
            have hOf : costOf p call = cost := by simp [costOf, hOk, Except.toOption]
            rw [hAdded, hBefore, hOf, callCost_halfUp hOk hCost]
            rfl

/-- The calls which are recorded, and the total of their rounded costs. -/
theorem meterings_total (h : Meterings p runId s calls t)
    (hCosts : ∀ entry ∈ calls, 0 ≤ rawCost p entry.1) {before : Usd}
    (hBefore : spentIn runId s = some before) :
    ∃ recorded : List MeteredCall, recorded.Sublist (calls.map Prod.fst) ∧
      (returnedCalls calls).Sublist recorded ∧ spentIn runId t = some (before +
        (recorded.map fun call => halfUp storageUnit (rawCost p call)).sum) := by
  induction h generalizing before with
  | nil s => exact ⟨[], .slnil, .slnil, by simpa using hBefore⟩
  | @cons s t u log call left later hRun hCall hLater ih =>
      rw [List.forall_mem_cons] at hCosts
      rcases recordCall_halfUp hRun hCall hCosts.1 hBefore with hAdded | ⟨hSame, hNone⟩
      · obtain ⟨recorded, hAmong, hReturned, hTotal⟩ := ih hCosts.2 hAdded
        refine ⟨call :: recorded, hAmong.cons_cons _, ?_, ?_⟩
        · cases hLeft : left.returned with
          | none =>
              have hSkip : returnedCalls ((call, none) :: later) = returnedCalls later := rfl
              rw [hSkip]
              exact hReturned.cons _
          | some cost =>
              have hKeep : returnedCalls ((call, some cost) :: later) =
                  call :: returnedCalls later := rfl
              rw [hKeep]
              exact hReturned.cons_cons _
        · rw [hTotal, List.map_cons, List.sum_cons, add_assoc]
      · obtain ⟨recorded, hAmong, hReturned, hTotal⟩ := ih hCosts.2 hSame
        refine ⟨recorded, hAmong.cons _, ?_, hTotal⟩
        have hSkip : returnedCalls ((call, none) :: later) = returnedCalls later := rfl
        rw [hNone, hSkip]
        exact hReturned

/-- The spend after some calls is accounted for, up to half a unit for each recorded call. -/
theorem meterings_spent (h : Meterings p runId s calls t)
    (hCosts : ∀ entry ∈ calls, 0 ≤ rawCost p entry.1) {before : Usd}
    (hBefore : spentIn runId s = some before) :
    ∃ after recorded, spentIn runId t = some after ∧ Accounted p calls before after recorded := by
  obtain ⟨recorded, hAmong, hReturned, hTotal⟩ := meterings_total h hCosts hBefore
  have hRecorded : ∀ call ∈ recorded, 0 ≤ rawCost p call := by
    intro call hCall
    obtain ⟨entry, hEntry, rfl⟩ := List.mem_map.mp (hAmong.subset hCall)
    exact hCosts entry hEntry
  have hGrows := sum_halfUp_nonneg storageUnit_pos hRecorded
  have hError := sum_halfUp_error storageUnit_pos (rawCost p) recorded
  refine ⟨_, recorded, hTotal, hAmong, hReturned, ?_, rfl, ?_⟩
  · linarith
  · rw [add_sub_cancel_left]
    exact hError

end Meterings

/-! ## Tiny calls -/

/-- A call which costs less than half a unit. -/
def MeteredCall.tiny : MeteredCall := { MeteredCall.oneDollar with costUsd := some (4 / 100000) }

/-- Such a call on a run, in a certain state. -/
def tinyCall (s : World) : Log Vocabulary × Action Usd × World :=
  simulate (quietOutside fun _ => .grant) 9 0 (recordCall .plain .tiny) s

theorem tinyCall_meterings (s : World) : Meterings .plain ⟨1⟩ s
    [(.tiny, (tinyCall s).2.1.returned),
      (.tiny, (tinyCall (tinyCall s).2.2).2.1.returned)] (tinyCall (tinyCall s).2.2).2.2 :=
  .cons rfl (simulate_exec _ _ _ _ _) (.cons rfl (simulate_exec _ _ _ _ _) (.nil _))

theorem tinyCall_spent : (tinyCall (World.submitted 5)).2.1.returned = some 0 ∧
    (tinyCall (tinyCall (World.submitted 5)).2.2).2.1.returned = some 0 ∧
    spentIn ⟨1⟩ (tinyCall (tinyCall (World.submitted 5)).2.2).2.2 = some 0 := by
  decide +kernel

/-- For example two of them. -/
theorem meterings_spent_tiny : (∀ entry ∈ [(MeteredCall.tiny, (tinyCall (World.submitted 5)).2.1.returned),
      (.tiny, (tinyCall (tinyCall (World.submitted 5)).2.2).2.1.returned)],
        0 ≤ rawCost .plain entry.1) ∧ spentIn ⟨1⟩ (World.submitted 5) = some 0 ∧
    ∃ after recorded, spentIn ⟨1⟩ (tinyCall (tinyCall (World.submitted 5)).2.2).2.2 = some after ∧
      Accounted .plain [(.tiny, (tinyCall (World.submitted 5)).2.1.returned),
        (.tiny, (tinyCall (tinyCall (World.submitted 5)).2.2).2.1.returned)] 0 after recorded := by
  have hCosts : ∀ entry ∈ [(MeteredCall.tiny, (tinyCall (World.submitted 5)).2.1.returned),
      (.tiny, (tinyCall (tinyCall (World.submitted 5)).2.2).2.1.returned)],
        0 ≤ rawCost .plain entry.1 := by
    simp only [List.forall_mem_cons]
    exact ⟨by norm_num [rawCost, MeteredCall.tiny], by norm_num [rawCost, MeteredCall.tiny],
      by simp⟩
  exact ⟨hCosts, rfl, meterings_spent (tinyCall_meterings _) hCosts rfl⟩

/-- Two calls of 0.00004 dollars each leave nothing on record. -/
theorem tinyCalls_lost : ¬ ∀ (p : Platform) (runId : Uuid) (s t : World)
    (calls : List (MeteredCall × Option Usd)) (before after : Usd), Meterings p runId s calls t →
    (∀ entry ∈ calls, 0 ≤ rawCost p entry.1 ∧ entry.2.isSome) →
    spentIn runId s = some before → spentIn runId t = some after →
    before ≤ after ∧
      |after - before - ((calls.map Prod.fst).map (rawCost p)).sum| ≤ storageUnit / 2 := by
  intro h
  obtain ⟨hFirst, hSecond, hSpent⟩ := tinyCall_spent
  have hCost : rawCost .plain .tiny = 4 / 100000 := rfl
  have hCalls := tinyCall_meterings (World.submitted 5)
  rw [hFirst, hSecond] at hCalls
  have hFar := (h .plain ⟨1⟩ _ _ _ 0 0 hCalls (by
    simp only [List.forall_mem_cons, hCost]
    exact ⟨⟨by norm_num, rfl⟩, ⟨by norm_num, rfl⟩, by simp⟩) rfl hSpent).2
  simp only [List.map_cons, List.map_nil, List.sum_cons, List.sum_nil, hCost, storageUnit] at hFar
  norm_num at hFar

end Ecrke
