import Ecrke.Durable.Contract
import Mathlib.Logic.Function.Basic

/-!
# Programs side by side

Several programs over one store, taking their steps in any order.

* `PoolExec` -- the interleaved executions, with the log of who did what.
* `own` -- what one of the programs did.
* `PoolExec.sound` -- the parallel rule: if what each program ensures is what the others rely on,
  every program keeps its contract along its own steps, whatever the interleaving is.
* `PoolExec.follows` -- the state at the end is reached through the states in the log.
* `runSchedule` -- one interleaved execution as a function of a schedule, for concrete inputs.
-/

namespace Ecrke
namespace Durable

variable {S : Signature} {ι α : Type} [DecidableEq ι]

/-- Steps of the programs of a pool in any order.  The log says who took each of them. -/
inductive PoolExec : (ι → Prog S α) → S.State → List (ι × Moment S) → (ι → Prog S α) →
    S.State → Prop where
  | refl (pool : ι → Prog S α) (s : S.State) : PoolExec pool s [] pool s
  | step {pool left : ι → Prog S α} {i : ι} {q : Prog S α} {m : Moment S}
      {later : List (ι × Moment S)} {u : S.State} (first : Step (pool i) m q)
      (rest : PoolExec (Function.update pool i q) m.after later left u) :
      PoolExec pool m.before ((i, m) :: later) left u

/-- The moments of one of the programs. -/
def own (i : ι) (log : List (ι × Moment S)) : Log S :=
  (log.filter fun entry => entry.1 = i).map Prod.snd

@[simp] theorem own_nil (i : ι) : own i ([] : List (ι × Moment S)) = [] := rfl

@[simp] theorem own_cons_self (i : ι) (m : Moment S) (log : List (ι × Moment S)) :
    own i ((i, m) :: log) = m :: own i log := by
  simp [own]

theorem own_cons_of_ne {i j : ι} (h : j ≠ i) (m : Moment S) (log : List (ι × Moment S)) :
    own i ((j, m) :: log) = own i log := by
  simp [own, h]

@[simp] theorem own_append (i : ι) (log later : List (ι × Moment S)) :
    own i (log ++ later) = own i log ++ own i later := by
  simp [own]

theorem mem_own {i : ι} {m : Moment S} {log : List (ι × Moment S)} :
    m ∈ own i log ↔ (i, m) ∈ log := by
  simp only [own, List.mem_map, List.mem_filter, decide_eq_true_eq]
  constructor
  · rintro ⟨⟨j, m'⟩, ⟨hMem, rfl⟩, rfl⟩
    exact hMem
  · exact fun h => ⟨(i, m), ⟨h, rfl⟩, rfl⟩

theorem PoolExec.trans {pool mid left : ι → Prog S α} {s t u : S.State}
    {now later : List (ι × Moment S)} (first : PoolExec pool s now mid t)
    (rest : PoolExec mid t later left u) : PoolExec pool s (now ++ later) left u := by
  induction first with
  | refl pool s => exact rest
  | step head _ ih => exact .step head (ih rest)

/-- The states of an interleaving follow each other. -/
theorem PoolExec.linked {pool left : ι → Prog S α} {s t : S.State} {log : List (ι × Moment S)}
    (h : PoolExec pool s log left t) : Linked s (log.map Prod.snd) t := by
  induction h with
  | refl pool s => exact rfl
  | step first rest ih => exact ⟨rfl, ih⟩

/-- The parallel rule. -/
theorem PoolExec.sound {C : ι → Contract S} {Q : ι → Post S α}
    (hRefl : ∀ i s, (C i).rely s s)
    (hTrans : ∀ i s t u, (C i).rely s t → (C i).rely t u → (C i).rely s u)
    (hGuarantee : ∀ i j l m, i ≠ j → (C i).ensures l m → (C j).rely m.before m.after)
    {pool left : ι → Prog S α} {s t : S.State} {log : List (ι × Moment S)}
    (h : PoolExec pool s log left t) {l : ι → Log S}
    (hPool : ∀ i, ∃ t, (C i).rely t s ∧ wp (C i) (Q i) (pool i) t (l i))
    (hGiven : ∀ i, (C i).Granted (l i) (own i log)) :
    (∀ i, (C i).Along (l i) (own i log)) ∧
      ∀ i, ∃ u, (C i).rely u t ∧ wp (C i) (Q i) (left i) u (l i ++ own i log) := by
  induction h generalizing l with
  | refl pool s => exact ⟨fun i => trivial, by simpa using hPool⟩
  | @step pool left i q m later u first rest ih =>
      obtain ⟨t, hStill, hWp⟩ := hPool i
      have hGivenNow := hGiven i
      rw [own_cons_self] at hGivenNow
      obtain ⟨hNow, hNext⟩ := wp_step first hWp ⟨hStill, hGivenNow.1⟩
      have hLater : ∀ j, ∃ t, (C j).rely t m.after ∧
          wp (C j) (Q j) (Function.update pool i q j) t
            (Function.update l i (l i ++ [m]) j) := by
        intro j
        by_cases hj : j = i
        · subst hj
          exact ⟨m.after, hRefl _ _, by simpa using hNext⟩
        · obtain ⟨t', hStill', hWp'⟩ := hPool j
          exact ⟨t', hTrans _ _ _ _ hStill' (hGuarantee i j _ m (Ne.symm hj) hNow),
            by simpa [Function.update_of_ne hj] using hWp'⟩
      have hGivenLater : ∀ j, (C j).Granted (Function.update l i (l i ++ [m]) j)
          (own j later) := by
        intro j
        by_cases hj : j = i
        · subst hj
          simpa using hGivenNow.2
        · simpa [Function.update_of_ne hj, own_cons_of_ne (Ne.symm hj)] using hGiven j
      obtain ⟨hAlong, hLeft⟩ := ih hLater hGivenLater
      constructor
      · intro j
        by_cases hj : j = i
        · subst hj
          rw [own_cons_self]
          exact ⟨hNow, by simpa using hAlong j⟩
        · simpa [Function.update_of_ne hj, own_cons_of_ne (Ne.symm hj)] using hAlong j
      · intro j
        by_cases hj : j = i
        · subst hj
          simpa using hLeft j
        · simpa [Function.update_of_ne hj, own_cons_of_ne (Ne.symm hj)] using hLeft j

/-- A step preserves what a whole interleaving preserves: `R` relates the state of a moment to every
later state of the log, if every step moves along `R`. -/
theorem PoolExec.follows {R : S.State → S.State → Prop} (hRefl : ∀ s, R s s)
    (hTrans : ∀ s t u, R s t → R t u → R s u) {pool left : ι → Prog S α} {s t : S.State}
    {log : List (ι × Moment S)} (h : PoolExec pool s log left t)
    (hStep : ∀ i m, (i, m) ∈ log → R m.before m.after) :
    R s t ∧ ∀ earlier i m later, log = earlier ++ (i, m) :: later → R s m.before := by
  induction h with
  | refl pool s =>
      refine ⟨hRefl s, ?_⟩
      intro earlier i m later hLog
      simp at hLog
  | @step pool left i q m later u first rest ih =>
      obtain ⟨hEnd, hMid⟩ := ih fun j m' hm' => hStep j m' (List.mem_cons_of_mem _ hm')
      have hNow := hStep i m (List.mem_cons_self ..)
      refine ⟨hTrans _ _ _ hNow hEnd, ?_⟩
      intro earlier j m' rest' hLog
      cases earlier with
      | nil =>
          simp only [List.nil_append, List.cons.injEq, Prod.mk.injEq] at hLog
          obtain ⟨⟨-, rfl⟩, -⟩ := hLog
          exact hRefl _
      | cons entry earlier =>
          simp only [List.cons_append, List.cons.injEq] at hLog
          exact hTrans _ _ _ hNow (hMid earlier j m' rest' hLog.2)

/-! ## One interleaving as a function of its schedule -/

/-- The steps which a schedule names, as far as the programs have them to take. -/
def runSchedule (env : Environment S) :
    List ι → Nat → (ι → Prog S α) → S.State →
      List (ι × Moment S) × (ι → Prog S α) × S.State
  | [], _, pool, s => ([], pool, s)
  | i :: rest, n, pool, s =>
      match next env n (pool i) s with
      | none => runSchedule env rest (n + 1) pool s
      | some (m, q) =>
          let later := runSchedule env rest (n + 1) (Function.update pool i q) m.after
          ((i, m) :: later.1, later.2)

theorem runSchedule_exec (env : Environment S) (schedule : List ι) (n : Nat)
    (pool : ι → Prog S α) (s : S.State) :
    PoolExec pool s (runSchedule env schedule n pool s).1
      (runSchedule env schedule n pool s).2.1 (runSchedule env schedule n pool s).2.2 := by
  induction schedule generalizing n pool s with
  | nil => exact .refl pool s
  | cons i rest ih =>
      cases h : next env n (pool i) s with
      | none => simpa [runSchedule, h] using ih (n + 1) pool s
      | some now =>
          obtain ⟨m, q⟩ := now
          obtain ⟨hStep, rfl⟩ := next_step h
          simpa [runSchedule, h] using
            PoolExec.step hStep (ih (n + 1) (Function.update pool i q) m.after)

end Durable
end Ecrke
