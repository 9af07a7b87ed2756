import Ecrke.Pipeline.RunHistory
import Ecrke.Session
import Mathlib.Algebra.BigOperators.Ring.Finset

/-!
# The recorded spend of a run

The meter reads the row of the run in one step and commits the new total in another one.  A total
which is committed between the two is written over.

* `spentIn`, `costOf` -- the recorded spend, and the cost of a call.
* `Current` -- a call commits on the spend which it has read.
* `recordCall_wp` -- one call among others.
* `spend_complete` -- calls in any order, each of which commits on what it has read.
-/

namespace Ecrke

open Durable

/-- The recorded spend of a run, if the run exists. -/
def spentIn (runId : Uuid) (w : World) : Option Usd := (runOf runId w.tables).map Run.costSpentUsd

/-- The cost of a call, rounded to the storage. -/
def costOf (p : Platform) (call : MeteredCall) : Usd := (callCost p call).toOption.getD 0

/-- The step is a commit which is carried out. -/
def commits (m : Moment Vocabulary) : Bool :=
  match m.happening with
  | .moved => true
  | _ => false

/-- The step is a read. -/
def reads (m : Moment Vocabulary) : Bool :=
  match m.happening with
  | .looked => true
  | _ => false

/-- Where a call with this log commits, the recorded spend is the one which it has read. -/
def Current (runId : Uuid) (log : Log Vocabulary) : Prop :=
  ∀ m ∈ log, commits m = true → ∀ r ∈ log, reads r = true →
    spentIn runId m.before = spentIn runId r.before

/-! ## One call among others -/

section Call

variable {runId : Uuid} {p : Platform} {call : MeteredCall} {s : World}

/-- The other processes may do anything.  A commit on the spend which has been read adds the cost,
and there is at most one. -/
def recordContract (runId : Uuid) (cost : Usd) : Contract Vocabulary where
  rely _ _ := True
  given l m := commits m = true → ∀ r ∈ l, reads r = true →
    spentIn runId m.before = spentIn runId r.before
  ensures l m :=
    if commits m then
      l.countP commits = 0 ∧ spentIn runId m.after = (spentIn runId m.before).map (· + cost)
    else m.after = m.before

/-- The total which is written is the spend which has been read and the cost. -/
theorem spentIn_updates {run : Run} {u v : World} {cost : Usd} (hId : run.id = runId)
    (hCurrent : spentIn runId u = some run.costSpentUsd)
    (hTables : v.tables = u.tables.after
      (run.updates { run with costSpentUsd := run.costSpentUsd + cost })) :
    spentIn runId v = some (run.costSpentUsd + cost) := by
  obtain ⟨row, hRow, hSpent⟩ := Option.map_eq_some_iff.mp hCurrent
  unfold spentIn
  rw [hTables]
  by_cases hZero : run.costSpentUsd + cost = run.costSpentUsd
  · -- Nothing has changed, so the session writes nothing.
    have hNone : run.updates { run with costSpentUsd := run.costSpentUsd + cost } = [] := by
      simp [Run.updates, Run.changes, RunChanges.isEmpty, hZero]
    rw [hNone, Tables.after_nil, hRow, Option.map_some, hSpent, hZero]
  · have hOne : run.updates { run with costSpentUsd := run.costSpentUsd + cost } =
        [.updateRun run.id { RunChanges.nothing with
          costSpentUsd := some (run.costSpentUsd + cost) }] := by
      simp [Run.updates, Run.changes, RunChanges.isEmpty, RunChanges.nothing, hZero]
    rw [hOne, Tables.after_cons, Tables.after_nil]
    show (findRow Run.id runId (modifyRow Run.id run.id _ u.tables.runs)).map _ = _
    have hKept (row : Run) (h : row.id = run.id) : (RunChanges.apply { RunChanges.nothing with
        costSpentUsd := some (run.costSpentUsd + cost) } row).id = run.id := h
    rw [findRow_modifyRow hKept, if_pos hId.symm, hId,
      show findRow Run.id runId u.tables.runs = some row from hRow]
    rfl

/-- A call which commits on what it has read adds its cost, once, and where it returns it has. -/
theorem recordCall_wp (hRun : call.runId = some runId) :
    wp (recordContract runId (costOf p call))
      (fun r _ l => ∀ cost, r = .ok cost → callCost p call = .ok cost ∧ l.countP commits = 1)
      (recordCall p call) s [] := by
  have hStill {l : Log Vocabulary} {t : World} {happening : Happening Vocabulary}
      (h : commits ⟨t, happening, t⟩ = false) :
      (recordContract runId (costOf p call)).ensures l ⟨t, happening, t⟩ := by
    simp [recordContract, h]
  unfold recordCall
  cases hCost : callCost p call with
  | error error => exact .raise (by simp)
  | ok cost =>
      have hOf : costOf p call = cost := by simp [costOf, hCost, Except.toOption]
      simp only [Prog.ofExcept, Prog.bind_def, Prog.bind, hRun]
      refine wp_bind (fun r _ l => ∀ found, r = .ok found → ∃ u : World,
        found = runOf runId u.tables ∧ l = [⟨u, .looked, u⟩]) (wp_select ?_ ?_) ?_ (by simp)
      · intro u _
        refine ⟨hStill rfl, ?_⟩
        rintro _ ⟨⟩
        exact ⟨u, rfl, rfl⟩
      · intro fault u _
        exact ⟨hStill rfl, by simp⟩
      rintro found t l hFound
      obtain ⟨u, rfl, rfl⟩ := hFound _ rfl
      cases hRow : runOf runId u.tables with
      | none => exact .raise (by simp)
      | some run =>
          refine wp_bind (fun r _ l => ∀ value, r = .ok value → l.countP commits = 1)
            (wp_commit ?_ ?_) ?_ (by simp)
          · rintro v value w hCommit ⟨-, hGiven⟩
            have hRead : spentIn runId u = some run.costSpentUsd := by
              rw [spentIn, hRow, Option.map_some]
            have hCurrent := hGiven rfl _ (List.mem_singleton_self _) rfl
            have hSpent := spentIn_updates (runOf_id hRow) (hCurrent.trans hRead)
              (applied_tables hCommit)
            refine ⟨?_, fun _ _ => rfl, fun _ _ => by rintro ⟨⟩⟩
            show _ ∧ _
            refine ⟨rfl, ?_⟩
            rw [hSpent, hCurrent.trans hRead, hOf, Option.map_some]
          · exact fun _ _ _ _ => ⟨hStill rfl, by simp⟩
          · intro value v l hOne
            refine .done ?_
            rintro _ ⟨⟩
            exact ⟨rfl, hOne value rfl⟩

end Call

/-! ## Calls in any order -/

section Pool

variable {ι : Type} [DecidableEq ι] {runId : Uuid} {p : Platform} {calls : ι → MeteredCall}
  {s t : World} {log : List (ι × Moment Vocabulary)}

/-- What the commits of a log add up to, one after the other. -/
def added (cost : ι → Usd) (log : List (ι × Moment Vocabulary)) : Usd :=
  (log.map fun entry => if commits entry.2 then cost entry.1 else 0).sum

/-- The same, one call after the other. -/
theorem added_eq_sum [Fintype ι] (cost : ι → Usd) (log : List (ι × Moment Vocabulary)) :
    added cost log = ∑ i, ((own i log).countP commits : Usd) * cost i := by
  induction log with
  | nil => simp [added]
  | cons entry rest ih =>
      obtain ⟨j, m⟩ := entry
      have hCount (i : ι) : (((own i ((j, m) :: rest)).countP commits : Nat) : Usd) * cost i =
          ((own i rest).countP commits : Usd) * cost i +
            if j = i then (if commits m then cost j else 0) else 0 := by
        by_cases hi : j = i
        · subst hi
          rw [own_cons_self, List.countP_cons, if_pos rfl]
          by_cases hm : commits m = true
          · rw [if_pos hm, if_pos hm]
            push_cast
            ring
          · rw [if_neg hm, if_neg hm, add_zero, add_zero]
        · rw [own_cons_of_ne hi, if_neg hi, add_zero]
      calc added cost ((j, m) :: rest)
          = (if commits m then cost j else 0) + added cost rest := rfl
        _ = ∑ i, (((own i ((j, m) :: rest)).countP commits : Nat) : Usd) * cost i := by
            rw [Finset.sum_congr rfl fun i _ => hCount i, Finset.sum_add_distrib, ← ih,
              Finset.sum_ite_eq, if_pos (Finset.mem_univ j), add_comm]

omit [DecidableEq ι] in
/-- The spend after steps each of which adds its cost or nothing. -/
theorem spend_linked {cost : ι → Usd} (h : Linked s (log.map Prod.snd) t)
    (hStep : ∀ entry ∈ log, spentIn runId entry.2.after = (spentIn runId entry.2.before).map
      (· + if commits entry.2 then cost entry.1 else 0)) :
    spentIn runId t = (spentIn runId s).map (· + added cost log) := by
  induction log generalizing s with
  | nil =>
      obtain rfl : s = t := h
      simp [added]
  | cons entry rest ih =>
      obtain ⟨hBefore, hRest⟩ := h
      have hNow := hStep entry (by simp)
      rw [hBefore] at hNow
      rw [ih hRest fun other hOther => hStep other (List.mem_cons_of_mem _ hOther), hNow,
        Option.map_map]
      congr 1
      funext spent
      exact add_assoc _ _ _

/-- Calls of the meter on one run, in any order of their steps.  As long as each of them commits on
the spend which it has read, the run has spent what the calls which have committed cost; and where
all of them have returned, what they cost together. -/
theorem spend_complete [Fintype ι] (hRun : ∀ i, (calls i).runId = some runId)
    {left : ι → Action Usd} (h : PoolExec (fun i => recordCall p (calls i)) s log left t)
    (hCurrent : ∀ i, Current runId (own i log)) :
    spentIn runId t = (spentIn runId s).map
        (· + ∑ i, ((own i log).countP commits : Usd) * costOf p (calls i)) ∧
      ∀ cost : ι → Usd, (∀ i, left i = .done (cost i)) →
        (∀ i, callCost p (calls i) = .ok (cost i)) ∧
          spentIn runId t = (spentIn runId s).map (· + ∑ i, cost i) := by
  obtain ⟨hAlong, hLeft⟩ := h.sound (C := fun i => recordContract runId (costOf p (calls i)))
    (Q := fun i r _ l => ∀ cost, r = .ok cost →
      callCost p (calls i) = .ok cost ∧ l.countP commits = 1) (l := fun _ => [])
    (fun _ _ => trivial) (fun _ _ _ _ _ _ => trivial) (fun _ _ _ _ _ _ => trivial)
    (fun i => ⟨s, trivial, recordCall_wp (hRun i)⟩)
    (fun i => Contract.granted_of_splits fun earlier m later hOwn hCommits r hr hReads =>
      hCurrent i m (by simp [hOwn]) hCommits r (by
        rw [hOwn]
        exact List.mem_append_left _ (by simpa using hr)) hReads)
  have hStep (entry : ι × Moment Vocabulary) (hMem : entry ∈ log) :
      spentIn runId entry.2.after = (spentIn runId entry.2.before).map
        (· + if commits entry.2 then costOf p (calls entry.1) else 0) := by
    obtain ⟨_, _, -, hNow⟩ := (hAlong entry.1).mem (mem_own.mpr hMem)
    dsimp only [recordContract] at hNow
    by_cases hCommits : commits entry.2 = true
    · rw [if_pos hCommits] at hNow ⊢
      exact hNow.2
    · rw [if_neg hCommits] at hNow ⊢
      simp [hNow]
  have hSpent : spentIn runId t = (spentIn runId s).map
      (· + ∑ i, ((own i log).countP commits : Usd) * costOf p (calls i)) := by
    rw [← added_eq_sum]
    exact spend_linked h.linked hStep
  refine ⟨hSpent, fun cost hDone => ?_⟩
  have hReturned (i : ι) : callCost p (calls i) = .ok (cost i) ∧
      (own i log).countP commits = 1 := by
    obtain ⟨u, -, hRest⟩ := hLeft i
    rw [hDone i, wp_done] at hRest
    simpa using hRest (cost i) rfl
  refine ⟨fun i => (hReturned i).1, ?_⟩
  rw [hSpent]
  refine congrArg (fun total => (spentIn runId s).map (· + total)) (Finset.sum_congr rfl ?_)
  intro i _
  rw [(hReturned i).2, costOf, (hReturned i).1, Nat.cast_one, one_mul]
  rfl

end Pool

/-! ## Two calls -/

/-- A call which costs one dollar. -/
def MeteredCall.oneDollar : MeteredCall where
  model := "cheap".toList
  runId := some ⟨1⟩
  costUsd := some 1
  response := none
  prompt := none
  completion := none
  promptTokens := none
  completionTokens := none

/-- Two calls on a run, whose steps are taken in a certain order. -/
def twoDollars (schedule : List Bool) :
    List (Bool × Moment Vocabulary) × (Bool → Action Usd) × World :=
  runSchedule (quietOutside fun _ => .grant) schedule 0
    (fun _ => recordCall .plain .oneDollar) (World.submitted 5)

theorem twoDollars_exec (schedule : List Bool) :
    PoolExec (fun _ => recordCall .plain .oneDollar) (World.submitted 5) (twoDollars schedule).1
      (twoDollars schedule).2.1 (twoDollars schedule).2.2 :=
  runSchedule_exec (quietOutside fun _ => .grant) schedule 0 _ _

/-- What the two calls return, and the spend which they leave. -/
def dollarsOf (schedule : List Bool) : Option Usd × Option Usd × Option Usd :=
  ((twoDollars schedule).2.1 false |>.returned, (twoDollars schedule).2.1 true |>.returned,
    spentIn ⟨1⟩ (twoDollars schedule).2.2)

/-- The commits of a log find what has been read. -/
def currentIn (log : Log Vocabulary) : Bool :=
  log.all fun m => !commits m || log.all fun r => !reads r ||
    spentIn ⟨1⟩ m.before == spentIn ⟨1⟩ r.before

/-- The calls overlap, or one of them follows the other. -/
theorem twoDollars_facts :
    dollarsOf [false, true, false, true] = (some 1, some 1, some 1) ∧
      dollarsOf [false, false, true, true] = (some 1, some 1, some 2) ∧
      currentIn (own false (twoDollars [false, false, true, true]).1) = true ∧
      currentIn (own true (twoDollars [false, false, true, true]).1) = true := by
  decide +kernel

/-- Both calls return, and one of the two dollars is not recorded. -/
theorem spend_lost : ∃ (calls : Bool → MeteredCall) (s t : World)
    (log : List (Bool × Moment Vocabulary)) (left : Bool → Action Usd) (cost : Bool → Usd),
    PoolExec (fun i => recordCall .plain (calls i)) s log left t ∧
      (∀ i, (calls i).runId = some ⟨1⟩) ∧ (∀ i, left i = .done (cost i)) ∧
        spentIn ⟨1⟩ s = some 0 ∧ spentIn ⟨1⟩ t ≠ some (0 + ∑ i, cost i) := by
  obtain ⟨hFirst, hSecond, hSpent⟩ : _ ∧ _ ∧ _ := by
    simpa only [dollarsOf, Prod.mk.injEq] using twoDollars_facts.1
  refine ⟨fun _ => .oneDollar, _, _, _, _, fun _ => 1, twoDollars_exec [false, true, false, true],
    fun _ => rfl, ?_, rfl, ?_⟩
  · rintro (_ | _)
    · exact Prog.eq_done hFirst
    · exact Prog.eq_done hSecond
  · rw [hSpent]
    norm_num

theorem current_of {log : Log Vocabulary} (h : currentIn log = true) : Current ⟨1⟩ log := by
  intro m hm hCommits r hr hReads
  have hAll := List.all_eq_true.mp h m hm
  rw [hCommits, Bool.not_true, Bool.false_or] at hAll
  have hOne := List.all_eq_true.mp hAll r hr
  rw [hReads, Bool.not_true, Bool.false_or] at hOne
  exact eq_of_beq hOne

theorem spend_complete_twice :
    spentIn ⟨1⟩ (twoDollars [false, false, true, true]).2.2 =
      (spentIn ⟨1⟩ (World.submitted 5)).map (· + ∑ _i : Bool, 1) := by
  obtain ⟨-, hDollars, hFirst, hSecond⟩ := twoDollars_facts
  obtain ⟨hReturned, hReturned', -⟩ : _ ∧ _ ∧ _ := by
    simpa only [dollarsOf, Prod.mk.injEq] using hDollars
  refine ((spend_complete (fun _ => rfl) (twoDollars_exec [false, false, true, true]) ?_).2
    (fun _ => 1) ?_).2
  · rintro (_ | _)
    · exact current_of hFirst
    · exact current_of hSecond
  · rintro (_ | _)
    · exact Prog.eq_done hReturned
    · exact Prog.eq_done hReturned'

end Ecrke
