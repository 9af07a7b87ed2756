import Ecrke.Durable.Program

/-!
# Executions, crashes and histories

The meaning of a program is the set of its executions.  An execution may stop anywhere: that is a
crash, or simply an execution which is not finished yet.  Every step leaves one `Moment`, the states
before and after it and what happened in between.

* `Step` -- one step.  A database step may be refused by an infrastructure fault, and a transaction
  may commit although its caller is told that it failed (the acknowledgement is lost).
* `Exec` -- any number of steps, with the moments in order.
* `HistoryWhere`, `History` -- executions of the jobs of a family, one after the other, each cut off
  anywhere.
* `Linked` -- the states of a log follow each other; `Linked.invariant`, the induction over a log.
* `simulate`, `simulateRuns` -- executions as a function of an environment, for concrete inputs, and
  `simulate_exec`, `simulateRuns_history`, that what they compute are executions.
-/

namespace Ecrke
namespace Durable

/-- What a step did. -/
inductive Happening (S : Signature) where
  /-- A line was written to the log. -/
  | wrote (event : S.Event)
  /-- The outside world was asked and answered. -/
  | asked (query : S.Query) (answer : S.Answer query)
  /-- The store was read. -/
  | looked
  /-- A transaction committed, or shared memory changed. -/
  | moved
  /-- A database step failed and left no trace. -/
  | refused

/-- One step as the outside sees it. -/
structure Moment (S : Signature) where
  before : S.State
  happening : Happening S
  after : S.State

/-- The steps of an execution, in order. -/
abbrev Log (S : Signature) := List (Moment S)

variable {S : Signature} {α β : Type}

/-- One step of a program. -/
inductive Step : Prog S α → Moment S → Prog S α → Prop where
  | emit (event : S.Event) (next : Prog S α) (s : S.State) :
      Step (.emit event next) ⟨s, .wrote event, s⟩ next
  | ask (query : S.Query) (next : S.Answer query → Prog S α) (answer : S.Answer query)
      (s : S.State) : Step (.ask query next) ⟨s, .asked query answer, s⟩ (next answer)
  | act {β : Type} (run : S.State → β × S.State) (next : β → Prog S α) (s : S.State) :
      Step (.act run next) ⟨s, .moved, (run s).2⟩ (next (run s).1)
  | read {β : Type} (run : S.State → β) (next : Except S.Err β → Prog S α) (s : S.State) :
      Step (.read run next) ⟨s, .looked, s⟩ (next (.ok (run s)))
  | readFault {β : Type} (run : S.State → β) (next : Except S.Err β → Prog S α)
      (fault : S.Fault) (s : S.State) :
      Step (.read run next) ⟨s, .refused, s⟩ (next (.error (S.ofFault fault)))
  | commit {β : Type} (run : S.State → Except S.Err (β × S.State))
      (next : Except S.Err β → Prog S α) (value : β) (s t : S.State)
      (h : run s = .ok (value, t)) : Step (.tx run next) ⟨s, .moved, t⟩ (next (.ok value))
  | reject {β : Type} (run : S.State → Except S.Err (β × S.State))
      (next : Except S.Err β → Prog S α) (error : S.Err) (s : S.State)
      (h : run s = .error error) : Step (.tx run next) ⟨s, .refused, s⟩ (next (.error error))
  | txFault {β : Type} (run : S.State → Except S.Err (β × S.State))
      (next : Except S.Err β → Prog S α) (fault : S.Fault) (s : S.State) :
      Step (.tx run next) ⟨s, .refused, s⟩ (next (.error (S.ofFault fault)))
  | ackLost {β : Type} (run : S.State → Except S.Err (β × S.State))
      (next : Except S.Err β → Prog S α) (value : β) (fault : S.Fault) (s t : S.State)
      (h : run s = .ok (value, t)) :
      Step (.tx run next) ⟨s, .moved, t⟩ (next (.error (S.ofFault fault)))

/-- A program which has ended. -/
inductive Ended : Prog S α → Prop where
  | done (value : α) : Ended (.done value)
  | raise (error : S.Err) : Ended (.raise error)

theorem Step.not_ended {p q : Prog S α} {m : Moment S} (h : Step p m q) : ¬ Ended p := by
  rintro (_ | _) <;> cases h

theorem ended_or (p : Prog S α) : Ended p ∨ ¬ Ended p := by
  cases p with
  | done value => exact .inl (.done value)
  | raise error => exact .inl (.raise error)
  | emit event next => exact .inr (by rintro ⟨⟩)
  | ask query next => exact .inr (by rintro ⟨⟩)
  | act run next => exact .inr (by rintro ⟨⟩)
  | read run next => exact .inr (by rintro ⟨⟩)
  | tx run next => exact .inr (by rintro ⟨⟩)

/-- A step of a sequence is a step of its first part, as long as that has not ended. -/
theorem Step.of_bind {p : Prog S α} {f : α → Prog S β} {m : Moment S} {q : Prog S β}
    (hp : ¬ Ended p) (h : Step (p.bind f) m q) : ∃ p', Step p m p' ∧ q = p'.bind f := by
  cases p with
  | done value => exact absurd (.done value) hp
  | raise error => exact absurd (.raise error) hp
  | emit event next => cases h; exact ⟨_, .emit event next _, rfl⟩
  | ask query next => cases h; exact ⟨_, .ask query next _ _, rfl⟩
  | act run next => cases h; exact ⟨_, .act run next _, rfl⟩
  | read run next =>
      cases h with
      | read => exact ⟨_, .read run next _, rfl⟩
      | readFault => exact ⟨_, .readFault run next _ _, rfl⟩
  | tx run next =>
      cases h with
      | commit _ _ value s t h => exact ⟨_, .commit run next value s t h, rfl⟩
      | reject _ _ error s h => exact ⟨_, .reject run next error s h, rfl⟩
      | txFault => exact ⟨_, .txFault run next _ _, rfl⟩
      | ackLost _ _ value fault s t h => exact ⟨_, .ackLost run next value fault s t h, rfl⟩

/-- A step of a guarded program is a step of its body, as long as that has not ended. -/
theorem Step.of_tryCatch {p : Prog S α} {handler : S.Err → Prog S α} {m : Moment S}
    {q : Prog S α} (hp : ¬ Ended p) (h : Step (p.tryCatch handler) m q) :
    ∃ p', Step p m p' ∧ q = p'.tryCatch handler := by
  cases p with
  | done value => exact absurd (.done value) hp
  | raise error => exact absurd (.raise error) hp
  | emit event next => cases h; exact ⟨_, .emit event next _, rfl⟩
  | ask query next => cases h; exact ⟨_, .ask query next _ _, rfl⟩
  | act run next => cases h; exact ⟨_, .act run next _, rfl⟩
  | read run next =>
      cases h with
      | read => exact ⟨_, .read run next _, rfl⟩
      | readFault => exact ⟨_, .readFault run next _ _, rfl⟩
  | tx run next =>
      cases h with
      | commit _ _ value s t h => exact ⟨_, .commit run next value s t h, rfl⟩
      | reject _ _ error s h => exact ⟨_, .reject run next error s h, rfl⟩
      | txFault => exact ⟨_, .txFault run next _ _, rfl⟩
      | ackLost _ _ value fault s t h => exact ⟨_, .ackLost run next value fault s t h, rfl⟩

/-- Any number of steps of a program which nobody else interferes with. -/
inductive Exec : Prog S α → S.State → Log S → Prog S α → S.State → Prop where
  | refl (p : Prog S α) (s : S.State) : Exec p s [] p s
  | step {p q r : Prog S α} {m : Moment S} {later : Log S} {u : S.State}
      (first : Step p m q) (rest : Exec q m.after later r u) :
      Exec p m.before (m :: later) r u

theorem Exec.trans {p q r : Prog S α} {s t u : S.State} {now later : Log S}
    (first : Exec p s now q t) (rest : Exec q t later r u) : Exec p s (now ++ later) r u := by
  induction first with
  | refl p s => exact rest
  | step head _ ih => exact .step head (ih rest)

/-- The state at the end of an execution is the state after its last moment. -/
theorem Exec.last {p q : Prog S α} {s t : S.State} {now : Log S} (h : Exec p s now q t) :
    (now = [] ∧ t = s) ∨ ∃ earlier m, now = earlier ++ [m] ∧ m.after = t := by
  induction h with
  | refl p s => exact .inl ⟨rfl, rfl⟩
  | @step p q r m later u first rest ih =>
      rcases ih with ⟨rfl, rfl⟩ | ⟨earlier, last, rfl, hLast⟩
      · exact .inr ⟨[], m, rfl, rfl⟩
      · exact .inr ⟨m :: earlier, last, rfl, hLast⟩

/-- Executions of jobs of a family one after the other, each started in a state in which it may be
started.  Each of them may be cut off anywhere: it may have returned, raised, crashed, or lost its
process. -/
inductive HistoryWhere {ι : Type} {result : ι → Type} (job : (i : ι) → Prog S (result i))
    (may : ι → S.State → Prop) : S.State → Log S → S.State → Prop where
  | nil (s : S.State) : HistoryWhere job may s [] s
  | snoc {s t u : S.State} {earlier now : Log S} (past : HistoryWhere job may s earlier t)
      (i : ι) (hMay : may i t) {left : Prog S (result i)} (last : Exec (job i) t now left u) :
      HistoryWhere job may s (earlier ++ now) u

/-- Executions of jobs which may be started in every state. -/
abbrev History {ι : Type} {result : ι → Type} (job : (i : ι) → Prog S (result i)) :
    S.State → Log S → S.State → Prop :=
  HistoryWhere job fun _ _ => True

theorem HistoryWhere.trans {ι : Type} {result : ι → Type} {job : (i : ι) → Prog S (result i)}
    {may : ι → S.State → Prop} {s t u : S.State} {earlier later : Log S}
    (first : HistoryWhere job may s earlier t) (rest : HistoryWhere job may t later u) :
    HistoryWhere job may s (earlier ++ later) u := by
  induction rest with
  | nil => simpa using first
  | snoc _ i hMay last ih =>
      rw [← List.append_assoc]
      exact .snoc ih i hMay last

/-- A log leads from one state to another, each step from where the step before it has led. -/
def Linked : S.State → Log S → S.State → Prop
  | s, [], t => s = t
  | s, m :: rest, t => m.before = s ∧ Linked m.after rest t

theorem Linked.append {s t u : S.State} {earlier later : Log S} (first : Linked s earlier t)
    (rest : Linked t later u) : Linked s (earlier ++ later) u := by
  induction earlier generalizing s with
  | nil =>
      obtain rfl : s = t := first
      exact rest
  | cons m earlier ih => exact ⟨first.1, ih first.2⟩

/-- An invariant which each step of a log keeps holds throughout the log. -/
theorem Linked.invariant {s t : S.State} {log : Log S} (h : Linked s log t) (I : S.State → Prop)
    (hI : ∀ m ∈ log, I m.before → I m.after) (hStart : I s) : I t ∧ ∀ m ∈ log, I m.before := by
  induction log generalizing s with
  | nil =>
      obtain rfl : s = t := h
      exact ⟨hStart, by simp⟩
  | cons m rest ih =>
      have hBefore : I m.before := h.1 ▸ hStart
      obtain ⟨hEnd, hRest⟩ := ih h.2 (fun later hLater => hI later (by simp [hLater]))
        (hI m (by simp) hBefore)
      exact ⟨hEnd, by simpa using ⟨hBefore, hRest⟩⟩

theorem Exec.linked {p q : Prog S α} {s t : S.State} {log : Log S} (h : Exec p s log q t) :
    Linked s log t := by
  induction h with
  | refl p s => exact rfl
  | step first rest ih => exact ⟨rfl, ih⟩

theorem HistoryWhere.linked {ι : Type} {result : ι → Type} {job : (i : ι) → Prog S (result i)}
    {may : ι → S.State → Prop} {s t : S.State} {log : Log S} (h : HistoryWhere job may s log t) :
    Linked s log t := by
  induction h with
  | nil => exact rfl
  | snoc past i hMay last ih => exact ih.append last.linked

/-! ## One execution as a function of its environment -/

/-- What the database does with the step it is asked for. -/
inductive Verdict (S : Signature) where
  /-- The step is carried out. -/
  | grant
  /-- The step is refused. -/
  | refuse (fault : S.Fault)
  /-- The step is carried out and reported as failed. -/
  | lose (fault : S.Fault)

/-- An environment: the answers and the fate of the database steps, by the number of the step. -/
structure Environment (S : Signature) where
  answer : Nat → (query : S.Query) → S.Answer query
  verdict : Nat → Verdict S

/-- The next step of a program in an environment. -/
def next (env : Environment S) (n : Nat) :
    Prog S α → S.State → Option (Moment S × Prog S α)
  | .done _, _ => none
  | .raise _, _ => none
  | .emit event rest, s => some (⟨s, .wrote event, s⟩, rest)
  | .ask query rest, s =>
      some (⟨s, .asked query (env.answer n query), s⟩, rest (env.answer n query))
  | .act run rest, s => some (⟨s, .moved, (run s).2⟩, rest (run s).1)
  | .read run rest, s =>
      match env.verdict n with
      | .grant => some (⟨s, .looked, s⟩, rest (.ok (run s)))
      | .refuse fault => some (⟨s, .refused, s⟩, rest (.error (S.ofFault fault)))
      | .lose fault => some (⟨s, .refused, s⟩, rest (.error (S.ofFault fault)))
  | .tx run rest, s =>
      match env.verdict n, run s with
      | .refuse fault, _ => some (⟨s, .refused, s⟩, rest (.error (S.ofFault fault)))
      | _, .error error => some (⟨s, .refused, s⟩, rest (.error error))
      | .grant, .ok (value, t) => some (⟨s, .moved, t⟩, rest (.ok value))
      | .lose fault, .ok (_, t) => some (⟨s, .moved, t⟩, rest (.error (S.ofFault fault)))

/-- The first `steps` steps of a program in an environment; step number `n` comes next. -/
def simulate (env : Environment S) :
    (steps n : Nat) → Prog S α → S.State → Log S × Prog S α × S.State
  | 0, _, p, s => ([], p, s)
  | steps + 1, n, p, s =>
      match next env n p s with
      | none => ([], p, s)
      | some (m, q) =>
          let later := simulate env steps (n + 1) q m.after
          (m :: later.1, later.2)

theorem next_step {env : Environment S} {n : Nat} {p q : Prog S α} {s : S.State} {m : Moment S}
    (h : next env n p s = some (m, q)) : Step p m q ∧ m.before = s := by
  cases p with
  | done value => simp [next] at h
  | raise error => simp [next] at h
  | emit event rest => cases h; exact ⟨.emit event _ s, rfl⟩
  | ask query rest => cases h; exact ⟨.ask query rest _ s, rfl⟩
  | act run rest => cases h; exact ⟨.act run rest s, rfl⟩
  | read run rest =>
      cases hv : env.verdict n <;> simp only [next, hv] at h <;> cases h
      · exact ⟨.read run rest s, rfl⟩
      · exact ⟨.readFault run rest _ s, rfl⟩
      · exact ⟨.readFault run rest _ s, rfl⟩
  | tx run rest =>
      cases hv : env.verdict n with
      | refuse fault =>
          simp only [next, hv] at h
          cases h
          exact ⟨.txFault run rest fault s, rfl⟩
      | grant =>
          cases hr : run s <;> simp only [next, hv, hr] at h <;> cases h
          · exact ⟨.reject run rest _ s hr, rfl⟩
          · exact ⟨.commit run rest _ s _ hr, rfl⟩
      | lose fault =>
          cases hr : run s <;> simp only [next, hv, hr] at h <;> cases h
          · exact ⟨.reject run rest _ s hr, rfl⟩
          · exact ⟨.ackLost run rest _ fault s _ hr, rfl⟩

/-- What `simulate` computes is an execution. -/
theorem simulate_exec (env : Environment S) (steps n : Nat) (p : Prog S α) (s : S.State) :
    Exec p s (simulate env steps n p s).1 (simulate env steps n p s).2.1
      (simulate env steps n p s).2.2 := by
  induction steps generalizing n p s with
  | zero => exact .refl p s
  | succ steps ih =>
      cases h : next env n p s with
      | none => simpa [simulate, h] using Exec.refl p s
      | some now =>
          obtain ⟨m, q⟩ := now
          obtain ⟨hStep, rfl⟩ := next_step h
          simpa [simulate, h] using Exec.step hStep (ih (n + 1) q m.after)

/-- Executions of one job one after the other, each cut off after a number of steps; step number `n`
comes next. -/
def simulateRuns (env : Environment S) (job : Prog S α) :
    (cuts : List Nat) → (n : Nat) → S.State → Log S × S.State
  | [], _, s => ([], s)
  | steps :: cuts, n, s =>
      let now := simulate env steps n job s
      let later := simulateRuns env job cuts (n + steps) now.2.2
      (now.1 ++ later.1, later.2)

/-- What `simulateRuns` computes is a history. -/
theorem simulateRuns_history {ι : Type} {result : ι → Type} {job : (i : ι) → Prog S (result i)}
    {may : ι → S.State → Prop} (i : ι) (hMay : ∀ s, may i s) (env : Environment S)
    (cuts : List Nat) (n : Nat) (s : S.State) :
    HistoryWhere job may s (simulateRuns env (job i) cuts n s).1
      (simulateRuns env (job i) cuts n s).2 := by
  induction cuts generalizing n s with
  | nil => exact .nil s
  | cons steps cuts ih =>
      exact HistoryWhere.trans (.snoc (.nil s) i (hMay s) (simulate_exec env steps n (job i) s))
        (ih _ _)

end Durable
end Ecrke
