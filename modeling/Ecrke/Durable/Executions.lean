import Ecrke.Durable.Footprints
import Mathlib.Data.List.Forall2

/-!
# Executions of composed programs

An execution of a composed program is cut into executions of its parts.

* `Exec.of_ended` -- a program which has ended takes no step.
* `Exec.of_bind`, `Exec.of_tryCatch` -- sequencing and exception handling; `Exec.of_bind_raise` and
  `Exec.of_bind_done` where the sequence has ended; `Exec.bind`, back from the parts to the whole.
* `Exec.of_query`, `Exec.of_atomically` -- the primitive programs in front of others.
* `Exec.of_forElse` -- one turn of a loop; `Exec.of_forElse_done` where the loop is done.
* `Exec.of_mapM_done` -- the turns of a loop which collects values.
* `Exec.still` -- steps which move nothing.
* `Exec.skip` -- a program of which only the footprint matters.
* `Calls` -- executions of jobs one after the other, each with its own log.
* `Returns` -- every value which a program can return; `Returns.wp`, the rule for contracts.
-/

namespace Ecrke
namespace Durable

universe u

variable {S : Signature} {α β γ : Type}

theorem Exec.of_ended {p q : Prog S α} {s t : S.State} {log : Log S} (hEnd : Ended p)
    (h : Exec p s log q t) : log = [] ∧ q = p ∧ t = s := by
  cases h with
  | refl => exact ⟨rfl, rfl, rfl⟩
  | step first rest => exact absurd hEnd first.not_ended

theorem Exec.of_done {value : α} {q : Prog S α} {s t : S.State} {log : Log S}
    (h : Exec (.done value) s log q t) : log = [] ∧ q = .done value ∧ t = s :=
  h.of_ended (.done value)

theorem Exec.of_raise {error : S.Err} {q : Prog S α} {s t : S.State} {log : Log S}
    (h : Exec (.raise error) s log q t) : log = [] ∧ q = .raise error ∧ t = s :=
  h.of_ended (.raise error)

/-- A sequence is done only if its first part is. -/
theorem Prog.bind_eq_done {p : Prog S α} {f : α → Prog S β} {value : β}
    (h : p.bind f = .done value) : ∃ first, p = .done first ∧ f first = .done value := by
  cases p with
  | done first => exact ⟨first, rfl, h⟩
  | _ => cases h

/-- A sequence raises where one of its parts does. -/
theorem Prog.bind_eq_raise {p : Prog S α} {f : α → Prog S β} {error : S.Err}
    (h : p.bind f = .raise error) :
    p = .raise error ∨ ∃ first, p = .done first ∧ f first = .raise error := by
  cases p with
  | done first => exact .inr ⟨first, rfl, h⟩
  | raise other =>
      cases h
      exact .inl rfl
  | _ => cases h

/-- Either the first part is not done yet, or it is done and the rest has begun. -/
theorem Exec.of_bind {p : Prog S α} {f : α → Prog S β} {r : Prog S β} {s t : S.State}
    {log : Log S} (h : Exec (p.bind f) s log r t) :
    (∃ p', Exec p s log p' t ∧ r = p'.bind f ∧ ∀ value, p' ≠ .done value) ∨
      ∃ value now later u, log = now ++ later ∧ Exec p s now (.done value) u ∧
        Exec (f value) u later r t := by
  generalize hWhole : p.bind f = whole at h
  induction h generalizing p with
  | refl q s =>
      subst hWhole
      by_cases hDone : ∃ value, p = .done value
      · obtain ⟨value, rfl⟩ := hDone
        exact .inr ⟨value, [], [], s, rfl, .refl _ _, .refl _ _⟩
      · exact .inl ⟨p, .refl p s, rfl, not_exists.mp hDone⟩
  | @step q q' r m later u first rest ih =>
      subst hWhole
      by_cases hEnd : Ended p
      · cases hEnd with
        | done value => exact .inr ⟨value, [], _, _, rfl, .refl _ _, .step first rest⟩
        | raise error => exact absurd (.raise error) first.not_ended
      · obtain ⟨p', hFirst, rfl⟩ := first.of_bind hEnd
        rcases ih rfl with ⟨p'', hRest, rfl, hOpen⟩ | ⟨value, now, later, v, rfl, hRest, hLater⟩
        · exact .inl ⟨p'', .step hFirst hRest, rfl, hOpen⟩
        · exact .inr ⟨value, m :: now, later, v, rfl, .step hFirst hRest, hLater⟩

/-- A step of the first part is a step of the sequence. -/
theorem Step.bind {p q : Prog S α} {m : Moment S} (h : Step p m q) (f : α → Prog S β) :
    Step (p.bind f) m (q.bind f) := by
  cases h with
  | emit event next s => exact .emit event _ s
  | ask query next answer s => exact .ask query _ answer s
  | act run next s => exact .act run _ s
  | read run next s => exact .read run _ s
  | readFault run next fault s => exact .readFault run _ fault s
  | commit run next value s t h => exact .commit run _ value s t h
  | reject run next error s h => exact .reject run _ error s h
  | txFault run next fault s => exact .txFault run _ fault s
  | ackLost run next value fault s t h => exact .ackLost run _ value fault s t h

/-- Executions of the parts make one of the sequence. -/
theorem Exec.bind {p : Prog S α} {f : α → Prog S β} {r : Prog S β} {value : α} {s t u : S.State}
    {now later : Log S} (first : Exec p s now (.done value) t)
    (rest : Exec (f value) t later r u) : Exec (p.bind f) s (now ++ later) r u := by
  generalize hDone : Prog.done value = q at first
  induction first with
  | refl p s =>
      subst hDone
      exact rest
  | step head _ ih => exact .step (head.bind f) (ih rest hDone)

/-- An execution of the first part is one of the sequence. -/
theorem Exec.front {p q : Prog S α} {s t : S.State} {log : Log S} (h : Exec p s log q t)
    (f : α → Prog S β) : Exec (p.bind f) s log (q.bind f) t := by
  induction h with
  | refl p s => exact .refl _ s
  | step head _ ih => exact .step (head.bind f) ih

theorem exec_query (question : S.Query) (answer : S.Answer question) (s : S.State) :
    Exec (Prog.query question) s [⟨s, .asked question answer, s⟩] (.done answer) s :=
  .step (.ask question Prog.done answer s) (.refl _ _)

theorem exec_select (run : S.State → α) (s : S.State) :
    Exec (Prog.select run) s [⟨s, .looked, s⟩] (.done (run s)) s :=
  .step (.read run Prog.ofExcept s) (.refl _ _)

/-- A sequence which raises: its first part raises, or it is done and the rest raises. -/
theorem Exec.of_bind_raise {p : Prog S α} {f : α → Prog S β} {error : S.Err} {s t : S.State}
    {log : Log S} (h : Exec (p.bind f) s log (.raise error) t) :
    Exec p s log (.raise error) t ∨ ∃ value now later u, log = now ++ later ∧
      Exec p s now (.done value) u ∧ Exec (f value) u later (.raise error) t := by
  rcases h.of_bind with ⟨p', hFirst, hRaise, hOpen⟩ | hDone
  · rcases Prog.bind_eq_raise hRaise.symm with rfl | ⟨value, rfl, -⟩
    · exact .inl hFirst
    · exact absurd rfl (hOpen value)
  · exact .inr hDone

/-- A sequence which is done: both parts are. -/
theorem Exec.of_bind_done {p : Prog S α} {f : α → Prog S β} {last : β} {s t : S.State}
    {log : Log S} (h : Exec (p.bind f) s log (.done last) t) :
    ∃ value now later u, log = now ++ later ∧ Exec p s now (.done value) u ∧
      Exec (f value) u later (.done last) t := by
  rcases h.of_bind with ⟨p', hFirst, hDone, hOpen⟩ | hDone
  · obtain ⟨value, rfl, -⟩ := Prog.bind_eq_done hDone.symm
    exact absurd rfl (hOpen value)
  · exact hDone

/-- Either the body is not done yet, or it has raised and the handler has begun. -/
theorem Exec.of_tryCatch {p r : Prog S α} {handler : S.Err → Prog S α} {s t : S.State}
    {log : Log S} (h : Exec (p.tryCatch handler) s log r t) :
    (∃ p', Exec p s log p' t ∧ r = p'.tryCatch handler) ∨
      ∃ error now later u, log = now ++ later ∧ Exec p s now (.raise error) u ∧
        Exec (handler error) u later r t := by
  generalize hWhole : p.tryCatch handler = whole at h
  induction h generalizing p with
  | refl q s =>
      subst hWhole
      exact .inl ⟨p, .refl p s, rfl⟩
  | @step q q' r m later u first rest ih =>
      subst hWhole
      by_cases hEnd : Ended p
      · cases hEnd with
        | done value => exact absurd (.done value) first.not_ended
        | raise error => exact .inr ⟨error, [], _, _, rfl, .refl _ _, .step first rest⟩
      · obtain ⟨p', hFirst, rfl⟩ := first.of_tryCatch hEnd
        rcases ih rfl with ⟨p'', hRest, rfl⟩ | ⟨error, now, later, v, rfl, hRest, hLater⟩
        · exact .inl ⟨p'', .step hFirst hRest, rfl⟩
        · exact .inr ⟨error, m :: now, later, v, rfl, .step hFirst hRest, hLater⟩

/-- A step of the body is a step of the guarded program. -/
theorem Step.tryCatch {p q : Prog S α} {m : Moment S} (h : Step p m q)
    (handler : S.Err → Prog S α) : Step (p.tryCatch handler) m (q.tryCatch handler) := by
  cases h with
  | emit event next s => exact .emit event _ s
  | ask query next answer s => exact .ask query _ answer s
  | act run next s => exact .act run _ s
  | read run next s => exact .read run _ s
  | readFault run next fault s => exact .readFault run _ fault s
  | commit run next value s t h => exact .commit run _ value s t h
  | reject run next error s h => exact .reject run _ error s h
  | txFault run next fault s => exact .txFault run _ fault s
  | ackLost run next value fault s t h => exact .ackLost run _ value fault s t h

/-- An execution of the body is one of the guarded program. -/
theorem Exec.tryCatch {p q : Prog S α} {s t : S.State} {log : Log S} (h : Exec p s log q t)
    (handler : S.Err → Prog S α) : Exec (p.tryCatch handler) s log (q.tryCatch handler) t := by
  induction h with
  | refl p s => exact .refl _ s
  | step head _ ih => exact .step (head.tryCatch handler) ih

/-- Either the question has not been asked yet, or it has been asked and the rest has begun. -/
theorem Exec.of_query {question : S.Query} {f : S.Answer question → Prog S β} {r : Prog S β}
    {s t : S.State} {log : Log S} (h : Exec ((Prog.query question).bind f) s log r t) :
    (log = [] ∧ r = (Prog.query question).bind f ∧ t = s) ∨
      ∃ answer later, log = ⟨s, .asked question answer, s⟩ :: later ∧
        Exec (f answer) s later r t := by
  cases h with
  | refl => exact .inl ⟨rfl, rfl, rfl⟩
  | step first rest =>
      cases first with
      | ask _ _ answer => exact .inr ⟨answer, _, rfl, rest⟩

theorem Exec.of_atomically {run : S.State → α × S.State} {f : α → Prog S β} {r : Prog S β}
    {s t : S.State} {log : Log S} (h : Exec ((Prog.atomically run).bind f) s log r t) :
    (log = [] ∧ r = (Prog.atomically run).bind f ∧ t = s) ∨
      ∃ later, log = ⟨s, .moved, (run s).2⟩ :: later ∧
        Exec (f (run s).1) (run s).2 later r t := by
  cases h with
  | refl => exact .inl ⟨rfl, rfl, rfl⟩
  | step first rest =>
      cases first with
      | act => exact .inr ⟨_, rfl, rest⟩

/-- One turn of a loop: the body is not done, leaves the loop, or goes on to the next item. -/
theorem Exec.of_forElse {body : γ → Prog S (Option α)} {fallback : Prog S α} {item : γ}
    {items : List γ} {r : Prog S α} {s t : S.State} {log : Log S}
    (h : Exec (Prog.forElse body fallback (item :: items)) s log r t) :
    (∃ q, Exec (body item) s log q t ∧ ∀ value, q ≠ .done value) ∨
      (∃ value, Exec (body item) s log (.done (some value)) t ∧ r = .done value) ∨
      ∃ now later u, log = now ++ later ∧ Exec (body item) s now (.done none) u ∧
        Exec (Prog.forElse body fallback items) u later r t := by
  rcases Exec.of_bind h with ⟨q, hBody, -, hOpen⟩ | ⟨value, now, later, u, rfl, hBody, hLater⟩
  · exact .inl ⟨q, hBody, hOpen⟩
  · cases value with
    | none => exact .inr (.inr ⟨now, later, u, rfl, hBody, hLater⟩)
    | some value =>
        obtain ⟨rfl, rfl, rfl⟩ := hLater.of_done
        exact .inr (.inl ⟨value, by simpa using hBody, rfl⟩)

/-- A loop which is done has left by one of its items, or has come to the fallback. -/
theorem Exec.of_forElse_done {body : γ → Prog S (Option α)} {fallback : Prog S α} {items : List γ}
    {value : α} {s t : S.State} {log : Log S}
    (h : Exec (Prog.forElse body fallback items) s log (.done value) t) :
    ∃ earlier now u, log = earlier ++ now ∧
      ((∃ item ∈ items, Exec (body item) u now (.done (some value)) t) ∨
        Exec fallback u now (.done value) t) := by
  induction items generalizing s log with
  | nil => exact ⟨[], log, s, rfl, .inr h⟩
  | cons item rest ih =>
      obtain ⟨first, now, later, u, rfl, hBody, hLater⟩ := Exec.of_bind_done h
      cases first with
      | some value' =>
          obtain ⟨rfl, hDone, rfl⟩ := Exec.of_done hLater
          cases hDone
          exact ⟨[], now, s, by simp, .inl ⟨item, by simp, hBody⟩⟩
      | none =>
          obtain ⟨earlier, last, v, rfl, hLast⟩ := ih hLater
          refine ⟨now ++ earlier, last, v, by simp, ?_⟩
          rcases hLast with ⟨other, hOther, hExec⟩ | hExec
          · exact .inl ⟨other, by simp [hOther], hExec⟩
          · exact .inr hExec

/-- A loop which has collected a value for each item, cut into its turns: the value and the log of
each of them. -/
theorem Exec.of_mapM_done {body : α → Prog S β} {items : List α} {values : List β} {s t : S.State}
    {log : Log S} (h : Exec (items.mapM body) s log (.done values) t) :
    ∃ turns : List (β × Log S), values = turns.map Prod.fst ∧ log = (turns.map Prod.snd).flatten ∧
      List.Forall₂ (fun item turn => ∃ u v, Exec (body item) u turn.2 (.done turn.1) v)
        items turns := by
  induction items generalizing s log values with
  | nil =>
      obtain ⟨rfl, hDone, -⟩ := Exec.of_done h
      cases hDone
      exact ⟨[], rfl, rfl, .nil⟩
  | cons item rest ih =>
      rw [List.mapM_cons] at h
      obtain ⟨value, now, later, u, rfl, hNow, hLater⟩ := Exec.of_bind_done h
      obtain ⟨others, middle, last, v, rfl, hRest, hLast⟩ := Exec.of_bind_done hLater
      obtain ⟨rfl, hDone, rfl⟩ := Exec.of_done hLast
      cases hDone
      obtain ⟨turns, rfl, rfl, hTurns⟩ := ih hRest
      exact ⟨(value, now) :: turns, rfl, by simp, .cons ⟨s, u, hNow⟩ hTurns⟩

/-- A program of which only the footprint matters, in front of others. -/
theorem Exec.skip {R : Moment S → Prop} {p : Prog S α} {f : α → Prog S β} {r : Prog S β}
    {s t : S.State} {log : Log S} (h : Exec (p.bind f) s log r t) (hp : Keeps R p) :
    (∀ m ∈ log, R m) ∨ ∃ value now later u, log = now ++ later ∧ (∀ m ∈ now, R m) ∧
      Exec (f value) u later r t := by
  rcases h.of_bind with ⟨p', hFirst, -⟩ | ⟨value, now, later, u, rfl, hFirst, hLater⟩
  · exact .inl (hFirst.keeps hp).1
  · exact .inr ⟨value, now, later, u, rfl, (hFirst.keeps hp).1, hLater⟩

/-- A step which moves nothing leaves the state as it is. -/
theorem Exec.still {p q : Prog S α} {s t : S.State} {log : Log S} (h : Exec p s log q t) :
    ∀ m ∈ log, m.happening ≠ .moved → m.after = m.before := by
  induction h with
  | refl => simp
  | step first rest ih =>
      rw [List.forall_mem_cons]
      refine ⟨?_, ih⟩
      cases first with
      | emit | ask | read | readFault | reject | txFault => exact fun _ => rfl
      | act | commit | ackLost => exact fun hMoved => absurd rfl hMoved

/-! ## Calls and their logs -/

/-- Executions of jobs of a family one after the other, each with a log of its own.  Each of them may
be cut off anywhere. -/
inductive Calls {ι : Type u} {result : ι → Type} (job : (i : ι) → Prog S (result i))
    (may : ι → Prop) (s : S.State) : List (ι × Log S) → S.State → Prop where
  | nil : Calls job may s [] s
  | snoc {t u : S.State} {calls : List (ι × Log S)} (past : Calls job may s calls t) (i : ι)
      (hMay : may i) {log : Log S} {left : Prog S (result i)} (last : Exec (job i) t log left u) :
      Calls job may s (calls ++ [(i, log)]) u

/-! ## Returned values -/

/-- Every value which the program returns, from whatever state and whatever the other processes do in
between, satisfies `P`. -/
inductive Returns (P : α → Prop) : Prog S α → Prop where
  | intro {p : Prog S α} (hDone : ∀ value, p = .done value → P value)
      (hNext : ∀ m q, Step p m q → Returns P q) : Returns P p

variable {P : α → Prop}

theorem Returns.now {value : α} (h : Returns P (.done value : Prog S α)) : P value := by
  cases h with
  | intro hDone _ => exact hDone value rfl

theorem Returns.next {p q : Prog S α} {m : Moment S} (h : Returns P p) (hStep : Step p m q) :
    Returns P q := by
  cases h with
  | intro _ hNext => exact hNext m q hStep

theorem Returns.exec {p : Prog S α} {s t : S.State} {log : Log S} {value : α} (h : Returns P p)
    (hExec : Exec p s log (.done value) t) : P value := by
  generalize hLeft : Prog.done value = left at hExec
  induction hExec with
  | refl p s =>
      subst hLeft
      exact h.now
  | step first rest ih => exact ih (h.next first) hLeft

theorem returns_done {value : α} (h : P value) : Returns P (.done value : Prog S α) := by
  refine .intro ?_ fun _ _ hStep => absurd (.done value) hStep.not_ended
  rintro _ ⟨⟩
  exact h

theorem returns_raise {error : S.Err} : Returns P (.raise error : Prog S α) :=
  .intro (by rintro _ ⟨⟩) fun _ _ hStep => absurd (.raise error) hStep.not_ended

/-- The trivial case: a value is a value. -/
theorem returns_any (p : Prog S α) : Returns (fun _ => True) p := by
  induction p with
  | done value => exact returns_done trivial
  | raise error => exact returns_raise
  | emit event next ih => exact .intro (fun _ _ => trivial) fun _ _ hStep => by cases hStep; exact ih
  | ask query next ih => exact .intro (fun _ _ => trivial) fun _ _ hStep => by cases hStep; exact ih _
  | act run next ih => exact .intro (fun _ _ => trivial) fun _ _ hStep => by cases hStep; exact ih _
  | read run next ih => exact .intro (fun _ _ => trivial) fun _ _ hStep => by cases hStep <;> exact ih _
  | tx run next ih => exact .intro (fun _ _ => trivial) fun _ _ hStep => by cases hStep <;> exact ih _

/-- Sequencing, with what the first part returns. -/
theorem Returns.bind {A : β → Prop} {p : Prog S β} {f : β → Prog S α} (hp : Returns A p)
    (hf : ∀ value, A value → Returns P (f value)) : Returns P (p.bind f) := by
  induction hp with
  | @intro p hDone hNext ih =>
      by_cases hEnd : Ended p
      · cases hEnd with
        | done value => exact hf value (hDone value rfl)
        | raise error => exact returns_raise
      · refine .intro ?_ ?_
        · intro value hValue
          obtain ⟨first, rfl, -⟩ := Prog.bind_eq_done hValue
          exact absurd (.done first) hEnd
        · intro m q hStep
          obtain ⟨p', hFirst, rfl⟩ := hStep.of_bind hEnd
          exact ih m p' hFirst

theorem returns_bind {p : Prog S β} {f : β → Prog S α} (hf : ∀ value, Returns P (f value)) :
    Returns P (p.bind f) :=
  (returns_any p).bind fun value _ => hf value

theorem Returns.tryCatch {p : Prog S α} {handler : S.Err → Prog S α} (hp : Returns P p)
    (hHandler : ∀ error, Returns P (handler error)) : Returns P (p.tryCatch handler) := by
  induction hp with
  | @intro p hDone hNext ih =>
      by_cases hEnd : Ended p
      · cases hEnd with
        | done value => exact returns_done (hDone value rfl)
        | raise error => exact hHandler error
      · refine .intro ?_ ?_
        · intro value hValue
          cases p with
          | done other => exact absurd (.done other) hEnd
          | raise error => exact absurd (.raise error) hEnd
          | _ => cases hValue
        · intro m q hStep
          obtain ⟨p', hFirst, rfl⟩ := hStep.of_tryCatch hEnd
          exact ih m p' hFirst

theorem Returns.ite {c : Prop} [Decidable c] {p q : Prog S α} (hp : c → Returns P p)
    (hq : ¬ c → Returns P q) : Returns P (if c then p else q) := by
  split
  · exact hp ‹_›
  · exact hq ‹_›

theorem Returns.mapM {A : β → Prop} {body : α → Prog S β} {items : List α}
    (hBody : ∀ item ∈ items, Returns A (body item)) :
    Returns (fun values => ∀ value ∈ values, A value) (items.mapM body) := by
  induction items with
  | nil => exact returns_done (by simp)
  | cons item rest ih =>
      rw [List.mapM_cons]
      refine (hBody item (by simp)).bind fun value hValue => ?_
      refine (ih fun other hOther => hBody other (by simp [hOther])).bind fun values hValues => ?_
      exact returns_done (by simpa using ⟨hValue, hValues⟩)

/-- The footprint of a sequence, with what the first part returns. -/
theorem Returns.keeps_bind {R : Moment S → Prop} {p : Prog S α} {f : α → Prog S β}
    (hp : Returns P p) (hKeeps : Keeps R p) (hf : ∀ value, P value → Keeps R (f value)) :
    Keeps R (p.bind f) := by
  induction hp with
  | @intro p hDone hNext ih =>
      by_cases hEnd : Ended p
      · cases hEnd with
        | done value => exact hf value (hDone value rfl)
        | raise error => exact keeps_raise error
      · refine .intro ?_ ?_
        · intro m q hStep
          obtain ⟨p', hFirst, rfl⟩ := hStep.of_bind hEnd
          exact hKeeps.now hFirst
        · intro m q hStep
          obtain ⟨p', hFirst, rfl⟩ := hStep.of_bind hEnd
          exact ih m p' hFirst (hKeeps.next hFirst)

/-- A program of which only the footprint and the returned values matter, among other processes which
may do anything. -/
theorem Returns.wp {C : Contract S} {R : Moment S → Prop} {p : Prog S α} (hp : Returns P p)
    (hKeeps : Keeps R p) (hEnsures : ∀ l m, C.given l m → R m → C.ensures l m) {Q : Post S α}
    (hOk : ∀ value s l, P value → Q (.ok value) s l) (hError : ∀ error s l, Q (.error error) s l)
    {s : S.State} {l : Log S} : wp C Q p s l := by
  induction hp generalizing s l with
  | @intro p hDone hNext ih =>
      by_cases hEnd : Ended p
      · cases hEnd with
        | done value => exact .done (hOk value s l (hDone value rfl))
        | raise error => exact .raise (hError error s l)
      · refine .step hEnd ?_ ?_
        · exact fun m q hStep hm => hEnsures l m hm.2 (hKeeps.now hStep)
        · exact fun m q hStep hm => ih m q hStep (hKeeps.next hStep)

end Durable
end Ecrke
