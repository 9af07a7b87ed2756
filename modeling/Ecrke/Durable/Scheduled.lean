import Ecrke.Durable.Executions

/-!
# Executions in an environment

The course which a program takes in an environment: the answers and the fate of the database steps
are given by the number of the step, so a course is determined by where it starts.

* `Course` -- the steps of a program in an environment, from a step number on.
* `Course.exec`, `simulate_course` -- a course is an execution, and `simulate` computes one.
* `Course.bind`, `Course.of_bind`, `Course.of_tryCatch` -- the courses of composed programs.
* `Course.unique`, `Course.ends` -- there is one course, and it comes to an end.
* `Exec.of_select`, `Exec.of_commit` -- a query, and a commit which is carried out; `Course.of_query`,
  `Course.of_select`, `Course.of_commit` in front of others.
* `Moment.isRefused` -- a database step which has failed.
-/

namespace Ecrke
namespace Durable

variable {S : Signature} {α β : Type} {env : Environment S}

/-- The steps of a program in an environment; step number `n` comes next. -/
inductive Course (env : Environment S) :
    Nat → Prog S α → S.State → Log S → Prog S α → S.State → Prop where
  | refl (n : Nat) (p : Prog S α) (s : S.State) : Course env n p s [] p s
  | step {n : Nat} {p q r : Prog S α} {s u : S.State} {m : Moment S} {later : Log S}
      (first : next env n p s = some (m, q)) (rest : Course env (n + 1) q m.after later r u) :
      Course env n p s (m :: later) r u

theorem Course.exec {n : Nat} {p q : Prog S α} {s t : S.State} {log : Log S}
    (h : Course env n p s log q t) : Exec p s log q t := by
  induction h with
  | refl n p s => exact .refl p s
  | step first rest ih =>
      obtain ⟨hStep, rfl⟩ := next_step first
      exact .step hStep ih

/-- What `simulate` computes is a course. -/
theorem simulate_course (env : Environment S) (steps n : Nat) (p : Prog S α) (s : S.State) :
    Course env n p s (simulate env steps n p s).1 (simulate env steps n p s).2.1
      (simulate env steps n p s).2.2 := by
  induction steps generalizing n p s with
  | zero => exact .refl n p s
  | succ steps ih =>
      cases h : next env n p s with
      | none => simpa [simulate, h] using Course.refl n p s
      | some now =>
          obtain ⟨m, q⟩ := now
          simpa [simulate, h] using Course.step h (ih (n + 1) q m.after)

theorem Course.of_ended {n : Nat} {p q : Prog S α} {s t : S.State} {log : Log S} (hEnd : Ended p)
    (h : Course env n p s log q t) : log = [] ∧ q = p ∧ t = s :=
  h.exec.of_ended hEnd

theorem next_bind {n : Nat} {p : Prog S α} {f : α → Prog S β} {s : S.State} (hp : ¬ Ended p) :
    next env n (p.bind f) s = (next env n p s).map fun (m, q) => (m, q.bind f) := by
  cases p with
  | done value => exact absurd (.done value) hp
  | raise error => exact absurd (.raise error) hp
  | emit event rest => rfl
  | ask query rest => rfl
  | act run rest => rfl
  | read run rest =>
      simp only [Prog.bind, next]
      split <;> rfl
  | tx run rest =>
      simp only [Prog.bind, next]
      split <;> rfl

theorem next_tryCatch {n : Nat} {p : Prog S α} {handler : S.Err → Prog S α} {s : S.State}
    (hp : ¬ Ended p) : next env n (p.tryCatch handler) s =
      (next env n p s).map fun (m, q) => (m, q.tryCatch handler) := by
  cases p with
  | done value => exact absurd (.done value) hp
  | raise error => exact absurd (.raise error) hp
  | emit event rest => rfl
  | ask query rest => rfl
  | act run rest => rfl
  | read run rest =>
      simp only [Prog.tryCatch, next]
      split <;> rfl
  | tx run rest =>
      simp only [Prog.tryCatch, next]
      split <;> rfl

/-- The course of a sequence whose first part is done. -/
theorem Course.bind {n : Nat} {p : Prog S α} {f : α → Prog S β} {r : Prog S β} {value : α}
    {s t u : S.State} {now later : Log S} (first : Course env n p s now (.done value) t)
    (rest : Course env (n + now.length) (f value) t later r u) :
    Course env n (p.bind f) s (now ++ later) r u := by
  generalize hDone : Prog.done value = q at first
  induction first with
  | refl n p s =>
      subst hDone
      exact rest
  | @step n p p' q s t m now first _ ih =>
      have hNext : next env n (p.bind f) s = some (m, p'.bind f) := by
        rw [next_bind (next_step first).1.not_ended, first]
        rfl
      refine .step hNext (ih ?_ hDone)
      rwa [List.length_cons, ← Nat.add_assoc, Nat.add_right_comm] at rest

/-- A program takes one course in an environment. -/
theorem Course.unique {n : Nat} {p q q' : Prog S α} {s t t' : S.State} {log log' : Log S}
    (h : Course env n p s log q t) (h' : Course env n p s log' q' t') (hEnd : Ended q)
    (hEnd' : Ended q') : log = log' ∧ q = q' ∧ t = t' := by
  induction h generalizing log' with
  | refl n p s =>
      obtain ⟨rfl, rfl, rfl⟩ := h'.of_ended hEnd
      exact ⟨rfl, rfl, rfl⟩
  | step first rest ih =>
      cases h' with
      | refl => exact absurd hEnd' (next_step first).1.not_ended
      | step first' rest' =>
          obtain ⟨rfl, rfl⟩ := Prod.mk.inj (Option.some.inj (first.symm.trans first'))
          obtain ⟨rfl, hSame⟩ := ih rest' hEnd
          exact ⟨rfl, hSame⟩

/-- A course which is cut off has gone the way of the whole one. -/
theorem Course.subset {n : Nat} {p q q' : Prog S α} {s t t' : S.State} {log log' : Log S}
    (h : Course env n p s log q t) (h' : Course env n p s log' q' t') (hEnd' : Ended q') :
    log ⊆ log' := by
  induction h generalizing log' with
  | refl n p s => exact List.nil_subset _
  | step first rest ih =>
      cases h' with
      | refl => exact absurd hEnd' (next_step first).1.not_ended
      | step first' rest' =>
          obtain ⟨rfl, rfl⟩ := Prod.mk.inj (Option.some.inj (first.symm.trans first'))
          exact List.cons_subset_cons _ (ih rest')

/-- Every program comes to its end. -/
theorem Course.ends (env : Environment S) (n : Nat) (p : Prog S α) (s : S.State) :
    ∃ log q t, Course env n p s log q t ∧ Ended q := by
  -- One step, and then the course of what is left.
  have hStep {p q : Prog S α} {n : Nat} {s : S.State} {m : Moment S}
      (hNext : next env n p s = some (m, q))
      (hRest : ∃ log r t, Course env (n + 1) q m.after log r t ∧ Ended r) :
      ∃ log r t, Course env n p s log r t ∧ Ended r := by
    obtain ⟨log, r, t, hCourse, hEnd⟩ := hRest
    exact ⟨m :: log, r, t, .step hNext hCourse, hEnd⟩
  induction p generalizing n s with
  | done value => exact ⟨[], _, s, .refl _ _ _, .done value⟩
  | raise error => exact ⟨[], _, s, .refl _ _ _, .raise error⟩
  | emit event rest ih => exact hStep rfl (ih _ _)
  | ask query rest ih => exact hStep rfl (ih _ _ _)
  | act run rest ih => exact hStep rfl (ih _ _ _)
  | read run rest ih =>
      have hNext : ∃ m result, next env n (.read run rest) s = some (m, rest result) := by
        simp only [next]
        split <;> exact ⟨_, _, rfl⟩
      obtain ⟨m, result, hNext⟩ := hNext
      exact hStep hNext (ih result _ _)
  | tx run rest ih =>
      have hNext : ∃ m result, next env n (.tx run rest) s = some (m, rest result) := by
        simp only [next]
        split <;> exact ⟨_, _, rfl⟩
      obtain ⟨m, result, hNext⟩ := hNext
      exact hStep hNext (ih result _ _)

/-- Either the first part is not done yet, or it is done and the rest has begun. -/
theorem Course.of_bind {n : Nat} {p : Prog S α} {f : α → Prog S β} {r : Prog S β}
    {s t : S.State} {log : Log S} (h : Course env n (p.bind f) s log r t) :
    (∃ p', Course env n p s log p' t ∧ r = p'.bind f ∧ ∀ value, p' ≠ .done value) ∨
      ∃ value now later u, log = now ++ later ∧ Course env n p s now (.done value) u ∧
        Course env (n + now.length) (f value) u later r t := by
  generalize hWhole : p.bind f = whole at h
  induction h generalizing p with
  | refl n q s =>
      subst hWhole
      by_cases hDone : ∃ value, p = .done value
      · obtain ⟨value, rfl⟩ := hDone
        exact .inr ⟨value, [], [], s, rfl, .refl _ _ _, .refl _ _ _⟩
      · exact .inl ⟨p, .refl n p s, rfl, not_exists.mp hDone⟩
  | @step n q q' r s u m later first rest ih =>
      subst hWhole
      by_cases hEnd : Ended p
      · cases hEnd with
        | done value => exact .inr ⟨value, [], _, _, rfl, .refl _ _ _, .step first rest⟩
        | raise error => cases first
      · rw [next_bind hEnd, Option.map_eq_some_iff] at first
        obtain ⟨⟨m', p'⟩, hFirst, hEq⟩ := first
        cases hEq
        rcases ih rfl with ⟨p'', hRest, rfl, hOpen⟩ | ⟨value, now, later, v, rfl, hRest, hLater⟩
        · exact .inl ⟨p'', .step hFirst hRest, rfl, hOpen⟩
        · refine .inr ⟨value, m :: now, later, v, rfl, .step hFirst hRest, ?_⟩
          rw [List.length_cons, ← Nat.add_assoc, Nat.add_right_comm]
          exact hLater

/-- A sequence which raises: its first part raises, or it is done and the rest raises. -/
theorem Course.of_bind_raise {n : Nat} {p : Prog S α} {f : α → Prog S β} {error : S.Err}
    {s t : S.State} {log : Log S} (h : Course env n (p.bind f) s log (.raise error) t) :
    Course env n p s log (.raise error) t ∨ ∃ value now later u, log = now ++ later ∧
      Course env n p s now (.done value) u ∧
      Course env (n + now.length) (f value) u later (.raise error) t := by
  rcases h.of_bind with ⟨p', hFirst, hRaise, hOpen⟩ | hDone
  · rcases Prog.bind_eq_raise hRaise.symm with rfl | ⟨value, rfl, -⟩
    · exact .inl hFirst
    · exact absurd rfl (hOpen value)
  · exact .inr hDone

/-- A sequence which is done: both parts are. -/
theorem Course.of_bind_done {n : Nat} {p : Prog S α} {f : α → Prog S β} {last : β}
    {s t : S.State} {log : Log S} (h : Course env n (p.bind f) s log (.done last) t) :
    ∃ value now later u, log = now ++ later ∧ Course env n p s now (.done value) u ∧
      Course env (n + now.length) (f value) u later (.done last) t := by
  rcases h.of_bind with ⟨p', hFirst, hDone, hOpen⟩ | hDone
  · obtain ⟨value, rfl, -⟩ := Prog.bind_eq_done hDone.symm
    exact absurd rfl (hOpen value)
  · exact hDone

/-- A sequence which has ended: its first part has raised, or it is done and the rest has ended. -/
theorem Course.of_bind_ended {n : Nat} {p : Prog S α} {f : α → Prog S β} {r : Prog S β}
    {s t : S.State} {log : Log S} (h : Course env n (p.bind f) s log r t) (hEnd : Ended r) :
    (∃ error, Course env n p s log (.raise error) t ∧ r = .raise error) ∨
      ∃ value now later u, log = now ++ later ∧ Course env n p s now (.done value) u ∧
        Course env (n + now.length) (f value) u later r t := by
  cases hEnd with
  | done value => exact .inr h.of_bind_done
  | raise error =>
      rcases h.of_bind_raise with hRaise | hDone
      · exact .inl ⟨error, hRaise, rfl⟩
      · exact .inr hDone

/-- Either the body is not done yet, or it has raised and the handler has begun. -/
theorem Course.of_tryCatch {n : Nat} {p r : Prog S α} {handler : S.Err → Prog S α}
    {s t : S.State} {log : Log S} (h : Course env n (p.tryCatch handler) s log r t) :
    (∃ p', Course env n p s log p' t ∧ r = p'.tryCatch handler) ∨
      ∃ error now later u, log = now ++ later ∧ Course env n p s now (.raise error) u ∧
        Course env (n + now.length) (handler error) u later r t := by
  generalize hWhole : p.tryCatch handler = whole at h
  induction h generalizing p with
  | refl n q s =>
      subst hWhole
      exact .inl ⟨p, .refl n p s, rfl⟩
  | @step n q q' r s u m later first rest ih =>
      subst hWhole
      by_cases hEnd : Ended p
      · cases hEnd with
        | done value => cases first
        | raise error => exact .inr ⟨error, [], _, _, rfl, .refl _ _ _, .step first rest⟩
      · rw [next_tryCatch hEnd, Option.map_eq_some_iff] at first
        obtain ⟨⟨m', p'⟩, hFirst, hEq⟩ := first
        cases hEq
        rcases ih rfl with ⟨p'', hRest, rfl⟩ | ⟨error, now, later, v, rfl, hRest, hLater⟩
        · exact .inl ⟨p'', .step hFirst hRest, rfl⟩
        · refine .inr ⟨error, m :: now, later, v, rfl, .step hFirst hRest, ?_⟩
          rw [List.length_cons, ← Nat.add_assoc, Nat.add_right_comm]
          exact hLater

/-- A guarded program which is done: its body is, or its body has raised and the handler is. -/
theorem Course.of_tryCatch_done {n : Nat} {p : Prog S α} {handler : S.Err → Prog S α} {value : α}
    {s t : S.State} {log : Log S} (h : Course env n (p.tryCatch handler) s log (.done value) t) :
    Course env n p s log (.done value) t ∨ ∃ error now later u, log = now ++ later ∧
      Course env n p s now (.raise error) u ∧
      Course env (n + now.length) (handler error) u later (.done value) t := by
  rcases h.of_tryCatch with ⟨p', hBody, hDone⟩ | hRaised
  · cases p' with
    | done other =>
        cases hDone
        exact .inl hBody
    | raise error => exact .inr ⟨error, log, [], t, by simp, hBody, hDone ▸ .refl _ _ _⟩
    | _ => cases hDone
  · exact .inr hRaised

/-- A guarded program which raises: its body has raised and the handler raises. -/
theorem Course.of_tryCatch_raise {n : Nat} {p : Prog S α} {handler : S.Err → Prog S α}
    {error : S.Err} {s t : S.State} {log : Log S}
    (h : Course env n (p.tryCatch handler) s log (.raise error) t) :
    ∃ first now later u, log = now ++ later ∧ Course env n p s now (.raise first) u ∧
      Course env (n + now.length) (handler first) u later (.raise error) t := by
  rcases h.of_tryCatch with ⟨p', hBody, hRaise⟩ | hRaised
  · cases p' with
    | raise first => exact ⟨first, log, [], t, by simp, hBody, hRaise ▸ .refl _ _ _⟩
    | _ => cases hRaise
  · exact hRaised

/-! ## Database steps -/

/-- A query in front of others, in an execution which has ended: it is refused, and its exception
ends the execution, or the rest has what it has found. -/
theorem Exec.of_select {run : S.State → α} {f : α → Prog S β} {r : Prog S β} {s t : S.State}
    {log : Log S} (h : Exec ((Prog.select run).bind f) s log r t) (hEnd : Ended r) :
    (∃ error, log = [⟨s, .refused, s⟩] ∧ r = .raise error ∧ t = s) ∨
      ∃ later, log = ⟨s, .looked, s⟩ :: later ∧ Exec (f (run s)) s later r t := by
  cases h with
  | refl => cases hEnd
  | step first rest =>
      cases first with
      | read => exact .inr ⟨_, rfl, rest⟩
      | readFault =>
          obtain ⟨rfl, rfl, rfl⟩ := rest.of_raise
          exact .inl ⟨_, rfl, rfl, rfl⟩

/-- A query which is done has found what was there. -/
theorem Exec.of_select_done {run : S.State → α} {value : α} {s t : S.State} {log : Log S}
    (h : Exec (Prog.select run) s log (.done value) t) : value = run s ∧ t = s := by
  cases h with
  | step first rest =>
      cases first with
      | read =>
          obtain ⟨-, hDone, rfl⟩ := rest.of_done
          cases hDone
          exact ⟨rfl, rfl⟩
      | readFault =>
          obtain ⟨-, hRaise, -⟩ := rest.of_raise
          cases hRaise

/-- A commit, in an execution of which no step is refused. -/
theorem Exec.of_commit {run : S.State → Except S.Err (α × S.State)} {r : Prog S α}
    {s t : S.State} {log : Log S} (h : Exec (Prog.commit run) s log r t) (hEnd : Ended r)
    (hCarried : ∀ m ∈ log, m.happening ≠ .refused) :
    ∃ value, run s = .ok (value, t) ∧ log = [⟨s, .moved, t⟩] := by
  cases h with
  | refl => cases hEnd
  | step first rest =>
      cases first with
      | commit _ _ value s u h =>
          obtain ⟨rfl, -, rfl⟩ := rest.of_done
          exact ⟨value, h, rfl⟩
      | ackLost _ _ value fault s u h =>
          obtain ⟨rfl, -, rfl⟩ := rest.of_raise
          exact ⟨value, h, rfl⟩
      | reject => exact absurd rfl (hCarried _ List.mem_cons_self)
      | txFault => exact absurd rfl (hCarried _ List.mem_cons_self)

/-- A query in front of others, where the database grants it. -/
theorem Course.of_select {n : Nat} {run : S.State → α} {f : α → Prog S β} {r : Prog S β}
    {s t : S.State} {log : Log S} (h : Course env n ((Prog.select run).bind f) s log r t)
    (hGrant : env.verdict n = .grant) (hEnd : Ended r) :
    ∃ later, log = ⟨s, .looked, s⟩ :: later ∧ Course env (n + 1) (f (run s)) s later r t := by
  cases h with
  | refl => cases hEnd
  | step first rest =>
      simp only [Prog.select_bind, next, hGrant] at first
      cases first
      exact ⟨_, rfl, rest⟩

/-- A question in front of others. -/
theorem Course.of_query {n : Nat} {question : S.Query} {f : S.Answer question → Prog S β}
    {r : Prog S β} {s t : S.State} {log : Log S}
    (h : Course env n ((Prog.query question).bind f) s log r t) (hEnd : Ended r) :
    ∃ answer later, log = ⟨s, .asked question answer, s⟩ :: later ∧
      Course env (n + 1) (f answer) s later r t := by
  cases h with
  | refl => cases hEnd
  | step first rest =>
      simp only [Prog.query_bind, next] at first
      cases first
      exact ⟨_, _, rfl, rest⟩

/-- A commit in front of others, where the database grants it and no step is refused. -/
theorem Course.of_commit {n : Nat} {run : S.State → Except S.Err (α × S.State)} {f : α → Prog S β}
    {r : Prog S β} {s t : S.State} {log : Log S}
    (h : Course env n ((Prog.commit run).bind f) s log r t) (hGrant : env.verdict n = .grant)
    (hEnd : Ended r) (hCarried : ∀ m ∈ log, m.happening ≠ .refused) :
    ∃ value u later, run s = .ok (value, u) ∧ log = ⟨s, .moved, u⟩ :: later ∧
      Course env (n + 1) (f value) u later r t := by
  cases h with
  | refl => cases hEnd
  | step first rest =>
      cases hRun : run s with
      | error error =>
          simp only [Prog.commit_bind, next, hGrant, hRun] at first
          cases first
          exact absurd rfl (hCarried _ List.mem_cons_self)
      | ok result =>
          simp only [Prog.commit_bind, next, hGrant, hRun] at first
          cases first
          exact ⟨result.1, result.2, _, rfl, rfl, rest⟩

/-- A database step has failed and left no trace. -/
def Moment.isRefused (m : Moment S) : Bool :=
  match m.happening with
  | .refused => true
  | _ => false

theorem Moment.isRefused_iff {m : Moment S} : m.isRefused = true ↔ m.happening = .refused := by
  cases h : m.happening <;> simp [isRefused, h]

end Durable
end Ecrke
