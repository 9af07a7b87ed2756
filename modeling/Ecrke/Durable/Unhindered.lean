import Ecrke.Durable.Scheduled
import Ecrke.Durable.Sequential

/-!
# Programs whose database does what it is asked

In an environment which carries out every database step there is one thing left which can go wrong
in the store: a transaction is rejected for its own sake.  So what a program comes to, exceptions
included, can be computed step by step.

* `Unhindered given Q p s` -- run alone, with every database step carried out and with answers in
  `given`, a program ends in `Q`.
* `Ending` -- a postcondition in two cases.
* `Unhindered.bind` ... `Unhindered.foldlM` -- composed programs.
* `Unhindered.query`, `Unhindered.select`, `Unhindered.commit` -- single steps.
* `Unhindered.of_alone` -- what holds whatever happens.
* `Unhindered.course` -- what it says about courses.
-/

namespace Ecrke
namespace Durable

variable {S : Signature} {α β : Type}

/-- Run alone from a state, with every database step carried out and with answers in `given`, a
program ends in `Q`. -/
def Unhindered (given : Moment S → Prop) (Q : Except S.Err α → S.State → Prop) :
    Prog S α → S.State → Prop
  | .done value, s => Q (.ok value) s
  | .raise error, s => Q (.error error) s
  | .emit _ next, s => Unhindered given Q next s
  | .ask query next, s => ∀ answer, given ⟨s, .asked query answer, s⟩ →
      Unhindered given Q (next answer) s
  | .act run next, s => Unhindered given Q (next (run s).1) (run s).2
  | .read run next, s => Unhindered given Q (next (.ok (run s))) s
  | .tx run next, s =>
      (∀ value t, run s = .ok (value, t) → Unhindered given Q (next (.ok value)) t) ∧
      ∀ error, run s = .error error → Unhindered given Q (next (.error error)) s

/-- What a program ends in, from what its values and its exceptions come with. -/
def Ending (ok : α → S.State → Prop) (raised : S.Err → S.State → Prop) :
    Except S.Err α → S.State → Prop
  | .ok value, t => ok value t
  | .error error, t => raised error t

namespace Unhindered

variable {given : Moment S → Prop} {s : S.State}

theorem post {Q R : Except S.Err α → S.State → Prop} {p : Prog S α} (h : Unhindered given Q p s)
    (hQ : ∀ r t, Q r t → R r t) : Unhindered given R p s := by
  induction p generalizing s with
  | done value => exact hQ _ _ h
  | raise error => exact hQ _ _ h
  | emit event next ih => exact ih h
  | ask query next ih => exact fun answer hGiven => ih answer (h answer hGiven)
  | act run next ih => exact ih _ h
  | read run next ih => exact ih _ h
  | tx run next ih =>
      exact ⟨fun value t hRun => ih _ (h.1 value t hRun), fun error hRun => ih _ (h.2 error hRun)⟩

theorem bind {Q : Except S.Err β → S.State → Prop} (mid : Except S.Err α → S.State → Prop)
    {p : Prog S α} {f : α → Prog S β} (hFirst : Unhindered given mid p s)
    (hOk : ∀ value t, mid (.ok value) t → Unhindered given Q (f value) t)
    (hError : ∀ error t, mid (.error error) t → Q (.error error) t) :
    Unhindered given Q (p.bind f) s := by
  induction p generalizing s with
  | done value => exact hOk value s hFirst
  | raise error => exact hError error s hFirst
  | emit event next ih => exact ih hFirst
  | ask query next ih => exact fun answer hGiven => ih answer (hFirst answer hGiven)
  | act run next ih => exact ih _ hFirst
  | read run next ih => exact ih _ hFirst
  | tx run next ih =>
      exact ⟨fun value t hRun => ih _ (hFirst.1 value t hRun),
        fun error hRun => ih _ (hFirst.2 error hRun)⟩

theorem tryCatch {Q : Except S.Err α → S.State → Prop} (mid : Except S.Err α → S.State → Prop)
    {p : Prog S α} {handler : S.Err → Prog S α} (hBody : Unhindered given mid p s)
    (hOk : ∀ value t, mid (.ok value) t → Q (.ok value) t)
    (hError : ∀ error t, mid (.error error) t → Unhindered given Q (handler error) t) :
    Unhindered given Q (p.tryCatch handler) s := by
  induction p generalizing s with
  | done value => exact hOk value s hBody
  | raise error => exact hError error s hBody
  | emit event next ih => exact ih hBody
  | ask query next ih => exact fun answer hGiven => ih answer (hBody answer hGiven)
  | act run next ih => exact ih _ hBody
  | read run next ih => exact ih _ hBody
  | tx run next ih =>
      exact ⟨fun value t hRun => ih _ (hBody.1 value t hRun),
        fun error hRun => ih _ (hBody.2 error hRun)⟩

theorem ite {Q : Except S.Err α → S.State → Prop} {c : Prop} [Decidable c] {p q : Prog S α}
    (hp : c → Unhindered given Q p s) (hq : ¬ c → Unhindered given Q q s) :
    Unhindered given Q (if c then p else q) s := by
  split
  · exact hp ‹_›
  · exact hq ‹_›

theorem ofExcept {Q : Except S.Err α → S.State → Prop} {result : Except S.Err α}
    (h : Q result s) : Unhindered given Q (Prog.ofExcept result) s := by
  cases result with
  | ok value => exact h
  | error error => exact h

/-- A loop, with what holds before each item. -/
theorem foldlM {Q : Except S.Err β → S.State → Prop} {body : β → α → Prog S β}
    (I : List α → β → S.State → Prop)
    (hBody : ∀ item rest acc s, I (item :: rest) acc s →
      Unhindered given (Ending (I rest) fun error t => Q (.error error) t) (body acc item) s)
    (hDone : ∀ acc s, I [] acc s → Q (.ok acc) s) (items : List α) {acc : β}
    (h : I items acc s) : Unhindered given Q (items.foldlM body acc) s := by
  induction items generalizing acc s with
  | nil => exact hDone acc s h
  | cons item rest ih =>
      rw [List.foldlM_cons, Prog.bind_def]
      exact bind _ (hBody item rest acc s h) (fun _ t ht => ih ht) (fun _ _ ht => ht)

/-! ## Steps in front of others -/

theorem query {Q : Except S.Err α → S.State → Prop} {question : S.Query}
    {rest : S.Answer question → Prog S α}
    (h : ∀ answer, given ⟨s, .asked question answer, s⟩ → Unhindered given Q (rest answer) s) :
    Unhindered given Q ((Prog.query question).bind rest) s := h

theorem atomically {Q : Except S.Err β → S.State → Prop} {run : S.State → α × S.State}
    {rest : α → Prog S β} (h : Unhindered given Q (rest (run s).1) (run s).2) :
    Unhindered given Q ((Prog.atomically run).bind rest) s := h

theorem select {Q : Except S.Err β → S.State → Prop} {run : S.State → α} {rest : α → Prog S β}
    (h : Unhindered given Q (rest (run s)) s) :
    Unhindered given Q ((Prog.select run).bind rest) s := h

/-- A transaction is carried out, or it is rejected. -/
theorem commit {Q : Except S.Err α → S.State → Prop} {run : S.State → Except S.Err (α × S.State)}
    (hOk : ∀ value t, run s = .ok (value, t) → Q (.ok value) t)
    (hError : ∀ error, run s = .error error → Q (.error error) s) :
    Unhindered given Q (Prog.commit run) s := ⟨hOk, hError⟩

/-! ## Executions -/

/-- What holds of a program whatever happens. -/
theorem of_alone {E : Moment S → Prop} {Q : Except S.Err α → S.State → Prop} {p : Prog S α}
    (h : Alone E Q p s) : Unhindered given Q p s := by
  have hRun := h []
  generalize ([] : Log S) = log at hRun
  clear h
  induction hRun with
  | done h => exact h
  | raise h => exact h
  | @step p s log hp hNow hNext ih =>
      have hRest (m : Moment S) (q : Prog S α) (hStep : Step p m q) (hm : s = m.before) :
          Unhindered given Q q m.after := ih m q hStep (Contract.alone_admits.mpr hm)
      cases p with
      | done value => exact absurd (.done value) hp
      | raise error => exact absurd (.raise error) hp
      | emit event next => exact hRest _ _ (.emit event next s) rfl
      | ask query next => exact fun answer _ => hRest _ _ (.ask query next answer s) rfl
      | act run next => exact hRest _ _ (.act run next s) rfl
      | read run next => exact hRest _ _ (.read run next s) rfl
      | tx run next =>
          constructor
          · intro value t hRun
            exact hRest _ _ (.commit run next value s t hRun) rfl
          · intro error hRun
            exact hRest _ _ (.reject run next error s hRun) rfl

/-- The course of a program in an environment which carries out every database step. -/
theorem course {env : Environment S} {n : Nat} {Q : Except S.Err α → S.State → Prop}
    {p q : Prog S α} {t : S.State} {log : Log S} (h : Unhindered given Q p s)
    (hCourse : Course env n p s log q t) (hGrants : ∀ k, env.verdict k = .grant)
    (hGiven : ∀ m ∈ log, given m) : Unhindered given Q q t := by
  induction hCourse with
  | refl n p s => exact h
  | @step n p q r s u m later first rest ih =>
      apply ih _ fun m' hm' => hGiven m' (List.mem_cons_of_mem _ hm')
      have hNow := hGiven m List.mem_cons_self
      cases p with
      | done value => cases first
      | raise error => cases first
      | emit event tail =>
          cases first
          exact h
      | ask query tail =>
          cases first
          exact h _ hNow
      | act run tail =>
          cases first
          exact h
      | read run tail =>
          simp only [next, hGrants] at first
          cases first
          exact h
      | tx run tail =>
          cases hRun : run s with
          | error error =>
              simp only [next, hGrants, hRun] at first
              cases first
              exact h.2 error hRun
          | ok result =>
              obtain ⟨value, after⟩ := result
              simp only [next, hGrants, hRun] at first
              cases first
              exact h.1 value after hRun

end Unhindered

end Durable
end Ecrke
