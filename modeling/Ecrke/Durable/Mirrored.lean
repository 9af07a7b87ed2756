import Ecrke.Durable.Semantics

/-!
# Two runs side by side

What an observer who sees a part of what happens can tell two states apart by.  A program mirrors
another if each of its steps can be answered with a step of the other one which looks the same, such
that related states stay related.  Statements about pairs of runs, such as that what one user is
answered does not depend on the data of another, are statements about executions which mirror each
other.

* `Mirrors` -- a program mirrors another, up to what is seen of the steps, a relation of the states
  and a relation of the values.
* `mirrors_done` ... `Mirrors.bind` -- one rule for each way of building a program.
* `Mirrors.exec` -- an execution of the one is answered with an execution of the other.
-/

namespace Ecrke
namespace Durable

variable {S : Signature} {O α β γ δ : Type}

/-- Every step of a program is answered with a step of another: what is seen of both is the same,
related states stay related, and the values in which the programs end are related. -/
def Mirrors (seen : Happening S → O) (R : S.State → S.State → Prop) (V : α → β → Prop) :
    Prog S α → Prog S β → Prop
  | .done value, q => ∃ value', q = .done value' ∧ V value value'
  | .raise error, q => q = .raise error
  | .emit event next, q => ∃ next', q = .emit event next' ∧ Mirrors seen R V next next'
  | .ask query next, q => ∃ query' next', q = .ask query' next' ∧
      ∀ answer, ∃ answer', seen (.asked query' answer') = seen (.asked query answer) ∧
        Mirrors seen R V (next answer) (next' answer')
  | .act run next, q => ∃ (τ : Type) (run' : S.State → τ × S.State) (next' : τ → Prog S β),
      q = .act run' next' ∧ ∀ s s', R s s' → R (run s).2 (run' s').2 ∧
        Mirrors seen R V (next (run s).1) (next' (run' s').1)
  | .read run next, q => ∃ (τ : Type) (run' : S.State → τ) (next' : Except S.Err τ → Prog S β),
      q = .read run' next' ∧
        (∀ s s', R s s' → Mirrors seen R V (next (.ok (run s))) (next' (.ok (run' s')))) ∧
        ∀ fault, Mirrors seen R V (next (.error (S.ofFault fault)))
          (next' (.error (S.ofFault fault)))
  | .tx run next, q => ∃ (τ : Type) (run' : S.State → Except S.Err (τ × S.State))
      (next' : Except S.Err τ → Prog S β), q = .tx run' next' ∧
        (∀ s s' value t, R s s' → run s = .ok (value, t) → ∃ value' t',
          run' s' = .ok (value', t') ∧ R t t' ∧
            Mirrors seen R V (next (.ok value)) (next' (.ok value'))) ∧
        (∀ s s' error, R s s' → run s = .error error → ∃ error', run' s' = .error error' ∧
          Mirrors seen R V (next (.error error)) (next' (.error error'))) ∧
        ∀ fault, Mirrors seen R V (next (.error (S.ofFault fault)))
          (next' (.error (S.ofFault fault)))

variable {seen : Happening S → O} {R : S.State → S.State → Prop} {V : α → β → Prop}

/-! ## Steps and executions -/

/-- One step is answered with one step. -/
theorem Mirrors.step {p p' : Prog S α} {q : Prog S β} {m : Moment S} {s' : S.State}
    (h : Mirrors seen R V p q) (hR : R m.before s') (hStep : Step p m p') :
    ∃ m' q', m'.before = s' ∧ Step q m' q' ∧ Mirrors seen R V p' q' ∧ R m.after m'.after ∧
      seen m'.happening = seen m.happening := by
  cases hStep with
  | emit event next s =>
      obtain ⟨next', rfl, hNext⟩ := h
      exact ⟨_, _, rfl, .emit event next' s', hNext, hR, rfl⟩
  | ask query next answer s =>
      obtain ⟨query', next', rfl, hNext⟩ := h
      obtain ⟨answer', hSeen, hRest⟩ := hNext answer
      exact ⟨_, _, rfl, .ask query' next' answer' s', hRest, hR, hSeen⟩
  | act run next s =>
      obtain ⟨_, run', next', rfl, hNext⟩ := h
      obtain ⟨hAfter, hRest⟩ := hNext s s' hR
      exact ⟨_, _, rfl, .act run' next' s', hRest, hAfter, rfl⟩
  | read run next s =>
      obtain ⟨_, run', next', rfl, hNext, -⟩ := h
      exact ⟨_, _, rfl, .read run' next' s', hNext s s' hR, hR, rfl⟩
  | readFault run next fault s =>
      obtain ⟨_, run', next', rfl, -, hFault⟩ := h
      exact ⟨_, _, rfl, .readFault run' next' fault s', hFault fault, hR, rfl⟩
  | commit run next value s t hRun =>
      obtain ⟨_, run', next', rfl, hCommit, -, -⟩ := h
      obtain ⟨value', t', hRun', hAfter, hRest⟩ := hCommit s s' value t hR hRun
      exact ⟨_, _, rfl, .commit run' next' value' s' t' hRun', hRest, hAfter, rfl⟩
  | reject run next error s hRun =>
      obtain ⟨_, run', next', rfl, -, hReject, -⟩ := h
      obtain ⟨error', hRun', hRest⟩ := hReject s s' error hR hRun
      exact ⟨_, _, rfl, .reject run' next' error' s' hRun', hRest, hR, rfl⟩
  | txFault run next fault s =>
      obtain ⟨_, run', next', rfl, -, -, hFault⟩ := h
      exact ⟨_, _, rfl, .txFault run' next' fault s', hFault fault, hR, rfl⟩
  | ackLost run next value fault s t hRun =>
      obtain ⟨_, run', next', rfl, hCommit, -, hFault⟩ := h
      obtain ⟨value', t', hRun', hAfter, -⟩ := hCommit s s' value t hR hRun
      exact ⟨_, _, rfl, .ackLost run' next' value' fault s' t' hRun', hFault fault, hAfter, rfl⟩

/-- What is seen of an execution. -/
def Log.seenBy (seen : Happening S → O) (log : Log S) : List O :=
  log.map fun m => seen m.happening

/-- An execution is answered with an execution of which the same is seen. -/
theorem Mirrors.exec {p p' : Prog S α} {q : Prog S β} {s s' t : S.State} {log : Log S}
    (h : Mirrors seen R V p q) (hR : R s s') (hExec : Exec p s log p' t) :
    ∃ log' q' t', Exec q s' log' q' t' ∧ Mirrors seen R V p' q' ∧ R t t' ∧
      log'.seenBy seen = log.seenBy seen := by
  induction hExec generalizing q s' with
  | refl p s => exact ⟨[], q, s', .refl q s', h, hR, rfl⟩
  | @step p p' r m later u first rest ih =>
      obtain ⟨m', q', rfl, hStep, hNext, hAfter, hSeen⟩ := h.step hR first
      obtain ⟨log', q'', t', hRest, hLeft, hEnd, hLater⟩ := ih hNext hAfter
      refine ⟨m' :: log', q'', t', .step hStep hRest, hLeft, hEnd, ?_⟩
      rw [Log.seenBy, Log.seenBy, List.map_cons, List.map_cons, hSeen]
      exact congrArg _ hLater

/-- An execution which returns is answered with one which returns a related value. -/
theorem Mirrors.exec_done {p : Prog S α} {q : Prog S β} {s s' t : S.State} {log : Log S} {value : α}
    (h : Mirrors seen R V p q) (hR : R s s') (hExec : Exec p s log (.done value) t) :
    ∃ log' value' t', Exec q s' log' (.done value') t' ∧ V value value' ∧
      log'.seenBy seen = log.seenBy seen := by
  obtain ⟨log', q', t', hOther, hEnd, -, hSeen⟩ := h.exec hR hExec
  obtain ⟨value', rfl, hValue⟩ := hEnd
  exact ⟨log', value', t', hOther, hValue, hSeen⟩

/-! ## Rules -/

theorem mirrors_done {value : α} {value' : β} (h : V value value') :
    Mirrors seen R V (.done value) (.done value') :=
  ⟨value', rfl, h⟩

theorem mirrors_raise (error : S.Err) :
    Mirrors seen R V (.raise error : Prog S α) (.raise error : Prog S β) := rfl

theorem mirrors_query (question : S.Query) :
    Mirrors seen R (· = ·) (Prog.query question) (Prog.query question) :=
  ⟨question, _, rfl, fun answer => ⟨answer, rfl, mirrors_done rfl⟩⟩

theorem mirrors_ofExcept (result : Except S.Err α) :
    Mirrors seen R (· = ·) (Prog.ofExcept result : Prog S α) (Prog.ofExcept result) := by
  cases result with
  | ok value => exact mirrors_done rfl
  | error error => exact mirrors_raise error

theorem mirrors_select {run : S.State → α} {run' : S.State → β}
    (h : ∀ s s', R s s' → V (run s) (run' s')) :
    Mirrors seen R V (Prog.select run) (Prog.select run') :=
  ⟨β, run', _, rfl, fun s s' hR => mirrors_done (h s s' hR), fun _ => mirrors_raise _⟩

theorem mirrors_commit {run : S.State → Except S.Err (α × S.State)}
    {run' : S.State → Except S.Err (β × S.State)}
    (hCommit : ∀ s s' value t, R s s' → run s = .ok (value, t) → ∃ value' t',
      run' s' = .ok (value', t') ∧ R t t' ∧ V value value')
    (hReject : ∀ s s' error, R s s' → run s = .error error → run' s' = .error error) :
    Mirrors seen R V (Prog.commit run) (Prog.commit run') := by
  refine ⟨β, run', _, rfl, ?_, ?_, fun _ => mirrors_raise _⟩
  · intro s s' value t hR hRun
    obtain ⟨value', t', hRun', hAfter, hValue⟩ := hCommit s s' value t hR hRun
    exact ⟨value', t', hRun', hAfter, mirrors_done hValue⟩
  · intro s s' error hR hRun
    exact ⟨error, hReject s s' error hR hRun, mirrors_raise error⟩

/-- Sequencing: the continuations mirror each other on related values. -/
theorem Mirrors.bind {W : γ → δ → Prop} {p : Prog S α} {q : Prog S β} {f : α → Prog S γ}
    {g : β → Prog S δ} (h : Mirrors seen R V p q)
    (hRest : ∀ value value', V value value' → Mirrors seen R W (f value) (g value')) :
    Mirrors seen R W (p.bind f) (q.bind g) := by
  induction p generalizing q with
  | done value =>
      obtain ⟨value', rfl, hValue⟩ := h
      exact hRest value value' hValue
  | raise error =>
      obtain rfl : q = .raise error := h
      exact mirrors_raise error
  | emit event next ih =>
      obtain ⟨next', rfl, hNext⟩ := h
      exact ⟨next'.bind g, rfl, ih hNext⟩
  | ask query next ih =>
      obtain ⟨query', next', rfl, hNext⟩ := h
      refine ⟨query', fun answer => (next' answer).bind g, rfl, fun answer => ?_⟩
      obtain ⟨answer', hSeen, hAnswer⟩ := hNext answer
      exact ⟨answer', hSeen, ih answer hAnswer⟩
  | act run next ih =>
      obtain ⟨τ, run', next', rfl, hNext⟩ := h
      exact ⟨τ, run', fun value => (next' value).bind g, rfl,
        fun s s' hR => (hNext s s' hR).imp_right (ih _)⟩
  | read run next ih =>
      obtain ⟨τ, run', next', rfl, hNext, hFault⟩ := h
      exact ⟨τ, run', fun result => (next' result).bind g, rfl,
        fun s s' hR => ih _ (hNext s s' hR), fun fault => ih _ (hFault fault)⟩
  | tx run next ih =>
      obtain ⟨τ, run', next', rfl, hCommit, hReject, hFault⟩ := h
      refine ⟨τ, run', fun result => (next' result).bind g, rfl, ?_, ?_,
        fun fault => ih _ (hFault fault)⟩
      · intro s s' value t hR hRun
        obtain ⟨value', t', hRun', hAfter, hValue⟩ := hCommit s s' value t hR hRun
        exact ⟨value', t', hRun', hAfter, ih _ hValue⟩
      · intro s s' error hR hRun
        obtain ⟨error', hRun', hError⟩ := hReject s s' error hR hRun
        exact ⟨error', hRun', ih _ hError⟩

theorem Mirrors.mono {W : α → β → Prop} {p : Prog S α} {q : Prog S β} (h : Mirrors seen R V p q)
    (hV : ∀ value value', V value value' → W value value') : Mirrors seen R W p q := by
  rw [← Prog.bind_done p, ← Prog.bind_done q]
  exact h.bind fun value value' hValue => mirrors_done (hV value value' hValue)

/-- `try`/`except`: the handlers mirror each other on every exception. -/
theorem Mirrors.tryCatch {p : Prog S α} {q : Prog S β} {handler : S.Err → Prog S α}
    {handler' : S.Err → Prog S β} (h : Mirrors seen R V p q)
    (hHandler : ∀ error, Mirrors seen R V (handler error) (handler' error)) :
    Mirrors seen R V (p.tryCatch handler) (q.tryCatch handler') := by
  induction p generalizing q with
  | done value =>
      obtain ⟨value', rfl, hValue⟩ := h
      exact mirrors_done hValue
  | raise error =>
      obtain rfl : q = .raise error := h
      exact hHandler error
  | emit event next ih =>
      obtain ⟨next', rfl, hNext⟩ := h
      exact ⟨next'.tryCatch handler', rfl, ih hNext⟩
  | ask query next ih =>
      obtain ⟨query', next', rfl, hNext⟩ := h
      refine ⟨query', fun answer => (next' answer).tryCatch handler', rfl, fun answer => ?_⟩
      obtain ⟨answer', hSeen, hAnswer⟩ := hNext answer
      exact ⟨answer', hSeen, ih answer hAnswer⟩
  | act run next ih =>
      obtain ⟨τ, run', next', rfl, hNext⟩ := h
      exact ⟨τ, run', fun value => (next' value).tryCatch handler', rfl,
        fun s s' hR => (hNext s s' hR).imp_right (ih _)⟩
  | read run next ih =>
      obtain ⟨τ, run', next', rfl, hNext, hFault⟩ := h
      exact ⟨τ, run', fun result => (next' result).tryCatch handler', rfl,
        fun s s' hR => ih _ (hNext s s' hR), fun fault => ih _ (hFault fault)⟩
  | tx run next ih =>
      obtain ⟨τ, run', next', rfl, hCommit, hReject, hFault⟩ := h
      refine ⟨τ, run', fun result => (next' result).tryCatch handler', rfl, ?_, ?_,
        fun fault => ih _ (hFault fault)⟩
      · intro s s' value t hR hRun
        obtain ⟨value', t', hRun', hAfter, hValue⟩ := hCommit s s' value t hR hRun
        exact ⟨value', t', hRun', hAfter, ih _ hValue⟩
      · intro s s' error hR hRun
        obtain ⟨error', hRun', hError⟩ := hReject s s' error hR hRun
        exact ⟨error', hRun', ih _ hError⟩

/-- A loop over one list whose bodies mirror each other. -/
theorem mirrors_mapM {body : γ → Prog S α} {body' : γ → Prog S α} {items : List γ}
    (h : ∀ item ∈ items, Mirrors seen R (· = ·) (body item) (body' item)) :
    Mirrors seen R (· = ·) (items.mapM body) (items.mapM body') := by
  induction items with
  | nil => exact mirrors_done rfl
  | cons item rest ih =>
      rw [List.mapM_cons, List.mapM_cons]
      refine (h item List.mem_cons_self).bind ?_
      rintro value _ rfl
      refine (ih fun other hOther => h other (List.mem_cons_of_mem _ hOther)).bind ?_
      rintro values _ rfl
      exact mirrors_done rfl

end Durable
end Ecrke
