import Ecrke.Durable.Semantics

/-!
# A rely/guarantee logic for durable programs

`wp C Q p s l` says: started in state `s` with the log `l` behind it, the program `p` keeps the
contract `C` at every step it ever takes, and whenever it returns or raises, `Q` holds.  It says so
for every answer of the outside world and for every pattern of faults, and it never promises that
the program gets to its end, so it is exactly the statement which survives crashes.

A `Contract` names what the other processes may do to the state between two steps (`rely`), which
steps are taken for granted (`given`), and what each step must satisfy (`ensures`).  A sequential
execution is the case `rely = Eq`.

* `wp_bind`, `wp_tryCatch`, `wp_forM`, `wp_foldlM` -- the rules for composed programs.
* `wp_log`, `wp_query`, `wp_atomically`, `wp_select`, `wp_commit` -- the rules for single steps.
* `wp_exec` -- soundness for one execution, cut off anywhere.
* `HistoryWhere.invariant` -- the induction rule for histories.
* `Keeps` -- the footprint of a program: what each of its steps satisfies whatever the state is and
  whatever the other processes do; `Keeps.wp` uses a footprint inside a sequential proof.
-/

namespace Ecrke
namespace Durable

universe u

variable {S : Signature} {α β γ : Type}

/-- What a program may rely on and what it must ensure, step by step. -/
structure Contract (S : Signature) where
  /-- What may happen to the state between two steps. -/
  rely : S.State → S.State → Prop
  /-- The steps which are taken for granted, after the log which precedes them. -/
  given : Log S → Moment S → Prop
  /-- What a step must satisfy, after the log which precedes it. -/
  ensures : Log S → Moment S → Prop

/-- A condition on the result, the final state and the whole log. -/
abbrev Post (S : Signature) (α : Type) := Except S.Err α → S.State → Log S → Prop

/-- The contract of a program which runs alone. -/
def Contract.alone (ensures : Log S → Moment S → Prop) : Contract S where
  rely := Eq
  given := fun _ _ => True
  ensures := ensures

/-- The steps which a contract admits in state `s` after the log `l`. -/
def Contract.Admits (C : Contract S) (s : S.State) (l : Log S) (m : Moment S) : Prop :=
  C.rely s m.before ∧ C.given l m

@[simp] theorem Contract.alone_admits {ensures : Log S → Moment S → Prop} {s : S.State}
    {l : Log S} {m : Moment S} : (Contract.alone ensures).Admits s l m ↔ s = m.before := by
  simp [Contract.Admits, Contract.alone]

/-- The weakest precondition of a program under a contract. -/
inductive wp (C : Contract S) (Q : Post S α) : Prog S α → S.State → Log S → Prop where
  | done {value : α} {s : S.State} {l : Log S} (h : Q (.ok value) s l) : wp C Q (.done value) s l
  | raise {error : S.Err} {s : S.State} {l : Log S} (h : Q (.error error) s l) :
      wp C Q (.raise error) s l
  | step {p : Prog S α} {s : S.State} {l : Log S} (hp : ¬ Ended p)
      (hNow : ∀ m q, Step p m q → C.Admits s l m → C.ensures l m)
      (hNext : ∀ m q, Step p m q → C.Admits s l m → wp C Q q m.after (l ++ [m])) : wp C Q p s l

@[simp] theorem wp_done (C : Contract S) (Q : Post S α) (value : α) (s : S.State) (l : Log S) :
    wp C Q (.done value) s l ↔ Q (.ok value) s l := by
  constructor
  · rintro (h | _ | hp)
    · exact h
    · exact absurd (.done value) hp
  · exact .done

@[simp] theorem wp_raise (C : Contract S) (Q : Post S α) (error : S.Err) (s : S.State)
    (l : Log S) : wp C Q (.raise error) s l ↔ Q (.error error) s l := by
  constructor
  · rintro (_ | h | hp)
    · exact h
    · exact absurd (.raise error) hp
  · exact .raise

/-! ## Composed programs -/

/-- Weaken the postcondition and the contract at once. -/
theorem wp_mono {C D : Contract S} (hRely : ∀ s t, D.rely s t → C.rely s t)
    (hGiven : ∀ l m, D.given l m → C.given l m)
    (hEnsures : ∀ l m, D.given l m → C.ensures l m → D.ensures l m)
    {p : Prog S α} {Q R : Post S α} (hPost : ∀ r s l, Q r s l → R r s l)
    {s : S.State} {l : Log S} (h : wp C Q p s l) : wp D R p s l := by
  induction h with
  | done h => exact .done (hPost _ _ _ h)
  | raise h => exact .raise (hPost _ _ _ h)
  | step hp hNow hNext ih =>
      refine .step hp ?_ ?_
      · intro m q hStep hm
        exact hEnsures _ _ hm.2 (hNow m q hStep ⟨hRely _ _ hm.1, hGiven _ _ hm.2⟩)
      · intro m q hStep hm
        exact ih m q hStep ⟨hRely _ _ hm.1, hGiven _ _ hm.2⟩

/-- Weaken the postcondition. -/
theorem wp_post {C : Contract S} {p : Prog S α} {Q R : Post S α} {s : S.State} {l : Log S}
    (h : wp C Q p s l) (hPost : ∀ r s l, Q r s l → R r s l) : wp C R p s l :=
  wp_mono (fun _ _ h => h) (fun _ _ h => h) (fun _ _ _ h => h) hPost h

/-- What a continuation owes to the rest of the program. -/
def Post.andThen (C : Contract S) (f : α → Prog S β) (Q : Post S β) : Post S α
  | .ok value, s, l => wp C Q (f value) s l
  | .error error, s, l => Q (.error error) s l

/-- What a handler owes to the rest of the program. -/
def Post.handledBy (C : Contract S) (handler : S.Err → Prog S α) (Q : Post S α) : Post S α
  | .ok value, s, l => Q (.ok value) s l
  | .error error, s, l => wp C Q (handler error) s l

theorem wp_andThen {C : Contract S} {p : Prog S α} {f : α → Prog S β} {Q : Post S β}
    {s : S.State} {l : Log S} (h : wp C (Post.andThen C f Q) p s l) : wp C Q (p.bind f) s l := by
  induction h with
  | done h => exact h
  | raise h => exact .raise h
  | @step p s l hp hNow hNext ih =>
      have hBind : ¬ Ended (p.bind f) := by
        cases p with
        | done value => exact absurd (.done value) hp
        | raise error => exact absurd (.raise error) hp
        | _ => rintro ⟨⟩
      refine .step hBind ?_ ?_
      · intro m q hStep hm
        obtain ⟨p', hFirst, rfl⟩ := hStep.of_bind hp
        exact hNow m p' hFirst hm
      · intro m q hStep hm
        obtain ⟨p', hFirst, rfl⟩ := hStep.of_bind hp
        exact ih m p' hFirst hm

theorem wp_handledBy {C : Contract S} {p : Prog S α} {handler : S.Err → Prog S α}
    {Q : Post S α} {s : S.State} {l : Log S} (h : wp C (Post.handledBy C handler Q) p s l) :
    wp C Q (p.tryCatch handler) s l := by
  induction h with
  | done h => exact .done h
  | raise h => exact h
  | @step p s l hp hNow hNext ih =>
      have hTry : ¬ Ended (p.tryCatch handler) := by
        cases p with
        | done value => exact absurd (.done value) hp
        | raise error => exact absurd (.raise error) hp
        | _ => rintro ⟨⟩
      refine .step hTry ?_ ?_
      · intro m q hStep hm
        obtain ⟨p', hFirst, rfl⟩ := hStep.of_tryCatch hp
        exact hNow m p' hFirst hm
      · intro m q hStep hm
        obtain ⟨p', hFirst, rfl⟩ := hStep.of_tryCatch hp
        exact ih m p' hFirst hm

/-- Sequencing with a chosen intermediate condition. -/
theorem wp_bind {C : Contract S} {p : Prog S α} {f : α → Prog S β} {Q : Post S β}
    (mid : Post S α) {s : S.State} {l : Log S} (hFirst : wp C mid p s l)
    (hOk : ∀ value t l, mid (.ok value) t l → wp C Q (f value) t l)
    (hError : ∀ error t l, mid (.error error) t l → Q (.error error) t l) :
    wp C Q (p.bind f) s l := by
  refine wp_andThen (wp_post hFirst ?_)
  rintro (error | value) t l h
  · exact hError error t l h
  · exact hOk value t l h

/-- A guarded program with a chosen condition on the escape of its body. -/
theorem wp_tryCatch {C : Contract S} {p : Prog S α} {handler : S.Err → Prog S α} {Q : Post S α}
    (mid : Post S α) {s : S.State} {l : Log S} (hBody : wp C mid p s l)
    (hOk : ∀ value t l, mid (.ok value) t l → Q (.ok value) t l)
    (hError : ∀ error t l, mid (.error error) t l → wp C Q (handler error) t l) :
    wp C Q (p.tryCatch handler) s l := by
  refine wp_handledBy (wp_post hBody ?_)
  rintro (error | value) t l h
  · exact hError error t l h
  · exact hOk value t l h

/-- A loop over a list: `I` holds of the items still to come, before each of them. -/
theorem wp_forM {C : Contract S} {body : α → Prog S PUnit} {Q : Post S PUnit}
    (I : List α → S.State → Log S → Prop)
    (hBody : ∀ item rest s l, I (item :: rest) s l →
      wp C (fun r t l' => match r with
        | .ok _ => I rest t l'
        | .error error => Q (.error error) t l') (body item) s l)
    (hDone : ∀ s l, I [] s l → Q (.ok ⟨⟩) s l)
    (items : List α) {s : S.State} {l : Log S} (h : I items s l) :
    wp C Q (items.forM body) s l := by
  induction items generalizing s l with
  | nil => exact .done (hDone s l h)
  | cons item rest ih =>
      exact wp_bind _ (hBody item rest s l h) (fun _ t l' ht => ih ht) (fun _ _ _ ht => ht)

/-- A loop with an accumulator. -/
theorem wp_foldlM {C : Contract S} {body : β → α → Prog S β} {Q : Post S β}
    (I : List α → β → S.State → Log S → Prop)
    (hBody : ∀ item rest acc s l, I (item :: rest) acc s l →
      wp C (fun r t l' => match r with
        | .ok acc' => I rest acc' t l'
        | .error error => Q (.error error) t l') (body acc item) s l)
    (hDone : ∀ acc s l, I [] acc s l → Q (.ok acc) s l)
    (items : List α) {acc : β} {s : S.State} {l : Log S} (h : I items acc s l) :
    wp C Q (items.foldlM body acc) s l := by
  induction items generalizing acc s l with
  | nil => exact .done (hDone acc s l h)
  | cons item rest ih =>
      rw [List.foldlM_cons, Prog.bind_def]
      exact wp_bind _ (hBody item rest acc s l h) (fun _ t l' ht => ih ht) (fun _ _ _ ht => ht)

/-- A loop which the body may leave with a value. -/
theorem wp_forElse {C : Contract S} {body : β → Prog S (Option α)} {fallback : Prog S α}
    {Q : Post S α} (I : List β → S.State → Log S → Prop)
    (hBody : ∀ item rest s l, I (item :: rest) s l →
      wp C (fun r t l' => match r with
        | .ok (some value) => Q (.ok value) t l'
        | .ok none => I rest t l'
        | .error error => Q (.error error) t l') (body item) s l)
    (hFallback : ∀ s l, I [] s l → wp C Q fallback s l)
    (items : List β) {s : S.State} {l : Log S} (h : I items s l) :
    wp C Q (Prog.forElse body fallback items) s l := by
  induction items generalizing s l with
  | nil => exact hFallback s l h
  | cons item rest ih =>
      refine wp_bind _ (hBody item rest s l h) ?_ (fun _ _ _ ht => ht)
      rintro (_ | value) t l' ht
      · exact ih ht
      · exact .done ht

/-! ## Single steps -/

/-- The rule for a step which leaves the state alone. -/
def Contract.Stays (C : Contract S) (h : Happening S) (Q : S.State → Log S → Prop)
    (s : S.State) (l : Log S) : Prop :=
  ∀ t, C.Admits s l ⟨t, h, t⟩ → C.ensures l ⟨t, h, t⟩ ∧ Q t (l ++ [⟨t, h, t⟩])

theorem wp_log {C : Contract S} {event : S.Event} {Q : Post S Unit} {s : S.State} {l : Log S}
    (h : C.Stays (.wrote event) (Q (.ok ())) s l) : wp C Q (Prog.log event) s l := by
  refine .step (by rintro ⟨⟩) ?_ ?_
  · rintro m q ⟨⟩ hm
    exact (h _ hm).1
  · rintro m q ⟨⟩ hm
    exact .done (h _ hm).2

theorem wp_query {C : Contract S} {q : S.Query} {Q : Post S (S.Answer q)} {s : S.State} {l : Log S}
    (h : ∀ answer, C.Stays (.asked q answer) (Q (.ok answer)) s l) :
    wp C Q (Prog.query q) s l := by
  refine .step (by rintro ⟨⟩) ?_ ?_
  · rintro m q ⟨⟩ hm
    exact (h _ _ hm).1
  · rintro m q ⟨⟩ hm
    exact .done (h _ _ hm).2

theorem wp_atomically {C : Contract S} {run : S.State → α × S.State} {Q : Post S α}
    {s : S.State} {l : Log S}
    (h : ∀ t, C.Admits s l ⟨t, .moved, (run t).2⟩ → C.ensures l ⟨t, .moved, (run t).2⟩ ∧
      Q (.ok (run t).1) (run t).2 (l ++ [⟨t, .moved, (run t).2⟩])) :
    wp C Q (Prog.atomically run) s l := by
  refine .step (by rintro ⟨⟩) ?_ ?_
  · rintro m q ⟨⟩ hm
    exact (h _ hm).1
  · rintro m q ⟨⟩ hm
    exact .done (h _ hm).2

theorem wp_select {C : Contract S} {run : S.State → α} {Q : Post S α} {s : S.State} {l : Log S}
    (hOk : ∀ t, C.Admits s l ⟨t, .looked, t⟩ → C.ensures l ⟨t, .looked, t⟩ ∧
      Q (.ok (run t)) t (l ++ [⟨t, .looked, t⟩]))
    (hFault : ∀ fault, C.Stays .refused (Q (.error (S.ofFault fault))) s l) :
    wp C Q (Prog.select run) s l := by
  refine .step (by rintro ⟨⟩) ?_ ?_
  · intro m q hStep hm
    cases hStep with
    | read _ _ t => exact (hOk t hm).1
    | readFault _ _ fault t => exact (hFault fault t hm).1
  · intro m q hStep hm
    cases hStep with
    | read _ _ t => exact .done (hOk t hm).2
    | readFault _ _ fault t => exact .raise (hFault fault t hm).2

theorem wp_commit {C : Contract S} {run : S.State → Except S.Err (α × S.State)} {Q : Post S α}
    {s : S.State} {l : Log S}
    (hCommit : ∀ t value u, run t = .ok (value, u) → C.Admits s l ⟨t, .moved, u⟩ →
      C.ensures l ⟨t, .moved, u⟩ ∧ Q (.ok value) u (l ++ [⟨t, .moved, u⟩]) ∧
        ∀ fault, Q (.error (S.ofFault fault)) u (l ++ [⟨t, .moved, u⟩]))
    (hRefused : ∀ t error, (run t = .error error ∨ ∃ fault, error = S.ofFault fault) →
      C.Admits s l ⟨t, .refused, t⟩ → C.ensures l ⟨t, .refused, t⟩ ∧
        Q (.error error) t (l ++ [⟨t, .refused, t⟩])) :
    wp C Q (Prog.commit run) s l := by
  refine .step (by rintro ⟨⟩) ?_ ?_
  · intro m q hStep hm
    cases hStep with
    | commit _ _ value t u h => exact (hCommit t value u h hm).1
    | reject _ _ error t h => exact (hRefused t error (.inl h) hm).1
    | txFault _ _ fault t => exact (hRefused t _ (.inr ⟨fault, rfl⟩) hm).1
    | ackLost _ _ value fault t u h => exact (hCommit t value u h hm).1
  · intro m q hStep hm
    cases hStep with
    | commit _ _ value t u h => exact .done (hCommit t value u h hm).2.1
    | reject _ _ error t h => exact .raise (hRefused t error (.inl h) hm).2
    | txFault _ _ fault t => exact .raise (hRefused t _ (.inr ⟨fault, rfl⟩) hm).2
    | ackLost _ _ value fault t u h => exact .raise ((hCommit t value u h hm).2.2 fault)

/-! ## Soundness -/

/-- `ensures` holds along a log which continues another one. -/
def Contract.Along (C : Contract S) (l : Log S) : Log S → Prop
  | [] => True
  | m :: rest => C.ensures l m ∧ Contract.Along C (l ++ [m]) rest

/-- The steps taken for granted along a log which continues another one. -/
def Contract.Granted (C : Contract S) (l : Log S) : Log S → Prop
  | [] => True
  | m :: rest => C.given l m ∧ Contract.Granted C (l ++ [m]) rest

theorem Contract.along_append (C : Contract S) (l now later : Log S) :
    C.Along l (now ++ later) ↔ C.Along l now ∧ C.Along (l ++ now) later := by
  induction now generalizing l with
  | nil => simp [Contract.Along]
  | cons m rest ih => simp [Contract.Along, ih, and_assoc]

theorem Contract.granted_append (C : Contract S) (l now later : Log S) :
    C.Granted l (now ++ later) ↔ C.Granted l now ∧ C.Granted (l ++ now) later := by
  induction now generalizing l with
  | nil => simp [Contract.Granted]
  | cons m rest ih => simp [Contract.Granted, ih, and_assoc]

theorem Contract.alone_granted (ensures : Log S → Moment S → Prop) (l now : Log S) :
    (Contract.alone ensures).Granted l now := by
  induction now generalizing l with
  | nil => trivial
  | cons m rest ih => exact ⟨trivial, ih _⟩

theorem Contract.granted_of_forall {C : Contract S} {l now : Log S}
    (h : ∀ m ∈ now, ∀ l, C.given l m) : C.Granted l now := by
  induction now generalizing l with
  | nil => trivial
  | cons m rest ih =>
      exact ⟨h m (by simp) l, ih fun later hLater => h later (by simp [hLater])⟩

theorem Contract.granted_of_splits {C : Contract S} {l now : Log S}
    (h : ∀ earlier m later, now = earlier ++ m :: later → C.given (l ++ earlier) m) :
    C.Granted l now := by
  induction now generalizing l with
  | nil => trivial
  | cons m rest ih =>
      have hNow := h [] m rest rfl
      rw [List.append_nil] at hNow
      refine ⟨hNow, ih fun earlier other later hRest => ?_⟩
      rw [List.append_assoc]
      exact h (m :: earlier) other later (by rw [hRest, List.cons_append])

theorem Contract.Along.mem {C : Contract S} {l now : Log S} (h : C.Along l now) {m : Moment S}
    (hm : m ∈ now) : ∃ earlier later, now = earlier ++ m :: later ∧ C.ensures (l ++ earlier) m := by
  obtain ⟨earlier, later, rfl⟩ := List.append_of_mem hm
  rw [Contract.along_append] at h
  exact ⟨earlier, later, rfl, h.2.1⟩

theorem wp_step {C : Contract S} {p q : Prog S α} {Q : Post S α} {s : S.State} {l : Log S}
    {m : Moment S} (hStep : Step p m q) (h : wp C Q p s l) (hm : C.Admits s l m) :
    C.ensures l m ∧ wp C Q q m.after (l ++ [m]) := by
  cases h with
  | done h => cases hStep
  | raise h => cases hStep
  | step hp hNow hNext => exact ⟨hNow m q hStep hm, hNext m q hStep hm⟩

/-- Soundness: an execution, cut off anywhere, keeps the contract, and what is left of the program
still meets the postcondition. -/
theorem wp_exec {C : Contract S} (hRely : ∀ s, C.rely s s) {p q : Prog S α} {Q : Post S α}
    {s t : S.State} {l now : Log S} (hExec : Exec p s now q t) (h : wp C Q p s l)
    (hGiven : C.Granted l now) : C.Along l now ∧ wp C Q q t (l ++ now) := by
  induction hExec generalizing l with
  | refl p s => simpa [Contract.Along] using h
  | step first rest ih =>
      obtain ⟨hNow, hNext⟩ := wp_step first h ⟨hRely _, hGiven.1⟩
      obtain ⟨hLater, hRest⟩ := ih hNext hGiven.2
      exact ⟨⟨hNow, hLater⟩, by simpa using hRest⟩

/-- If every step which keeps the contract establishes an invariant, the invariant holds at the end
of an execution. -/
theorem Exec.invariant {C : Contract S} (hRely : ∀ s, C.rely s s)
    (I : S.State → Log S → Prop) (hI : ∀ l m, I m.before l → C.ensures l m → I m.after (l ++ [m]))
    {p q : Prog S α} {Q : Post S α} {s t : S.State} {l now : Log S} (hExec : Exec p s now q t)
    (h : wp C Q p s l) (hStart : I s l) (hGiven : C.Granted l now) :
    C.Along l now ∧ I t (l ++ now) := by
  induction hExec generalizing l with
  | refl p s => simpa [Contract.Along] using hStart
  | @step p q r m later u first rest ih =>
      obtain ⟨hNow, hNext⟩ := wp_step first h ⟨hRely _, hGiven.1⟩
      obtain ⟨hLater, hEnd⟩ := ih hNext (hI l m hStart hNow) hGiven.2
      exact ⟨⟨hNow, hLater⟩, by simpa using hEnd⟩

/-- The induction rule for histories: if every job keeps the contract from every state in which the
invariant holds and it may be started, and a step which keeps the contract establishes the invariant
again, then the whole history keeps the contract and the invariant holds at its end. -/
theorem HistoryWhere.invariant {ι : Type} {result : ι → Type}
    {job : (i : ι) → Prog S (result i)} {may : ι → S.State → Prop}
    {C : Contract S} (hRely : ∀ s, C.rely s s) (I : S.State → Log S → Prop)
    (hI : ∀ l m, I m.before l → C.ensures l m → I m.after (l ++ [m]))
    (hJob : ∀ i s l, may i s → I s l → wp C (fun _ _ _ => True) (job i) s l)
    {s t : S.State} {l now : Log S} (h : HistoryWhere job may s now t) (hStart : I s l)
    (hGiven : C.Granted l now) : C.Along l now ∧ I t (l ++ now) := by
  induction h with
  | nil => simpa [Contract.Along] using hStart
  | snoc past i hMay last ih =>
      rw [Contract.granted_append] at hGiven
      obtain ⟨hPast, hMid⟩ := ih hGiven.1
      obtain ⟨hNow, hEnd⟩ := last.invariant hRely I hI (hJob i _ _ hMay hMid) hMid hGiven.2
      rw [Contract.along_append, ← List.append_assoc]
      exact ⟨⟨hPast, hNow⟩, hEnd⟩

/-! ## Footprints -/

/-- The footprint of a program: every step it can take, from whatever state and whatever the other
processes do in between, satisfies `R`. -/
inductive Keeps (R : Moment S → Prop) : Prog S α → Prop where
  | intro {p : Prog S α} (hNow : ∀ m q, Step p m q → R m)
      (hNext : ∀ m q, Step p m q → Keeps R q) : Keeps R p

variable {R : Moment S → Prop}

theorem Keeps.now {p q : Prog S α} {m : Moment S} (h : Keeps R p) (hStep : Step p m q) : R m := by
  cases h with
  | intro hNow _ => exact hNow m q hStep

theorem Keeps.next {p q : Prog S α} {m : Moment S} (h : Keeps R p) (hStep : Step p m q) :
    Keeps R q := by
  cases h with
  | intro _ hNext => exact hNext m q hStep

theorem Keeps.of_ended {p : Prog S α} (h : Ended p) : Keeps R p :=
  .intro (fun _ _ hStep => absurd h hStep.not_ended) (fun _ _ hStep => absurd h hStep.not_ended)

@[simp] theorem keeps_done (value : α) : Keeps R (.done value : Prog S α) :=
  .of_ended (.done value)

@[simp] theorem keeps_raise (error : S.Err) : Keeps R (.raise error : Prog S α) :=
  .of_ended (.raise error)

theorem Keeps.mono {R' : Moment S → Prop} (hR : ∀ m, R m → R' m) {p : Prog S α}
    (h : Keeps R p) : Keeps R' p := by
  induction h with
  | intro hNow hNext ih => exact .intro (fun m q hStep => hR m (hNow m q hStep)) ih

/-- Two footprints of one program. -/
theorem Keeps.both {R' : Moment S → Prop} {p : Prog S α} (h : Keeps R p) (h' : Keeps R' p) :
    Keeps (fun m => R m ∧ R' m) p := by
  induction h with
  | intro hNow _ ih =>
      exact .intro (fun m q hStep => ⟨hNow m q hStep, h'.now hStep⟩)
        fun m q hStep => ih m q hStep (h'.next hStep)

theorem keeps_bind {p : Prog S α} {f : α → Prog S β} (hp : Keeps R p)
    (hf : ∀ value, Keeps R (f value)) : Keeps R (p.bind f) := by
  induction hp with
  | @intro p hNow hNext ih =>
      by_cases hEnd : Ended p
      · cases hEnd with
        | done value => exact hf value
        | raise error => exact keeps_raise error
      · refine .intro ?_ ?_
        · intro m q hStep
          obtain ⟨p', hFirst, rfl⟩ := hStep.of_bind hEnd
          exact hNow m p' hFirst
        · intro m q hStep
          obtain ⟨p', hFirst, rfl⟩ := hStep.of_bind hEnd
          exact ih m p' hFirst

theorem keeps_tryCatch {p : Prog S α} {handler : S.Err → Prog S α} (hp : Keeps R p)
    (hh : ∀ error, Keeps R (handler error)) : Keeps R (p.tryCatch handler) := by
  induction hp with
  | @intro p hNow hNext ih =>
      by_cases hEnd : Ended p
      · cases hEnd with
        | done value => exact keeps_done value
        | raise error => exact hh error
      · refine .intro ?_ ?_
        · intro m q hStep
          obtain ⟨p', hFirst, rfl⟩ := hStep.of_tryCatch hEnd
          exact hNow m p' hFirst
        · intro m q hStep
          obtain ⟨p', hFirst, rfl⟩ := hStep.of_tryCatch hEnd
          exact ih m p' hFirst

theorem keeps_ofExcept (result : Except S.Err α) : Keeps R (Prog.ofExcept result : Prog S α) := by
  cases result with
  | ok value => exact keeps_done value
  | error error => exact keeps_raise error

theorem keeps_ite {c : Prop} [Decidable c] {p q : Prog S α} (hp : c → Keeps R p)
    (hq : ¬ c → Keeps R q) : Keeps R (if c then p else q) := by
  split
  · exact hp ‹_›
  · exact hq ‹_›

theorem keeps_forM {ι : Type u} {body : ι → Prog S PUnit} {items : List ι}
    (hBody : ∀ item ∈ items, Keeps R (body item)) : Keeps R (items.forM body) := by
  induction items with
  | nil => exact keeps_done _
  | cons item rest ih =>
      exact keeps_bind (hBody item (by simp)) fun _ =>
        ih fun other hOther => hBody other (by simp [hOther])

theorem keeps_foldlM {body : β → α → Prog S β} {items : List α}
    (hBody : ∀ acc, ∀ item ∈ items, Keeps R (body acc item)) (acc : β) :
    Keeps R (items.foldlM body acc) := by
  induction items generalizing acc with
  | nil => exact keeps_done _
  | cons item rest ih =>
      rw [List.foldlM_cons, Prog.bind_def]
      exact keeps_bind (hBody acc item (by simp)) fun acc' =>
        ih (fun acc other hOther => hBody acc other (by simp [hOther])) acc'

theorem keeps_mapM {body : α → Prog S β} {items : List α}
    (hBody : ∀ item ∈ items, Keeps R (body item)) : Keeps R (items.mapM body) := by
  induction items with
  | nil => exact keeps_done _
  | cons item rest ih =>
      rw [List.mapM_cons]
      refine keeps_bind (hBody item (by simp)) fun _ => ?_
      exact keeps_bind (ih fun other hOther => hBody other (by simp [hOther])) fun _ => keeps_done _

theorem keeps_forElse {body : β → Prog S (Option α)} {fallback : Prog S α} {items : List β}
    (hBody : ∀ item ∈ items, Keeps R (body item)) (hFallback : Keeps R fallback) :
    Keeps R (Prog.forElse body fallback items) := by
  induction items with
  | nil => exact hFallback
  | cons item rest ih =>
      refine keeps_bind (hBody item (by simp)) ?_
      rintro (_ | value)
      · exact ih fun other hOther => hBody other (by simp [hOther])
      · exact keeps_done value

theorem keeps_log {event : S.Event} (h : ∀ s, R ⟨s, .wrote event, s⟩) :
    Keeps R (Prog.log event) := by
  refine .intro ?_ ?_
  · rintro m q ⟨⟩
    exact h _
  · rintro m q ⟨⟩
    exact keeps_done _

theorem keeps_query {question : S.Query} (h : ∀ answer s, R ⟨s, .asked question answer, s⟩) :
    Keeps R (Prog.query question) := by
  refine .intro ?_ ?_
  · rintro m q ⟨⟩
    exact h _ _
  · rintro m q ⟨⟩
    exact keeps_done _

theorem keeps_atomically {run : S.State → α × S.State} (h : ∀ s, R ⟨s, .moved, (run s).2⟩) :
    Keeps R (Prog.atomically run) := by
  refine .intro ?_ ?_
  · rintro m q ⟨⟩
    exact h _
  · rintro m q ⟨⟩
    exact keeps_done _

theorem keeps_select {run : S.State → α} (hLooked : ∀ s, R ⟨s, .looked, s⟩)
    (hRefused : ∀ s, R ⟨s, .refused, s⟩) : Keeps R (Prog.select run) := by
  refine .intro ?_ ?_
  · rintro m q (_ | _)
    · exact hLooked _
    · exact hRefused _
  · rintro m q (_ | _) <;> exact keeps_ofExcept _

theorem keeps_commit {run : S.State → Except S.Err (α × S.State)}
    (hMoved : ∀ s value t, run s = .ok (value, t) → R ⟨s, .moved, t⟩)
    (hRefused : ∀ s, R ⟨s, .refused, s⟩) : Keeps R (Prog.commit run) := by
  refine .intro ?_ ?_
  · intro m q hStep
    cases hStep with
    | commit _ _ value s t h => exact hMoved s value t h
    | reject _ _ error s h => exact hRefused s
    | txFault _ _ fault s => exact hRefused s
    | ackLost _ _ value fault s t h => exact hMoved s value t h
  · rintro m q (_ | _) <;> exact keeps_ofExcept _

/-- Use a footprint inside a proof about states: the program moves the state along a preorder which
contains its footprint and the steps of the others. -/
theorem Keeps.wp {C : Contract S} {T : S.State → S.State → Prop}
    (hRefl : ∀ s, T s s) (hTrans : ∀ s t u, T s t → T t u → T s u)
    (hRely : ∀ s t, C.rely s t → T s t) (hT : ∀ m, R m → T m.before m.after)
    {p : Prog S α} (h : Keeps R p) {Q : Post S α} {s : S.State} {l : Log S}
    (hEnsures : ∀ l m, T s m.before → R m → C.ensures l m)
    (hPost : ∀ r t now, T s t → (∀ m ∈ now, R m) → Q r t (l ++ now)) : wp C Q p s l := by
  -- The induction carries the steps taken so far and the state they led to.
  suffices hAll : ∀ t now, T s t → (∀ m ∈ now, R m) → Durable.wp C Q p t (l ++ now) by
    simpa using hAll s [] (hRefl s) (by simp)
  induction h with
  | @intro p hNow hNext ih =>
      intro t now ht hPast
      cases p with
      | done value => exact .done (hPost _ t now ht hPast)
      | raise error => exact .raise (hPost _ t now ht hPast)
      | _ =>
          refine .step (by rintro ⟨⟩) ?_ ?_
          · intro m q hStep hm
            exact hEnsures _ m (hTrans _ _ _ ht (hRely _ _ hm.1)) (hNow m q hStep)
          · intro m q hStep hm
            have hStill := hTrans _ _ _ ht (hRely _ _ hm.1)
            rw [List.append_assoc]
            refine ih m q hStep m.after _ (hTrans _ _ _ hStill (hT m (hNow m q hStep))) ?_
            intro m' hm'
            rcases List.mem_append.mp hm' with hIn | hIn
            · exact hPast m' hIn
            · rw [List.mem_singleton.mp hIn]
              exact hNow m q hStep

end Durable
end Ecrke
