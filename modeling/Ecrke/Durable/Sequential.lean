import Mathlib.Data.List.Forall2
import Ecrke.Durable.Contract

/-!
# Programs which run alone

The part of the logic which speaks of one program at a time and not of the log behind it.

* `Alone E Q p s` -- started in `s`, the program takes only steps which satisfy `E`, and where it
  ends, `Q` holds of its result and of the state.
* `onOk` -- a condition on a returned value only.
* `Alone.bind`, `Alone.bind_ok`, `Alone.seq`, `Alone.ite`, `Alone.tryCatch`, `Alone.forM`,
  `Alone.foldlM`, `Alone.mapM`, `Alone.forElse` -- the rules for composed programs.
* `Alone.keeping`, `Alone.along` -- an invariant of the steps is an invariant of the program, and a
  preorder which the steps follow is followed to the end.
* `Alone.both` -- the conjunction of two judgements.
* `Alone.of_keeps` -- a footprint.
* `Alone.exec`, `HistoryWhere.alone` -- what it says about executions and histories.
-/

namespace Ecrke
namespace Durable

variable {S : Signature} {α β γ : Type}

/-- Run alone from a state, a program takes only steps in `E`, and it ends in `Q`. -/
def Alone (E : Moment S → Prop) (Q : Except S.Err α → S.State → Prop) (p : Prog S α)
    (s : S.State) : Prop :=
  ∀ l, wp (.alone fun _ m => E m) (fun r t _ => Q r t) p s l

/-- A condition on a returned value. -/
def onOk (Q : α → S.State → Prop) : Except S.Err α → S.State → Prop
  | .ok value, s => Q value s
  | .error _, _ => True

/-- No condition on the end of a program. -/
abbrev anyEnd : Except S.Err α → S.State → Prop := fun _ _ => True

@[simp] theorem onOk_ok (Q : α → S.State → Prop) (value : α) (s : S.State) :
    onOk Q (.ok value) s ↔ Q value s := Iff.rfl

@[simp] theorem onOk_error (Q : α → S.State → Prop) (error : S.Err) (s : S.State) :
    onOk Q (.error error) s := trivial

namespace Alone

variable {E : Moment S → Prop} {s : S.State}

theorem done {Q : Except S.Err α → S.State → Prop} {value : α} (h : Q (.ok value) s) :
    Alone E Q (.done value) s :=
  fun _ => .done h

theorem raise {Q : Except S.Err α → S.State → Prop} {error : S.Err} (h : Q (.error error) s) :
    Alone E Q (.raise error) s :=
  fun _ => .raise h

theorem mono {E' : Moment S → Prop} {Q Q' : Except S.Err α → S.State → Prop} {p : Prog S α}
    (h : Alone E Q p s) (hE : ∀ m, E m → E' m) (hQ : ∀ r t, Q r t → Q' r t) :
    Alone E' Q' p s :=
  fun l => wp_mono (C := .alone fun _ m => E m) (D := .alone fun _ m => E' m)
    (fun _ _ h => h) (fun _ _ h => h) (fun _ m _ h => hE m h) (fun r t _ h => hQ r t h) (h l)

theorem post {Q R : Except S.Err α → S.State → Prop} {p : Prog S α} (h : Alone E Q p s)
    (hQ : ∀ r t, Q r t → R r t) : Alone E R p s :=
  h.mono (fun _ h => h) hQ

/-- A program keeps an invariant which each of its steps keeps. -/
theorem keeping {I : S.State → Prop} (hI : ∀ m, I m.before → E m → I m.after)
    {Q : Except S.Err α → S.State → Prop} {p : Prog S α} (h : Alone E Q p s) (hs : I s) :
    Alone (fun m => E m ∧ I m.before) (fun r t => Q r t ∧ I t) p s := by
  intro l
  have hRun := h l
  clear h
  induction hRun with
  | done h => exact .done ⟨h, hs⟩
  | raise h => exact .raise ⟨h, hs⟩
  | @step p s l hp hNow hNext ih =>
      have hBefore (m q) (hStep : Step p m q)
          (hm : (Contract.alone fun _ m => E m ∧ I m.before).Admits s l m) :
          E m ∧ I m.before := by
        have hEq : s = m.before := by simpa using hm
        exact ⟨hNow m q hStep (by simpa using hEq), hEq ▸ hs⟩
      refine .step hp hBefore ?_
      intro m q hStep hm
      obtain ⟨hE, hIn⟩ := hBefore m q hStep hm
      exact ih m q hStep (by simpa using hm) (hI m hIn hE)

/-- What is known of a program in two ways is known at once. -/
theorem both {E' : Moment S → Prop} {Q Q' : Except S.Err α → S.State → Prop} {p : Prog S α}
    (h : Alone E Q p s) (h' : Alone E' Q' p s) :
    Alone (fun m => E m ∧ E' m) (fun r t => Q r t ∧ Q' r t) p s := by
  intro l
  have hRun := h l
  have hRun' := h' l
  clear h h'
  induction hRun with
  | done h => exact .done ⟨h, by simpa using hRun'⟩
  | raise h => exact .raise ⟨h, by simpa using hRun'⟩
  | @step p s l hp hNow hNext ih =>
      have hOther (m q) (hStep : Step p m q) (hm : s = m.before) :=
        wp_step hStep hRun' (by simpa using hm)
      refine .step hp (fun m q hStep hm => ?_) fun m q hStep hm => ?_
      · exact ⟨hNow m q hStep (by simpa using hm), (hOther m q hStep (by simpa using hm)).1⟩
      · exact ih m q hStep (by simpa using hm) (hOther m q hStep (by simpa using hm)).2

/-- Every step moves along a preorder, so the end is reached along it. -/
theorem along {T : S.State → S.State → Prop} (hRefl : ∀ s, T s s)
    (hTrans : ∀ s t u, T s t → T t u → T s u) (hT : ∀ m, E m → T m.before m.after)
    {Q : Except S.Err α → S.State → Prop} {p : Prog S α} (h : Alone E Q p s) :
    Alone E (fun r t => Q r t ∧ T s t) p s :=
  (h.keeping (I := T s) (fun m hm hE => hTrans _ _ _ hm (hT m hE)) (hRefl s)).mono
    (fun _ hm => hm.1) fun _ _ h => h

/-! ## Composed programs -/

theorem bind {Q : Except S.Err β → S.State → Prop} (mid : Except S.Err α → S.State → Prop)
    {p : Prog S α} {f : α → Prog S β} (hFirst : Alone E mid p s)
    (hOk : ∀ value t, mid (.ok value) t → Alone E Q (f value) t)
    (hError : ∀ error t, mid (.error error) t → Q (.error error) t) :
    Alone E Q (p.bind f) s :=
  fun l => wp_bind _ (hFirst l) (fun value t l' h => hOk value t h l')
    (fun error t _ h => hError error t h)

/-- Sequencing where nothing is asked of an exception. -/
theorem bind_ok {Q : β → S.State → Prop} (mid : α → S.State → Prop) {p : Prog S α}
    {f : α → Prog S β} (hFirst : Alone E (onOk mid) p s)
    (hOk : ∀ value t, mid value t → Alone E (onOk Q) (f value) t) :
    Alone E (onOk Q) (p.bind f) s :=
  bind (onOk mid) hFirst hOk fun _ _ _ => trivial

/-- Sequencing where nothing is asked of the end. -/
theorem seq {p : Prog S α} {f : α → Prog S β} (hFirst : Alone E anyEnd p s)
    (hRest : ∀ value t, Alone E anyEnd (f value) t) : Alone E anyEnd (p.bind f) s :=
  bind anyEnd hFirst (fun value t _ => hRest value t) fun _ _ _ => trivial

theorem ite {Q : Except S.Err α → S.State → Prop} {c : Prop} [Decidable c] {p q : Prog S α}
    (hp : c → Alone E Q p s) (hq : ¬ c → Alone E Q q s) :
    Alone E Q (if c then p else q) s := by
  split
  · exact hp ‹_›
  · exact hq ‹_›

theorem tryCatch {Q : Except S.Err α → S.State → Prop} (mid : Except S.Err α → S.State → Prop)
    {p : Prog S α} {handler : S.Err → Prog S α} (hBody : Alone E mid p s)
    (hOk : ∀ value t, mid (.ok value) t → Q (.ok value) t)
    (hError : ∀ error t, mid (.error error) t → Alone E Q (handler error) t) :
    Alone E Q (p.tryCatch handler) s :=
  fun l => wp_tryCatch _ (hBody l) (fun value t _ h => hOk value t h)
    (fun error t l' h => hError error t h l')

theorem ofExcept {Q : Except S.Err α → S.State → Prop} {result : Except S.Err α}
    (h : Q result s) : Alone E Q (Prog.ofExcept result) s := by
  cases result with
  | ok value => exact done h
  | error error => exact raise h

/-- A returned value is the one which was there. -/
theorem ofExcept_eq (result : Except S.Err α) :
    Alone E (onOk fun value t => t = s ∧ result = .ok value) (Prog.ofExcept result) s := by
  cases result with
  | ok value => exact done ⟨rfl, rfl⟩
  | error error => exact raise trivial

theorem forM {Q : Except S.Err PUnit → S.State → Prop} {body : α → Prog S PUnit}
    (I : List α → S.State → Prop)
    (hBody : ∀ item rest s, I (item :: rest) s →
      Alone E (fun r t => match r with
        | .ok _ => I rest t
        | .error error => Q (.error error) t) (body item) s)
    (hDone : ∀ s, I [] s → Q (.ok ⟨⟩) s) (items : List α) (h : I items s) :
    Alone E Q (items.forM body) s := by
  induction items generalizing s with
  | nil => exact done (hDone s h)
  | cons item rest ih =>
      exact bind _ (hBody item rest s h) (fun _ t ht => ih ht) (fun _ _ ht => ht)

theorem foldlM {Q : Except S.Err β → S.State → Prop} {body : β → α → Prog S β}
    (I : List α → β → S.State → Prop)
    (hBody : ∀ item rest acc s, I (item :: rest) acc s →
      Alone E (fun r t => match r with
        | .ok acc' => I rest acc' t
        | .error error => Q (.error error) t) (body acc item) s)
    (hDone : ∀ acc s, I [] acc s → Q (.ok acc) s) (items : List α) {acc : β}
    (h : I items acc s) : Alone E Q (items.foldlM body acc) s := by
  induction items generalizing acc s with
  | nil => exact done (hDone acc s h)
  | cons item rest ih =>
      rw [List.foldlM_cons, Prog.bind_def]
      exact bind _ (hBody item rest acc s h) (fun _ t ht => ih ht) (fun _ _ ht => ht)

/-- A loop with an accumulator where nothing is asked of an exception or of the result. -/
theorem foldlM_ok {body : β → α → Prog S β} (I : List α → S.State → Prop)
    (hBody : ∀ item rest acc s, I (item :: rest) s →
      Alone E (onOk fun _ t => I rest t) (body acc item) s)
    (items : List α) {acc : β} (h : I items s) :
    Alone E (onOk fun _ t => I [] t) (items.foldlM body acc) s := by
  refine foldlM (fun rest _ t => I rest t) ?_ (fun _ _ h => h) items h
  intro item rest acc s h
  refine (hBody item rest acc s h).post ?_
  rintro (_ | _) t ht
  · trivial
  · exact ht

/-- A loop which collects a value for each item, in the order of the items. -/
theorem mapM_forall₂ {body : α → Prog S β} (P : α → β → Prop) (I : S.State → Prop)
    (items : List α) (hBody : ∀ item ∈ items, ∀ s, I s →
      Alone E (onOk fun value t => P item value ∧ I t) (body item) s)
    (h : I s) :
    Alone E (onOk fun values t => List.Forall₂ P items values ∧ I t) (items.mapM body) s := by
  induction items generalizing s with
  | nil => exact done ⟨.nil, h⟩
  | cons item rest ih =>
      rw [List.mapM_cons]
      refine bind_ok _ (hBody item (by simp) s h) fun value t ht => ?_
      refine bind_ok _ (ih (fun other hOther => hBody other (by simp [hOther])) ht.2) ?_
      exact fun values u hu => done ⟨.cons ht.1 hu.1, hu.2⟩

/-- A loop which collects a value for each item. -/
theorem mapM {body : α → Prog S β} (P : α → β → Prop) (I : S.State → Prop)
    (items : List α) (hBody : ∀ item ∈ items, ∀ s, I s →
      Alone E (onOk fun value t => P item value ∧ I t) (body item) s)
    (h : I s) :
    Alone E (onOk fun values t => (∀ value ∈ values, ∃ item ∈ items, P item value) ∧ I t)
      (items.mapM body) s := by
  refine (mapM_forall₂ P I items hBody h).post fun r t hr => ?_
  cases r with
  | error error => trivial
  | ok values =>
      obtain ⟨hValues, ht⟩ := hr
      refine ⟨fun value hValue => ?_, ht⟩
      obtain ⟨i, hi, rfl⟩ := List.getElem_of_mem hValue
      have hItem : i < items.length := hValues.length_eq ▸ hi
      exact ⟨items[i], List.getElem_mem hItem, hValues.get hItem hi⟩

theorem forElse {Q : Except S.Err α → S.State → Prop} {body : β → Prog S (Option α)}
    {fallback : Prog S α} (I : List β → S.State → Prop)
    (hBody : ∀ item rest s, I (item :: rest) s →
      Alone E (fun r t => match r with
        | .ok (some value) => Q (.ok value) t
        | .ok none => I rest t
        | .error error => Q (.error error) t) (body item) s)
    (hFallback : ∀ s, I [] s → Alone E Q fallback s) (items : List β) (h : I items s) :
    Alone E Q (Prog.forElse body fallback items) s := by
  induction items generalizing s with
  | nil => exact hFallback s h
  | cons item rest ih =>
      refine bind _ (hBody item rest s h) ?_ (fun _ _ ht => ht)
      rintro (_ | value) t ht
      · exact ih ht
      · exact done ht

/-! ## Single steps -/

theorem log {event : S.Event} {Q : Except S.Err Unit → S.State → Prop}
    (hE : E ⟨s, .wrote event, s⟩) (hQ : Q (.ok ()) s) : Alone E Q (Prog.log event) s := by
  intro l
  refine wp_log fun t ht => ?_
  obtain rfl : s = t := by simpa using ht
  exact ⟨hE, hQ⟩

theorem query {question : S.Query} {Q : Except S.Err (S.Answer question) → S.State → Prop}
    (h : ∀ answer, E ⟨s, .asked question answer, s⟩ ∧ Q (.ok answer) s) :
    Alone E Q (Prog.query question) s := by
  intro l
  refine wp_query fun answer t ht => ?_
  obtain rfl : s = t := by simpa using ht
  exact h answer

theorem atomically {run : S.State → α × S.State} {Q : Except S.Err α → S.State → Prop}
    (hE : E ⟨s, .moved, (run s).2⟩) (hQ : Q (.ok (run s).1) (run s).2) :
    Alone E Q (Prog.atomically run) s := by
  intro l
  refine wp_atomically fun t ht => ?_
  obtain rfl : s = t := by simpa using ht
  exact ⟨hE, hQ⟩

theorem select {run : S.State → α} {Q : Except S.Err α → S.State → Prop}
    (hLooked : E ⟨s, .looked, s⟩) (hRefused : E ⟨s, .refused, s⟩) (hOk : Q (.ok (run s)) s)
    (hFault : ∀ fault, Q (.error (S.ofFault fault)) s) : Alone E Q (Prog.select run) s := by
  intro l
  refine wp_select (fun t ht => ?_) (fun fault t ht => ?_)
  · obtain rfl : s = t := by simpa using ht
    exact ⟨hLooked, hOk⟩
  · obtain rfl : s = t := by simpa using ht
    exact ⟨hRefused, hFault fault⟩

theorem commit {run : S.State → Except S.Err (α × S.State)}
    {Q : Except S.Err α → S.State → Prop}
    (hMoved : ∀ value t, run s = .ok (value, t) → E ⟨s, .moved, t⟩ ∧ Q (.ok value) t ∧
      ∀ fault, Q (.error (S.ofFault fault)) t)
    (hRefused : E ⟨s, .refused, s⟩)
    (hError : ∀ error, (run s = .error error ∨ ∃ fault, error = S.ofFault fault) →
      Q (.error error) s) : Alone E Q (Prog.commit run) s := by
  intro l
  refine wp_commit (fun t value u hRun ht => ?_) (fun t error hWhy ht => ?_)
  · obtain rfl : s = t := by simpa using ht
    exact hMoved value u hRun
  · obtain rfl : s = t := by simpa using ht
    exact ⟨hRefused, hError error hWhy⟩

/-- A footprint, together with a preorder which contains it. -/
theorem of_keeps {R : Moment S → Prop} {T : S.State → S.State → Prop} (hRefl : ∀ s, T s s)
    (hTrans : ∀ s t u, T s t → T t u → T s u) (hT : ∀ m, R m → T m.before m.after)
    {p : Prog S α} (h : Keeps R p) {Q : Except S.Err α → S.State → Prop}
    (hE : ∀ m, R m → E m) (hQ : ∀ r t, T s t → Q r t) : Alone E Q p s := by
  intro l
  refine h.wp hRefl hTrans ?_ hT ?_ ?_
  · rintro s t rfl
    exact hRefl s
  · exact fun _ m _ hm => hE m hm
  · exact fun r t _ ht _ => hQ r t ht

/-! ## Executions and histories -/

/-- Every step of an execution, cut off anywhere, is in `E`, and what is left still ends in `Q`. -/
theorem exec {Q : Except S.Err α → S.State → Prop} {p q : Prog S α} {t : S.State}
    {now : Log S} (h : Alone E Q p s) (hExec : Exec p s now q t) :
    (∀ m ∈ now, E m) ∧ ∀ value, q = .done value → Q (.ok value) t := by
  obtain ⟨hAlong, hLeft⟩ :=
    wp_exec (fun _ => rfl) hExec (h []) (Contract.alone_granted _ [] now)
  constructor
  · intro m hm
    obtain ⟨_, _, _, hE⟩ := hAlong.mem hm
    exact hE
  · rintro value rfl
    simpa using hLeft

end Alone

/-- The induction rule for histories of jobs which run alone. -/
theorem HistoryWhere.alone {ι : Type} {result : ι → Type} {job : (i : ι) → Prog S (result i)}
    {may : ι → S.State → Prop} {E : Moment S → Prop} (I : S.State → Prop)
    (hI : ∀ m, I m.before → E m → I m.after)
    (hJob : ∀ i s, may i s → I s → Alone E anyEnd (job i) s) {s t : S.State} {now : Log S}
    (h : HistoryWhere job may s now t) (hStart : I s) :
    I t ∧ ∀ m ∈ now, E m ∧ I m.before ∧ I m.after := by
  obtain ⟨hAlong, hEnd⟩ := h.invariant (C := .alone fun _ m => E m ∧ I m.before) (l := [])
    (fun _ => rfl) (fun u _ => I u) (fun _ m hm hE => hI m hm hE.1)
    (fun i u l hMay hu => wp_post ((hJob i u hMay hu).keeping hI hu l) fun _ _ _ _ => trivial)
    hStart (Contract.alone_granted _ [] now)
  refine ⟨by simpa using hEnd, ?_⟩
  intro m hm
  obtain ⟨_, _, _, hE, hIn⟩ := hAlong.mem hm
  exact ⟨hE, hIn, hI m hIn hE⟩

end Durable
end Ecrke
