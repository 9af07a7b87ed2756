import Ecrke.Durable.Sequential

/-!
# Programs and what they have recorded

The log behind a program which runs alone tells how its state came about.  These rules carry facts
about the log through a proof.

* `Contract.alongside` -- the contract of a program which runs alone, with steps taken for granted.
* `Ran` -- a piece of the log is a complete execution of a program.
* `wp_ran` -- where a program ends, it has left such a piece.
* `wp_keeping` -- an invariant of the state and of the log.
* `wp_weaken`, `wp_granted`, `wp_of_alone`, `wp_of_given` -- the use of what is known of the steps
  of a program.
-/

namespace Ecrke
namespace Durable

variable {S : Signature} {α β : Type}

/-- The contract of a program which runs alone, some of whose steps are taken for granted. -/
def Contract.alongside (given : Moment S → Prop) (ensures : Log S → Moment S → Prop) :
    Contract S where
  rely := Eq
  given := fun _ m => given m
  ensures := ensures

@[simp] theorem Contract.alongside_admits {given : Moment S → Prop}
    {ensures : Log S → Moment S → Prop} {s : S.State} {l : Log S} {m : Moment S} :
    (Contract.alongside given ensures).Admits s l m ↔ s = m.before ∧ given m := by
  simp [Contract.Admits, Contract.alongside]

/-- The log from `l` to `l'` is a complete execution of the program. -/
def Ran (p : Prog S α) (s : S.State) (l : Log S) (r : Except S.Err α) (t : S.State)
    (l' : Log S) : Prop :=
  ∃ now, l' = l ++ now ∧ Exec p s now (Prog.ofExcept r) t

theorem Ran.refl (r : Except S.Err α) (s : S.State) (l : Log S) :
    Ran (Prog.ofExcept r) s l r s l :=
  ⟨[], by simp, .refl _ s⟩

theorem Ran.step {p q : Prog S α} {m : Moment S} {l l' : Log S} {r : Except S.Err α}
    {t : S.State} (hStep : Step p m q) (h : Ran q m.after (l ++ [m]) r t l') :
    Ran p m.before l r t l' := by
  obtain ⟨now, rfl, hExec⟩ := h
  exact ⟨m :: now, by simp, .step hStep hExec⟩

section Rules

variable {given : Moment S → Prop} {ensures : Log S → Moment S → Prop} {Q : Post S α}
  {p : Prog S α} {s : S.State} {l : Log S}

/-- Take more for granted, and ask for less. -/
theorem wp_weaken {given' : Moment S → Prop} {ensures' : Log S → Moment S → Prop} {Q' : Post S α}
    (h : wp (.alongside given ensures) Q p s l) (hGiven : ∀ m, given' m → given m)
    (hEnsures : ∀ l m, given' m → ensures l m → ensures' l m)
    (hPost : ∀ r t l, Q r t l → Q' r t l) : wp (.alongside given' ensures') Q' p s l :=
  wp_mono (C := .alongside given ensures) (D := .alongside given' ensures') (fun _ _ h => h)
    (fun _ m h => hGiven m h) (fun l m h => hEnsures l m h) hPost h

/-- Where a program ends, it has left a complete execution in the log. -/
theorem wp_ran (h : wp (.alongside given ensures) Q p s l) :
    wp (.alongside given ensures) (fun r t l' => Q r t l' ∧ Ran p s l r t l') p s l := by
  induction h with
  | @done value s l h => exact .done ⟨h, .refl (.ok value) s l⟩
  | @raise error s l h => exact .raise ⟨h, .refl (.error error) s l⟩
  | @step p s l hp hNow hNext ih =>
      refine .step hp hNow fun m q hStep hm => ?_
      refine wp_post (ih m q hStep hm) fun r t l' hr => ⟨hr.1, ?_⟩
      have hBefore : s = m.before := (Contract.alongside_admits.mp hm).1
      exact hBefore ▸ hr.2.step hStep

/-- A program keeps an invariant of the state and of the log which each of its steps keeps. -/
theorem wp_keeping (I : S.State → Log S → Prop)
    (hI : ∀ l m, given m → I m.before l → ensures l m → I m.after (l ++ [m]))
    (h : wp (.alongside given ensures) Q p s l) (hs : I s l) :
    wp (.alongside given ensures) (fun r t l' => Q r t l' ∧ I t l') p s l := by
  induction h with
  | done h => exact .done ⟨h, hs⟩
  | raise h => exact .raise ⟨h, hs⟩
  | @step p s l hp hNow hNext ih =>
      refine .step hp hNow fun m q hStep hm => ih m q hStep hm ?_
      obtain ⟨hBefore, hGiven⟩ := Contract.alongside_admits.mp hm
      exact hI l m hGiven (hBefore ▸ hs) (hNow m q hStep hm)

/-- What a program is known to do need not be taken for granted, and what is known of its end
holds besides. -/
theorem wp_granted {F : Moment S → Prop} {R : Except S.Err α → S.State → Prop}
    (hKnown : Alone F R p s) (hF : ∀ m, F m → given m)
    (h : wp (.alongside given ensures) Q p s l) :
    wp (.alone fun l m => ensures l m ∧ F m) (fun r t l' => Q r t l' ∧ R r t) p s l := by
  have hRun := hKnown l
  clear hKnown
  induction h with
  | done h => exact .done ⟨h, by simpa using hRun⟩
  | raise h => exact .raise ⟨h, by simpa using hRun⟩
  | @step p s l hp hNow hNext ih =>
      have hAdmits (m q) (hStep : Step p m q) (hm : s = m.before) :
          (F m ∧ wp (.alone fun _ m => F m) (fun r t _ => R r t) q m.after (l ++ [m])) ∧
            (Contract.alongside given ensures).Admits s l m := by
        have hKnown := wp_step hStep hRun (by simpa using hm)
        exact ⟨hKnown, Contract.alongside_admits.mpr ⟨hm, hF m hKnown.1⟩⟩
      refine .step hp ?_ ?_
      · intro m q hStep hm
        obtain ⟨⟨hKnown, -⟩, hm⟩ := hAdmits m q hStep (by simpa using hm)
        exact ⟨hNow m q hStep hm, hKnown⟩
      · intro m q hStep hm
        obtain ⟨⟨-, hRest⟩, hm⟩ := hAdmits m q hStep (by simpa using hm)
        exact ih m q hStep hm hRest

/-- What is known of the steps of a program, whatever the log behind them is. -/
theorem wp_of_alone {E : Moment S → Prop} {R : Except S.Err α → S.State → Prop}
    (h : Alone E R p s) (hE : ∀ l m, given m → E m → ensures l m)
    (hR : ∀ r t l, R r t → Q r t l) : wp (.alongside given ensures) Q p s l :=
  wp_mono (C := .alone fun _ m => E m) (D := .alongside given ensures) (fun _ _ h => h)
    (fun _ _ _ => trivial) (fun l m hGiven h => hE l m hGiven h) (fun r t l h => hR r t l h) (h l)

/-- A program all of whose possible steps do what is asked of them. -/
theorem wp_of_given (h : ∀ l m, given m → ensures l m) (p : Prog S α) (s : S.State) (l : Log S) :
    wp (.alongside given ensures) (fun _ _ _ => True) p s l := by
  have hStep (p : Prog S α) (s : S.State) (l : Log S) (hp : ¬ Ended p)
      (hNext : ∀ m q, Step p m q → wp (.alongside given ensures) (fun _ _ _ => True) q m.after
        (l ++ [m])) : wp (.alongside given ensures) (fun _ _ _ => True) p s l :=
    .step hp (fun m _ _ hm => h l m (Contract.alongside_admits.mp hm).2)
      fun m q hStep _ => hNext m q hStep
  induction p generalizing s l with
  | done value => exact .done trivial
  | raise error => exact .raise trivial
  | emit event next ih =>
      exact hStep _ s l (by rintro ⟨⟩) fun m q hNow => by cases hNow; exact ih _ _
  | ask query next ih =>
      exact hStep _ s l (by rintro ⟨⟩) fun m q hNow => by cases hNow; exact ih _ _ _
  | act run next ih =>
      exact hStep _ s l (by rintro ⟨⟩) fun m q hNow => by cases hNow; exact ih _ _ _
  | read run next ih =>
      exact hStep _ s l (by rintro ⟨⟩) fun m q hNow => by cases hNow <;> exact ih _ _ _
  | tx run next ih =>
      exact hStep _ s l (by rintro ⟨⟩) fun m q hNow => by cases hNow <;> exact ih _ _ _

end Rules

end Durable
end Ecrke
