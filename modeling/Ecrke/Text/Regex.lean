import Mathlib.Data.List.Basic

/-!
# Regular expressions with backtracking

The fragment of regular expressions whose repetitions range over single letters, with the semantics
of a backtracking matcher: the matches from a position, in the order in which such a matcher finds
them.  A word boundary looks at the letter behind the position, so a position keeps both sides.

* `Regex.stops` -- where the matches from a position stop, the preferred one first.
* `Regex.sub` -- replace the leftmost matches, as `re.sub` does.
* `Regex.Needs`, `Regex.sub_eq_self` -- a text without the letters which every match contains is
  left alone.
-/

namespace Ecrke

variable {α : Type}

/-- A position in a text: what is behind it, nearest first, and what is ahead. -/
structure Cursor (α : Type) where
  behind : List α
  ahead : List α

/-- Regular expressions. -/
inductive Regex (α : Type) where
  /-- The empty match. -/
  | empty
  /-- One letter of a class. -/
  | one (accepts : α → Bool)
  /-- As many letters of a class as possible, within bounds. -/
  | many (accepts : α → Bool) (least : Nat) (most : Option Nat)
  | seq (first second : Regex α)
  | alt (first second : Regex α)
  /-- A boundary between letters of a class and other letters. -/
  | boundary (isWord : α → Bool)

namespace Regex

/-- Greedy repetition, longest match first. -/
def manyFrom (accepts : α → Bool) :
    (least : Nat) → (most : Option Nat) → (behind ahead : List α) → List (Cursor α)
  | least, _, behind, [] => if least = 0 then [⟨behind, []⟩] else []
  | least, most, behind, letter :: rest =>
      (if most ≠ some 0 ∧ accepts letter then
          manyFrom accepts (least - 1) (most.map (· - 1)) (letter :: behind) rest
        else []) ++
      if least = 0 then [⟨behind, letter :: rest⟩] else []

/-- Where the matches from a position stop, the preferred one first. -/
def stops : Regex α → Cursor α → List (Cursor α)
  | empty, at_ => [at_]
  | one accepts, ⟨behind, ahead⟩ =>
      match ahead with
      | [] => []
      | letter :: rest => if accepts letter then [⟨letter :: behind, rest⟩] else []
  | many accepts least most, at_ => manyFrom accepts least most at_.behind at_.ahead
  | seq first second, at_ => (first.stops at_).flatMap second.stops
  | alt first second, at_ => first.stops at_ ++ second.stops at_
  | boundary isWord, at_ =>
      if at_.behind.head?.any isWord ≠ at_.ahead.head?.any isWord then [at_] else []

/-- Replace the leftmost matches which are not empty; `fuel` bounds the letters still ahead. -/
def subFrom (pattern : Regex α) (replacement : List α) : (fuel : Nat) → Cursor α → List α
  | 0, at_ => at_.ahead
  | fuel + 1, at_ =>
      match at_.ahead with
      | [] => []
      | letter :: rest =>
          match (pattern.stops at_).head? with
          | some stop =>
              if stop.ahead.length < at_.ahead.length then
                replacement ++ subFrom pattern replacement fuel stop
              else letter :: subFrom pattern replacement fuel ⟨letter :: at_.behind, rest⟩
          | none => letter :: subFrom pattern replacement fuel ⟨letter :: at_.behind, rest⟩

/-- Replace the leftmost matches in a text.  A match of no letters is passed over. -/
def sub (pattern : Regex α) (replacement text : List α) : List α :=
  subFrom pattern replacement text.length ⟨[], text⟩

/-! ## Letters which every match contains -/

/-- Every match contains a letter of the class. -/
def Needs (letters : α → Prop) : Regex α → Prop
  | empty => False
  | one accepts => ∀ letter, accepts letter → letters letter
  | many accepts least _ => 0 < least ∧ ∀ letter, accepts letter → letters letter
  | seq first second => Needs letters first ∨ Needs letters second
  | alt first second => Needs letters first ∧ Needs letters second
  | boundary _ => False

theorem manyFrom_suffix {accepts : α → Bool} {least : Nat} {most : Option Nat}
    {behind ahead : List α} {stop : Cursor α}
    (h : stop ∈ manyFrom accepts least most behind ahead) : stop.ahead <:+ ahead := by
  induction ahead generalizing least most behind with
  | nil =>
      by_cases hLeast : least = 0 <;> simp [manyFrom, hLeast] at h
      subst h
      exact List.suffix_refl _
  | cons letter rest ih =>
      rw [manyFrom, List.mem_append] at h
      rcases h with h | h
      · by_cases hTake : most ≠ some 0 ∧ accepts letter
        · rw [if_pos hTake] at h
          exact (ih h).trans (List.suffix_cons letter rest)
        · rw [if_neg hTake] at h
          exact absurd h List.not_mem_nil
      · by_cases hLeast : least = 0
        · rw [if_pos hLeast, List.mem_singleton] at h
          subst h
          exact List.suffix_refl _
        · rw [if_neg hLeast] at h
          exact absurd h List.not_mem_nil

theorem stops_suffix {pattern : Regex α} {at_ stop : Cursor α}
    (h : stop ∈ pattern.stops at_) : stop.ahead <:+ at_.ahead := by
  induction pattern generalizing at_ stop with
  | empty =>
      rw [stops, List.mem_singleton] at h
      subst h
      exact List.suffix_refl _
  | one accepts =>
      obtain ⟨behind, ahead⟩ := at_
      cases ahead with
      | nil => simp [stops] at h
      | cons letter rest =>
          by_cases hAccepts : accepts letter <;> simp [stops, hAccepts] at h
          subst h
          exact List.suffix_cons letter rest
  | many accepts least most => exact manyFrom_suffix h
  | seq first second ihFirst ihSecond =>
      obtain ⟨mid, hMid, hStop⟩ := List.mem_flatMap.mp h
      exact (ihSecond hStop).trans (ihFirst hMid)
  | alt first second ihFirst ihSecond =>
      rcases List.mem_append.mp h with h | h
      · exact ihFirst h
      · exact ihSecond h
  | boundary isWord =>
      rw [stops] at h
      split at h
      · obtain rfl := List.mem_singleton.mp h
        exact List.suffix_refl _
      · exact absurd h List.not_mem_nil

theorem manyFrom_needs {accepts : α → Bool} {least : Nat} {most : Option Nat}
    {behind ahead : List α} {stop : Cursor α} (hLeast : 0 < least)
    (h : stop ∈ manyFrom accepts least most behind ahead) :
    ∃ letter ∈ ahead, accepts letter = true := by
  have hNot : least ≠ 0 := Nat.pos_iff_ne_zero.mp hLeast
  cases ahead with
  | nil => simp [manyFrom, hNot] at h
  | cons letter rest =>
      by_cases hTake : most ≠ some 0 ∧ accepts letter
      · exact ⟨letter, List.mem_cons_self .., hTake.2⟩
      · rw [manyFrom, if_neg hTake, if_neg hNot] at h
        simp at h

theorem stops_needs {letters : α → Prop} {pattern : Regex α} (hNeeds : Needs letters pattern)
    {at_ stop : Cursor α} (h : stop ∈ pattern.stops at_) :
    ∃ letter ∈ at_.ahead, letters letter := by
  induction pattern generalizing at_ stop with
  | empty => exact hNeeds.elim
  | one accepts =>
      obtain ⟨behind, ahead⟩ := at_
      cases ahead with
      | nil => simp [stops] at h
      | cons letter rest =>
          by_cases hAccepts : accepts letter <;> simp [stops, hAccepts] at h
          exact ⟨letter, List.mem_cons_self .., hNeeds letter hAccepts⟩
  | many accepts least most =>
      obtain ⟨letter, hMem, hAccepts⟩ := manyFrom_needs hNeeds.1 h
      exact ⟨letter, hMem, hNeeds.2 letter hAccepts⟩
  | seq first second ihFirst ihSecond =>
      obtain ⟨mid, hMid, hStop⟩ := List.mem_flatMap.mp h
      rcases hNeeds with hNeeds | hNeeds
      · exact ihFirst hNeeds hMid
      · obtain ⟨letter, hMem, hLetter⟩ := ihSecond hNeeds hStop
        exact ⟨letter, (stops_suffix hMid).subset hMem, hLetter⟩
  | alt first second ihFirst ihSecond =>
      rcases List.mem_append.mp h with h | h
      · exact ihFirst hNeeds.1 h
      · exact ihSecond hNeeds.2 h
  | boundary isWord => exact hNeeds.elim

theorem subFrom_eq_self {letters : α → Prop} {pattern : Regex α}
    (hNeeds : Needs letters pattern) (replacement : List α) {fuel : Nat} {at_ : Cursor α}
    (h : ∀ letter ∈ at_.ahead, ¬ letters letter) :
    subFrom pattern replacement fuel at_ = at_.ahead := by
  induction fuel generalizing at_ with
  | zero => rfl
  | succ fuel ih =>
      have hNone : (pattern.stops at_).head? = none := by
        rw [List.head?_eq_none_iff, List.eq_nil_iff_forall_not_mem]
        intro stop hStop
        obtain ⟨letter, hMem, hLetter⟩ := stops_needs hNeeds hStop
        exact h letter hMem hLetter
      rw [subFrom, hNone]
      obtain ⟨behind, ahead⟩ := at_
      cases ahead with
      | nil => rfl
      | cons letter rest =>
          have hRest := @ih ⟨letter :: behind, rest⟩
            fun other hOther => h other (List.mem_cons_of_mem _ hOther)
          simpa using hRest

/-- A text without the letters which every match contains is left alone. -/
theorem sub_eq_self {letters : α → Prop} {pattern : Regex α} (hNeeds : Needs letters pattern)
    (replacement : List α) {text : List α} (h : ∀ letter ∈ text, ¬ letters letter) :
    pattern.sub replacement text = text :=
  subFrom_eq_self hNeeds replacement h

end Regex

end Ecrke
