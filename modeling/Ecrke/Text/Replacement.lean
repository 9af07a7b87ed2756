import Ecrke.Text.Substitution
import Mathlib.Algebra.BigOperators.Group.List.Basic
import Mathlib.Algebra.GroupWithZero.Nat
import Mathlib.Algebra.Ring.Int.Defs
import Mathlib.Data.List.Infix

/-!
# What a substitution replaces

A substitution replaces some pieces of a text and passes over the rest of it.

* `Regex.replaced` -- the pieces which it replaces; `length_sub`, the length of what it makes of the
  text.
* `Regex.found` -- the same for several patterns which are substituted one after the other.
* `Regex.shortest`, `Takes.shortest_le` -- a match is not shorter than its pattern.
* `Fenced.piece_origin` -- a piece of the text after a substitution, if it shares no letter with the
  replacement, comes from a position where the pattern does not match.
-/

namespace Ecrke

namespace Regex

variable {α : Type}

/-! ## The replaced pieces -/

/-- The pieces which `subFrom` replaces. -/
def replacedFrom (pattern : Regex α) : (fuel : Nat) → Cursor α → List (List α)
  | 0, _ => []
  | fuel + 1, at_ =>
      match at_.ahead with
      | [] => []
      | letter :: rest =>
          match (pattern.stops at_).head? with
          | some stop =>
              if stop.ahead.length < at_.ahead.length then
                at_.ahead.take (at_.ahead.length - stop.ahead.length) ::
                  replacedFrom pattern fuel stop
              else replacedFrom pattern fuel ⟨letter :: at_.behind, rest⟩
          | none => replacedFrom pattern fuel ⟨letter :: at_.behind, rest⟩

/-- The pieces of a text which `sub` replaces. -/
def replaced (pattern : Regex α) (text : List α) : List (List α) :=
  replacedFrom pattern text.length ⟨[], text⟩

/-- The number of letters in some pieces. -/
def lettersOf (pieces : List (List α)) : Nat := (pieces.map List.length).sum

theorem length_subFrom (pattern : Regex α) (replacement : List α) (fuel : Nat) (at_ : Cursor α) :
    (subFrom pattern replacement fuel at_).length + lettersOf (replacedFrom pattern fuel at_) =
      at_.ahead.length + (replacedFrom pattern fuel at_).length * replacement.length := by
  induction fuel generalizing at_ with
  | zero => simp [subFrom, replacedFrom, lettersOf]
  | succ fuel ih =>
      obtain ⟨behind, ahead⟩ := at_
      cases ahead with
      | nil => simp [subFrom, replacedFrom, lettersOf]
      | cons letter rest =>
          have hPassed := ih ⟨letter :: behind, rest⟩
          have hPass : (letter :: subFrom pattern replacement fuel ⟨letter :: behind, rest⟩).length +
              lettersOf (replacedFrom pattern fuel ⟨letter :: behind, rest⟩) =
                (letter :: rest).length +
                  (replacedFrom pattern fuel ⟨letter :: behind, rest⟩).length *
                    replacement.length := by
            dsimp only at hPassed
            simp only [List.length_cons]
            omega
          rw [subFrom, replacedFrom]
          dsimp only
          cases hHead : (pattern.stops ⟨behind, letter :: rest⟩).head? with
          | none => exact hPass
          | some stop =>
              dsimp only
              split
              · have hRest := ih stop
                have hSuffix := (stops_suffix (List.mem_of_mem_head? hHead)).length_le
                simp only [lettersOf, List.map_cons, List.sum_cons, List.length_append,
                  List.length_take, List.length_cons, Nat.add_mul] at hRest hSuffix ⊢
                omega
              · exact hPass

/-- What is replaced leaves the text, and the replacements enter it. -/
theorem length_sub (pattern : Regex α) (replacement text : List α) :
    (pattern.sub replacement text).length + lettersOf (pattern.replaced text) =
      text.length + (pattern.replaced text).length * replacement.length :=
  length_subFrom pattern replacement text.length ⟨[], text⟩

/-- A text with letters stays one, if the replacement has letters. -/
theorem sub_ne_nil {pattern : Regex α} {replacement text : List α} (hReplacement : replacement ≠ [])
    (hText : text ≠ []) : pattern.sub replacement text ≠ [] := by
  cases text with
  | nil => exact absurd rfl hText
  | cons letter rest =>
      rw [sub, List.length_cons, subFrom]
      dsimp only
      split
      · split
        · simp [hReplacement]
        · simp
      · simp

theorem foldl_sub_ne_nil {patterns : List (Regex α × List α)} {text : List α}
    (hReplacements : ∀ entry ∈ patterns, entry.2 ≠ []) (hText : text ≠ []) :
    patterns.foldl (fun text entry => entry.1.sub entry.2 text) text ≠ [] := by
  induction patterns generalizing text with
  | nil => exact hText
  | cons entry rest ih =>
      have hFirst := @sub_ne_nil _ entry.1 _ _ (hReplacements entry (by simp)) hText
      exact ih (fun other hOther => hReplacements other (List.mem_cons_of_mem _ hOther)) hFirst

/-- A piece which is replaced is a match. -/
theorem takes_of_replacedFrom {pattern : Regex α} {fuel : Nat} {at_ : Cursor α} {piece : List α}
    (h : piece ∈ replacedFrom pattern fuel at_) :
    ∃ behind ahead, Takes pattern behind piece ahead := by
  induction fuel generalizing at_ with
  | zero => simp [replacedFrom] at h
  | succ fuel ih =>
      obtain ⟨behind, ahead⟩ := at_
      cases ahead with
      | nil => simp [replacedFrom] at h
      | cons letter rest =>
          rw [replacedFrom] at h
          dsimp only at h
          cases hHead : (pattern.stops ⟨behind, letter :: rest⟩).head? with
          | none =>
              rw [hHead] at h
              exact ih h
          | some stop =>
              rw [hHead] at h
              dsimp only at h
              split at h
              · rcases List.mem_cons.mp h with rfl | hRest
                · obtain ⟨taken, hAhead, -, hTakes⟩ := takes_of_mem (List.mem_of_mem_head? hHead)
                  have hPiece : (letter :: rest).take
                      ((letter :: rest).length - stop.ahead.length) = taken := by
                    rw [hAhead, List.length_append, Nat.add_sub_cancel, List.take_left]
                  rw [hPiece]
                  exact ⟨behind, stop.ahead, hTakes⟩
                · exact ih hRest
              · exact ih h

/-! ## Several patterns -/

/-- What the substitution of several patterns finds, each piece with its replacement. -/
def found : List (Regex α × List α) → List α → List (List α × List α)
  | [], _ => []
  | (pattern, replacement) :: rest, text =>
      (pattern.replaced text).map (·, replacement) ++ found rest (pattern.sub replacement text)

/-- How many letters longer a text gets. -/
def growth (pieces : List (List α × List α)) : Int :=
  (pieces.map fun piece => (piece.2.length : Int) - piece.1.length).sum

theorem growth_append (first second : List (List α × List α)) :
    growth (first ++ second) = growth first + growth second := by
  simp [growth]

theorem growth_pieces (pieces : List (List α)) (replacement : List α) :
    growth (pieces.map (·, replacement)) =
      (pieces.length * replacement.length : Nat) - (lettersOf pieces : Nat) := by
  induction pieces with
  | nil => simp [growth, lettersOf]
  | cons piece rest ih =>
      have hRest : growth ((piece :: rest).map (·, replacement)) =
          ((replacement.length : Int) - piece.length) + growth (rest.map (·, replacement)) := by
        simp [growth]
      have hLetters : lettersOf (piece :: rest) = piece.length + lettersOf rest := by
        simp [lettersOf]
      rw [hRest, ih, hLetters, List.length_cons, Nat.add_mul]
      push_cast
      omega

/-- The length of a text after the substitution of several patterns. -/
theorem length_foldl_sub (patterns : List (Regex α × List α)) (text : List α) :
    ((patterns.foldl (fun text entry => entry.1.sub entry.2 text) text).length : Int) =
      text.length + growth (found patterns text) := by
  induction patterns generalizing text with
  | nil => simp [found, growth]
  | cons entry rest ih =>
      have hFirst := length_sub entry.1 entry.2 text
      rw [List.foldl_cons, ih, found, growth_append, growth_pieces]
      omega

/-- A piece which is found is a match of a pattern with this replacement. -/
theorem mem_found {patterns : List (Regex α × List α)} {text : List α}
    {piece : List α × List α} (h : piece ∈ found patterns text) :
    ∃ entry ∈ patterns, entry.2 = piece.2 ∧ ∃ behind ahead, Takes entry.1 behind piece.1 ahead := by
  induction patterns generalizing text with
  | nil => simp [found] at h
  | cons entry rest ih =>
      rw [found, List.mem_append] at h
      rcases h with hHere | hLater
      · obtain ⟨taken, hTaken, rfl⟩ := List.mem_map.mp hHere
        exact ⟨entry, by simp, rfl, takes_of_replacedFrom hTaken⟩
      · obtain ⟨other, hOther, hRest⟩ := ih hLater
        exact ⟨other, List.mem_cons_of_mem _ hOther, hRest⟩

/-! ## The length of a match -/

/-- A number of letters which every match has at least. -/
def shortest : Regex α → Nat
  | empty => 0
  | one _ => 1
  | many _ least _ => least
  | seq first second => first.shortest + second.shortest
  | alt first second => min first.shortest second.shortest
  | boundary _ => 0

theorem Takes.shortest_le {pattern : Regex α} {behind taken ahead : List α}
    (h : Takes pattern behind taken ahead) : pattern.shortest ≤ taken.length := by
  induction pattern generalizing behind taken ahead with
  | empty => exact Nat.zero_le _
  | one accepts =>
      obtain ⟨letter, rfl, -⟩ := takes_one.mp h
      simp [shortest]
  | many accepts least most => exact (takes_many.mp h).2.1
  | seq first second ihFirst ihSecond =>
      obtain ⟨one, two, rfl, hFirst, hSecond⟩ := takes_seq.mp h
      have hOne := ihFirst hFirst
      have hTwo := ihSecond hSecond
      simp only [shortest, List.length_append]
      omega
  | alt first second ihFirst ihSecond =>
      have hMin : (alt first second).shortest = min first.shortest second.shortest := rfl
      rcases takes_alt.mp h with h | h
      · have hOne := ihFirst h
        omega
      · have hTwo := ihSecond h
        omega
  | boundary isWord => exact Nat.zero_le _

/-- A pattern does not match in a text which lacks the letters of every match. -/
theorem Absent.of_needs {letters : α → Prop} {pattern : Regex α} {text : List α}
    (hNeeds : Needs letters pattern) (h : ∀ letter ∈ text, ¬ letters letter) :
    Absent pattern text := by
  rintro behind ahead rfl
  rw [List.eq_nil_iff_forall_not_mem]
  intro stop hStop
  obtain ⟨letter, hMem, hLetter⟩ := stops_needs hNeeds hStop
  exact h letter (List.mem_append_right _ hMem) hLetter

/-- A pattern does not match in a text which is shorter than every match. -/
theorem Absent.of_short {pattern : Regex α} {text : List α} (h : text.length < pattern.shortest) :
    Absent pattern text := by
  rintro behind ahead rfl
  rw [List.eq_nil_iff_forall_not_mem]
  intro stop hStop
  obtain ⟨taken, hAhead, -, hTakes⟩ := takes_of_mem hStop
  have hShortest := hTakes.shortest_le
  rw [hAhead] at h
  simp only [List.length_append] at h
  omega

/-! ## Pieces which are left -/

section Pieces

variable {isWord starts : α → Bool} {fence : α} {pattern body tail : Regex α}
  {replacement : List α}

/-- A text without the fence which is at the front of one with it. -/
theorem isPrefix_of_fence {piece same later rest : List α} (hFence : fence ∉ piece)
    (h : piece ++ rest = same ++ fence :: later) : ∃ gap, same = piece ++ gap := by
  rcases append_split h with ⟨gap, hGap, -⟩ | ⟨letter, gap, hPiece, hLater⟩
  · exact ⟨gap, hGap⟩
  · obtain ⟨rfl, -⟩ := List.cons.inj hLater
    exact absurd (by rw [hPiece]; simp) hFence

/-- A piece which the replacement does not touch has been there before, at a position where the
pattern does not match. -/
theorem Fenced.piece_from (h : Fenced isWord starts fence pattern body tail)
    (hOpens : replacement.head? = some fence) {first : α} {piece : List α}
    (hFirst : first ∉ replacement) (hFence : fence ∉ first :: piece) {fuel : Nat}
    {behind ahead earlier later : List α} (hFuel : ahead.length ≤ fuel)
    (hSub : subFrom pattern replacement fuel ⟨behind, ahead⟩ =
      earlier ++ (first :: piece ++ later)) :
    ∃ taken rest, ahead = taken ++ (first :: piece ++ rest) ∧
      pattern.stops ⟨taken.reverse ++ behind, first :: piece ++ rest⟩ = [] := by
  induction fuel generalizing behind ahead earlier with
  | zero =>
      have hAhead : ahead = [] := List.length_eq_zero_iff.mp (by omega)
      rw [hAhead] at hSub
      simp [subFrom] at hSub
  | succ fuel ih =>
      cases ahead with
      | nil => simp [subFrom] at hSub
      | cons letter rest =>
          rw [List.length_cons] at hFuel
          rcases h.subFrom_cases replacement fuel letter rest with
            ⟨hNone, hCase⟩ | ⟨stop, hHead, hShorter, hCase⟩
          · rw [hCase] at hSub
            cases earlier with
            | nil =>
                rw [List.nil_append, List.cons_append] at hSub
                obtain ⟨rfl, hPiece⟩ := List.cons.inj hSub
                -- Up to the next match the text is the old one, and the piece ends before the fence.
                obtain ⟨back, hBack⟩ : ∃ back, rest = piece ++ back := by
                  obtain ⟨same, ⟨hSame, hRest⟩ | ⟨last, before, hSame, hRest, -⟩⟩ :=
                    @h.subFrom_same _ _ _ _ _ _ _ (letter :: behind) rest replacement fuel
                  · exact ⟨later, by rw [hRest, ← hSame, hPiece]⟩
                  · obtain ⟨more, rfl⟩ : ∃ more, replacement = fence :: more := by
                      cases replacement with
                      | nil => cases hOpens
                      | cons other more =>
                          cases hOpens
                          exact ⟨more, rfl⟩
                    rw [hPiece, List.append_assoc, List.cons_append] at hSame
                    have hPieceFence : fence ∉ piece := fun hMem =>
                      hFence (List.mem_cons_of_mem _ hMem)
                    obtain ⟨gap, hGap⟩ := isPrefix_of_fence hPieceFence hSame
                    exact ⟨gap ++ before, by rw [hRest, hGap, List.append_assoc]⟩
                subst hBack
                exact ⟨[], back, rfl, hNone⟩
            | cons head earlier =>
                obtain ⟨rfl, hRest⟩ := List.cons.inj hSub
                obtain ⟨taken, back, rfl, hStops⟩ := ih (by omega) hRest
                exact ⟨letter :: taken, back, rfl, by simpa using hStops⟩
          · rw [hCase] at hSub
            obtain ⟨eaten, hEaten, hBehind⟩ := stops_taken (List.mem_of_mem_head? hHead)
            dsimp only at hEaten hBehind
            rcases append_split hSub with ⟨gap, -, hGap⟩ | ⟨other, gap, hOther, hLater⟩
            · obtain ⟨taken, back, hAhead, hStops⟩ := ih (by omega) hGap
              refine ⟨eaten ++ taken, back, ?_, ?_⟩
              · rw [hEaten, hAhead, List.append_assoc]
              · rw [hBehind] at hStops
                simpa using hStops
            · obtain ⟨rfl, -⟩ := List.cons.inj hLater
              exact absurd (by rw [hOther]; simp) hFirst

theorem Fenced.piece_origin (h : Fenced isWord starts fence pattern body tail)
    (hOpens : replacement.head? = some fence) {first : α} {piece text earlier later : List α}
    (hFirst : first ∉ replacement) (hFence : fence ∉ first :: piece)
    (hSub : pattern.sub replacement text = earlier ++ (first :: piece ++ later)) :
    ∃ taken rest, text = taken ++ (first :: piece ++ rest) ∧
      pattern.stops ⟨taken.reverse, first :: piece ++ rest⟩ = [] := by
  simpa using h.piece_from hOpens hFirst hFence (Nat.le_refl _) hSub

end Pieces

end Regex

end Ecrke
