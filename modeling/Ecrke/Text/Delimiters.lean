import Mathlib.Data.List.Infix

/-!
# Delimited data

When a text determines the parts it has been put together from.

* `split_unique_iff` -- two parts around a separator are determined exactly when the separator
  occurs nowhere else.
* `infix_dropLast_iff`, `infix_tail_iff` -- occurrences which overlap the separator itself.
* `splitOn_intercalate_flatMap` -- the lines of joined parts.
* `render`, `Grammar.render_injective` -- a list of elements, each an opening line, a body and a
  closing line, is determined by its lines, unless a body closes itself and goes on like a document.

Nothing here is about a particular format; the file can be lifted out and used for another one.
-/

namespace Ecrke
namespace Delimiters

variable {α β : Type}

/-! ## A separator between two parts -/

section Separator

variable {sep a b : List α}

theorem append_dropLast (hSep : sep ≠ []) (rest : List α) :
    sep ++ rest = sep.dropLast ++ (sep.getLast hSep :: rest) := by
  conv_lhs => rw [← List.dropLast_append_getLast hSep]
  simp

/-- Two parts around a separator are determined exactly when the separator occurs neither earlier
nor later. -/
theorem split_unique_iff (hSep : sep ≠ []) :
    (∀ a' b', a' ++ sep ++ b' = a ++ sep ++ b → a' = a ∧ b' = b) ↔
      ¬ sep <:+: a ++ sep.dropLast ∧ ¬ sep <:+: sep.tail ++ b := by
  constructor
  · intro hUnique
    constructor
    · rintro ⟨x, y, hEarly⟩
      have hSplit : x ++ sep ++ (y ++ sep.getLast hSep :: b) = a ++ sep ++ b := by
        rw [List.append_assoc a, append_dropLast hSep, ← List.append_assoc, ← List.append_assoc,
          hEarly]
      obtain ⟨rfl, -⟩ := hUnique _ _ hSplit
      have hLength := congrArg List.length hEarly
      have hPos := List.length_pos_of_ne_nil hSep
      simp only [List.length_append, List.length_dropLast] at hLength
      omega
    · rintro ⟨x, y, hLate⟩
      obtain ⟨c, tail, rfl⟩ := List.exists_cons_of_ne_nil hSep
      have hSplit : (a ++ c :: x) ++ (c :: tail) ++ y = a ++ c :: tail ++ b := by
        rw [List.tail_cons, List.append_assoc] at hLate
        rw [List.append_assoc, List.append_assoc, List.cons_append, hLate, List.append_assoc,
          List.cons_append]
      have hLength := congrArg List.length (hUnique _ _ hSplit).1
      simp only [List.length_append, List.length_cons] at hLength
      omega
  · rintro ⟨hEarly, hLate⟩ a' b' hSplit
    rw [List.append_assoc, List.append_assoc] at hSplit
    rcases List.append_eq_append_iff.mp hSplit with ⟨c, rfl, hRest⟩ | ⟨c, rfl, hRest⟩
    · rcases eq_or_ne c [] with rfl | hLonger
      · exact ⟨by simp, by simpa using hRest⟩
      · -- The other separator ends before the last character of this one.
        refine absurd ?_ hEarly
        have hPos := List.length_pos_of_ne_nil hLonger
        have hEnds : sep <+: c ++ sep.dropLast := by
          refine List.prefix_of_prefix_length_le (List.prefix_append sep b') ?_ ?_
          · rw [hRest, append_dropLast hSep, ← List.append_assoc]
            exact List.prefix_append _ _
          · simp only [List.length_append, List.length_dropLast]
            omega
        rw [List.append_assoc]
        exact hEnds.isInfix.trans (List.suffix_append _ _).isInfix
    · rcases eq_or_ne c [] with rfl | hLonger
      · exact ⟨by simp, by simpa using hRest.symm⟩
      · refine absurd ?_ hLate
        have hPos := List.length_pos_of_ne_nil hLonger
        have hPosSep := List.length_pos_of_ne_nil hSep
        have hLength := congrArg List.length hRest
        have hBegins : sep ++ b' <:+ sep.tail ++ b := by
          have hWhole : sep ++ b' <:+ sep ++ b := hRest ▸ List.suffix_append c _
          refine List.suffix_of_suffix_length_le hWhole ?_ ?_
          · rw [← List.cons_head_tail hSep]
            exact List.suffix_cons _ _
          · simp only [List.length_append, List.length_tail] at hLength ⊢
            omega
        exact (List.prefix_append sep b').isInfix.trans hBegins.isInfix

/-- Only the first character of a separator can overlap its end. -/
def Borderless (sep : List α) : Prop :=
  ∀ k, 2 ≤ k → k < sep.length → sep.drop (sep.length - k) ≠ sep.take k

theorem Borderless.reverse (h : Borderless sep) : Borderless sep.reverse := by
  intro k hk hLess hSame
  rw [List.length_reverse] at hLess hSame
  rw [List.drop_reverse, List.take_reverse, List.reverse_inj,
    show sep.length - (sep.length - k) = k by omega] at hSame
  exact h k hk hLess hSame.symm

theorem infix_dropLast_iff (hBorder : Borderless sep) (hLong : 2 ≤ sep.length) :
    sep <:+: a ++ sep.dropLast ↔ sep <:+: a ++ sep.take 1 := by
  have hFirst : sep.take 1 <+: sep.dropLast := by
    rw [List.dropLast_eq_take]
    exact List.take_prefix_take_left (by omega)
  constructor
  · rintro ⟨x, y, h⟩
    have hBegins : x ++ sep <+: a ++ sep.dropLast := ⟨y, h⟩
    by_cases hInside : x.length + sep.length ≤ a.length + 1
    · have hWithin : x ++ sep <+: a ++ sep.take 1 :=
        List.prefix_of_prefix_length_le hBegins ((List.prefix_append_right_inj a).mpr hFirst)
          (by simp only [List.length_append, List.length_take]; omega)
      exact (List.suffix_append x sep).isInfix.trans hWithin.isInfix
    · -- Otherwise a longer end of the separator is also its beginning.
      have hLength := hBegins.length_le
      simp only [List.length_append, List.length_dropLast] at hLength
      obtain ⟨z, rfl⟩ : x <+: a := List.prefix_of_prefix_length_le
        ((List.prefix_append x sep).trans hBegins) (List.prefix_append _ _) (by omega)
      rw [List.append_assoc, List.prefix_append_right_inj] at hBegins
      simp only [List.length_append] at hInside hLength
      obtain ⟨w, hw⟩ : z <+: sep := List.prefix_of_prefix_length_le (List.prefix_append z _)
        hBegins (by omega)
      refine absurd ?_ (hBorder w.length ?_ ?_)
      · rw [← hw, List.prefix_append_right_inj] at hBegins
        rw [hw] at hBegins
        have hTake := List.prefix_iff_eq_take.mp (hBegins.trans (List.dropLast_prefix sep))
        have hDrop : sep.drop (sep.length - w.length) = w := by
          rw [← hw, List.length_append, Nat.add_sub_cancel, List.drop_left]
        rw [hDrop]
        exact hTake
      · have := congrArg List.length hw
        simp only [List.length_append] at this
        omega
      · have := congrArg List.length hw
        simp only [List.length_append] at this
        omega
  · intro h
    exact h.trans ((List.prefix_append_right_inj a).mpr hFirst).isInfix

theorem infix_tail_iff (hBorder : Borderless sep) (hLong : 2 ≤ sep.length) :
    sep <:+: sep.tail ++ b ↔ sep <:+: sep.drop (sep.length - 1) ++ b := by
  have hReversed := infix_dropLast_iff (a := b.reverse) hBorder.reverse (by simpa using hLong)
  have hOne : sep.length - (sep.length - 1) = 1 := by omega
  have hTail : (sep.tail ++ b).reverse = b.reverse ++ sep.reverse.dropLast := by
    rw [List.reverse_append, List.dropLast_reverse]
  have hLast : (sep.drop (sep.length - 1) ++ b).reverse = b.reverse ++ sep.reverse.take 1 := by
    rw [List.reverse_append, List.reverse_drop, hOne]
  rw [← List.reverse_infix, hTail, hReversed, ← hLast, List.reverse_infix]

end Separator

/-! ## Lines -/

/-- The lines of joined parts are the lines of the parts. -/
theorem splitOn_intercalate_flatMap [DecidableEq α] (c : α) {parts : List (List α)}
    (h : parts ≠ []) : ([c].intercalate parts).splitOn c = parts.flatMap (·.splitOn c) := by
  induction parts with
  | nil => exact absurd rfl h
  | cons part rest ih =>
      rcases eq_or_ne rest [] with rfl | hRest
      · simp
      · rw [List.intercalate_cons_of_ne_nil hRest, List.append_assoc, List.singleton_append,
          List.splitOn_append_cons_self, ih hRest, List.flatMap_cons]

/-- What stands in front of a text, without line breaks, belongs to its first line. -/
theorem splitOn_append_of_not_mem [DecidableEq α] {c : α} {front : List α} (h : c ∉ front)
    (text : List α) : (front ++ text).splitOn c = (text.splitOn c).modifyHead (front ++ ·) := by
  induction front with
  | nil =>
      obtain ⟨first, rest, hLines⟩ := List.exists_cons_of_ne_nil (List.splitOn_ne_nil c text)
      rw [List.nil_append, hLines]
      rfl
  | cons d front ih =>
      rw [List.mem_cons, not_or] at h
      obtain ⟨first, rest, hLines⟩ := List.exists_cons_of_ne_nil (List.splitOn_ne_nil c text)
      have hOther : (d == c) = false := beq_eq_false_iff_ne.mpr (Ne.symm h.1)
      rw [List.cons_append, List.splitOn_cons_eq_if_modifyHead, hOther, ih h.2, hLines]
      rfl

theorem splitOn_injective [DecidableEq α] {c : α} {a b : List α}
    (h : a.splitOn c = b.splitOn c) : a = b := by
  calc a = [c].intercalate (a.splitOn c) := (List.intercalate_splitOn c).symm
    _ = [c].intercalate (b.splitOn c) := by rw [h]
    _ = b := List.intercalate_splitOn c

/-! ## Documents -/

/-- The lines of a list of elements, each an opening line and a body, in front of a tail. -/
def render (close : β) : List (β × List β) → List β → List β
  | [], tail => tail
  | (opening, body) :: rest, tail => opening :: (body ++ close :: render close rest tail)

/-- A body closes its own element and goes on with lines which may start what follows it. -/
def Reopens (starts : List β → Prop) (close : β) (body : List β) : Prop :=
  ∃ before after, body = before ++ close :: after ∧ starts after

/-- Two bodies around closing lines are equal, or one of them reaches over the other. -/
theorem body_cases {close : β} {body body' rest rest' : List β}
    (h : body ++ close :: rest = body' ++ close :: rest') :
    (body = body' ∧ rest = rest') ∨
      (∃ after, body = body' ++ close :: after ∧ rest' = after ++ close :: rest) ∨
      ∃ after, body' = body ++ close :: after ∧ rest = after ++ close :: rest' := by
  rcases List.append_eq_append_iff.mp h with ⟨c, rfl, hRest⟩ | ⟨c, rfl, hRest⟩
  · cases c with
    | nil => exact .inl ⟨by simp, by simpa using hRest⟩
    | cons line after =>
        obtain ⟨rfl, hAfter⟩ := List.cons.inj hRest
        exact .inr (.inr ⟨after, rfl, hAfter⟩)
  · cases c with
    | nil => exact .inl ⟨by simp, by simpa using hRest.symm⟩
    | cons line after =>
        obtain ⟨rfl, hAfter⟩ := List.cons.inj hRest
        exact .inr (.inl ⟨after, rfl, hAfter⟩)

/-- Which lines open an element, which lines may follow the elements, and which lines may start what
follows a closing line. -/
structure Grammar (close : β) (isOpening : β → Prop) (isTail starts : List β → Prop) : Prop where
  closing : ¬ isOpening close
  tails : ∀ line rest, isTail (line :: rest) → ¬ isOpening line
  startsOpening : ∀ opening rest, isOpening opening → starts (opening :: rest)
  startsTail : ∀ after rest, isTail (after ++ close :: rest) → starts after

section Document

variable {close : β} {isOpening : β → Prop} {isTail starts : List β → Prop}

/-- What stands between the beginning of a document and a closing line starts like a document. -/
theorem Grammar.starts_of_render (g : Grammar close isOpening isTail starts)
    {elements : List (β × List β)} {tail after rest : List β}
    (hElements : ∀ e ∈ elements, isOpening e.1) (hTail : isTail tail)
    (h : render close elements tail = after ++ close :: rest) : starts after := by
  cases elements with
  | nil =>
      obtain rfl : tail = after ++ close :: rest := h
      exact g.startsTail after rest hTail
  | cons element elements =>
      have hOpening := hElements element (by simp)
      cases after with
      | nil =>
          obtain ⟨hEq, -⟩ := List.cons.inj h
          exact absurd (hEq ▸ hOpening) g.closing
      | cons line after =>
          obtain ⟨rfl, -⟩ := List.cons.inj h
          exact g.startsOpening _ _ hOpening

/-- A document is determined by its lines, unless a body closes itself and goes on like one. -/
theorem Grammar.render_injective (g : Grammar close isOpening isTail starts)
    {elements elements' : List (β × List β)} {tail tail' : List β}
    (hElements : ∀ e ∈ elements, isOpening e.1 ∧ ¬ Reopens starts close e.2)
    (hElements' : ∀ e ∈ elements', isOpening e.1 ∧ ¬ Reopens starts close e.2)
    (hTail : isTail tail) (hTail' : isTail tail')
    (h : render close elements tail = render close elements' tail') :
    elements = elements' ∧ tail = tail' := by
  -- A tail never reads like an element.
  have hApart {e : β × List β} {rest : List (β × List β)} {tail tail' : List β}
      (hOpening : isOpening e.1) (hTail : isTail tail) :
      tail ≠ render close (e :: rest) tail' := by
    intro hEq
    rw [hEq] at hTail
    exact g.tails _ _ hTail hOpening
  induction elements generalizing elements' with
  | nil =>
      cases elements' with
      | nil => exact ⟨rfl, h⟩
      | cons e' rest' => exact absurd h (hApart (hElements' e' (by simp)).1 hTail)
  | cons e rest ih =>
      cases elements' with
      | nil => exact absurd h.symm (hApart (hElements e (by simp)).1 hTail')
      | cons e' rest' =>
          obtain ⟨hOpening, hBodies⟩ := List.cons.inj h
          have hRest : ∀ e ∈ rest, isOpening e.1 ∧ ¬ Reopens starts close e.2 :=
            fun e he => hElements e (by simp [he])
          have hRest' : ∀ e ∈ rest', isOpening e.1 ∧ ¬ Reopens starts close e.2 :=
            fun e he => hElements' e (by simp [he])
          rcases body_cases hBodies with ⟨hBody, hNext⟩ | ⟨after, hBody, hNext⟩ |
            ⟨after, hBody, hNext⟩
          · obtain ⟨rfl, rfl⟩ := ih hRest hRest' hNext
            exact ⟨by rw [Prod.ext hOpening hBody], rfl⟩
          · have hStarts := g.starts_of_render (fun e he => (hRest' e he).1) hTail' hNext
            exact absurd ⟨_, after, hBody, hStarts⟩ (hElements e (by simp)).2
          · have hStarts := g.starts_of_render (fun e he => (hRest e he).1) hTail hNext
            exact absurd ⟨_, after, hBody, hStarts⟩ (hElements' e' (by simp)).2

end Document

end Delimiters
end Ecrke
