import Ecrke.Text.Python
import Mathlib.Data.List.TakeWhile

/-!
# Stripped texts

* `Blank` -- texts of whitespace alone.
* `Text.Stripped` -- texts which neither begin nor end with whitespace.
* `Text.strip_padded`, `Text.exists_strip` -- stripping takes whitespace off both ends, and nothing
  else.
-/

namespace Ecrke

/-- A text of whitespace alone. -/
def Blank (text : Text) : Prop := ∀ c ∈ text, Text.isSpace c = true

theorem not_blank_iff {text : Text} : ¬ Blank text ↔ ∃ c ∈ text, Text.isSpace c = false := by
  simp [Blank]

theorem Blank.append {first second : Text} (hFirst : Blank first) (hSecond : Blank second) :
    Blank (first ++ second) :=
  fun c hc => (List.mem_append.mp hc).elim (hFirst c) (hSecond c)

theorem blank_nil : Blank [] := by simp [Blank]

theorem Blank.reverse {text : Text} (h : Blank text) : Blank text.reverse :=
  fun c hc => h c (List.mem_reverse.mp hc)

namespace Text

/-- A text which neither begins nor ends with whitespace. -/
structure Stripped (t : Text) : Prop where
  first : ∀ c, t.head? = some c → isSpace c = false
  last : ∀ c, t.getLast? = some c → isSpace c = false

theorem dropWhile_first {p : Char → Bool} {t : Text} {c : Char}
    (h : (t.dropWhile p).head? = some c) : p c = false := by
  induction t with
  | nil => simp at h
  | cons d rest ih =>
      rw [List.dropWhile_cons] at h
      split at h
      · exact ih h
      · next hHead =>
          obtain rfl : d = c := by simpa using h
          simpa using hHead

/-- Whitespace in front of a text which does not begin with it. -/
theorem dropWhile_padded {front t : Text} (hFront : Blank front)
    (hFirst : ∀ c, t.head? = some c → isSpace c = false) :
    (front ++ t).dropWhile isSpace = t := by
  rw [List.dropWhile_append_of_pos hFront]
  cases t with
  | nil => rfl
  | cons c rest => rw [List.dropWhile_cons, if_neg (by simp [hFirst c rfl])]

/-- Stripping takes the whitespace off both ends. -/
theorem strip_padded {front t back : Text} (hFront : Blank front) (hBack : Blank back)
    (h : Stripped t) : strip (front ++ t ++ back) = t := by
  have hBehind : (back.reverse ++ t.reverse).dropWhile isSpace = t.reverse := by
    apply dropWhile_padded hBack.reverse
    intro c hc
    rw [List.head?_reverse] at hc
    exact h.last c hc
  cases t with
  | nil =>
      have hAll : (front ++ [] ++ back).dropWhile isSpace = [] := by
        rw [List.append_nil, List.dropWhile_eq_nil_iff]
        exact hFront.append hBack
      rw [strip, hAll]
      rfl
  | cons c rest =>
      have hAhead : (front ++ (c :: rest ++ back)).dropWhile isSpace = c :: rest ++ back := by
        apply dropWhile_padded hFront
        intro d hd
        exact h.first d hd
      rw [List.append_assoc, strip, hAhead, List.reverse_append, hBehind, List.reverse_reverse]

/-- Every text is its stripped part with whitespace around it. -/
theorem exists_strip (t : Text) : ∃ front back, Blank front ∧ Blank back ∧
    t = front ++ strip t ++ back ∧ Stripped (strip t) := by
  have hAhead : t = t.takeWhile isSpace ++ t.dropWhile isSpace :=
    List.takeWhile_append_dropWhile.symm
  have hBehind : t.dropWhile isSpace =
      strip t ++ ((t.dropWhile isSpace).reverse.takeWhile isSpace).reverse := by
    rw [strip, ← List.reverse_append, List.takeWhile_append_dropWhile, List.reverse_reverse]
  refine ⟨t.takeWhile isSpace, ((t.dropWhile isSpace).reverse.takeWhile isSpace).reverse, ?_, ?_,
    ?_, ?_, ?_⟩
  · intro c hc
    exact List.mem_takeWhile_imp hc
  · intro c hc
    exact List.mem_takeWhile_imp (List.mem_reverse.mp hc)
  · rw [List.append_assoc, ← hBehind]
    exact hAhead
  · intro c hc
    apply dropWhile_first (p := isSpace) (t := t)
    rw [hBehind, List.head?_append, hc]
    rfl
  · intro c hc
    rw [strip, List.getLast?_reverse] at hc
    exact dropWhile_first hc

theorem strip_stripped (t : Text) : Stripped (strip t) := by
  obtain ⟨front, back, -, -, -, h⟩ := exists_strip t
  exact h

theorem Stripped.strip_eq {t : Text} (h : Stripped t) : strip t = t := by
  simpa using strip_padded blank_nil blank_nil h

theorem strip_blank {t : Text} (h : Blank t) : strip t = [] := by
  have hNone : Stripped [] := by
    constructor
    · simp
    · simp
  simpa using strip_padded h blank_nil hNone

theorem strip_strip (t : Text) : strip (strip t) = strip t := (strip_stripped t).strip_eq

end Text

end Ecrke
