import Ecrke.Services.Normalizer

/-!
# The chunks of a text tile it

* `Tiles` -- chunks which follow one another without a gap, each of them a substring.
* `Covers` -- spans which follow one another without a gap.
* `chunkPassages_tiles` -- the chunks of a text tile it from its beginning to its end, so that the
  text is their concatenation (`Tiles.join`).
-/

namespace Ecrke

/-! ## Slices -/

section Slices

variable {text : Text} {a b c : Nat}

theorem slice_append (hab : a ≤ b) (hbc : b ≤ c) : slice text a b ++ slice text b c =
    slice text a c := by
  have hDrop : text.drop b = (text.drop a).drop (b - a) := by
    rw [List.drop_drop]
    congr 1
    omega
  have hTake : c - a = (b - a) + (c - b) := by omega
  rw [slice, slice, slice, hDrop, hTake, List.take_add]

theorem slice_self (text : Text) (a : Nat) : slice text a a = [] := by simp [slice]

theorem slice_all (text : Text) : slice text 0 text.length = text := by simp [slice]

end Slices

/-! ## Tilings -/

/-- Chunks which follow one another from `a` to `b`, each of them a substring of the text. -/
def Tiles (text : Text) : Nat → List Chunk → Nat → Prop
  | a, [], b => a = b
  | a, chunk :: rest, b =>
      chunk.startChar = a ∧ a ≤ chunk.endChar ∧ chunk.text = slice text a chunk.endChar ∧
        Tiles text chunk.endChar rest b

/-- Spans which follow one another from `a` to `b`. -/
def Covers : Nat → List (Nat × Nat) → Nat → Prop
  | a, [], b => a = b
  | a, span :: rest, b => span.1 = a ∧ a ≤ span.2 ∧ Covers span.2 rest b

section Tilings

variable {text : Text} {a b c : Nat} {chunks later : List Chunk}

theorem Tiles.le (h : Tiles text a chunks b) : a ≤ b := by
  induction chunks generalizing a with
  | nil => exact le_of_eq h
  | cons chunk rest ih =>
      obtain ⟨-, hLe, -, hRest⟩ := h
      exact hLe.trans (ih hRest)

theorem Tiles.append (h : Tiles text a chunks b) (hLater : Tiles text b later c) :
    Tiles text a (chunks ++ later) c := by
  induction chunks generalizing a with
  | nil =>
      obtain rfl : a = b := h
      exact hLater
  | cons chunk rest ih =>
      obtain ⟨hStart, hLe, hText, hRest⟩ := h
      exact ⟨hStart, hLe, hText, ih hRest⟩

theorem Tiles.one (h : a ≤ b) : Tiles text a [⟨slice text a b, a, b⟩] b :=
  ⟨rfl, h, rfl, rfl⟩

/-- A tiled stretch of the text is the concatenation of its chunks. -/
theorem Tiles.join (h : Tiles text a chunks b) :
    (chunks.map Chunk.text).flatten = slice text a b := by
  induction chunks generalizing a with
  | nil =>
      obtain rfl : a = b := h
      rw [slice_self]
      rfl
  | cons chunk rest ih =>
      obtain ⟨-, hLe, hText, hRest⟩ := h
      rw [List.map_cons, List.flatten_cons, hText, ih hRest, slice_append hLe hRest.le]

/-- Every chunk of a tiling is the substring between its bounds. -/
theorem Tiles.slice (h : Tiles text a chunks b) :
    ∀ chunk ∈ chunks, chunk.text = slice text chunk.startChar chunk.endChar := by
  induction chunks generalizing a with
  | nil => simp
  | cons first rest ih =>
      obtain ⟨hStart, -, hText, hRest⟩ := h
      intro chunk hMem
      rcases List.mem_cons.mp hMem with rfl | hMem
      · rw [hText, hStart]
      · exact ih hRest chunk hMem

theorem Covers.le {spans : List (Nat × Nat)} (h : Covers a spans b) : a ≤ b := by
  induction spans generalizing a with
  | nil => exact le_of_eq h
  | cons span rest ih =>
      obtain ⟨-, hLe, hRest⟩ := h
      exact hLe.trans (ih hRest)

theorem Covers.snoc {spans : List (Nat × Nat)} (h : Covers a spans b) (hLe : b ≤ c) :
    Covers a (spans ++ [(b, c)]) c := by
  induction spans generalizing a with
  | nil =>
      obtain rfl : a = b := h
      exact ⟨rfl, hLe, rfl⟩
  | cons span rest ih =>
      obtain ⟨hStart, hLe, hRest⟩ := h
      exact ⟨hStart, hLe, ih hRest⟩

/-- The last end of some spans. -/
theorem Covers.last {spans : List (Nat × Nat)} (h : Covers a spans b) (hSome : spans ≠ []) :
    (spans.getLast?.map Prod.snd).getD 0 = b := by
  induction spans generalizing a with
  | nil => exact absurd rfl hSome
  | cons span rest ih =>
      obtain ⟨-, -, hRest⟩ := h
      cases rest with
      | nil => simpa [Covers] using hRest
      | cons next rest =>
          rw [List.getLast?_cons_cons]
          exact ih hRest (by simp)

/-- A chunk made of some spans tiles what they cover. -/
theorem Covers.flush {spans : List (Nat × Nat)} (h : Covers a spans b) (hSome : spans ≠ []) :
    Tiles text a [flushSpans spans text] b := by
  have hLast := h.last hSome
  have hLe := h.le
  have hFirst : (spans.head?.map Prod.fst).getD 0 = a := by
    cases spans with
    | nil => exact absurd rfl hSome
    | cons span rest => exact h.1
  rw [flushSpans, hFirst, hLast]
  exact .one hLe

end Tilings

/-! ## Paragraphs -/

/-- The ends of the paragraphs lie behind one another, up to the end of the text. -/
theorem separatorEnds_covers (text : Text) (cursor position length : Nat)
    (hCursor : cursor ≤ position) (hLength : position + text.length = length) :
    Covers cursor (spansFrom length cursor (separatorEnds position text)) length := by
  induction position, text using separatorEnds.induct generalizing cursor with
  | case1 position rest ih =>
      rw [separatorEnds, spansFrom]
      refine ⟨rfl, by simp; omega, ih _ le_rfl ?_⟩
      simp only [List.length_cons] at hLength
      omega
  | case2 position head rest hNot ih =>
      rw [separatorEnds]
      · refine ih cursor (by omega) ?_
        simp only [List.length_cons] at hLength
        omega
      · exact hNot
  | case3 position =>
      rw [separatorEnds, spansFrom]
      simp only [List.length_nil, Nat.add_zero] at hLength
      by_cases hRest : cursor < length
      · rw [if_pos hRest]
        exact ⟨rfl, hRest.le, rfl⟩
      · rw [if_neg hRest]
        show cursor = length
        omega

theorem paragraphSpans_covers (text : Text) : Covers 0 (paragraphSpans text) text.length :=
  separatorEnds_covers text 0 0 text.length le_rfl (by simp)

theorem rfindSpace_bounds {text : Text} {low high i : Nat} (h : rfindSpace text low high = some i) :
    low ≤ i ∧ i < high := by
  have hMem := List.mem_of_find?_eq_some h
  have hProp := List.find?_some h
  rw [List.mem_reverse, List.mem_range] at hMem
  simp only [Bool.and_eq_true, decide_eq_true_eq] at hProp
  exact ⟨hProp.1, hMem⟩

/-- The pieces of an oversized paragraph tile it. -/
theorem hardSplit_tiles (text : Text) (end_ maxChars fuel cursor : Nat) (hCursor : cursor ≤ end_) :
    Tiles text cursor (hardSplit text end_ maxChars fuel cursor) end_ := by
  induction fuel generalizing cursor with
  | zero => exact .one hCursor
  | succ fuel ih =>
      rw [hardSplit]
      by_cases hLong : maxChars < end_ - cursor
      · rw [if_pos hLong]
        have hBoundary : cursor ≤
              (rfindSpace text (cursor + 1) (cursor + maxChars + 1)).getD (cursor + maxChars) ∧
            (rfindSpace text (cursor + 1) (cursor + maxChars + 1)).getD (cursor + maxChars) ≤
              cursor + maxChars := by
          cases hFind : rfindSpace text (cursor + 1) (cursor + maxChars + 1) with
          | none => simp
          | some i =>
              have hBounds := rfindSpace_bounds hFind
              simp only [Option.getD_some]
              omega
        obtain ⟨hLow, hHigh⟩ := hBoundary
        have hEnd := hHigh.trans (show cursor + maxChars ≤ end_ by omega)
        exact ⟨rfl, hLow, rfl, ih _ hEnd⟩
      · rw [if_neg hLong]
        exact .one hCursor

/-! ## Chunks -/

/-- The chunks so far tile the text up to where the waiting spans begin, and these cover it up to
the end of the paragraphs so far. -/
def Chunking.Tiled (text : Text) (state : Chunking) (position : Nat) : Prop :=
  ∃ start, Tiles text 0 state.chunks start ∧ Covers start state.current position

namespace Chunking.Tiled

variable {text : Text} {state : Chunking} {position : Nat}

theorem flush (h : state.Tiled text position) : (state.flush text).Tiled text position ∧
    (state.flush text).current = [] := by
  obtain ⟨start, hTiles, hCovers⟩ := h
  unfold Chunking.flush
  by_cases hEmpty : state.current = []
  · rw [if_pos (by simp [hEmpty])]
    exact ⟨⟨start, hTiles, hCovers⟩, hEmpty⟩
  · rw [if_neg (by simpa using hEmpty)]
    exact ⟨⟨position, hTiles.append (hCovers.flush hEmpty), rfl⟩, rfl⟩

/-- Where no span waits, the chunks tile everything so far. -/
theorem closed (h : state.Tiled text position) (hEmpty : state.current = []) :
    Tiles text 0 state.chunks position := by
  obtain ⟨start, hTiles, hCovers⟩ := h
  rw [hEmpty] at hCovers
  obtain rfl : start = position := hCovers
  exact hTiles

theorem addSpan {minChars : Int} {maxChars : Nat} {span : Nat × Nat} (h : state.Tiled text position)
    (hStart : span.1 = position) (hLe : position ≤ span.2) :
    (state.addSpan text minChars maxChars span).Tiled text span.2 := by
  subst hStart
  unfold Chunking.addSpan
  dsimp only
  by_cases hLong : maxChars < span.2 - span.1
  · rw [if_pos hLong]
    obtain ⟨hFlushed, hEmpty⟩ := h.flush
    exact ⟨span.2, (hFlushed.closed hEmpty).append (hardSplit_tiles _ _ _ _ _ hLe), by
      rw [hEmpty]; rfl⟩
  · rw [if_neg hLong]
    -- The span joins those which wait, after a flush or without one.
    have hJoin {state : Chunking} (h : state.Tiled text span.1) :
        (⟨state.chunks, state.current ++ [span]⟩ : Chunking).Tiled text span.2 := by
      obtain ⟨start, hTiles, hCovers⟩ := h
      exact ⟨start, hTiles, hCovers.snoc hLe⟩
    have hFlush {state : Chunking} (h : state.Tiled text span.2) :
        (if minChars ≤ spansLength state.current then state.flush text else state).Tiled text
          span.2 := by
      split
      · exact h.flush.1
      · exact h
    by_cases hFull : maxChars < spansLength state.current + (span.2 - span.1)
    · rw [if_pos hFull]
      exact hFlush (hJoin h.flush.1)
    · rw [if_neg hFull]
      exact hFlush (hJoin h)

theorem foldl (minChars : Int) (maxChars : Nat) {length : Nat} {spans : List (Nat × Nat)}
    (h : state.Tiled text position) (hSpans : Covers position spans length) :
    (spans.foldl (Chunking.addSpan text minChars maxChars) state).Tiled text length := by
  induction spans generalizing state position with
  | nil =>
      obtain rfl : position = length := hSpans
      exact h
  | cons span rest ih =>
      obtain ⟨hStart, hLe, hRest⟩ := hSpans
      exact ih (h.addSpan hStart hLe) hRest

end Chunking.Tiled

/-- The chunks of a text tile it. -/
theorem chunkPassages_tiles (text : Text) (minChars : Int) (maxChars : Nat) :
    Tiles text 0 (chunkPassages text minChars maxChars) text.length := by
  have hStart : (⟨[], []⟩ : Chunking).Tiled text 0 := ⟨0, rfl, rfl⟩
  obtain ⟨hFlushed, hEmpty⟩ :=
    (hStart.foldl minChars maxChars (paragraphSpans_covers text)).flush
  exact hFlushed.closed hEmpty

end Ecrke
