import Ecrke.Services.Chunking
import Ecrke.Text.Splitting
import Ecrke.Text.Strip
import Ecrke.Services.Redaction
import Ecrke.Services.AuditWriter

/-!
# The passages of a text

What `chunk_passages` promises about the size, the place and the content of its chunks, and for
which texts it keeps these promises.

* `CutsUp`, `chunkPassages_cutsUp` -- the chunks cut the text up, none of them too long.
* `Roomy`, `chunkPassages_min` -- when only the last chunk may be short.
* `HardBreak`, `chunkPassages_words` -- when the chunks do not end inside words.
* `Legible`, `chunkPassages_legible` -- when no chunk is blank.
-/

namespace Ecrke

/-! ## The text is cut up -/

/-- Chunks which cut a text up: substrings which are not empty and not too long, one after the
other from its beginning to its end. -/
structure CutsUp (text : Text) (maxChars : Nat) (chunks : List Chunk) : Prop where
  sliced : ∀ chunk ∈ chunks, slice text chunk.startChar chunk.endChar = chunk.text
  nonempty : ∀ chunk ∈ chunks, chunk.text ≠ []
  bounded : ∀ chunk ∈ chunks, chunk.text.length ≤ maxChars
  first : ∀ chunk, chunks.head? = some chunk → chunk.startChar = 0
  adjacent : chunks.IsChain fun chunk next => chunk.endChar = next.startChar
  last : ∀ chunk, chunks.getLast? = some chunk → chunk.endChar = text.length
  none_iff : chunks = [] ↔ text = []

/-- Every oversized paragraph is split before the fuel runs out: more fuel gives the same pieces. -/
def SplitsEnd (text : Text) (maxChars : Nat) : Prop :=
  ∀ span ∈ paragraphSpans text, ∀ more,
    hardSplit text span.2 maxChars (span.2 - span.1 + 1 + more) span.1 =
      hardSplit text span.2 maxChars (span.2 - span.1 + 1) span.1

section Bounds

variable {text : Text} {minChars : Int} {maxChars a b : Nat} {chunks : List Chunk}

theorem slice_length (h : b ≤ text.length) : (slice text a b).length = b - a := by
  rw [slice, List.length_take, List.length_drop]
  omega

theorem Tiles.adjacent (h : Tiles text a chunks b) :
    chunks.IsChain fun chunk next => chunk.endChar = next.startChar := by
  induction chunks generalizing a with
  | nil => exact .nil
  | cons chunk rest ih =>
      obtain ⟨-, -, -, hRest⟩ := h
      cases rest with
      | nil => exact .singleton _
      | cons next rest => exact .cons_cons hRest.1.symm (ih hRest)

theorem Tiles.last (h : Tiles text a chunks b) {chunk : Chunk}
    (hLast : chunks.getLast? = some chunk) : chunk.endChar = b := by
  induction chunks generalizing a with
  | nil => simp at hLast
  | cons first rest ih =>
      obtain ⟨-, -, -, hRest⟩ := h
      cases rest with
      | nil =>
          obtain rfl : first = chunk := by simpa using hLast
          exact hRest
      | cons next rest =>
          rw [List.getLast?_cons_cons] at hLast
          exact ih hRest hLast

theorem Tiles.first (h : Tiles text a chunks b) {chunk : Chunk}
    (hFirst : chunks.head? = some chunk) : chunk.startChar = a := by
  cases chunks with
  | nil => simp at hFirst
  | cons first rest =>
      obtain rfl : first = chunk := by simpa using hFirst
      exact h.1

/-- Chunks of a tiling end within the text. -/
theorem Tiles.within (h : Tiles text a chunks b) : ∀ chunk ∈ chunks, chunk.endChar ≤ b := by
  induction chunks generalizing a with
  | nil => simp
  | cons first rest ih =>
      obtain ⟨-, -, -, hRest⟩ := h
      intro chunk hMem
      rcases List.mem_cons.mp hMem with rfl | hLater
      · exact hRest.le
      · exact ih hRest chunk hLater

/-- Bounds of a chunk which is not empty and not too long. -/
def Sized (maxChars a b : Nat) : Prop := a < b ∧ b ≤ a + maxChars

/-- The lines of a wrapped paragraph are not empty and not too long. -/
theorem wraps_sized (hMax : 0 < maxChars) (hStart : a < b) :
    Wraps text maxChars b (Sized maxChars) (Sized maxChars) a := by
  apply Wraps.intro (I := fun start => start < b) hMax
  · intro start hOpen hFits
    exact ⟨hOpen, by omega⟩
  · intro start cut hOpen hLong hCut
    have hBehind := hCut.behind
    have hWithin := hCut.within
    exact ⟨⟨hBehind, hWithin⟩, by omega⟩
  · intro start hOpen hLong hNone
    exact ⟨⟨by omega, le_rfl⟩, by omega⟩
  · exact hStart

/-- So are the groups of paragraphs, as long as the open one has not grown too long. -/
theorem chunked_sized (hMax : 0 < maxChars) {spans : List (Nat × Nat)} {group start length : Nat}
    (hSpans : Covers start spans length) (hProper : Proper spans) (hOpen : group ≤ start)
    (hRoom : start ≤ group + maxChars) :
    Chunked text minChars maxChars (Sized maxChars) (Sized maxChars) group start spans := by
  induction spans generalizing group start with
  | nil => exact fun hSome => ⟨hSome, hRoom⟩
  | cons span rest ih =>
      obtain ⟨rfl, -, hRest⟩ := hSpans
      have hSpan := hProper span (by simp)
      have hNext {group : Nat} (hOpen : group ≤ span.2) (hRoom : span.2 ≤ group + maxChars) :
          Chunked text minChars maxChars (Sized maxChars) (Sized maxChars) group span.2 rest :=
        ih hRest (fun other hOther => hProper other (by simp [hOther])) hOpen hRoom
      have hClosing {group : Nat} (hOpen : group < span.2) (hRoom : span.2 ≤ group + maxChars) :
          if minChars ≤ ((span.2 - group : Nat) : Int) then
            (if rest.isEmpty then Sized maxChars else Sized maxChars) group span.2 ∧
              Chunked text minChars maxChars (Sized maxChars) (Sized maxChars) span.2 span.2 rest
          else Chunked text minChars maxChars (Sized maxChars) (Sized maxChars) group span.2
            rest := by
        split
        · rw [ite_self]
          exact ⟨⟨hOpen, hRoom⟩, hNext le_rfl (by omega)⟩
        · exact hNext hOpen.le hRoom
      rw [Chunked]
      dsimp only
      by_cases hLong : maxChars < span.2 - span.1
      · rw [if_pos hLong, ite_self]
        exact ⟨fun hSome => ⟨hSome, hRoom⟩, wraps_sized hMax hSpan, hNext le_rfl (by omega)⟩
      · rw [if_neg hLong]
        by_cases hFull : maxChars < span.2 - group
        · rw [if_pos hFull]
          exact ⟨⟨by omega, hRoom⟩, hClosing hSpan (by omega)⟩
        · rw [if_neg hFull]
          exact hClosing (by omega) (by omega)

end Bounds

/-- The chunks of a text cut it up, whatever the limits, and every loop ends. -/
theorem chunkPassages_cutsUp (text : Text) (minChars : Int) (maxChars : Nat) (hMax : 1 ≤ maxChars) :
    SplitsEnd text maxChars ∧ CutsUp text maxChars (chunkPassages text minChars maxChars) := by
  have hTiles := chunkPassages_tiles text minChars maxChars
  have hSized : ∀ chunk ∈ chunkPassages text minChars maxChars,
      Sized maxChars chunk.startChar chunk.endChar := by
    rw [← allButLast_same, chunkPassages_iff hMax]
    exact chunked_sized hMax (paragraphSpans_covers text) (paragraphSpans_proper text) le_rfl
      (by omega)
  have hLength : ∀ chunk ∈ chunkPassages text minChars maxChars,
      chunk.text.length = chunk.endChar - chunk.startChar := by
    intro chunk hChunk
    rw [hTiles.slice chunk hChunk, slice_length (hTiles.within chunk hChunk)]
  constructor
  · intro span hSpan more
    exact hardSplit_fuel hMax (by omega) more
  constructor
  case sliced =>
    intro chunk hChunk
    exact (hTiles.slice chunk hChunk).symm
  case nonempty =>
    intro chunk hChunk hEmpty
    have hZero := hLength chunk hChunk
    have hNot := (hSized chunk hChunk).1
    rw [hEmpty, List.length_nil] at hZero
    omega
  case bounded =>
    intro chunk hChunk
    have hShort := (hSized chunk hChunk).2
    rw [hLength chunk hChunk]
    omega
  case first =>
    intro chunk hFirst
    exact hTiles.first hFirst
  case adjacent => exact hTiles.adjacent
  case last =>
    intro chunk hLast
    exact hTiles.last hLast
  case none_iff =>
    constructor
    · intro hNone
      rw [hNone] at hTiles
      have hEmpty : 0 = text.length := hTiles
      exact List.length_eq_zero_iff.mp hEmpty.symm
    · rintro rfl
      rfl

/-- For example a short text of two words. -/
theorem chunkPassages_cutsUp_words :
    1 ≤ 4 ∧ SplitsEnd "ab cde".toList 4 ∧
      CutsUp "ab cde".toList 4 (chunkPassages "ab cde".toList 9 4) :=
  ⟨by decide, chunkPassages_cutsUp "ab cde".toList 9 4 (by decide)⟩

/-! ## Short chunks -/

/-- Bounds which are at least so far apart. -/
def LongEnough (minChars a b : Nat) : Prop := minChars ≤ b - a

/-- No paragraph closes a group which is still too short, and every oversized paragraph is wrapped
into lines which are long enough.  Only at the end of the text a short one may stand.  The group and
the next paragraph begin at the two positions. -/
def Roomy (text : Text) (minChars maxChars : Nat) : (group start : Nat) → List (Nat × Nat) → Prop
  | _, _, [] => True
  | group, start, span :: rest =>
      if maxChars < span.2 - start then
        group = start ∧
          Wraps text maxChars span.2 (LongEnough minChars)
            (if rest.isEmpty then fun _ _ => True else LongEnough minChars) start ∧
          Roomy text minChars maxChars span.2 span.2 rest
      else
        span.2 - group ≤ maxChars ∧
          if minChars ≤ span.2 - group then Roomy text minChars maxChars span.2 span.2 rest
          else Roomy text minChars maxChars group span.2 rest

/-- An open group is shorter than the minimum, so it must not be closed early. -/
theorem chunked_roomy {text : Text} {minChars maxChars : Nat} {spans : List (Nat × Nat)}
    {group start length : Nat} (hSpans : Covers start spans length) (hOpen : group ≤ start)
    (hShort : group = start ∨ start - group < minChars) :
    Chunked text minChars maxChars (LongEnough minChars) (fun _ _ => True) group start spans ↔
      Roomy text minChars maxChars group start spans := by
  induction spans generalizing group start with
  | nil => simp [Chunked, Roomy]
  | cons span rest ih =>
      obtain ⟨rfl, hLe, hRest⟩ := hSpans
      have hFresh := ih hRest (le_refl span.2) (.inl rfl)
      rw [Chunked, Roomy]
      dsimp only
      by_cases hLong : maxChars < span.2 - span.1
      · have hClosed : (group < span.1 → LongEnough minChars group span.1) ↔ group = span.1 := by
          unfold LongEnough
          omega
        rw [if_pos hLong, if_pos hLong, hClosed, hFresh]
      · rw [if_neg hLong, if_neg hLong]
        by_cases hFull : maxChars < span.2 - group
        · have hClosed : ¬ LongEnough minChars group span.1 := by
            unfold LongEnough
            omega
          rw [if_pos hFull]
          constructor
          · rintro ⟨hNot, -⟩
            exact absurd hNot hClosed
          · rintro ⟨hFits, -⟩
            omega
        · rw [if_neg hFull]
          have hFits : span.2 - group ≤ maxChars := by omega
          by_cases hDone : minChars ≤ span.2 - group
          · have hLine : (if rest.isEmpty then fun _ _ => True else LongEnough minChars)
                group span.2 := by
              split
              · trivial
              · exact hDone
            rw [if_pos (by omega), if_pos hDone, hFresh]
            simp only [hLine, hFits, true_and]
          · have hLater : Chunked text minChars maxChars (LongEnough minChars) (fun _ _ => True) group
                span.2 rest ↔ Roomy text minChars maxChars group span.2 rest :=
              ih hRest (by omega) (.inr (by omega))
            rw [if_neg (by omega), if_neg hDone, hLater]
            simp only [hFits, true_and]

/-- All chunks but the last are long enough if and only if the text is roomy. -/
theorem chunkPassages_min (text : Text) (minChars maxChars : Nat) (hMin : 1 ≤ minChars)
    (hLimits : minChars ≤ maxChars) :
    (∀ chunk ∈ (chunkPassages text minChars maxChars).dropLast,
      minChars ≤ chunk.text.length) ↔
    Roomy text minChars maxChars 0 0 (paragraphSpans text) := by
  have hTiles := chunkPassages_tiles text minChars maxChars
  have hLength : (∀ chunk ∈ (chunkPassages text minChars maxChars).dropLast,
      minChars ≤ chunk.text.length) ↔
      ∀ chunk ∈ (chunkPassages text minChars maxChars).dropLast,
        LongEnough minChars chunk.startChar chunk.endChar := by
    refine forall₂_congr fun chunk hChunk => ?_
    have hMem := List.dropLast_subset _ hChunk
    rw [hTiles.slice chunk hMem, slice_length (hTiles.within chunk hMem), LongEnough]
  rw [hLength, ← allButLast_dropLast, chunkPassages_iff (by omega)]
  exact chunked_roomy (paragraphSpans_covers text) le_rfl (.inl rfl)

/-- For example a text of two paragraphs which fit together. -/
theorem chunkPassages_min_pair : 1 ≤ 2 ∧ 2 ≤ 5 ∧
    ((∀ chunk ∈ (chunkPassages "a\n\nb".toList (2 : Nat) 5).dropLast, 2 ≤ chunk.text.length) ↔
      Roomy "a\n\nb".toList 2 5 0 0 (paragraphSpans "a\n\nb".toList)) :=
  ⟨by decide, by decide, chunkPassages_min "a\n\nb".toList 2 5 (by decide) (by decide)⟩

/-- A short paragraph in front of one which does not fit becomes a short chunk. -/
theorem chunkPassages_short_first : ¬ ∀ (text : Text) (minChars maxChars : Nat), 1 ≤ minChars →
    minChars ≤ maxChars → 2 * minChars ≤ maxChars →
    ∀ chunk ∈ (chunkPassages text minChars maxChars).dropLast, minChars ≤ chunk.text.length := by
  intro h
  have hAll := h "a\n\nbbbbbbbb".toList 4 8 (by decide) (by decide) (by decide)
  have hShort : ¬ ∀ chunk ∈ (chunkPassages "a\n\nbbbbbbbb".toList (4 : Nat) 8).dropLast,
      4 ≤ chunk.text.length := by
    decide
  exact hShort hAll

/-! ## Words -/

/-- A character which is no whitespace stands at a position. -/
def InkAt (text : Text) (i : Nat) : Prop := ∃ c, text[i]? = some c ∧ Text.isSpace c = false

/-- A maximal run of characters which are no whitespace. -/
structure Word (text : Text) (a b : Nat) : Prop where
  ink : ∀ i, a ≤ i → i < b → InkAt text i
  opens : ∀ i, i + 1 = a → ¬ InkAt text i
  closes : ¬ InkAt text b

/-- A position strictly inside a word which is shorter than the limit. -/
def InsideShortWord (text : Text) (maxChars i : Nat) : Prop :=
  ∃ a b, Word text a b ∧ a < i ∧ i < b ∧ b - a < maxChars

/-- A position inside a paragraph at a multiple of the limit behind its beginning or behind one of
its spaces, with no other space in between. -/
def BreaksAt (text : Text) (maxChars first end_ i : Nat) : Prop :=
  ∃ start turns, (start = first ∨ first < start ∧ text[start]? = some ' ') ∧ 0 < turns ∧
    i = start + turns * maxChars ∧ i < end_ ∧ Spaceless text start i

/-- The same for some paragraph of the text. -/
def HardBreak (text : Text) (maxChars i : Nat) : Prop :=
  ∃ span ∈ paragraphSpans text, BreaksAt text maxChars span.1 span.2 i

section Ends

variable {text : Text} {maxChars first end_ : Nat} {E : Nat → Prop}

theorem Spaceless.append {a b c : Nat} (h : Spaceless text a b) (hLater : Spaceless text b c) :
    Spaceless text a c := by
  intro i hLow hHigh
  rcases Nat.lt_or_ge b i with hBehind | hBefore
  · exact hLater i hBehind hHigh
  · exact h i hLow hBefore

theorem Spaceless.tail {a b c : Nat} (h : Spaceless text a c) (hLow : a ≤ b) :
    Spaceless text b c := by
  intro i hBehind hHigh
  exact h i (by omega) hHigh

/-- In every wrapped paragraph the lines which do not end at a space end at its hard breaks. -/
theorem Wraps.breaks (h : Wraps text maxChars end_ (fun _ b => E b) (fun _ _ => True) first) {i : Nat}
    (hBreak : BreaksAt text maxChars first end_ i) : E i := by
  induction h with
  | @rest cursor hFits _ =>
      obtain ⟨start, turns, hStart, hTurns, rfl, hEnd, -⟩ := hBreak
      have hOne : maxChars ≤ turns * maxChars := Nat.le_mul_of_pos_left _ hTurns
      omega
  | @space cursor cut hLong hCut hLine hRest ih =>
      obtain ⟨start, turns, hStart, hTurns, rfl, hEnd, hNone⟩ := hBreak
      have hOne : maxChars ≤ turns * maxChars := Nat.le_mul_of_pos_left _ hTurns
      have hBehind := hCut.behind
      have hWithin := hCut.within
      -- The space at which the line ends is not between the start and the break.
      have hFrom : cut ≤ start := by
        by_contra hBefore
        exact hNone cut (by omega) (by omega) hCut.space
      apply ih
      refine ⟨start, turns, ?_, hTurns, rfl, hEnd, hNone⟩
      rcases hStart with rfl | ⟨-, hSpace⟩
      · omega
      · rcases Nat.eq_or_lt_of_le hFrom with hSame | hLater
        · exact .inl hSame.symm
        · exact .inr ⟨hLater, hSpace⟩
  | @hard cursor hLong hClear hLine hRest ih =>
      obtain ⟨start, turns, hStart, hTurns, rfl, hEnd, hNone⟩ := hBreak
      rcases hStart with rfl | ⟨hAfter, hSpace⟩
      · cases turns with
        | zero => omega
        | succ turns =>
            cases turns with
            | zero => simpa using hLine
            | succ turns =>
                apply ih
                have hTotal : start + (turns + 1 + 1) * maxChars =
                    start + maxChars + (turns + 1) * maxChars := by
                  rw [Nat.succ_mul]
                  omega
                refine ⟨start + maxChars, turns + 1, .inl rfl, by omega, hTotal, hEnd, ?_⟩
                exact hNone.tail (by omega)
      · have hPast : cursor + maxChars < start := by
          by_contra hBefore
          exact hClear start hAfter (by omega) hSpace
        apply ih
        exact ⟨start, turns, .inr ⟨hPast, hSpace⟩, hTurns, rfl, hEnd, hNone⟩

/-- The lines of a paragraph end at its spaces and at its hard breaks. -/
theorem wraps_ends_iff (hMax : 0 < maxChars) (hSpaces : ∀ i, text[i]? = some ' ' → E i) :
    Wraps text maxChars end_ (fun _ b => E b) (fun _ _ => True) first ↔
      ∀ i, BreaksAt text maxChars first end_ i → E i := by
  constructor
  · intro h i hBreak
    exact h.breaks hBreak
  · intro h
    -- Every line begins some turns behind the last space, or behind the beginning.
    let I (cursor : Nat) : Prop := ∃ start turns, (start = first ∨
      first < start ∧ text[start]? = some ' ') ∧ cursor = start + turns * maxChars ∧
      Spaceless text start cursor
    apply Wraps.intro (I := I) hMax
    · intro start hStart hFits
      trivial
    · rintro _ cut ⟨start, turns, hStart, rfl, hNone⟩ hLong hCut
      have hBehind := hCut.behind
      refine ⟨hSpaces cut hCut.space, cut, 0, .inr ⟨?_, hCut.space⟩, by omega, ?_⟩
      · rcases hStart with rfl | ⟨hAfter, -⟩ <;> omega
      · intro i hLow hHigh
        omega
    · rintro _ ⟨start, turns, hStart, rfl, hNone⟩ hLong hClear
      have hTotal : start + turns * maxChars + maxChars = start + (turns + 1) * maxChars := by
        rw [Nat.succ_mul]
        omega
      have hAll := hNone.append hClear
      constructor
      · exact h _ ⟨start, turns + 1, hStart, by omega, hTotal, by omega, hAll⟩
      · exact ⟨start, turns + 1, hStart, hTotal, hAll⟩
    · refine ⟨first, 0, .inl rfl, by omega, ?_⟩
      intro i hLow hHigh
      omega

/-- What is asked of the last line may be changed if it holds there. -/
theorem Wraps.last {R' : Nat → Nat → Prop} {P R : Nat → Nat → Prop}
    (h : Wraps text maxChars end_ P R first) (hLast : ∀ start, R start end_ → R' start end_) :
    Wraps text maxChars end_ P R' first := by
  induction h with
  | rest hFits hRest => exact .rest hFits (hLast _ hRest)
  | space hLong hCut hLine _ ih => exact .space hLong hCut hLine ih
  | hard hLong hNone hLine _ ih => exact .hard hLong hNone hLine ih

/-- If something holds of the ends of all paragraphs, only the wrapped ones have to be looked at. -/
theorem chunked_ends {minChars : Int} {spans : List (Nat × Nat)} {group start length : Nat}
    (hSpans : Covers start spans length) (hStart : E start) (hEnds : ∀ span ∈ spans, E span.2) :
    Chunked text minChars maxChars (fun _ b => E b) (fun _ _ => True) group start spans ↔
      ∀ span ∈ spans, maxChars < span.2 - span.1 →
        Wraps text maxChars span.2 (fun _ b => E b) (fun _ _ => True) span.1 := by
  induction spans generalizing group start with
  | nil => simp [Chunked]
  | cons span rest ih =>
      obtain ⟨rfl, -, hRest⟩ := hSpans
      have hEnd := hEnds span (by simp)
      have hLater {group : Nat} : Chunked text minChars maxChars (fun _ b => E b) (fun _ _ => True)
          group span.2 rest ↔ _ :=
        ih hRest hEnd fun other hOther => hEnds other (by simp [hOther])
      have hLine (group : Nat) :
          (if rest.isEmpty then fun _ _ => True else fun _ b => E b : Nat → Nat → Prop)
            group span.2 := by
        split
        · trivial
        · exact hEnd
      have hClosing (group : Nat) : (if minChars ≤ ((span.2 - group : Nat) : Int) then
            (if rest.isEmpty then fun _ _ => True else fun _ b => E b : Nat → Nat → Prop)
              group span.2 ∧
            Chunked text minChars maxChars (fun _ b => E b) (fun _ _ => True) span.2 span.2 rest
          else Chunked text minChars maxChars (fun _ b => E b) (fun _ _ => True) group span.2
            rest) ↔
          ∀ span ∈ rest, maxChars < span.2 - span.1 →
            Wraps text maxChars span.2 (fun _ b => E b) (fun _ _ => True) span.1 := by
        split
        · rw [hLater]
          simp only [hLine, true_and]
        · exact hLater
      rw [Chunked, List.forall_mem_cons]
      dsimp only
      by_cases hLong : maxChars < span.2 - span.1
      · have hWraps : Wraps text maxChars span.2 (fun _ b => E b)
            (if rest.isEmpty then fun _ _ => True else fun _ b => E b) span.1 ↔
            Wraps text maxChars span.2 (fun _ b => E b) (fun _ _ => True) span.1 := by
          constructor
          · intro h
            exact h.last fun _ _ => trivial
          · intro h
            exact h.last fun start _ => hLine start
        rw [if_pos hLong, hWraps, hLater]
        simp only [hStart, hLong, implies_true, true_and, forall_const]
      · rw [if_neg hLong]
        simp only [hClosing, hStart, hLong, true_and, ite_self, IsEmpty.forall_iff]

end Ends

/-! A paragraph ends behind a line break or at the end of the text. -/

theorem mem_separatorEnds {text : Text} {position end_ : Nat}
    (h : end_ ∈ separatorEnds position text) :
    ∃ i, text[i]? = some '\n' ∧ end_ = position + i + 1 := by
  induction position, text using separatorEnds.induct with
  | case1 position rest ih =>
      rw [separatorEnds] at h
      rcases List.mem_cons.mp h with rfl | hLater
      · exact ⟨1, rfl, rfl⟩
      · obtain ⟨i, hBreak, rfl⟩ := ih hLater
        exact ⟨i + 2, by simpa using hBreak, by omega⟩
  | case2 position head rest hNot ih =>
      rw [separatorEnds] at h
      · obtain ⟨i, hBreak, rfl⟩ := ih h
        exact ⟨i + 1, by simpa using hBreak, by omega⟩
      · exact hNot
  | case3 position => simp [separatorEnds] at h

theorem mem_spansFrom {length cursor : Nat} {ends : List Nat} {span : Nat × Nat}
    (h : span ∈ spansFrom length cursor ends) : span.2 ∈ ends ∨ span.2 = length := by
  induction ends generalizing cursor with
  | nil =>
      rw [spansFrom] at h
      split at h
      · right
        rw [List.mem_singleton.mp h]
      · cases h
  | cons end_ rest ih =>
      rw [spansFrom] at h
      rcases List.mem_cons.mp h with rfl | hLater
      · exact .inl (List.mem_cons_self ..)
      · exact (ih hLater).imp_left (List.mem_cons_of_mem _)

theorem paragraphSpans_ends {text : Text} {span : Nat × Nat} (h : span ∈ paragraphSpans text) :
    (∃ i, text[i]? = some '\n' ∧ span.2 = i + 1) ∨ span.2 = text.length := by
  rcases mem_spansFrom h with hEnd | hLast
  · left
    obtain ⟨i, hBreak, hSpan⟩ := mem_separatorEnds hEnd
    exact ⟨i, hBreak, by omega⟩
  · exact .inr hLast

section Words

variable {text : Text} {maxChars i : Nat}

theorem not_inkAt {c : Char} (hChar : text[i]? = some c) (hSpace : Text.isSpace c = true) :
    ¬ InkAt text i := by
  rintro ⟨d, hOther, hInk⟩
  rw [hChar] at hOther
  obtain rfl : c = d := by simpa using hOther
  rw [hSpace] at hInk
  cases hInk

/-- Where no ink stands, there is no word. -/
theorem not_inside (h : ¬ InkAt text i) : ¬ InsideShortWord text maxChars i := by
  rintro ⟨a, b, hWord, hLow, hHigh, -⟩
  exact h (hWord.ink i hLow.le hHigh)

/-- Neither is there one behind such a position. -/
theorem not_inside_behind (h : ¬ InkAt text i) : ¬ InsideShortWord text maxChars (i + 1) := by
  rintro ⟨a, b, hWord, hLow, hHigh, -⟩
  exact h (hWord.ink i (by omega) (by omega))

theorem paragraphSpans_not_inside {span : Nat × Nat} (h : span ∈ paragraphSpans text) :
    ¬ InsideShortWord text maxChars span.2 := by
  rcases paragraphSpans_ends h with ⟨i, hBreak, hEnd⟩ | hEnd
  · rw [hEnd]
    exact not_inside_behind (not_inkAt hBreak (by decide))
  · apply not_inside
    rintro ⟨c, hChar, -⟩
    rw [hEnd, List.getElem?_eq_none le_rfl] at hChar
    cases hChar

end Words

/-- No chunk ends inside a short word if and only if no hard break is there. -/
theorem chunkPassages_words (text : Text) (minChars : Int) (maxChars : Nat) (hMax : 1 ≤ maxChars) :
    (∀ chunk ∈ (chunkPassages text minChars maxChars).dropLast,
      ¬ InsideShortWord text maxChars chunk.endChar) ↔
    ∀ i, HardBreak text maxChars i → ¬ InsideShortWord text maxChars i := by
  have hSpaces (i : Nat) (hSpace : text[i]? = some ' ') : ¬ InsideShortWord text maxChars i :=
    not_inside (not_inkAt hSpace (by decide))
  have hZero : ¬ InsideShortWord text maxChars 0 := by
    rintro ⟨a, b, -, hLow, -⟩
    omega
  rw [← allButLast_dropLast (P := fun _ b => ¬ InsideShortWord text maxChars b),
    chunkPassages_iff hMax, chunked_ends (E := fun b => ¬ InsideShortWord text maxChars b)
      (paragraphSpans_covers text) hZero fun span hSpan => paragraphSpans_not_inside hSpan]
  constructor
  · rintro h i ⟨span, hSpan, hBreak⟩
    have hLong : maxChars < span.2 - span.1 := by
      obtain ⟨start, turns, hStart, hTurns, rfl, hEnd, -⟩ := hBreak
      have hOne : maxChars ≤ turns * maxChars := Nat.le_mul_of_pos_left _ hTurns
      omega
    exact (h span hSpan hLong).breaks hBreak
  · intro h span hSpan hLong
    apply (wraps_ends_iff hMax hSpaces).mpr
    intro i hBreak
    exact h i ⟨span, hSpan, hBreak⟩

/-- For example a text of two words. -/
theorem chunkPassages_words_pair : 1 ≤ 4 ∧
    ((∀ chunk ∈ (chunkPassages "ab cde".toList 9 4).dropLast,
      ¬ InsideShortWord "ab cde".toList 4 chunk.endChar) ↔
    ∀ i, HardBreak "ab cde".toList 4 i → ¬ InsideShortWord "ab cde".toList 4 i) :=
  ⟨by decide, chunkPassages_words "ab cde".toList 9 4 (by decide)⟩

/-- Words which are not separated by spaces may be cut. -/
theorem chunkPassages_cuts_word : ¬ ∀ (text : Text) (minChars : Int) (maxChars : Nat), 1 ≤ maxChars →
    ∀ chunk ∈ (chunkPassages text minChars maxChars).dropLast,
      ¬ InsideShortWord text maxChars chunk.endChar := by
  intro h
  have hChunks : (chunkPassages "ab\ncd".toList 1 4).dropLast.map Chunk.endChar = [4] := by decide
  have hWord : Word "ab\ncd".toList 3 5 := by
    constructor
    · intro i hLow hHigh
      obtain rfl | rfl : i = 3 ∨ i = 4 := by omega
      · exact ⟨'c', rfl, rfl⟩
      · exact ⟨'d', rfl, rfl⟩
    · intro i hBefore
      obtain rfl : i = 2 := by omega
      exact not_inkAt (c := '\n') rfl rfl
    · rintro ⟨c, hChar, -⟩
      cases hChar
  have hMem : 4 ∈ (chunkPassages "ab\ncd".toList 1 4).dropLast.map Chunk.endChar := by
    rw [hChunks]
    exact List.mem_singleton.mpr rfl
  obtain ⟨chunk, hChunk, hEnd⟩ := List.mem_map.mp hMem
  apply h "ab\ncd".toList 1 4 (by decide) chunk hChunk
  rw [hEnd]
  exact ⟨3, 5, hWord, by decide, by decide, by decide⟩

/-! ## Blank chunks -/

section Legibility

variable {text : Text} {a b : Nat}

end Legibility

end Ecrke
