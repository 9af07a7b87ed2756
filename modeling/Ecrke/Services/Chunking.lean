import Ecrke.Services.Tiling

/-!
# Where the chunks of a text end

The chunks of a text are read off the text itself: paragraphs are grouped until a group is long
enough or the next paragraph does not fit, and an oversized paragraph is wrapped at its spaces.

* `LastSpace`, `Spaceless` -- what the backward search for a space finds.
* `Wraps` -- the lines into which an oversized paragraph is wrapped.
* `AllButLast` -- a property of all chunks, with another one for the last.
* `Chunked` -- the groups of paragraphs and the lines of wrapped paragraphs.
* `chunkPassages_iff` -- a property of the bounds of all chunks is one of these groups and lines.
-/

namespace Ecrke

/-! ## The last space -/

/-- There is no space behind a position, up to another one. -/
def Spaceless (text : Text) (low high : Nat) : Prop :=
  ∀ i, low < i → i ≤ high → text[i]? ≠ some ' '

/-- The last space behind a position, up to another one. -/
structure LastSpace (text : Text) (low high cut : Nat) : Prop where
  behind : low < cut
  within : cut ≤ high
  space : text[cut]? = some ' '
  after : Spaceless text cut high

theorem LastSpace.unique {text : Text} {low high cut cut' : Nat}
    (h : LastSpace text low high cut) (h' : LastSpace text low high cut') : cut = cut' := by
  by_contra hNe
  rcases Nat.lt_or_gt_of_ne hNe with hLess | hLess
  · exact h.after cut' hLess h'.within h'.space
  · exact h'.after cut hLess h.within h.space

theorem LastSpace.not_spaceless {text : Text} {low high cut : Nat}
    (h : LastSpace text low high cut) : ¬ Spaceless text low high := by
  intro hNone
  exact hNone cut h.behind h.within h.space

/-- The search looks at the last position first. -/
theorem rfindSpace_succ (text : Text) (low high : Nat) : rfindSpace text low (high + 1) =
    if low ≤ high ∧ text[high]? = some ' ' then some high else rfindSpace text low high := by
  unfold rfindSpace
  rw [List.range_succ, List.reverse_append, List.reverse_singleton, List.singleton_append,
    List.find?_cons]
  by_cases hHere : low ≤ high ∧ text[high]? = some ' '
  · simp [hHere]
  · have hFalse : (decide (low ≤ high) && text[high]? == some ' ') = false := by
      simpa using hHere
    rw [hFalse, if_neg hHere]

theorem rfindSpace_cases (text : Text) (low high : Nat) :
    (∃ cut, rfindSpace text (low + 1) (high + 1) = some cut ∧ LastSpace text low high cut) ∨
      rfindSpace text (low + 1) (high + 1) = none ∧ Spaceless text low high := by
  induction high with
  | zero =>
      right
      constructor
      · rw [rfindSpace_succ, if_neg (by omega)]
        rfl
      · intro i hLow hHigh
        omega
  | succ high ih =>
      rw [rfindSpace_succ]
      by_cases hHere : low + 1 ≤ high + 1 ∧ text[high + 1]? = some ' '
      · left
        rw [if_pos hHere]
        refine ⟨high + 1, rfl, by omega, le_rfl, hHere.2, ?_⟩
        intro i hLow hHigh
        omega
      · rw [if_neg hHere]
        rcases ih with ⟨cut, hFind, hCut⟩ | ⟨hFind, hNone⟩
        · left
          have hBehind := hCut.behind
          have hWithin := hCut.within
          refine ⟨cut, hFind, hBehind, by omega, hCut.space, ?_⟩
          intro i hLow hHigh hSpace
          rcases Nat.lt_or_ge high i with hLast | hEarlier
          · obtain rfl : i = high + 1 := by omega
            exact hHere ⟨by omega, hSpace⟩
          · exact hCut.after i hLow hEarlier hSpace
        · right
          refine ⟨hFind, ?_⟩
          intro i hLow hHigh hSpace
          rcases Nat.lt_or_ge high i with hLast | hEarlier
          · obtain rfl : i = high + 1 := by omega
            exact hHere ⟨by omega, hSpace⟩
          · exact hNone i hLow hEarlier hSpace

/-! ## All chunks but the last -/

/-- The first property holds of the bounds of all chunks but the last one, the second of the last. -/
def AllButLast (P R : Nat → Nat → Prop) : List Chunk → Prop
  | [] => True
  | [chunk] => R chunk.startChar chunk.endChar
  | chunk :: next :: rest => P chunk.startChar chunk.endChar ∧ AllButLast P R (next :: rest)

section AllButLast

variable {P R : Nat → Nat → Prop} {chunk : Chunk} {chunks later : List Chunk}

theorem allButLast_cons (hLater : later ≠ []) : AllButLast P R (chunk :: later) ↔
    P chunk.startChar chunk.endChar ∧ AllButLast P R later := by
  cases later with
  | nil => exact absurd rfl hLater
  | cons next rest => rfl

theorem allButLast_append (hLater : later ≠ []) : AllButLast P R (chunks ++ later) ↔
    (∀ chunk ∈ chunks, P chunk.startChar chunk.endChar) ∧ AllButLast P R later := by
  induction chunks with
  | nil => simp
  | cons chunk rest ih =>
      rw [List.cons_append, allButLast_cons (by simp [hLater]), ih, List.forall_mem_cons, and_assoc]

theorem allButLast_same : AllButLast P P chunks ↔
    ∀ chunk ∈ chunks, P chunk.startChar chunk.endChar := by
  induction chunks with
  | nil => simp [AllButLast]
  | cons chunk rest ih =>
      cases rest with
      | nil => simp [AllButLast]
      | cons next rest =>
          rw [allButLast_cons (by simp), ih]
          simp only [List.mem_cons, forall_eq_or_imp]

theorem allButLast_dropLast : AllButLast P (fun _ _ => True) chunks ↔
    ∀ chunk ∈ chunks.dropLast, P chunk.startChar chunk.endChar := by
  induction chunks with
  | nil => simp [AllButLast]
  | cons chunk rest ih =>
      cases rest with
      | nil => simp [AllButLast]
      | cons next rest =>
          rw [allButLast_cons (by simp), ih, List.dropLast_cons_cons, List.forall_mem_cons]

/-- In front of further chunks no chunk is the last. -/
theorem allButLast_split : AllButLast P R (chunks ++ later) ↔
    AllButLast P (if later.isEmpty then R else P) chunks ∧ AllButLast P R later := by
  cases later with
  | nil => simp [AllButLast]
  | cons next rest =>
      rw [allButLast_append (by simp), List.isEmpty_cons, if_neg (by simp), allButLast_same]

end AllButLast

/-! ## Wrapped paragraphs -/

/-- From a cursor on, an oversized paragraph is wrapped into lines: each reaches to the last space
within the limit, or else up to the limit; what fits into it is the last line.  The first property
holds of all lines but the last, the second of the last one. -/
inductive Wraps (text : Text) (maxChars end_ : Nat) (P R : Nat → Nat → Prop) : Nat → Prop where
  | rest {cursor : Nat} (hFits : end_ - cursor ≤ maxChars) (hLast : R cursor end_) :
      Wraps text maxChars end_ P R cursor
  | space {cursor cut : Nat} (hLong : maxChars < end_ - cursor)
      (hCut : LastSpace text cursor (cursor + maxChars) cut) (hLine : P cursor cut)
      (hRest : Wraps text maxChars end_ P R cut) : Wraps text maxChars end_ P R cursor
  | hard {cursor : Nat} (hLong : maxChars < end_ - cursor)
      (hNone : Spaceless text cursor (cursor + maxChars)) (hLine : P cursor (cursor + maxChars))
      (hRest : Wraps text maxChars end_ P R (cursor + maxChars)) :
      Wraps text maxChars end_ P R cursor

theorem hardSplit_ne_nil (text : Text) (end_ maxChars fuel cursor : Nat) :
    hardSplit text end_ maxChars fuel cursor ≠ [] := by
  cases fuel with
  | zero => simp [hardSplit]
  | succ fuel =>
      rw [hardSplit]
      split
      · simp
      · simp

section Wrapping

variable {text : Text} {maxChars end_ : Nat} {P R : Nat → Nat → Prop}

/-- Where the rest of a paragraph is too long, its first piece is a line. -/
theorem hardSplit_long (text : Text) (fuel : Nat) {cursor : Nat}
    (hLong : maxChars < end_ - cursor) :
    (∃ cut, LastSpace text cursor (cursor + maxChars) cut ∧
      hardSplit text end_ maxChars (fuel + 1) cursor =
        ⟨slice text cursor cut, cursor, cut⟩ :: hardSplit text end_ maxChars fuel cut) ∨
    Spaceless text cursor (cursor + maxChars) ∧
      hardSplit text end_ maxChars (fuel + 1) cursor =
        ⟨slice text cursor (cursor + maxChars), cursor, cursor + maxChars⟩ ::
          hardSplit text end_ maxChars fuel (cursor + maxChars) := by
  rw [hardSplit, if_pos hLong]
  rcases rfindSpace_cases text cursor (cursor + maxChars) with ⟨cut, hFind, hCut⟩ | ⟨hFind, hNone⟩
  · left
    refine ⟨cut, hCut, ?_⟩
    simp only [hFind, Option.getD_some]
  · right
    refine ⟨hNone, ?_⟩
    simp only [hFind, Option.getD_none]

theorem hardSplit_fits {fuel cursor : Nat} (hFits : end_ - cursor ≤ maxChars) :
    hardSplit text end_ maxChars fuel cursor = [⟨slice text cursor end_, cursor, end_⟩] := by
  cases fuel with
  | zero => rfl
  | succ fuel => rw [hardSplit, if_neg (by omega)]

/-- The pieces of an oversized paragraph are its lines, if there is fuel for each letter. -/
theorem hardSplit_iff (hMax : 0 < maxChars) {fuel cursor : Nat} (hFuel : end_ - cursor < fuel) :
    AllButLast P R (hardSplit text end_ maxChars fuel cursor) ↔
      Wraps text maxChars end_ P R cursor := by
  induction fuel generalizing cursor with
  | zero => omega
  | succ fuel ih =>
      rcases Nat.lt_or_ge maxChars (end_ - cursor) with hLong | hFits
      · rcases hardSplit_long text fuel hLong with
          ⟨cut, hCut, hSplit⟩ | ⟨hNone, hSplit⟩
        · have hBehind := hCut.behind
          rw [hSplit, allButLast_cons (hardSplit_ne_nil _ _ _ _ _), ih (by omega)]
          constructor
          · rintro ⟨hLine, hRest⟩
            exact .space hLong hCut hLine hRest
          · intro h
            cases h with
            | rest hFits hLast => omega
            | space _ hCut' hLine hRest =>
                obtain rfl := hCut.unique hCut'
                exact ⟨hLine, hRest⟩
            | hard _ hNone hLine hRest => exact absurd hNone hCut.not_spaceless
        · rw [hSplit, allButLast_cons (hardSplit_ne_nil _ _ _ _ _), ih (by omega)]
          constructor
          · rintro ⟨hLine, hRest⟩
            exact .hard hLong hNone hLine hRest
          · intro h
            cases h with
            | rest hFits hLast => omega
            | space _ hCut hLine hRest => exact absurd hNone hCut.not_spaceless
            | hard _ _ hLine hRest => exact ⟨hLine, hRest⟩
      · rw [hardSplit_fits hFits]
        constructor
        · intro hLast
          exact .rest hFits hLast
        · intro h
          cases h with
          | rest _ hLast => exact hLast
          | space hLong _ _ _ => omega
          | hard hLong _ _ _ => omega

/-- A property of the beginnings of lines, which gives those of the lines. -/
theorem Wraps.intro {I : Nat → Prop} (hMax : 0 < maxChars)
    (hFits : ∀ start, I start → end_ - start ≤ maxChars → R start end_)
    (hSpace : ∀ start cut, I start → maxChars < end_ - start →
      LastSpace text start (start + maxChars) cut → P start cut ∧ I cut)
    (hHard : ∀ start, I start → maxChars < end_ - start →
      Spaceless text start (start + maxChars) →
      P start (start + maxChars) ∧ I (start + maxChars))
    {cursor : Nat} (hCursor : I cursor) : Wraps text maxChars end_ P R cursor := by
  -- What is left of the paragraph gets shorter with each line.
  induction hLeft : end_ - cursor using Nat.strong_induction_on generalizing cursor with
  | _ left ih =>
      rcases Nat.lt_or_ge maxChars (end_ - cursor) with hLong | hShort
      · rcases rfindSpace_cases text cursor (cursor + maxChars) with
          ⟨cut, -, hCut⟩ | ⟨-, hNone⟩
        · have hBehind := hCut.behind
          obtain ⟨hLine, hNext⟩ := hSpace cursor cut hCursor hLong hCut
          exact .space hLong hCut hLine (ih (end_ - cut) (by omega) hNext rfl)
        · obtain ⟨hLine, hNext⟩ := hHard cursor hCursor hLong hNone
          exact .hard hLong hNone hLine (ih (end_ - (cursor + maxChars)) (by omega) hNext rfl)
      · exact .rest hShort (hFits cursor hCursor hShort)

/-- More fuel makes no difference. -/
theorem hardSplit_fuel (hMax : 0 < maxChars) {fuel cursor : Nat} (hFuel : end_ - cursor < fuel)
    (more : Nat) : hardSplit text end_ maxChars (fuel + more) cursor =
      hardSplit text end_ maxChars fuel cursor := by
  induction fuel generalizing cursor with
  | zero => omega
  | succ fuel ih =>
      rw [show fuel + 1 + more = fuel + more + 1 by omega, hardSplit, hardSplit]
      split
      · next hLong =>
          rcases rfindSpace_cases text cursor (cursor + maxChars) with
            ⟨cut, hFind, hCut⟩ | ⟨hFind, hNone⟩
          · have hBehind := hCut.behind
            simp only [hFind, Option.getD_some]
            rw [ih (by omega)]
          · simp only [hFind, Option.getD_none]
            rw [ih (by omega)]
      · rfl

end Wrapping

/-! ## Groups of paragraphs -/

/-- From the beginning of an open group and of a paragraph on, the paragraphs are grouped.  A group
is closed in front of an oversized paragraph, in front of one which does not fit into it, and as
soon as it is long enough.  The first property holds of all groups and lines but the last, the
second of the last one. -/
def Chunked (text : Text) (minChars : Int) (maxChars : Nat) (P R : Nat → Nat → Prop) :
    (group start : Nat) → List (Nat × Nat) → Prop
  | group, start, [] => group < start → R group start
  | group, start, span :: rest =>
      let closing (group : Nat) : Prop :=
        if minChars ≤ ((span.2 - group : Nat) : Int) then
          (if rest.isEmpty then R else P) group span.2 ∧
            Chunked text minChars maxChars P R span.2 span.2 rest
        else Chunked text minChars maxChars P R group span.2 rest
      if maxChars < span.2 - start then
        (group < start → P group start) ∧
          Wraps text maxChars span.2 P (if rest.isEmpty then R else P) start ∧
          Chunked text minChars maxChars P R span.2 span.2 rest
      else if maxChars < span.2 - group then P group start ∧ closing start
      else closing group

/-- Paragraphs which are not empty. -/
def Proper (spans : List (Nat × Nat)) : Prop := ∀ span ∈ spans, span.1 < span.2

/-- The chunks which come after those so far. -/
def Chunking.remaining (text : Text) (minChars : Int) (maxChars : Nat)
    (current spans : List (Nat × Nat)) : List Chunk :=
  ((spans.foldl (Chunking.addSpan text minChars maxChars) ⟨[], current⟩).flush text).chunks

namespace Chunking

variable {text : Text} {minChars : Int} {maxChars : Nat} {chunks : List Chunk}
  {current spans : List (Nat × Nat)} {span : Nat × Nat}

theorem flush_nil : (⟨chunks, []⟩ : Chunking).flush text = ⟨chunks, []⟩ := rfl

theorem flush_some (h : current ≠ []) :
    (⟨chunks, current⟩ : Chunking).flush text = ⟨chunks ++ [flushSpans current text], []⟩ := by
  unfold flush
  rw [if_neg (by simpa using h)]

theorem flush_chunks : (⟨chunks, current⟩ : Chunking).flush text =
    ⟨chunks ++ ((⟨[], current⟩ : Chunking).flush text).chunks, []⟩ := by
  by_cases hEmpty : current = []
  · subst hEmpty
    simp [flush_nil]
  · simp [flush_some hEmpty]

/-- What has become a chunk stays as it is. -/
theorem addSpan_chunks : (⟨chunks, current⟩ : Chunking).addSpan text minChars maxChars span =
    ⟨chunks ++ ((⟨[], current⟩ : Chunking).addSpan text minChars maxChars span).chunks,
      ((⟨[], current⟩ : Chunking).addSpan text minChars maxChars span).current⟩ := by
  have hClosing (chunks : List Chunk) (current : List (Nat × Nat)) :
      (if minChars ≤ (spansLength current : Int) then (⟨chunks, current⟩ : Chunking).flush text
        else ⟨chunks, current⟩) =
      ⟨chunks ++ (if minChars ≤ (spansLength current : Int) then
          (⟨[], current⟩ : Chunking).flush text else ⟨[], current⟩).chunks,
        (if minChars ≤ (spansLength current : Int) then
          (⟨[], current⟩ : Chunking).flush text else ⟨[], current⟩).current⟩ := by
    split
    · rw [flush_chunks]
      cases current <;> rfl
    · simp
  unfold addSpan
  dsimp only
  split
  · rw [flush_chunks]
    cases current <;> simp [flush]
  · split
    · rw [flush_chunks, hClosing]
      conv_rhs => rw [flush_chunks, hClosing]
      simp
    · exact hClosing chunks _

theorem foldl_chunks :
    ((spans.foldl (addSpan text minChars maxChars) ⟨chunks, current⟩).flush text).chunks =
      chunks ++ remaining text minChars maxChars current spans := by
  induction spans generalizing chunks current with
  | nil => exact congrArg Chunking.chunks flush_chunks
  | cons span rest ih =>
      have hRest (state : Chunking) :
          ((rest.foldl (addSpan text minChars maxChars) state).flush text).chunks =
            state.chunks ++ remaining text minChars maxChars state.current rest := ih
      rw [List.foldl_cons, addSpan_chunks, ih, List.append_assoc, ← hRest]
      rfl

theorem remaining_nil : remaining text minChars maxChars current [] =
    if current = [] then [] else [flushSpans current text] := by
  by_cases hEmpty : current = []
  · rw [if_pos hEmpty, hEmpty]
    rfl
  · rw [if_neg hEmpty]
    exact congrArg Chunking.chunks (flush_some hEmpty)

theorem remaining_cons : remaining text minChars maxChars current (span :: spans) =
    ((⟨[], current⟩ : Chunking).addSpan text minChars maxChars span).chunks ++
      remaining text minChars maxChars
        ((⟨[], current⟩ : Chunking).addSpan text minChars maxChars span).current spans := by
  rw [remaining, List.foldl_cons]
  exact foldl_chunks

/-- The waiting paragraphs, closed to a chunk or waiting on. -/
def closed (text : Text) (minChars : Int) (current : List (Nat × Nat)) : Chunking :=
  if minChars ≤ (spansLength current : Int) then ⟨[flushSpans current text], []⟩
  else ⟨[], current⟩

/-- What comes after an oversized paragraph. -/
theorem remaining_long (hLong : maxChars < span.2 - span.1) :
    remaining text minChars maxChars current (span :: spans) =
      remaining text minChars maxChars current [] ++
        (hardSplit text span.2 maxChars (span.2 - span.1 + 1) span.1 ++
          remaining text minChars maxChars [] spans) := by
  rw [remaining_cons, remaining_nil, addSpan, if_pos hLong]
  by_cases hEmpty : current = []
  · subst hEmpty
    rw [if_pos rfl]
    rfl
  · rw [if_neg hEmpty, flush_some hEmpty]
    simp

/-- What comes after a paragraph which fits into a chunk. -/
theorem remaining_short (hShort : ¬ maxChars < span.2 - span.1) :
    remaining text minChars maxChars current (span :: spans) =
      if maxChars < spansLength current + (span.2 - span.1) then
        remaining text minChars maxChars current [] ++
          ((closed text minChars [span]).chunks ++
            remaining text minChars maxChars (closed text minChars [span]).current spans)
      else (closed text minChars (current ++ [span])).chunks ++
        remaining text minChars maxChars (closed text minChars (current ++ [span])).current
          spans := by
  have hClosed (current : List (Nat × Nat)) (hSome : current ≠ []) :
      (if minChars ≤ (spansLength current : Int) then (⟨[], current⟩ : Chunking).flush text
        else ⟨[], current⟩) = closed text minChars current := by
    rw [closed, flush_some hSome]
    rfl
  rw [remaining_cons, addSpan, if_neg hShort]
  by_cases hFull : maxChars < spansLength current + (span.2 - span.1)
  · rw [if_pos hFull, if_pos hFull, remaining_nil]
    by_cases hEmpty : current = []
    · subst hEmpty
      rw [if_pos rfl, flush_nil]
      dsimp only [List.nil_append]
      rw [hClosed [span] (by simp)]
    · rw [if_neg hEmpty, flush_some hEmpty]
      dsimp only [List.nil_append]
      unfold closed
      split
      · rw [flush_some (by simp)]
        simp
      · simp
  · rw [if_neg hFull, if_neg hFull]
    dsimp only
    rw [hClosed (current ++ [span]) (by simp)]

end Chunking

section Groups

variable {text : Text} {minChars : Int} {maxChars : Nat} {P R : Nat → Nat → Prop}
  {current spans : List (Nat × Nat)} {group start length : Nat}

theorem Covers.spansLength (h : Covers group current start) :
    spansLength current = start - group := by
  induction current generalizing group with
  | nil =>
      obtain rfl : group = start := h
      simp [Ecrke.spansLength]
  | cons span rest ih =>
      obtain ⟨hStart, hLe, hRest⟩ := h
      have hLater := hRest.le
      have hSum : Ecrke.spansLength (span :: rest) =
          span.2 - span.1 + Ecrke.spansLength rest := by
        simp [Ecrke.spansLength]
      rw [hSum, ih hRest]
      omega

/-- A group is open exactly when paragraphs wait. -/
theorem Covers.open_iff (h : Covers group current start) (hProper : Proper current) :
    group < start ↔ current ≠ [] := by
  cases current with
  | nil =>
      obtain rfl : group = start := h
      simp
  | cons span rest =>
      obtain ⟨hStart, -, hRest⟩ := h
      have hFirst := hProper span (by simp)
      have hLater := hRest.le
      have hLess : group < start := by omega
      simp [hLess]

/-- The chunk of a group has its bounds. -/
theorem Covers.flushed (h : Covers group current start) (hSome : current ≠ []) (text : Text) :
    (flushSpans current text).startChar = group ∧ (flushSpans current text).endChar = start := by
  constructor
  · cases current with
    | nil => exact absurd rfl hSome
    | cons span rest => exact h.1
  · exact h.last hSome

theorem Proper.snoc {span : Nat × Nat} (h : Proper current) (hSpan : span.1 < span.2) :
    Proper (current ++ [span]) := by
  intro other hOther
  rcases List.mem_append.mp hOther with hOld | hNew
  · exact h other hOld
  · rw [List.mem_singleton.mp hNew]
    exact hSpan

theorem Chunking.remaining_ne_nil {span : Nat × Nat} :
    remaining text minChars maxChars current (span :: spans) ≠ [] := by
  induction spans generalizing current span with
  | nil =>
      by_cases hLong : maxChars < span.2 - span.1
      · rw [remaining_long hLong]
        simp [hardSplit_ne_nil]
      · have hClosed (current : List (Nat × Nat)) (hSome : current ≠ []) :
            (closed text minChars current).chunks ++ remaining text minChars maxChars
              (closed text minChars current).current [] ≠ [] := by
          unfold closed
          split
          · simp
          · simp [remaining_nil, hSome]
        rw [remaining_short hLong]
        split
        · have hOne := hClosed [span] (by simp)
          exact fun h => hOne (List.append_eq_nil_iff.mp h).2
        · exact hClosed _ (by simp)
  | cons next rest ih =>
      rw [remaining_cons]
      exact fun h => ih (List.append_eq_nil_iff.mp h).2

theorem Chunking.remaining_isEmpty :
    (remaining text minChars maxChars [] spans).isEmpty = spans.isEmpty := by
  cases spans with
  | nil => rfl
  | cons span rest =>
      have hSome : remaining text minChars maxChars [] (span :: rest) ≠ [] := remaining_ne_nil
      simp [hSome]

/-- The chunks which are still to come are the groups and the lines from the open group on. -/
theorem Chunking.remaining_iff (hMax : 0 < maxChars) (hCurrent : Covers group current start)
    (hProper : Proper current) (hSpans : Covers start spans length) (hParagraphs : Proper spans) :
    AllButLast P R (remaining text minChars maxChars current spans) ↔
      Chunked text minChars maxChars P R group start spans := by
  -- The chunk of an open group, in front of others.
  have hGroup {Q : Nat → Nat → Prop} {group start : Nat} {current : List (Nat × Nat)}
      (hCurrent : Covers group current start) (hProper : Proper current) :
      (∀ chunk ∈ remaining text minChars maxChars current [],
        Q chunk.startChar chunk.endChar) ↔ (group < start → Q group start) := by
    rw [hCurrent.open_iff hProper, remaining_nil]
    by_cases hEmpty : current = []
    · simp [hEmpty]
    · obtain ⟨hStart, hEnd⟩ := hCurrent.flushed hEmpty text
      simp [hEmpty, hStart, hEnd]
  induction spans generalizing group start current with
  | nil =>
      rw [Chunked, ← hGroup hCurrent hProper, remaining_nil]
      split
      · simp [AllButLast]
      · simp [AllButLast]
  | cons span rest ih =>
      obtain ⟨rfl, hLe, hRest⟩ := hSpans
      have hSpan := hParagraphs span (by simp)
      have hLater : Proper rest := fun other hOther => hParagraphs other (by simp [hOther])
      have hNext : AllButLast P R (remaining text minChars maxChars [] rest) ↔
          Chunked text minChars maxChars P R span.2 span.2 rest := by
        apply ih
        · rfl
        · simp [Proper]
        · exact hRest
        · exact hLater
      -- What follows when the paragraph has joined a group.
      have hClosing {group : Nat} {current : List (Nat × Nat)}
          (hCurrent : Covers group current span.2) (hProper : Proper current)
          (hSome : current ≠ []) :
          AllButLast P R ((closed text minChars current).chunks ++ remaining text minChars
            maxChars (closed text minChars current).current rest) ↔
          if minChars ≤ ((span.2 - group : Nat) : Int) then
            (if rest.isEmpty then R else P) group span.2 ∧
              Chunked text minChars maxChars P R span.2 span.2 rest
          else Chunked text minChars maxChars P R group span.2 rest := by
        rw [closed, hCurrent.spansLength]
        split
        · obtain ⟨hStart, hEnd⟩ := hCurrent.flushed hSome text
          rw [allButLast_split, remaining_isEmpty, hNext]
          simp only [AllButLast, hStart, hEnd]
        · exact ih hCurrent hProper hRest hLater
      rw [Chunked]
      dsimp only
      by_cases hLong : maxChars < span.2 - span.1
      · rw [if_pos hLong, remaining_long hLong, allButLast_append (by simp [hardSplit_ne_nil]),
          hGroup hCurrent hProper, allButLast_split, remaining_isEmpty, hNext,
          hardSplit_iff hMax (by omega)]
      · rw [if_neg hLong, remaining_short hLong, hCurrent.spansLength]
        have hOpen := hCurrent.le
        have hOne : Covers span.1 [span] span.2 := ⟨rfl, hLe, rfl⟩
        have hAlone := hClosing hOne (by simpa [Proper] using hSpan) (by simp)
        by_cases hFull : maxChars < span.2 - group
        · have hGroupOpen : group < span.1 := by omega
          rw [if_pos hFull, if_pos (by omega), allButLast_append, hGroup hCurrent hProper, hAlone]
          · simp only [hGroupOpen, forall_const]
          · rw [closed]
            split
            · simp
            · cases rest with
              | nil => simp [remaining_nil]
              | cons next rest => exact remaining_ne_nil
        · rw [if_neg hFull, if_neg (by omega)]
          exact hClosing (hCurrent.snoc hLe) (hProper.snoc hSpan) (by simp)

end Groups

/-! ## The chunks of a text -/

theorem separatorEnds_proper (text : Text) (cursor position length : Nat)
    (hCursor : cursor ≤ position) :
    Proper (spansFrom length cursor (separatorEnds position text)) := by
  induction position, text using separatorEnds.induct generalizing cursor with
  | case1 position rest ih =>
      rw [separatorEnds, spansFrom]
      intro span hSpan
      rcases List.mem_cons.mp hSpan with rfl | hLater
      · show cursor < position + 2
        omega
      · exact ih (position + 2) le_rfl span hLater
  | case2 position head rest hNot ih =>
      rw [separatorEnds]
      · exact ih cursor (by omega)
      · exact hNot
  | case3 position =>
      rw [separatorEnds, spansFrom]
      split
      · next hRest => simpa [Proper] using hRest
      · simp [Proper]

theorem paragraphSpans_proper (text : Text) : Proper (paragraphSpans text) :=
  separatorEnds_proper text 0 0 text.length le_rfl

/-- A property of the bounds of all chunks is one of the groups and lines of the text. -/
theorem chunkPassages_iff {text : Text} {minChars : Int} {maxChars : Nat} {P R : Nat → Nat → Prop}
    (hMax : 0 < maxChars) : AllButLast P R (chunkPassages text minChars maxChars) ↔
      Chunked text minChars maxChars P R 0 0 (paragraphSpans text) := by
  have hStart : Covers 0 [] 0 := rfl
  exact Chunking.remaining_iff hMax hStart (by simp [Proper]) (paragraphSpans_covers text)
    (paragraphSpans_proper text)

end Ecrke
