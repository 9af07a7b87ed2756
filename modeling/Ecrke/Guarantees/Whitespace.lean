import Ecrke.Services.Redaction
import Ecrke.Text.Splitting
import Ecrke.Text.Strip

/-!
# The normal form of whitespace

`_collapse_whitespace` squeezes blanks, then caps line breaks, then drops the blanks around line
breaks.  The last pass may join line breaks which the second one has seen apart.

* `tidy` -- the three passes; `tidy_split`, they work on the gaps between other characters.
* `gap_cases` -- the kinds of gaps.
* `Wide`, `Gapped` -- three line breaks with blanks between some of them.
* `Tidy`, `collapseWhitespace_tidy` -- the normal form, and the texts for which it is reached.
-/

namespace Ecrke

open Regex

/-! ## The passes -/

/-- The class `[ \t\r\f\v]`. -/
def isBlank (c : Char) : Bool := " \t\r\x0c\x0b".toList.contains c

/-- The characters of which gaps are made: blanks and line breaks. -/
def isGap (c : Char) : Bool := isBlank c || c == '\n'

/-- `re.sub(r"[ \t\r\f\v]+", " ", text)` -/
def squeezeBlanks (text : Text) : Text := (Regex.many isBlank 1 none).sub " ".toList text

/-- `re.sub(r"\n{3,}", "\n\n", text)` -/
def capBreaks (text : Text) : Text := (Regex.many (· == '\n') 3 none).sub "\n\n".toList text

/-- ` *\n *` -/
def breakPattern : Regex Char :=
  sequence [.many (· == ' ') 0 none, .one (· == '\n'), .many (· == ' ') 0 none]

/-- `re.sub(r" *\n *", "\n", text)` -/
def trimBreaks (text : Text) : Text := breakPattern.sub "\n".toList text

/-- The three passes. -/
def tidy (text : Text) : Text := trimBreaks (capBreaks (squeezeBlanks text))

theorem collapseWhitespace_eq (text : Text) : collapseWhitespace text = Text.strip (tidy text) := rfl

theorem breakPattern_plain : Plain breakPattern := ⟨trivial, trivial, trivial⟩

section Passes

variable {c : Char}

theorem squeezeBlanks_split (hc : isBlank c = false) (text later : Text) :
    squeezeBlanks (text ++ c :: later) = squeezeBlanks text ++ c :: squeezeBlanks later := by
  have hPlain : Plain (Regex.many isBlank 1 none) := trivial
  exact sub_split hPlain hc text later

theorem capBreaks_split (hc : (c == '\n') = false) (text later : Text) :
    capBreaks (text ++ c :: later) = capBreaks text ++ c :: capBreaks later := by
  have hPlain : Plain (Regex.many (· == '\n') 3 none) := trivial
  exact sub_split hPlain hc text later

theorem trimBreaks_split (hSpace : (c == ' ') = false) (hBreak : (c == '\n') = false)
    (text later : Text) :
    trimBreaks (text ++ c :: later) = trimBreaks text ++ c :: trimBreaks later :=
  sub_split breakPattern_plain ⟨hSpace, hBreak, hSpace⟩ text later

theorem isGap_space {c : Char} (h : isGap c = false) :
    isBlank c = false ∧ (c == '\n') = false ∧ (c == ' ') = false := by
  rw [isGap, Bool.or_eq_false_iff] at h
  refine ⟨h.1, h.2, ?_⟩
  rw [beq_eq_false_iff_ne]
  rintro rfl
  exact absurd h.1 (by decide)

/-- The passes work on the gaps between other characters. -/
theorem tidy_split (hc : isGap c = false) (text later : Text) :
    tidy (text ++ c :: later) = tidy text ++ c :: tidy later := by
  obtain ⟨hBlank, hBreak, hSpace⟩ := isGap_space hc
  rw [tidy, squeezeBlanks_split hBlank, capBreaks_split hBreak, trimBreaks_split hSpace hBreak]
  rfl

theorem tidy_nil : tidy [] = [] := rfl

end Passes

/-! ## Gaps -/

/-- A text of blanks. -/
def Blanks (text : Text) : Prop := ∀ c ∈ text, isBlank c = true

/-- Three line breaks with only blanks between them, and some. -/
def Wide (gap : Text) : Prop :=
  ∃ first second, gap = '\n' :: (first ++ '\n' :: (second ++ ['\n'])) ∧ Blanks first ∧
    Blanks second ∧ (first ≠ [] ∨ second ≠ [])

/-- A text which has such line breaks. -/
def Gapped (text : Text) : Prop := ∃ gap, Wide gap ∧ gap <:+: text

theorem blanks_nil : Blanks [] := by simp [Blanks]

theorem blanks_cons {c : Char} {rest : Text} : Blanks (c :: rest) ↔ isBlank c = true ∧ Blanks rest :=
  List.forall_mem_cons

theorem Blanks.append {first second : Text} (hFirst : Blanks first) (hSecond : Blanks second) :
    Blanks (first ++ second) :=
  fun c hc => (List.mem_append.mp hc).elim (hFirst c) (hSecond c)

theorem Blanks.no_break {text : Text} (h : Blanks text) : '\n' ∉ text := by
  intro hMem
  exact absurd (h _ hMem) (by decide)

theorem Gapped.intro (before after : Text) {first second : Text} (hFirst : Blanks first)
    (hSecond : Blanks second) (hSome : first ≠ [] ∨ second ≠ []) :
    Gapped (before ++ '\n' :: (first ++ '\n' :: (second ++ '\n' :: after))) := by
  refine ⟨_, ⟨first, second, rfl, hFirst, hSecond, hSome⟩, before, after, ?_⟩
  simp

theorem Gapped.cons {text : Text} (h : Gapped text) (c : Char) : Gapped (c :: text) := by
  obtain ⟨gap, hWide, hIn⟩ := h
  exact ⟨gap, hWide, hIn.trans (List.suffix_cons c text).isInfix⟩

/-- A gap has no line break, or its line breaks follow one another, or there are two of them with
blanks in between, or it is wide. -/
inductive GapCases (gap : Text) : Prop where
  | blanks (h : Blanks gap)
  | breaks (more : Nat) {before after : Text} (hBefore : Blanks before) (hAfter : Blanks after)
      (hGap : gap = before ++ (List.replicate (more + 1) '\n' ++ after))
  | apart {before middle after : Text} (hBefore : Blanks before) (hMiddle : Blanks middle)
      (hAfter : Blanks after) (hSome : middle ≠ [])
      (hGap : gap = before ++ '\n' :: (middle ++ '\n' :: after))
  | wide (h : Gapped gap)

theorem gap_cases {gap : Text} (hGap : ∀ c ∈ gap, isGap c = true) : GapCases gap := by
  induction gap with
  | nil => exact .blanks blanks_nil
  | cons c rest ih =>
      rw [List.forall_mem_cons] at hGap
      by_cases hBlank : isBlank c = true
      · -- A blank in front changes nothing.
        cases ih hGap.2 with
        | blanks h => exact .blanks (blanks_cons.mpr ⟨hBlank, h⟩)
        | breaks _ hBefore hAfter hRest =>
            exact .breaks _ (blanks_cons.mpr ⟨hBlank, hBefore⟩) hAfter (by rw [hRest]; rfl)
        | apart hBefore hMiddle hAfter hSome hRest =>
            exact .apart (blanks_cons.mpr ⟨hBlank, hBefore⟩) hMiddle hAfter hSome (by rw [hRest]; rfl)
        | wide h => exact .wide (h.cons c)
      · obtain rfl : c = '\n' := by
          have hEither := hGap.1
          rw [isGap, Bool.or_eq_true, beq_iff_eq] at hEither
          exact hEither.resolve_left hBlank
        cases ih hGap.2 with
        | blanks h => exact .breaks 0 blanks_nil h rfl
        | @breaks more before after hBefore hAfter hRest =>
            subst hRest
            by_cases hNone : before = []
            · subst hNone
              exact .breaks (more + 1) blanks_nil hAfter rfl
            · cases more with
              | zero => exact .apart blanks_nil hBefore hAfter hNone rfl
              | succ more =>
                  apply GapCases.wide
                  exact Gapped.intro [] (List.replicate more '\n' ++ after) hBefore blanks_nil
                    (.inl hNone)
        | @apart before middle after hBefore hMiddle hAfter hSome hRest =>
            subst hRest
            exact .wide (Gapped.intro [] after hBefore hMiddle (.inr hSome))
        | wide h => exact .wide (h.cons _)

/-! ## What becomes of a gap -/

/-- Induction over the runs of a class of characters. -/
theorem run_induction {p : Char → Bool} {motive : Text → Prop}
    (hRun : ∀ run, (∀ c ∈ run, p c = true) → motive run)
    (hStep : ∀ run c rest, p c = false → motive run → motive rest → motive (run ++ c :: rest))
    (text : Text) : motive text := by
  induction hLength : text.length using Nat.strong_induction_on generalizing text with
  | _ length ih =>
      subst hLength
      have hRuns : ∀ c ∈ text.takeWhile p, p c = true := fun c hc => List.mem_takeWhile_imp hc
      have hText : text.takeWhile p ++ text.dropWhile p = text := List.takeWhile_append_dropWhile
      cases hRest : text.dropWhile p with
      | nil =>
          rw [hRest, List.append_nil] at hText
          rw [hText] at hRuns
          exact hRun text hRuns
      | cons c rest =>
          have hFirst : p c = false := Text.dropWhile_first (t := text) (by rw [hRest]; rfl)
          rw [hRest] at hText
          have hShorter : rest.length < text.length := by
            rw [← hText, List.length_append, List.length_cons]
            omega
          rw [← hText]
          exact hStep _ c rest hFirst (hRun _ hRuns) (ih rest.length hShorter rest rfl)

theorem squeezeBlanks_some {text : Text} (h : Blanks text) (hSome : text ≠ []) :
    squeezeBlanks text = [' '] :=
  sub_run h hSome (List.length_pos_iff.mpr hSome)

theorem squeezeBlanks_blanks {text : Text} (h : Blanks text) :
    squeezeBlanks text = [] ∨ squeezeBlanks text = [' '] := by
  by_cases hNone : text = []
  · left
    rw [hNone]
    rfl
  · exact .inr (squeezeBlanks_some h hNone)

theorem squeezeBlanks_break (text later : Text) :
    squeezeBlanks (text ++ '\n' :: later) = squeezeBlanks text ++ '\n' :: squeezeBlanks later :=
  squeezeBlanks_split (by decide) text later

theorem squeezeBlanks_breaks (n : Nat) (later : Text) :
    squeezeBlanks (List.replicate n '\n' ++ later) =
      List.replicate n '\n' ++ squeezeBlanks later := by
  induction n with
  | zero => rfl
  | succ n ih =>
      have hFirst := squeezeBlanks_break [] (List.replicate n '\n' ++ later)
      rw [ih] at hFirst
      exact hFirst

/-- The only blanks which are left are spaces. -/
theorem squeezeBlanks_space (text : Text) :
    ∀ c ∈ squeezeBlanks text, isBlank c = true → c = ' ' := by
  induction text using run_induction (p := isBlank) with
  | hRun run hRun =>
      intro c hc _
      rcases squeezeBlanks_blanks hRun with hNone | hOne
      · rw [hNone] at hc
        cases hc
      · rw [hOne] at hc
        exact List.mem_singleton.mp hc
  | hStep run c rest hOther hFront hBack =>
      rw [squeezeBlanks_split hOther]
      intro d hd hBlank
      rcases List.mem_append.mp hd with hRunMem | hLater
      · exact hFront d hRunMem hBlank
      · rcases List.mem_cons.mp hLater with rfl | hRest
        · rw [hOther] at hBlank
          cases hBlank
        · exact hBack d hRest hBlank

theorem capBreaks_space (text later : Text) :
    capBreaks (text ++ ' ' :: later) = capBreaks text ++ ' ' :: capBreaks later :=
  capBreaks_split (by decide) text later

theorem capBreaks_replicate (n : Nat) :
    capBreaks (List.replicate n '\n') = List.replicate (min n 2) '\n' := by
  rcases Nat.lt_or_ge n 3 with hShort | hLong
  · have hMin : min n 2 = n := by omega
    rw [hMin]
    exact sub_short (by simpa using hShort)
  · have hMin : min n 2 = 2 := by omega
    rw [hMin]
    apply sub_run
    · intro c hc
      rw [List.eq_of_mem_replicate hc]
      rfl
    · rw [← List.length_pos_iff, List.length_replicate]
      omega
    · rw [List.length_replicate]
      exact hLong

/-- Two line breaks are left where there were two or more. -/
theorem capBreaks_count (text : Text) : min 2 (text.count '\n') ≤ (capBreaks text).count '\n' := by
  rcases sub_same_or (Regex.many (· == '\n') 3 none) "\n\n".toList text with hSame | hIn
  · rw [capBreaks, hSame]
    omega
  · have hTwo := hIn.sublist.count_le '\n'
    have hCount : "\n\n".toList.count '\n' = 2 := rfl
    rw [hCount] at hTwo
    rw [capBreaks]
    omega

/-- A match takes the spaces around a line break. -/
theorem breakPattern_head {before after rest : Text} (hBefore : ∀ c ∈ before, (c == ' ') = true)
    (hAfter : ∀ c ∈ after, (c == ' ') = true)
    (hRest : ∀ c, rest.head? = some c → (c == ' ') = false) :
    ∃ behind, (breakPattern.stops ⟨[], before ++ '\n' :: (after ++ rest)⟩).head? =
      some ⟨behind, rest⟩ := by
  have hFirst : ((Regex.many (· == ' ') 0 none).stops
      ⟨[], before ++ '\n' :: (after ++ rest)⟩).head? =
        some ⟨before.reverse ++ [], '\n' :: (after ++ rest)⟩ := by
    apply manyFrom_run hBefore
    · intro c hc
      cases hc
      rfl
    · exact Nat.zero_le _
  have hSecond : ((Regex.one (· == '\n')).stops
      ⟨before.reverse ++ [], '\n' :: (after ++ rest)⟩).head? =
        some ⟨'\n' :: (before.reverse ++ []), after ++ rest⟩ := rfl
  have hThird : ((Regex.many (· == ' ') 0 none).stops
      ⟨'\n' :: (before.reverse ++ []), after ++ rest⟩).head? =
        some ⟨after.reverse ++ ('\n' :: (before.reverse ++ [])), rest⟩ :=
    manyFrom_run hAfter hRest (Nat.zero_le _) _
  exact ⟨_, stops_seq_head hFirst (stops_seq_head hSecond hThird)⟩

/-- In a gap with line breaks these alone are left. -/
theorem trimBreaks_gap {gap : Text} (hGap : ∀ c ∈ gap, c = ' ' ∨ c = '\n') (hBreak : '\n' ∈ gap) :
    trimBreaks gap = List.replicate (gap.count '\n') '\n' := by
  have hSpaces (text : Text) : ∀ c ∈ text.takeWhile (· == ' '), (c == ' ') = true :=
    fun c hc => List.mem_takeWhile_imp (p := (· == ' ')) hc
  have hNone (text : Text) : (text.takeWhile (· == ' ')).count '\n' = 0 := by
    rw [List.count_eq_zero]
    intro hMem
    exact absurd (hSpaces text _ hMem) (by decide)
  induction hLength : gap.length using Nat.strong_induction_on generalizing gap with
  | _ length ih =>
      subst hLength
      have hSplit : gap.takeWhile (· == ' ') ++ gap.dropWhile (· == ' ') = gap :=
        List.takeWhile_append_dropWhile
      obtain ⟨c, later, hLater⟩ : ∃ c later, gap.dropWhile (· == ' ') = c :: later := by
        cases hDrop : gap.dropWhile (· == ' ') with
        | nil =>
            rw [hDrop, List.append_nil] at hSplit
            rw [← hSplit] at hBreak
            exact absurd (hNone gap) (by rw [List.count_eq_zero]; exact fun h => h hBreak)
        | cons c later => exact ⟨c, later, rfl⟩
      rw [hLater] at hSplit
      obtain rfl : c = '\n' := by
        have hFirst : (c == ' ') = false :=
          Text.dropWhile_first (p := (· == ' ')) (t := gap) (by rw [hLater]; rfl)
        have hMem : c ∈ gap := by
          rw [← hSplit]
          simp
        rw [beq_eq_false_iff_ne] at hFirst
        exact (hGap c hMem).resolve_left hFirst
      have hAgain : later.takeWhile (· == ' ') ++ later.dropWhile (· == ' ') = later :=
        List.takeWhile_append_dropWhile
      have hRestFirst : ∀ c, (later.dropWhile (· == ' ')).head? = some c → (c == ' ') = false :=
        fun c hc => Text.dropWhile_first (p := (· == ' ')) hc
      have hSuffix := List.dropWhile_suffix (l := later) (· == ' ')
      have hRestGap : ∀ c ∈ later.dropWhile (· == ' '), c = ' ' ∨ c = '\n' := by
        intro c hc
        apply hGap
        rw [← hSplit]
        exact List.mem_append_right _ (List.mem_cons_of_mem _ (hSuffix.subset hc))
      have hShorter : (later.dropWhile (· == ' ')).length < gap.length := by
        have hLe := hSuffix.length_le
        rw [← hSplit, List.length_append, List.length_cons]
        omega
      obtain ⟨behind, hHead⟩ := breakPattern_head (hSpaces gap) (hSpaces later) hRestFirst
      rw [hAgain, hSplit] at hHead
      have hCount : gap.count '\n' = 1 + (later.dropWhile (· == ' ')).count '\n' := by
        have hFront := hNone gap
        have hMiddle := hNone later
        have hWhole := congrArg (List.count '\n') hSplit
        have hRest := congrArg (List.count '\n') hAgain
        rw [List.count_append, List.count_cons_self] at hWhole
        rw [List.count_append] at hRest
        omega
      have hStep : trimBreaks gap = '\n' :: trimBreaks (later.dropWhile (· == ' ')) :=
        sub_match breakPattern_plain hHead hShorter
      have hRest : trimBreaks (later.dropWhile (· == ' ')) =
          List.replicate ((later.dropWhile (· == ' ')).count '\n') '\n' := by
        cases hDrop : later.dropWhile (· == ' ') with
        | nil => rfl
        | cons c rest =>
            have hOther := hRestFirst c (by rw [hDrop]; rfl)
            rw [beq_eq_false_iff_ne] at hOther
            obtain rfl : c = '\n' := (hRestGap c (by rw [hDrop]; simp)).resolve_left hOther
            rw [hDrop] at hRestGap hShorter
            exact ih _ hShorter hRestGap (by simp) rfl
      rw [hStep, hRest, hCount, Nat.add_comm, List.replicate_succ]

section Gaps

variable {gap : Text}

/-- After the first two passes a gap has only spaces and line breaks. -/
theorem capped_gap (hGap : ∀ c ∈ gap, isGap c = true) :
    ∀ c ∈ capBreaks (squeezeBlanks gap), c = ' ' ∨ c = '\n' := by
  intro c hc
  rcases mem_sub hc with hSqueezed | hNew
  · have hKind : isGap c = true := by
      rcases mem_sub hSqueezed with hOld | hSpace
      · exact hGap c hOld
      · rw [List.mem_singleton.mp hSpace]
        rfl
    rw [isGap, Bool.or_eq_true, beq_iff_eq] at hKind
    rcases hKind with hBlank | hBreak
    · exact .inl (squeezeBlanks_space gap c hSqueezed hBlank)
    · exact .inr hBreak
  · right
    simpa using hNew

theorem capBreaks_none {text : Text} (h : '\n' ∉ text) : capBreaks text = text := by
  have hNeeds : Needs (fun c => c = '\n') (Regex.many (· == '\n') 3 none) :=
    ⟨by decide, fun c hc => eq_of_beq hc⟩
  apply sub_eq_self hNeeds
  rintro c hc rfl
  exact h hc

theorem trimBreaks_none {text : Text} (h : '\n' ∉ text) : trimBreaks text = text := by
  have hNeeds : Needs (fun c => c = '\n') breakPattern :=
    .inr (.inl fun c hc => eq_of_beq hc)
  apply sub_eq_self hNeeds
  rintro c hc rfl
  exact h hc

/-- Blanks alone become one space. -/
theorem tidy_blanks (h : Blanks gap) : tidy gap = [] ∨ tidy gap = [' '] := by
  have hKeep {text : Text} (hNone : '\n' ∉ text) : trimBreaks (capBreaks text) = text := by
    rw [capBreaks_none hNone, trimBreaks_none hNone]
  rcases squeezeBlanks_blanks h with hNone | hOne
  · left
    rw [tidy, hNone]
    rfl
  · right
    rw [tidy, hOne, hKeep (by decide)]

/-- With line breaks only these are left, as many as after the first two passes. -/
theorem tidy_breaks (hGap : ∀ c ∈ gap, isGap c = true)
    (hSome : 0 < (capBreaks (squeezeBlanks gap)).count '\n') :
    tidy gap = List.replicate ((capBreaks (squeezeBlanks gap)).count '\n') '\n' :=
  trimBreaks_gap (capped_gap hGap) (List.count_pos_iff.mp hSome)

/-- In a wide gap three line breaks are left at least. -/
theorem count_gapped (h : Gapped gap) : 3 ≤ (capBreaks (squeezeBlanks gap)).count '\n' := by
  obtain ⟨_, ⟨first, second, rfl, hFirst, hSecond, hSome⟩, before, after, rfl⟩ := h
  have hText : before ++ '\n' :: (first ++ '\n' :: (second ++ ['\n'])) ++ after =
      before ++ '\n' :: (first ++ '\n' :: (second ++ '\n' :: after)) := by simp
  rw [hText, squeezeBlanks_break, squeezeBlanks_break, squeezeBlanks_break]
  -- A space stands between two of the line breaks, on one side of which there is a third one.
  have hParts (front back : Text) (hTotal : 3 ≤ min 2 (front.count '\n') + min 2 (back.count '\n')) :
      3 ≤ (capBreaks (front ++ ' ' :: back)).count '\n' := by
    have hFront := capBreaks_count front
    have hBack := capBreaks_count back
    have hSpace : (' ' :: capBreaks back).count '\n' = (capBreaks back).count '\n' := rfl
    rw [capBreaks_space, List.count_append, hSpace]
    omega
  rcases hSome with hSome | hSome
  · have hCut : squeezeBlanks before ++ '\n' :: (squeezeBlanks first ++
        '\n' :: (squeezeBlanks second ++ '\n' :: squeezeBlanks after)) =
        (squeezeBlanks before ++ ['\n']) ++ ' ' ::
          ('\n' :: (squeezeBlanks second ++ '\n' :: squeezeBlanks after)) := by
      simp [squeezeBlanks_some hFirst hSome]
    rw [hCut]
    apply hParts
    simp only [List.count_append, List.count_cons_self, List.count_nil]
    omega
  · have hCut : squeezeBlanks before ++ '\n' :: (squeezeBlanks first ++
        '\n' :: (squeezeBlanks second ++ '\n' :: squeezeBlanks after)) =
        (squeezeBlanks before ++ '\n' :: (squeezeBlanks first ++ ['\n'])) ++ ' ' ::
          ('\n' :: squeezeBlanks after) := by
      simp [squeezeBlanks_some hSecond hSome]
    rw [hCut]
    apply hParts
    simp only [List.count_append, List.count_cons_self, List.count_nil]
    omega

/-- In every other gap there are at most two. -/
theorem count_not_gapped (hGap : ∀ c ∈ gap, isGap c = true) (h : ¬ Gapped gap) :
    (capBreaks (squeezeBlanks gap)).count '\n' ≤ 2 := by
  -- Blanks at the ends of a gap make no difference.
  have hEnds {before after : Text} (hBefore : Blanks before) (hAfter : Blanks after)
      (middle : Text) : (capBreaks (squeezeBlanks before ++ (middle ++ squeezeBlanks after))).count
        '\n' = (capBreaks middle).count '\n' := by
    have hBack : (capBreaks (middle ++ squeezeBlanks after)).count '\n' =
        (capBreaks middle).count '\n' := by
      rcases squeezeBlanks_blanks hAfter with hNone | hOne
      · rw [hNone, List.append_nil]
      · rw [hOne, capBreaks_space, List.count_append]
        rfl
    rcases squeezeBlanks_blanks hBefore with hNone | hOne
    · rw [hNone, List.nil_append, hBack]
    · have hFront := capBreaks_space [] (middle ++ squeezeBlanks after)
      rw [hOne, ← hBack]
      rw [List.nil_append] at hFront
      rw [List.singleton_append, hFront]
      rfl
  cases gap_cases hGap with
  | blanks hBlanks =>
      have hNone : (capBreaks (squeezeBlanks gap)).count '\n' = 0 := by
        rcases squeezeBlanks_blanks hBlanks with hNone | hOne
        · rw [hNone]
          rfl
        · rw [hOne, capBreaks_none (by decide)]
          rfl
      omega
  | @breaks more before after hBefore hAfter hText =>
      have hSqueezed : squeezeBlanks gap = squeezeBlanks before ++
          (List.replicate (more + 1) '\n' ++ squeezeBlanks after) := by
        rw [hText, List.replicate_succ, List.cons_append, squeezeBlanks_break,
          squeezeBlanks_breaks, List.cons_append]
      rw [hSqueezed, hEnds hBefore hAfter, capBreaks_replicate, List.count_replicate_self]
      omega
  | @apart before middle after hBefore hMiddle hAfter hSome hText =>
      have hSqueezed : squeezeBlanks gap = squeezeBlanks before ++
          ("\n \n".toList ++ squeezeBlanks after) := by
        rw [hText, squeezeBlanks_break, squeezeBlanks_break, squeezeBlanks_some hMiddle hSome]
        rfl
      rw [hSqueezed, hEnds hBefore hAfter]
      decide
  | wide hWide => exact absurd hWide h

end Gaps

/-! ## The normal form -/

/-- No three line breaks follow one another, no space stands next to a line break and no two spaces
stand side by side. -/
structure Tidy (text : Text) : Prop where
  breaks : ¬ "\n\n\n".toList <:+: text
  before : ¬ " \n".toList <:+: text
  after : ¬ "\n ".toList <:+: text
  spaces : ¬ "  ".toList <:+: text

/-- A line break does not get lost. -/
theorem count_break {gap : Text} (h : '\n' ∈ gap) :
    0 < (capBreaks (squeezeBlanks gap)).count '\n' := by
  obtain ⟨before, after, rfl⟩ := List.append_of_mem h
  have hCount := capBreaks_count (squeezeBlanks (before ++ '\n' :: after))
  have hSqueezed : 0 < (squeezeBlanks (before ++ '\n' :: after)).count '\n' := by
    rw [squeezeBlanks_break, List.count_append, List.count_cons_self]
    omega
  omega

/-- A gap becomes a space, or some line breaks, or nothing, and it is settled unless it is wide. -/
theorem tidy_gap {gap : Text} (hGap : ∀ c ∈ gap, isGap c = true) :
    (Blanks gap ∧ (tidy gap = [] ∨ tidy gap = [' '])) ∨
      ∃ k, tidy gap = List.replicate k '\n' ∧ (3 ≤ k ↔ Gapped gap) := by
  by_cases hBreak : '\n' ∈ gap
  · right
    refine ⟨_, tidy_breaks hGap (count_break hBreak), ?_⟩
    constructor
    · intro hMany
      by_contra hNot
      have hFew := count_not_gapped hGap hNot
      omega
    · exact count_gapped
  · left
    have hBlanks : Blanks gap := by
      intro c hc
      have hKind := hGap c hc
      rw [isGap, Bool.or_eq_true, beq_iff_eq] at hKind
      apply hKind.resolve_right
      rintro rfl
      exact hBreak hc
    exact ⟨hBlanks, tidy_blanks hBlanks⟩

theorem tidy_replicate (k : Nat) (hFew : k ≤ 2) :
    tidy (List.replicate k '\n') = List.replicate k '\n' := by
  obtain rfl | rfl | rfl : k = 0 ∨ k = 1 ∨ k = 2 := by omega
  · decide
  · decide
  · decide

/-- A wide gap has a line break. -/
theorem Wide.not_mem {gap : Text} (h : Wide gap) {c : Char} (hc : isGap c = false) : c ∉ gap := by
  obtain ⟨first, second, rfl, hFirst, hSecond, -⟩ := h
  obtain ⟨hBlank, hBreak, -⟩ := isGap_space hc
  rw [beq_eq_false_iff_ne] at hBreak
  have hNot {text : Text} (hText : Blanks text) : c ∉ text := by
    intro hMem
    rw [hText c hMem] at hBlank
    cases hBlank
  simp [hBreak, hNot hFirst, hNot hSecond]

theorem gapped_split {c : Char} (hc : isGap c = false) (text later : Text) :
    Gapped (text ++ c :: later) ↔ Gapped text ∨ Gapped later := by
  constructor
  · rintro ⟨gap, hWide, hIn⟩
    rcases (infix_split (hWide.not_mem hc)).mp hIn with hText | hLater
    · exact .inl ⟨gap, hWide, hText⟩
    · exact .inr ⟨gap, hWide, hLater⟩
  · rintro (⟨gap, hWide, hIn⟩ | ⟨gap, hWide, hIn⟩)
    · exact ⟨gap, hWide, (infix_split (hWide.not_mem hc)).mpr (.inl hIn)⟩
    · exact ⟨gap, hWide, (infix_split (hWide.not_mem hc)).mpr (.inr hIn)⟩

/-- The pieces which the normal form excludes are made of gap characters. -/
theorem infix_gap {piece : Text} (hPiece : piece.all isGap = true) {c : Char} (hc : isGap c = false)
    (text later : Text) : piece <:+: text ++ c :: later ↔ piece <:+: text ∨ piece <:+: later := by
  apply infix_split
  intro hMem
  rw [List.all_eq_true.mp hPiece c hMem] at hc
  cases hc

theorem infix_replicate {piece : Text} {c : Char} {k : Nat}
    (h : piece <:+: List.replicate k c) : ∀ d ∈ piece, d = c :=
  fun _ hd => List.eq_of_mem_replicate (h.subset hd)

/-- Spaces are set right in any case. -/
theorem tidy_spaces (text : Text) : ¬ " \n".toList <:+: tidy text ∧ ¬ "\n ".toList <:+: tidy text ∧
    ¬ "  ".toList <:+: tidy text := by
  induction text using run_induction (p := isGap) with
  | hRun gap hGap =>
      rcases tidy_gap hGap with ⟨-, hNone | hOne⟩ | ⟨k, hBreaks, -⟩
      · rw [hNone]
        decide
      · rw [hOne]
        decide
      · rw [hBreaks]
        refine ⟨?_, ?_, ?_⟩
        · intro h
          exact absurd (infix_replicate h ' ' (by decide)) (by decide)
        · intro h
          exact absurd (infix_replicate h ' ' (by decide)) (by decide)
        · intro h
          exact absurd (infix_replicate h ' ' (by decide)) (by decide)
  | hStep gap c rest hOther hFront hBack =>
      rw [tidy_split hOther, infix_gap rfl hOther, infix_gap rfl hOther, infix_gap rfl hOther]
      tauto

/-- Three line breaks follow one another just if some gap is wide. -/
theorem tidy_run_iff (text : Text) : "\n\n\n".toList <:+: tidy text ↔ Gapped text := by
  induction text using run_induction (p := isGap) with
  | hRun gap hGap =>
      rcases tidy_gap hGap with ⟨hBlanks, hTidy⟩ | ⟨k, hBreaks, hMany⟩
      · have hNot : ¬ Gapped gap := by
          rintro ⟨_, ⟨first, second, rfl, -⟩, hIn⟩
          exact hBlanks.no_break (hIn.subset (List.mem_cons_self ..))
        have hNone : ¬ "\n\n\n".toList <:+: tidy gap := by
          rcases hTidy with h | h
          · rw [h]
            decide
          · rw [h]
            decide
        exact iff_of_false hNone hNot
      · rw [hBreaks, ← hMany]
        constructor
        · intro hIn
          simpa using hIn.length_le
        · intro hThree
          obtain ⟨more, rfl⟩ := Nat.exists_eq_add_of_le hThree
          exact ⟨[], List.replicate more '\n', by rw [List.replicate_add]; rfl⟩
  | hStep gap c rest hOther hFront hBack =>
      rw [tidy_split hOther, infix_gap rfl hOther, gapped_split hOther, hFront, hBack]

/-- Otherwise a second run changes nothing. -/
theorem tidy_tidy {text : Text} (h : ¬ Gapped text) : tidy (tidy text) = tidy text := by
  induction text using run_induction (p := isGap) with
  | hRun gap hGap =>
      rcases tidy_gap hGap with ⟨-, hNone | hOne⟩ | ⟨k, hBreaks, hMany⟩
      · rw [hNone]
        rfl
      · rw [hOne]
        decide
      · rw [hBreaks]
        apply tidy_replicate
        by_contra hThree
        exact h (hMany.mp (by omega))
  | hStep gap c rest hOther hFront hBack =>
      rw [gapped_split hOther, not_or] at h
      rw [tidy_split hOther, tidy_split hOther, hFront h.1, hBack h.2]

/-! ## Both ends -/

theorem isGap_isSpace {c : Char} (h : Text.isSpace c = false) : isGap c = false := by
  have hAll : (" \t\r\x0c\x0b\n".toList).all Text.isSpace = true := by decide
  by_contra hGap
  have hMem : c ∈ " \t\r\x0c\x0b\n".toList := by
    rw [Bool.not_eq_false, isGap, Bool.or_eq_true, isBlank, List.contains_iff_mem, beq_iff_eq] at hGap
    rcases hGap with hBlank | rfl
    · exact List.mem_append_left ['\n'] hBlank
    · simp
  rw [List.all_eq_true.mp hAll c hMem] at h
  cases h

theorem Blank.tidy {text : Text} (h : Blank text) : Blank (tidy text) := by
  intro c hc
  have hSpaces : (" \n\n\n".toList).all Text.isSpace = true := by decide
  rcases mem_sub hc with hCapped | hNew
  · rcases mem_sub hCapped with hSqueezed | hNew
    · rcases mem_sub hSqueezed with hOld | hNew
      · exact h c hOld
      · rw [List.mem_singleton.mp hNew]
        decide
    · obtain rfl : c = '\n' := by simpa using hNew
      decide
  · rw [List.mem_singleton.mp hNew]
    decide

theorem tidy_cons {c : Char} (hc : isGap c = false) (rest : Text) : tidy (c :: rest) = c :: tidy rest :=
  tidy_split hc [] rest

/-- Stripping may come first. -/
theorem collapseWhitespace_strip (text : Text) :
    collapseWhitespace text = tidy (Text.strip text) := by
  obtain ⟨front, back, hFront, hBack, hText, hStripped⟩ := Text.exists_strip text
  rw [collapseWhitespace_eq]
  by_cases hCore : Text.strip text = []
  · have hBlank : Blank text := by
      rw [hText, hCore, List.append_nil]
      exact hFront.append hBack
    rw [hCore, Text.strip_blank hBlank.tidy]
    rfl
  · -- The first and the last character of what is stripped separate it from both ends.
    obtain ⟨first, later, hFirst⟩ := List.exists_cons_of_ne_nil hCore
    have hLast := (List.dropLast_append_getLast hCore).symm
    have hFirstInk := isGap_isSpace (hStripped.first first (by rw [hFirst]; rfl))
    have hLastInk := isGap_isSpace
      (hStripped.last _ (List.getLast?_eq_some_getLast hCore))
    have hParts : tidy text = tidy front ++ tidy (Text.strip text) ++ tidy back := by
      calc tidy text = tidy (front ++ (Text.strip text ++ back)) := by
            rw [← List.append_assoc, ← hText]
        _ = tidy front ++ tidy (Text.strip text ++ back) := by
            rw [hFirst, List.cons_append, tidy_split hFirstInk, tidy_cons hFirstInk]
        _ = tidy front ++ tidy (Text.strip text) ++ tidy back := by
            rw [hLast, List.append_assoc, List.singleton_append, tidy_split hLastInk,
              tidy_split hLastInk, tidy_nil]
            simp
    have hEnds : Text.Stripped (tidy (Text.strip text)) := by
      constructor
      · intro c hc
        rw [hFirst, tidy_cons hFirstInk] at hc
        cases hc
        exact hStripped.first first (by rw [hFirst]; rfl)
      · intro c hc
        rw [hLast, tidy_split hLastInk, tidy_nil, List.getLast?_concat] at hc
        cases hc
        exact hStripped.last _ (List.getLast?_eq_some_getLast hCore)
    rw [hParts]
    exact Text.strip_padded hFront.tidy hBack.tidy hEnds

/-- Whitespace is in normal form, for good, if and only if no gap inside the text is wide. -/
theorem collapseWhitespace_tidy (text : Text) :
    Tidy (collapseWhitespace text) ∧
      collapseWhitespace (collapseWhitespace text) = collapseWhitespace text ↔
    ¬ Gapped (Text.strip text) := by
  have hAgain : collapseWhitespace (collapseWhitespace text) = tidy (collapseWhitespace text) := by
    rw [collapseWhitespace_strip (collapseWhitespace text)]
    congr 1
    rw [collapseWhitespace_eq, Text.strip_strip]
  rw [hAgain, collapseWhitespace_strip, ← tidy_run_iff]
  obtain ⟨hBefore, hAfter, hSpaces⟩ := tidy_spaces (Text.strip text)
  constructor
  · rintro ⟨hTidy, -⟩
    exact hTidy.breaks
  · intro hBreaks
    exact ⟨⟨hBreaks, hBefore, hAfter, hSpaces⟩, tidy_tidy fun h => hBreaks ((tidy_run_iff _).mpr h)⟩

/-- A blank line with a space in it, between others. -/
theorem collapseWhitespace_wide : ¬ ∀ text, Tidy (collapseWhitespace text) ∧
    collapseWhitespace (collapseWhitespace text) = collapseWhitespace text := by
  intro h
  have hCollapsed : collapseWhitespace "a\n \n \nb".toList = "a\n\n\nb".toList := by decide
  have hTidy := (h "a\n \n \nb".toList).1.breaks
  rw [hCollapsed] at hTidy
  exact hTidy ⟨['a'], ['b'], rfl⟩

end Ecrke
