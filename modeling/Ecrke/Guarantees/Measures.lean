import Ecrke.Guarantees.Candidates
import Ecrke.Guarantees.Clusters
import Ecrke.Text.Coverage
import Ecrke.Text.Strip

/-!
# The lexical measures

Three ratios of shared words decide what the judges are asked: the support of a statement by its
passage, and the two overlaps of a pair of statements.

* `jaccardOverlap_similarity`, `containmentOverlap_coverage` -- the overlaps of sets of words.
* `negationSignal_comm`, `negationSignal_candidate` -- the negation signal.
* `overlaps_fit` -- how the overlaps and the signal fit together.
* `tokens_extend` -- the words of a text which goes on behind a space.
* `scoreSupport_eq`, `scoreSupport_monotone` -- a longer passage supports a statement no less.
-/

namespace Ecrke

/-! ## Overlaps of pairs -/

section Overlaps

variable {u : Unicode} {a b : List Text}

theorem jaccardOverlap_similarity (ha : a.Nodup) (hb : b.Nodup) :
    jaccardOverlap a b = similarity a.toFinset b.toFinset := jaccardOverlap_eq ha hb

theorem sharedTokens_coverage (ha : a.Nodup) :
    ((sharedTokens a b).length : ℚ) / a.length = coverage a.toFinset b.toFinset := by
  rw [coverage, sharedTokens_card ha, List.toFinset_card_of_nodup ha]

/-- The containment is the smaller part which one of the sets covers of the other, also where one
of them is empty. -/
theorem containmentOverlap_coverage (ha : a.Nodup) (hb : b.Nodup) :
    containmentOverlap a b =
      min (coverage a.toFinset b.toFinset) (coverage b.toFinset a.toFinset) := by
  have hShared : (sharedTokens a b).length = (sharedTokens b a).length := by
    rw [sharedTokens_card ha, sharedTokens_card hb, Finset.inter_comm]
  unfold containmentOverlap
  split
  case isTrue hEmpty =>
    rw [Bool.or_eq_true, List.isEmpty_iff, List.isEmpty_iff] at hEmpty
    rcases hEmpty with rfl | rfl
    · simp [coverage]
    · simp [coverage]
  case isFalse =>
    rw [sharedTokens_coverage ha, hShared, sharedTokens_coverage hb]

theorem jaccardOverlap_comm (ha : a.Nodup) (hb : b.Nodup) :
    jaccardOverlap a b = jaccardOverlap b a := by
  rw [jaccardOverlap_similarity ha hb, jaccardOverlap_similarity hb ha, similarity_comm]

theorem containmentOverlap_comm (ha : a.Nodup) (hb : b.Nodup) :
    containmentOverlap a b = containmentOverlap b a := by
  rw [containmentOverlap_coverage ha hb, containmentOverlap_coverage hb ha, min_comm]

theorem jaccardOverlap_le_containmentOverlap (ha : a.Nodup) (hb : b.Nodup) (haSome : a ≠ [])
    (hbSome : b ≠ []) : jaccardOverlap a b ≤ containmentOverlap a b := by
  rw [jaccardOverlap_similarity ha hb, containmentOverlap_coverage ha hb]
  apply le_min
  · exact similarity_le_coverage (List.toFinset_nonempty_iff a |>.mpr haSome)
  · rw [similarity_comm]
    exact similarity_le_coverage (List.toFinset_nonempty_iff b |>.mpr hbSome)

theorem containmentOverlap_le_one (ha : a.Nodup) (hb : b.Nodup) : containmentOverlap a b ≤ 1 := by
  rw [containmentOverlap_coverage ha hb]
  exact (min_le_left _ _).trans coverage_le_one

/-- The threshold of the confirmation is above that of the candidates. -/
theorem jaccardOverlap_ge (ha : a.Nodup) (hb : b.Nodup) (h : 4 / 10 ≤ containmentOverlap a b) :
    25 / 100 ≤ jaccardOverlap a b := by
  rw [containmentOverlap_coverage ha hb, le_min_iff] at h
  rw [jaccardOverlap_similarity ha hb]
  calc (25 / 100 : ℚ) = 4 / 10 / (2 - 4 / 10) := by norm_num
    _ ≤ similarity a.toFinset b.toFinset := similarity_ge (by norm_num) h.1 h.2

theorem tokens_nodup (u : Unicode) (text : Text) : (tokens u text).Nodup := List.nodup_dedup _

theorem negationSignal_comm (u : Unicode) (aText bText : Text) :
    negationSignal u aText bText = negationSignal u bText aText := by
  have hOverlap := containmentOverlap_comm (tokens_nodup u aText) (tokens_nodup u bText)
  rw [negationSignal, negationSignal, hOverlap, bne_comm]

theorem negationSignal_candidate {aText bText : Text} (h : negationSignal u aText bText = true) :
    25 / 100 ≤ jaccardOverlap (tokens u aText) (tokens u bText) := by
  unfold negationSignal at h
  split at h
  case isTrue => cases h
  case isFalse hOverlap =>
    exact jaccardOverlap_ge (tokens_nodup u aText) (tokens_nodup u bText) (not_lt.mp hOverlap)

end Overlaps

/-- The overlaps of sets of words are symmetric, between zero and one, and in order; the signal is
symmetric; and the pairs for which it is given are candidates. -/
theorem overlaps_fit (u : Unicode) {a b : List Text} (ha : a.Nodup) (hb : b.Nodup) :
    jaccardOverlap a b = jaccardOverlap b a ∧ containmentOverlap a b = containmentOverlap b a ∧
      (a ≠ [] → b ≠ [] → 0 ≤ jaccardOverlap a b ∧ jaccardOverlap a b ≤ containmentOverlap a b ∧
        containmentOverlap a b ≤ 1) ∧
      (4 / 10 ≤ containmentOverlap a b → 25 / 100 ≤ jaccardOverlap a b) ∧
      (∀ aText bText, negationSignal u aText bText = negationSignal u bText aText) ∧
      (∀ aText bText, negationSignal u aText bText = true →
        candidateOverlapThreshold ≤ jaccardOverlap (tokens u aText) (tokens u bText)) ∧
      ∀ statements, ∀ pair ∈ pairsOf (sortedVerified statements),
        negationSignal u (redactSecrets u pair.1.text) (redactSecrets u pair.2.text) = true →
          pair ∈ candidatePairs u statements := by
  have hSignal (aText bText : Text) (h : negationSignal u aText bText = true) :
      candidateOverlapThreshold ≤ jaccardOverlap (tokens u aText) (tokens u bText) := by
    have hThreshold : candidateOverlapThreshold ≤ 25 / 100 := by
      norm_num [candidateOverlapThreshold]
    exact hThreshold.trans (negationSignal_candidate h)
  refine ⟨jaccardOverlap_comm ha hb, containmentOverlap_comm ha hb, ?_, jaccardOverlap_ge ha hb,
    negationSignal_comm u, hSignal, ?_⟩
  · intro haSome hbSome
    refine ⟨?_, jaccardOverlap_le_containmentOverlap ha hb haSome hbSome,
      containmentOverlap_le_one ha hb⟩
    rw [jaccardOverlap_similarity ha hb]
    exact similarity_nonneg
  · intro statements pair hPair hGiven
    refine List.mem_filter.mpr ⟨hPair, ?_⟩
    rw [isCandidate, decide_eq_true (hSignal _ _ hGiven), Bool.true_or, Bool.true_or]

/-- For example two sets of two words each which share one. -/
theorem overlaps_fit_pair :
    4 / 10 ≤ containmentOverlap ["a".toList, "b".toList] ["a".toList, "c".toList] ∧
      25 / 100 ≤ jaccardOverlap ["a".toList, "b".toList] ["a".toList, "c".toList] := by
  have hFit := overlaps_fit Platform.plain.unicode (a := ["a".toList, "b".toList])
    (b := ["a".toList, "c".toList]) (by decide) (by decide)
  have hHigh : 4 / 10 ≤ containmentOverlap ["a".toList, "b".toList] ["a".toList, "c".toList] := by
    decide +kernel
  exact ⟨hHigh, hFit.2.2.2.1 hHigh⟩

/-! ## Support by a passage -/

/-- Casefolding leaves whitespace outside ASCII as it is. -/
def Unicode.FoldsSpaces (u : Unicode) : Prop := ∀ c, Text.isSpace c = true → u.casefold c = [c]

/-- The score of a ratio. -/
def scoreAt (ratio : ℚ) : EvidenceScore :=
  if fullThreshold ≤ ratio then .full
  else if partialThreshold ≤ ratio then .partial_
  else .none

/-- The part of the words of a statement which are in a passage. -/
def supportRatio (u : Unicode) (statementText passageText : Text) : ℚ :=
  coverage (tokens u statementText).toFinset (tokens u passageText).toFinset

section Support

variable {u : Unicode}

theorem scoreAt_mono {r r' : ℚ} (h : r ≤ r') : (scoreAt r).rank ≤ (scoreAt r').rank := by
  have hThresholds : partialThreshold ≤ fullThreshold := by
    norm_num [partialThreshold, fullThreshold]
  unfold scoreAt
  by_cases hFull : fullThreshold ≤ r
  · rw [if_pos hFull, if_pos (hFull.trans h)]
  · rw [if_neg hFull]
    by_cases hPartial : partialThreshold ≤ r
    · rw [if_pos hPartial, if_pos (hPartial.trans h)]
      split
      · exact Nat.le_succ 1
      · exact le_rfl
    · rw [if_neg hPartial]
      exact Nat.zero_le _

theorem scoreAt_zero : scoreAt 0 = .none := by
  norm_num [scoreAt, fullThreshold, partialThreshold]

/-! ### Words -/

/-- The words of a casefolded text, in order. -/
def wordsOf (folded : Text) : List Text :=
  (folded.splitOnP fun c => !isTokenChar c).filter fun t => !t.isEmpty

theorem tokens_eq (text : Text) : tokens u text = (wordsOf (Text.casefold u text)).dedup := rfl

/-- No word goes over a separator. -/
theorem wordsOf_append {c : Char} (hc : isTokenChar c = false) (front back : Text) :
    wordsOf (front ++ c :: back) = wordsOf front ++ wordsOf back := by
  unfold wordsOf
  rw [List.splitOnP_append_cons front back (by rw [hc]; rfl), List.filter_append]

theorem wordsOf_separators {text : Text} (h : ∀ c ∈ text, isTokenChar c = false) :
    wordsOf text = [] := by
  induction text with
  | nil => rfl
  | cons c rest ih =>
      rw [List.forall_mem_cons] at h
      rw [← List.nil_append (c :: rest), wordsOf_append h.1, ih h.2]
      rfl

/-- A character of whitespace is no letter and no digit. -/
theorem plain_space {c : Char} (h : Text.isSpace c = true) :
    c.isUpper = false ∧ c.isLower = false ∧ c.isDigit = false := by
  have hOutside : ¬ (65 ≤ c.toNat ∧ c.toNat ≤ 90) ∧ ¬ (97 ≤ c.toNat ∧ c.toNat ≤ 122) ∧
      ¬ (48 ≤ c.toNat ∧ c.toNat ≤ 57) := by
    simp only [Text.isSpace, Bool.or_eq_true, Bool.and_eq_true, decide_eq_true_eq,
      List.contains_iff_mem, List.mem_cons, List.not_mem_nil, or_false] at h
    omega
  have hRange (low high : UInt32) (hNot : ¬ (low.toNat ≤ c.toNat ∧ c.toNat ≤ high.toNat)) :
      (decide (low ≤ c.val) && decide (c.val ≤ high)) = false := by
    rw [← Bool.decide_and]
    exact decide_eq_false hNot
  exact ⟨decide_eq_false hOutside.1, hRange 97 122 hOutside.2.1, hRange 48 57 hOutside.2.2⟩

theorem isTokenChar_space {c : Char} (h : Text.isSpace c = true) : isTokenChar c = false := by
  obtain ⟨-, hLower, hDigit⟩ := plain_space h
  rw [isTokenChar, hLower, hDigit]
  rfl

theorem casefoldChar_space (hSpaces : u.FoldsSpaces) {c : Char} (h : Text.isSpace c = true) :
    u.casefoldChar c = [c] := by
  unfold Unicode.casefoldChar
  split
  · have hUpper : ¬ (c.val ≥ 'A'.val ∧ c.val ≤ 'Z'.val) := of_decide_eq_false (plain_space h).1
    delta Char.toLower
    rw [dif_neg hUpper]
  · exact hSpaces c h

/-- A text which goes on behind a space has the words of both parts. -/
theorem tokens_extend (text later : Text) :
    (tokens u (text ++ ' ' :: later)).toFinset =
      (tokens u text).toFinset ∪ (tokens u later).toFinset := by
  have hSpace : u.casefoldChar ' ' = [' '] := rfl
  have hFold : Text.casefold u (text ++ ' ' :: later) =
      Text.casefold u text ++ ' ' :: Text.casefold u later := by
    unfold Text.casefold
    rw [List.flatMap_append, List.flatMap_cons, hSpace, List.singleton_append]
  have hWords : wordsOf (Text.casefold u (text ++ ' ' :: later)) =
      wordsOf (Text.casefold u text) ++ wordsOf (Text.casefold u later) := by
    rw [hFold, wordsOf_append rfl]
  ext word
  simp only [tokens_eq, hWords, List.mem_toFinset, List.mem_dedup, List.mem_append,
    Finset.mem_union]

/-- There are no words in a blank text. -/
theorem tokens_blank (hSpaces : u.FoldsSpaces) {text : Text} (h : Blank text) :
    tokens u text = [] := by
  have hFold : Text.casefold u text = text := by
    induction text with
    | nil => rfl
    | cons c rest ih =>
        have hRest : Blank rest := fun d hd => h d (List.mem_cons_of_mem _ hd)
        have hFirst := casefoldChar_space hSpaces (h c List.mem_cons_self)
        show u.casefoldChar c ++ Text.casefold u rest = c :: rest
        rw [hFirst, ih hRest, List.singleton_append]
  rw [tokens_eq, hFold, wordsOf_separators fun c hc => isTokenChar_space (h c hc)]
  rfl

/-! ### Scores -/

/-- The early return for a blank passage gives what the ratio gives. -/
theorem scoreSupport_eq (hSpaces : u.FoldsSpaces) {statementText : Text}
    (hTokens : tokens u statementText ≠ []) (passageText : Text) :
    scoreSupport u statementText passageText =
      .ok (scoreAt (supportRatio u statementText passageText),
        supportRatio u statementText passageText) := by
  have hInk : (Text.strip statementText).isEmpty = false := by
    have hNot : ¬ Blank statementText := fun hBlank => hTokens (tokens_blank hSpaces hBlank)
    obtain ⟨c, hMem, hChar⟩ := not_blank_iff.mp hNot
    simpa using Text.strip_ne_nil hMem hChar
  have hWords : (tokens u statementText).isEmpty = false := by simpa using hTokens
  have hRatio : (((tokens u statementText).filter fun t =>
      (tokens u passageText).contains t).length : ℚ) / (tokens u statementText).length =
        supportRatio u statementText passageText :=
    sharedTokens_coverage (tokens_nodup u statementText)
  unfold scoreSupport
  dsimp only
  rw [hInk, hWords]
  simp only [Bool.false_eq_true, if_false]
  split
  case isTrue hNone =>
    have hBlank : Blank passageText := by
      by_contra hNot
      obtain ⟨c, hMem, hChar⟩ := not_blank_iff.mp hNot
      exact Text.strip_ne_nil hMem hChar (List.isEmpty_iff.mp hNone)
    have hZero : supportRatio u statementText passageText = 0 := by
      rw [supportRatio, tokens_blank hSpaces hBlank]
      simp [coverage]
    rw [hZero, scoreAt_zero]
    rfl
  case isFalse =>
    rw [hRatio]
    unfold scoreAt
    split
    · rfl
    · split
      · rfl
      · rfl

end Support

/-- A statement with a word in it has a ratio of support between zero and one, and neither the ratio
nor the score falls when the passage goes on behind a space. -/
theorem scoreSupport_monotone {u : Unicode} (hSpaces : u.FoldsSpaces) {statementText : Text}
    (hTokens : tokens u statementText ≠ []) (passageText later : Text) :
    ∃ score ratio score' ratio',
      scoreSupport u statementText passageText = .ok (score, ratio) ∧
      scoreSupport u statementText (passageText ++ ' ' :: later) = .ok (score', ratio') ∧
      0 ≤ ratio ∧ ratio ≤ 1 ∧ ratio ≤ ratio' ∧ score.rank ≤ score'.rank := by
  have hGrows : supportRatio u statementText passageText ≤
      supportRatio u statementText (passageText ++ ' ' :: later) := by
    apply coverage_mono
    rw [tokens_extend]
    exact Finset.subset_union_left
  exact ⟨_, _, _, _, scoreSupport_eq hSpaces hTokens passageText,
    scoreSupport_eq hSpaces hTokens _, coverage_nonneg, coverage_le_one, hGrows, scoreAt_mono hGrows⟩

/-- For example from a blank passage. -/
theorem scoreSupport_monotone_blank : Platform.plain.unicode.FoldsSpaces ∧
    tokens Platform.plain.unicode "a b".toList ≠ [] ∧
    ∃ score ratio score' ratio',
      scoreSupport Platform.plain.unicode "a b".toList [] = .ok (score, ratio) ∧
      scoreSupport Platform.plain.unicode "a b".toList " a".toList = .ok (score', ratio') ∧
      0 ≤ ratio ∧ ratio ≤ 1 ∧ ratio ≤ ratio' ∧ score.rank ≤ score'.rank := by
  have hSpaces : Platform.plain.unicode.FoldsSpaces := fun _ _ => rfl
  have hTokens : tokens Platform.plain.unicode "a b".toList ≠ [] := by decide
  exact ⟨hSpaces, hTokens, scoreSupport_monotone hSpaces hTokens [] "a".toList⟩

end Ecrke
