import Ecrke.Guarantees.RowOrder
import Mathlib.Data.Finset.Sym
import Mathlib.Data.List.Sym

/-!
# The candidate pairs

A candidate is a pair of verified statements whose words overlap or one of which is negated.

* `words`, `jaccard` -- the words of a statement and the similarity of two sets of words.
* `Worth` -- when a pair is worth a judge call.
* `nodup_pairsOf`, `mem_pairsOf_iff` -- the pairs of a sorted list.
* `candidates_spec` -- the candidates are exactly these pairs, each of them once, in an order which
  does not depend on that of the statements.
-/

namespace Ecrke

open Durable

/-! ## Similarity -/

/-- The words of the redacted text of a statement. -/
def words (u : Unicode) (s : Statement) : Finset Text :=
  (tokens u (redactSecrets u s.text)).toFinset

/-- The similarity of two sets: the size of their intersection over that of their union, and zero
where both are empty. -/
def jaccard (a b : Finset Text) : ℚ := (a ∩ b).card / (a ∪ b).card

/-- The statements share enough words, or one of them has a negation marker. -/
def Worth (u : Unicode) (a b : Statement) : Prop :=
  15 / 100 ≤ jaccard (words u a) (words u b) ∨
    (∃ marker ∈ negationMarkers, marker ∈ words u a) ∨
      ∃ marker ∈ negationMarkers, marker ∈ words u b

theorem sharedTokens_card {a b : List Text} (ha : a.Nodup) :
    (sharedTokens a b).length = (a.toFinset ∩ b.toFinset).card := by
  have hNodup : (sharedTokens a b).Nodup := ha.filter _
  have hSet : (sharedTokens a b).toFinset = a.toFinset ∩ b.toFinset := by
    ext word
    simp [sharedTokens]
  rw [← hSet, List.toFinset_card_of_nodup hNodup]

theorem union_card {a b : List Text} (ha : a.Nodup) (hb : b.Nodup) :
    (a ++ b.filter fun t => !a.contains t).length = (a.toFinset ∪ b.toFinset).card := by
  have hNodup : (a ++ b.filter fun t => !a.contains t).Nodup := by
    apply List.Nodup.append ha (hb.filter _)
    intro word hLeft hRight
    have hFresh := (List.mem_filter.mp hRight).2
    simp [hLeft] at hFresh
  have hSet : (a ++ b.filter fun t => !a.contains t).toFinset = a.toFinset ∪ b.toFinset := by
    ext word
    by_cases hLeft : word ∈ a
    · simp [hLeft]
    · simp [hLeft]
  rw [← hSet, List.toFinset_card_of_nodup hNodup]

/-- The measure on lists of words is the similarity of their sets. -/
theorem jaccardOverlap_eq {a b : List Text} (ha : a.Nodup) (hb : b.Nodup) :
    jaccardOverlap a b = jaccard a.toFinset b.toFinset := by
  have hUnion := union_card ha hb
  unfold jaccardOverlap jaccard
  dsimp only
  rw [sharedTokens_card ha, hUnion]
  split
  · rename_i hEmpty
    rw [List.isEmpty_iff_length_eq_zero, hUnion] at hEmpty
    rw [hEmpty, Nat.cast_zero, div_zero]
  · rfl

theorem hasNegationMarkers_iff {u : Unicode} {s : Statement} :
    hasNegationMarkers u (redactSecrets u s.text) = true ↔
      ∃ marker ∈ negationMarkers, marker ∈ words u s := by
  unfold hasNegationMarkers words
  simp only [List.any_eq_true, List.contains_iff_mem, List.mem_toFinset]
  constructor
  · intro h
    obtain ⟨word, hWord, hMarker⟩ := h
    exact ⟨word, hMarker, hWord⟩
  · intro h
    obtain ⟨word, hMarker, hWord⟩ := h
    exact ⟨word, hWord, hMarker⟩

theorem isCandidate_iff {u : Unicode} {a b : Statement} :
    isCandidate u (redactSecrets u a.text) (redactSecrets u b.text) = true ↔ Worth u a b := by
  have hA : (tokens u (redactSecrets u a.text)).Nodup := List.nodup_dedup _
  have hB : (tokens u (redactSecrets u b.text)).Nodup := List.nodup_dedup _
  unfold isCandidate Worth
  rw [Bool.or_eq_true, Bool.or_eq_true, hasNegationMarkers_iff, hasNegationMarkers_iff,
    decide_eq_true_eq, jaccardOverlap_eq hA hB, or_assoc]
  rfl

/-! ## Pairs -/

section Pairs

variable {α β : Type} {list : List α}

theorem pairsOf_map (f : α → β) (list : List α) :
    (pairsOf list).map (Prod.map f f) = pairsOf (list.map f) := by
  induction list with
  | nil => rfl
  | cons first rest ih => simp [pairsOf, ih, Function.comp_def]

/-- In a list without repetitions no two elements make two pairs. -/
theorem nodup_pairsOf (hNodup : list.Nodup) :
    ((pairsOf list).map fun pair => s(pair.1, pair.2)).Nodup := by
  induction list with
  | nil => exact List.nodup_nil
  | cons first rest ih =>
      obtain ⟨hFresh, hRest⟩ := List.nodup_cons.mp hNodup
      simp only [pairsOf, List.map_append, List.map_map]
      apply List.Nodup.append _ (ih hRest)
      · -- The later pairs do not have the first element.
        intro pair hHere hLater
        obtain ⟨second, -, rfl⟩ := List.mem_map.mp hHere
        obtain ⟨later, hPair, hEq⟩ := List.mem_map.mp hLater
        have hIn := mem_pairsOf (R := fun _ _ => True) (List.pairwise_of_forall (by simp)) hPair
        have hMember : first ∈ s(later.1, later.2) := by
          rw [hEq]
          exact Sym2.mem_mk_left _ _
        rcases Sym2.mem_iff.mp hMember with hLeft | hRight
        · exact hFresh (hLeft ▸ hIn.1)
        · exact hFresh (hRight ▸ hIn.2.1)
      · apply hRest.map
        intro second other hEq
        exact Sym2.congr_right.mp hEq

/-- The pairs of a list which is sorted by a strict order. -/
theorem mem_pairsOf_iff {R : α → α → Prop} (hAsymm : ∀ a b, R a b → ¬ R b a)
    (hOrder : list.Pairwise R) {a b : α} :
    (a, b) ∈ pairsOf list ↔ a ∈ list ∧ b ∈ list ∧ R a b := by
  constructor
  · intro hPair
    exact mem_pairsOf hOrder hPair
  · intro h
    induction list with
    | nil => exact absurd h.1 List.not_mem_nil
    | cons first rest ih =>
        obtain ⟨hLeftIn, hRightIn, hRelated⟩ := h
        obtain ⟨hFirst, hRest⟩ := List.pairwise_cons.mp hOrder
        unfold pairsOf
        rw [List.mem_append]
        rcases List.mem_cons.mp hRightIn with rfl | hRight
        · -- The second element is not the first one of the list.
          rcases List.mem_cons.mp hLeftIn with rfl | hLeft
          · exact absurd hRelated (hAsymm _ _ hRelated)
          · exact absurd (hFirst a hLeft) (hAsymm _ _ hRelated)
        · rcases List.mem_cons.mp hLeftIn with rfl | hLeft
          · left
            exact List.mem_map.mpr ⟨b, hRight, rfl⟩
          · right
            exact ih hRest ⟨hLeft, hRight, hRelated⟩

end Pairs

/-! ## Candidates -/

section Candidates

variable {u : Unicode} {statements : List Statement}

theorem candidates_nodup (hDistinct : (statements.map Statement.id).Nodup) :
    ((candidatePairs u statements).map fun pair => s(pair.1.id, pair.2.id)).Nodup := by
  have hSorted : ((sortedVerified statements).map Statement.id).Nodup := by
    rw [List.Nodup, List.pairwise_map]
    apply (sortedVerified_pairwise hDistinct).imp
    intro a b hBefore hEq
    unfold Uuid.before at hBefore
    rw [hEq] at hBefore
    omega
  have hAll := nodup_pairsOf hSorted
  rw [← pairsOf_map, List.map_map] at hAll
  exact hAll.sublist (List.filter_sublist.map _)

theorem mem_candidates (hDistinct : (statements.map Statement.id).Nodup) {a b : Statement} :
    (a, b) ∈ candidatePairs u statements ↔
      (a ∈ statements ∧ a.status = .verified) ∧ (b ∈ statements ∧ b.status = .verified) ∧
        a.id.before b.id ∧ Worth u a b := by
  have hAsymm : ∀ a b : Statement, a.id.before b.id → ¬ b.id.before a.id := by
    intro a b hAB hBA
    unfold Uuid.before at hAB hBA
    omega
  unfold candidatePairs
  rw [List.mem_filter, mem_pairsOf_iff hAsymm (sortedVerified_pairwise hDistinct),
    mem_sortedVerified, mem_sortedVerified, isCandidate_iff]
  tauto

end Candidates

/-- The candidates among statements with distinct identifiers: no two statements make two pairs, the
pairs are those of verified statements, the smaller identifier first, which are worth a judge call,
and the order of the statements does not matter. -/
theorem candidates_spec (u : Unicode) (statements : List Statement)
    (hDistinct : (statements.map Statement.id).Nodup) :
    ((candidatePairs u statements).map fun pair => s(pair.1.id, pair.2.id)).Nodup ∧
      (∀ a b, (a, b) ∈ candidatePairs u statements ↔
        (a ∈ statements ∧ a.status = .verified) ∧ (b ∈ statements ∧ b.status = .verified) ∧
          a.id.before b.id ∧ Worth u a b) ∧
      ∀ others : List Statement, statements.Perm others →
        candidatePairs u others = candidatePairs u statements := by
  refine ⟨candidates_nodup hDistinct, ?_, ?_⟩
  · intro a b
    exact mem_candidates hDistinct
  · intro others hPerm
    exact (candidatePairs_perm hDistinct hPerm).symm

/-- Conflicting statements, in either order. -/
theorem candidates_spec_conflicting :
    candidatePairs LLMGateway.flagging.platform.unicode conflicting.reverse =
        candidatePairs LLMGateway.flagging.platform.unicode conflicting ∧
      ∀ a b, (a, b) ∈ candidatePairs LLMGateway.flagging.platform.unicode conflicting →
        a.id.before b.id := by
  have hDistinct : (conflicting.map Statement.id).Nodup := by decide
  obtain ⟨-, hMem, hOrder⟩ :=
    candidates_spec LLMGateway.flagging.platform.unicode conflicting hDistinct
  constructor
  · exact hOrder _ (List.reverse_perm _).symm
  · intro a b hPair
    exact ((hMem a b).mp hPair).2.2.1

end Ecrke
