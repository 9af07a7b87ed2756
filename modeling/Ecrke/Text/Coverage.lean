import Mathlib.Data.Finset.Card
import Mathlib.Data.Rat.Cast.Order
import Mathlib.Tactic.GCongr
import Mathlib.Tactic.Linarith

/-!
# How much finite sets share

* `coverage` -- the part of a set which another set covers.
* `similarity` -- the size of the intersection over that of the union.
* `coverage_mono`, `similarity_le_coverage`, `similarity_ge` -- how they grow and how they compare.

An empty set has coverage zero, and so have two empty sets similarity zero.
-/

namespace Ecrke

section Shares

variable {α : Type*} [DecidableEq α]

/-- The part of a set which another set covers. -/
def coverage (a b : Finset α) : ℚ := (a ∩ b).card / a.card

/-- What two sets share, as a part of all they have. -/
def similarity (a b : Finset α) : ℚ := (a ∩ b).card / (a ∪ b).card

variable {a b c : Finset α}

theorem coverage_nonneg : 0 ≤ coverage a b :=
  div_nonneg (Nat.cast_nonneg _) (Nat.cast_nonneg _)

theorem coverage_le_one : coverage a b ≤ 1 := by
  have hCard : (a ∩ b).card ≤ a.card := Finset.card_le_card Finset.inter_subset_left
  exact div_le_one_of_le₀ (Nat.cast_le.mpr hCard) (Nat.cast_nonneg _)

/-- A larger set covers more. -/
theorem coverage_mono (h : b ⊆ c) : coverage a b ≤ coverage a c := by
  have hCard : (a ∩ b).card ≤ (a ∩ c).card :=
    Finset.card_le_card (Finset.inter_subset_inter_left h)
  unfold coverage
  gcongr

theorem similarity_nonneg : 0 ≤ similarity a b :=
  div_nonneg (Nat.cast_nonneg _) (Nat.cast_nonneg _)

theorem similarity_comm (a b : Finset α) : similarity a b = similarity b a := by
  rw [similarity, similarity, Finset.inter_comm, Finset.union_comm]

/-- The union is at least as large as either set. -/
theorem similarity_le_coverage (ha : a.Nonempty) : similarity a b ≤ coverage a b := by
  have hPos : (0 : ℚ) < a.card := Nat.cast_pos.mpr ha.card_pos
  have hCard : (a.card : ℚ) ≤ (a ∪ b).card :=
    Nat.cast_le.mpr (Finset.card_le_card Finset.subset_union_left)
  unfold similarity coverage
  gcongr

/-- Sets which cover a part `r` of each other have similarity `r / (2 - r)` at least: the union has
no more than twice the larger set, less what they share. -/
theorem similarity_ge {r : ℚ} (hPos : 0 < r) (hLeft : r ≤ coverage a b) (hRight : r ≤ coverage b a) :
    r / (2 - r) ≤ similarity a b := by
  have hOne : r ≤ 1 := hLeft.trans coverage_le_one
  have hNonempty {s t : Finset α} (h : r ≤ coverage s t) : (0 : ℚ) < s.card := by
    rcases s.eq_empty_or_nonempty with rfl | hSome
    · rw [coverage, Finset.card_empty, Nat.cast_zero, div_zero] at h
      linarith
    · exact Nat.cast_pos.mpr hSome.card_pos
  have hA := hNonempty hLeft
  have hB := hNonempty hRight
  rw [coverage, le_div_iff₀ hA] at hLeft
  rw [coverage, le_div_iff₀ hB, Finset.inter_comm] at hRight
  have hUnion : ((a ∪ b).card : ℚ) = a.card + b.card - (a ∩ b).card := by
    have hSum := Finset.card_union_add_card_inter a b
    rw [eq_sub_iff_add_eq]
    exact_mod_cast hSum
  have hUnionPos : (0 : ℚ) < (a ∪ b).card :=
    hA.trans_le (Nat.cast_le.mpr (Finset.card_le_card Finset.subset_union_left))
  rw [similarity, div_le_div_iff₀ (by linarith) hUnionPos, hUnion]
  linarith

end Shares

end Ecrke
