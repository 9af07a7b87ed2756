import Mathlib.Data.List.Nodup

/-!
# Rows, keys and references

A table is a list of rows.  These are the facts about lists of rows which the constraints of a
relational schema are made of.

* `Keyed` -- no two rows share a key; `findRow` and `modifyRow` look a row up and edit it in place.
* `Refers` -- every row points to a row of another table.
-/

namespace Ecrke
namespace Durable

variable {κ ρ τ : Type}

/-- No two rows share a key. -/
def Keyed (key : ρ → κ) (rows : List ρ) : Prop := (rows.map key).Nodup

instance [DecidableEq κ] (key : ρ → κ) (rows : List ρ) : Decidable (Keyed key rows) :=
  inferInstanceAs (Decidable (rows.map key).Nodup)

/-- Every row points to a row of another table. -/
def Refers (pointer : ρ → κ) (key : τ → κ) (rows : List ρ) (targets : List τ) : Prop :=
  ∀ row ∈ rows, ∃ target ∈ targets, key target = pointer row

section Tables

variable {key : ρ → κ} {rows : List ρ} {row : ρ}

theorem Keyed.nil : Keyed key [] := List.nodup_nil

theorem Keyed.eq (h : Keyed key rows) {other : ρ} (hRow : row ∈ rows) (hOther : other ∈ rows)
    (hKey : key row = key other) : row = other :=
  List.inj_on_of_nodup_map h hRow hOther hKey

theorem Keyed.append_one (h : Keyed key rows) (hFresh : ∀ other ∈ rows, key other ≠ key row) :
    Keyed key (rows ++ [row]) := by
  simp only [Keyed, List.map_append, List.map_cons, List.map_nil]
  refine List.Nodup.append h (List.nodup_singleton _) ?_
  intro k hk hk'
  obtain ⟨other, hOther, rfl⟩ := List.mem_map.mp hk
  exact hFresh other hOther (List.mem_singleton.mp hk')

theorem Keyed.append_ne {added : List ρ} (h : Keyed key (rows ++ added)) {other : ρ}
    (hRow : row ∈ rows) (hOther : other ∈ added) : key row ≠ key other := by
  rw [Keyed, List.map_append] at h
  intro hKey
  refine List.disjoint_of_nodup_append h (List.mem_map_of_mem hRow) ?_
  rw [hKey]
  exact List.mem_map_of_mem hOther

theorem filter_snoc {P : ρ → Prop} [DecidablePred P] {rows : List ρ} {row : ρ} (h : P row) :
    ((rows ++ [row]).filter fun other => P other) = (rows.filter fun other => P other) ++ [row] := by
  rw [List.filter_append, List.filter_singleton, decide_eq_true h, cond_true]

theorem filter_append_none {p : ρ → Bool} {added : List ρ} (h : ∀ row ∈ added, p row = false) :
    (rows ++ added).filter p = rows.filter p := by
  rw [List.filter_append, List.filter_eq_nil_iff (l := added) |>.mpr (by simpa using h),
    List.append_nil]

theorem Keyed.filter (h : Keyed key rows) (p : ρ → Bool) : Keyed key (rows.filter p) :=
  List.Nodup.sublist (List.Sublist.map key List.filter_sublist) h

/-- Queries for the same rows of two tables find the same rows. -/
theorem Keyed.perm_filter {rows' : List ρ} (h : Keyed key rows) (h' : Keyed key rows')
    {p : ρ → Bool} (hSame : ∀ row, p row = true → (row ∈ rows ↔ row ∈ rows')) :
    (rows.filter p).Perm (rows'.filter p) := by
  rw [List.perm_ext_iff_of_nodup (List.Nodup.of_map key (h.filter p))
    (List.Nodup.of_map key (h'.filter p))]
  intro row
  rw [List.mem_filter, List.mem_filter]
  exact and_congr_left (hSame row)

theorem Refers.append_one {pointer : ρ → κ} {target : τ → κ} {targets : List τ}
    (h : Refers pointer target rows targets) (hRow : ∃ t ∈ targets, target t = pointer row) :
    Refers pointer target (rows ++ [row]) targets := by
  intro other hOther
  rcases List.mem_append.mp hOther with hIn | hIn
  · exact h other hIn
  · rw [List.mem_singleton.mp hIn]
    exact hRow

/-- References survive when every key of the old targets is a key of the new ones. -/
theorem Refers.mono {pointer : ρ → κ} {target : τ → κ} {targets targets' : List τ}
    (h : Refers pointer target rows targets)
    (hTargets : ∀ t ∈ targets, ∃ t' ∈ targets', target t' = target t) :
    Refers pointer target rows targets' := by
  intro row hRow
  obtain ⟨t, hMem, hKey⟩ := h row hRow
  obtain ⟨t', hMem', hKey'⟩ := hTargets t hMem
  exact ⟨t', hMem', hKey'.trans hKey⟩

/-- References into a table survive the insertion of a row. -/
theorem Refers.inserted {pointer : ρ → κ} {target : τ → κ} {targets : List τ}
    (h : Refers pointer target rows targets) (other : τ) :
    Refers pointer target rows (targets ++ [other]) :=
  h.mono fun t ht => ⟨t, List.mem_append_left _ ht, rfl⟩

end Tables

/-! ## Lookup and edits in place -/

section Lookup

variable [DecidableEq κ] {key : ρ → κ} {rows : List ρ} {row : ρ} {k : κ} {f : ρ → ρ}

/-- The row with a given key. -/
def findRow (key : ρ → κ) (k : κ) (rows : List ρ) : Option ρ :=
  rows.find? fun row => key row = k

/-- Edit the row with a given key. -/
def modifyRow (key : ρ → κ) (k : κ) (f : ρ → ρ) (rows : List ρ) : List ρ :=
  rows.map fun row => if key row = k then f row else row

theorem map_modifyRow {γ : Type} {g : ρ → γ} (hg : ∀ row, g (f row) = g row) :
    (modifyRow key k f rows).map g = rows.map g := by
  simp only [modifyRow, List.map_map]
  refine List.map_congr_left fun row _ => ?_
  by_cases h : key row = k <;> simp [h, hg]

theorem Keyed.modifyRow {γ : Type} {g : ρ → γ} (h : Keyed g rows)
    (hg : ∀ row, g (f row) = g row) : Keyed g (modifyRow key k f rows) := by
  rw [Keyed, map_modifyRow hg]
  exact h

theorem mem_modifyRow {other : ρ} :
    other ∈ modifyRow key k f rows ↔
      (∃ row ∈ rows, key row = k ∧ f row = other) ∨ (other ∈ rows ∧ key other ≠ k) := by
  simp only [modifyRow, List.mem_map]
  constructor
  · rintro ⟨row, hRow, rfl⟩
    by_cases h : key row = k
    · exact .inl ⟨row, hRow, h, by simp [h]⟩
    · exact .inr (by simpa [h] using hRow)
  · rintro (⟨row, hRow, h, rfl⟩ | ⟨hRow, h⟩)
    · exact ⟨row, hRow, by simp [h]⟩
    · exact ⟨other, hRow, by simp [h]⟩

theorem findRow_some (h : findRow key k rows = some row) : row ∈ rows ∧ key row = k :=
  ⟨List.mem_of_find?_eq_some h, by simpa using List.find?_some h⟩

theorem findRow_none (h : findRow key k rows = none) : ∀ row ∈ rows, key row ≠ k := by
  intro row hRow
  simpa using List.find?_eq_none.mp h row hRow

theorem findRow_append (added : List ρ) :
    findRow key k (rows ++ added) = (findRow key k rows).or (findRow key k added) :=
  List.find?_append

theorem Keyed.findRow_eq (h : Keyed key rows) (hRow : row ∈ rows) :
    findRow key (key row) rows = some row := by
  cases hFind : findRow key (key row) rows with
  | none => exact absurd rfl (findRow_none hFind row hRow)
  | some other =>
      obtain ⟨hMem, hKey⟩ := findRow_some hFind
      rw [h.eq hMem hRow hKey]

/-- A row is found among the rows which a query has selected as it is in the whole table. -/
theorem Keyed.findRow_selected {table : List ρ} {p : ρ → Bool} (h : Keyed key table)
    (hRows : rows.Perm (table.filter p)) (hSelected : ∀ row ∈ table, key row = k → p row = true) :
    findRow key k rows = findRow key k table := by
  have hKeyed : Keyed key rows := (hRows.map key).nodup_iff.mpr (h.filter p)
  cases hFind : findRow key k table with
  | none =>
      apply List.find?_eq_none.mpr
      intro row hRow
      have hMem := (List.mem_filter.mp (hRows.mem_iff.mp hRow)).1
      simpa using findRow_none hFind row hMem
  | some row =>
      obtain ⟨hMem, rfl⟩ := findRow_some hFind
      have hRow : row ∈ rows := hRows.mem_iff.mpr (List.mem_filter.mpr ⟨hMem, hSelected row hMem rfl⟩)
      exact hKeyed.findRow_eq hRow

/-- A key whose row is the same in two tables leads to the same row. -/
theorem Keyed.findRow_same {rows' : List ρ} (h' : Keyed key rows')
    (hSame : ∀ row, key row = k → (row ∈ rows ↔ row ∈ rows')) :
    findRow key k rows = findRow key k rows' := by
  cases hFind : findRow key k rows with
  | some row =>
      obtain ⟨hMem, rfl⟩ := findRow_some hFind
      exact (h'.findRow_eq ((hSame row rfl).mp hMem)).symm
  | none =>
      refine (List.find?_eq_none.mpr fun row hRow hKey => ?_).symm
      have hKey : key row = k := by simpa using hKey
      exact findRow_none hFind row ((hSame row hKey).mpr hRow) hKey

/-- Looking a row up after an edit which keeps the key. -/
theorem findRow_modifyRow (hf : ∀ row, key row = k → key (f row) = k) (k' : κ) :
    findRow key k' (modifyRow key k f rows) =
      if k' = k then (findRow key k rows).map f else findRow key k' rows := by
  induction rows with
  | nil => simp [findRow, modifyRow]
  | cons row rest ih =>
      simp only [findRow, modifyRow, List.map_cons, List.find?_cons] at ih ⊢
      by_cases hRow : key row = k
      · by_cases hk : k' = k
        · simp [hk, hRow, hf row hRow]
        · have hNe : k ≠ k' := fun h => hk h.symm
          simpa [hRow, hf row hRow, hk, hNe] using ih
      · by_cases hk : k' = k
        · subst hk
          simpa [hRow] using ih
        · by_cases hRow' : key row = k' <;> simp_all

/-- An edit of the only row with a key depends on that row alone. -/
theorem Keyed.modifyRow_const (h : Keyed key rows) (hRow : row ∈ rows) :
    Durable.modifyRow key (key row) f rows =
      Durable.modifyRow key (key row) (fun _ => f row) rows := by
  refine List.map_congr_left fun other hOther => ?_
  by_cases hKey : key other = key row
  · rw [h.eq hOther hRow hKey]
  · simp [hKey]

theorem Keyed.modifyRow_self (h : Keyed key rows) (hRow : row ∈ rows) :
    Durable.modifyRow key (key row) (fun _ => row) rows = rows := by
  rw [Durable.modifyRow, List.map_congr_left (g := id), List.map_id]
  intro other hOther
  by_cases hKey : key other = key row
  · simp [h.eq hOther hRow hKey]
  · simp [hKey]

theorem Refers.modifyRow {γ : Type} {pointer : ρ → γ} {target : τ → γ} {targets : List τ}
    (h : Refers pointer target rows targets) (hf : ∀ row, pointer (f row) = pointer row) :
    Refers pointer target (Durable.modifyRow key k f rows) targets := by
  intro row hRow
  rcases mem_modifyRow.mp hRow with ⟨old, hOld, -, rfl⟩ | ⟨hOld, -⟩
  · rw [hf]
    exact h old hOld
  · exact h row hOld

theorem exists_modifyRow {γ : Type} {g : ρ → γ} (hf : ∀ row, g (f row) = g row)
    (h : row ∈ rows) : ∃ row' ∈ modifyRow key k f rows, g row' = g row := by
  by_cases hKey : key row = k
  · exact ⟨f row, mem_modifyRow.mpr (.inl ⟨row, h, hKey, rfl⟩), hf row⟩
  · exact ⟨row, mem_modifyRow.mpr (.inr ⟨h, hKey⟩), rfl⟩

/-- References into a table survive an edit which keeps the key. -/
theorem Refers.updated {γ : Type} {pointer : τ → γ} {g : ρ → γ} {pointers : List τ}
    (h : Refers pointer g pointers rows) (hf : ∀ row, g (f row) = g row) :
    Refers pointer g pointers (Durable.modifyRow key k f rows) :=
  h.mono fun _ ht => exists_modifyRow hf ht

end Lookup

end Durable
end Ecrke
