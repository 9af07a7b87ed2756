import Mathlib.Order.Lattice
import Mathlib.Data.List.Induction

/-!
# Maps whose entries expire

A map in which each value may have a time of expiry, and a store which may forget an entry once it
has expired.

* `Kept` -- a value and its time of expiry; `Kept.live`, that it has not expired.
* `Change` -- what an operation does to the map; `remembered`, what the map has after a sequence of
  them; `LastPut`, the last value which was put under a key, if it was not removed since.
* `remembered_iff` -- the map has exactly the values which were put last.
* `Lapsed` -- what a store has which forgets expired entries; it answers as the map does.
-/

namespace Ecrke
namespace Durable

/-- A value with its time of expiry; without one it stays. -/
structure Kept (ν τ : Type) where
  value : ν
  expiresAt : Option τ

/-- What an operation does to a map. -/
inductive Change (κ ν τ : Type) where
  | put (key : κ) (kept : Kept ν τ)
  | remove (key : κ)
  | nothing

section Maps

variable {κ ν τ : Type} [DecidableEq κ]

/-- What a map has under a key after an operation. -/
def Change.at (key : κ) (kept : Option (Kept ν τ)) : Change κ ν τ → Option (Kept ν τ)
  | .put other value => if other = key then some value else kept
  | .remove other => if other = key then none else kept
  | .nothing => kept

/-- What a map has under a key after a sequence of operations on the empty one. -/
def remembered (key : κ) (changes : List (Change κ ν τ)) : Option (Kept ν τ) :=
  changes.foldl (Change.at key) none

/-- The operation puts or removes a key. -/
def Change.Touches (key : κ) (change : Change κ ν τ) : Prop :=
  (∃ kept, change = .put key kept) ∨ change = .remove key

/-- The value was put under the key, and the key was neither put nor removed afterwards. -/
def LastPut (key : κ) (changes : List (Change κ ν τ)) (kept : Kept ν τ) : Prop :=
  ∃ before after, changes = before ++ .put key kept :: after ∧
    ∀ change ∈ after, ¬ change.Touches key

theorem Change.at_put (key other : κ) (value : Kept ν τ) (kept : Option (Kept ν τ)) :
    (Change.put other value).at key kept = if other = key then some value else kept := rfl

theorem Change.at_remove (key other : κ) (kept : Option (Kept ν τ)) :
    (Change.remove other : Change κ ν τ).at key kept = if other = key then none else kept := rfl

theorem Change.at_untouched {key : κ} {change : Change κ ν τ} (h : ¬ change.Touches key)
    (kept : Option (Kept ν τ)) : change.at key kept = kept := by
  cases change with
  | put other value =>
      have hNe : other ≠ key := by
        intro hEq
        subst hEq
        exact h (.inl ⟨value, rfl⟩)
      simp [Change.at, hNe]
  | remove other =>
      have hNe : other ≠ key := by
        intro hEq
        subst hEq
        exact h (.inr rfl)
      simp [Change.at, hNe]
  | nothing => rfl

@[simp] theorem remembered_snoc (key : κ) (changes : List (Change κ ν τ))
    (change : Change κ ν τ) :
    remembered key (changes ++ [change]) = change.at key (remembered key changes) := by
  simp [remembered]

omit [DecidableEq κ] in
/-- One more operation: it is the one which puts the value, or it leaves the key alone. -/
theorem LastPut.snoc_iff {key : κ} {changes : List (Change κ ν τ)} {change : Change κ ν τ}
    {kept : Kept ν τ} :
    LastPut key (changes ++ [change]) kept ↔
      change = .put key kept ∨ ¬ change.Touches key ∧ LastPut key changes kept := by
  constructor
  · intro h
    obtain ⟨before, after, hSplit, hAfter⟩ := h
    cases after using List.reverseRecOn with
    | nil =>
        left
        have hSame := (List.append_inj' hSplit rfl).2
        exact (List.cons.inj hSame).1
    | append_singleton after last =>
        right
        have hEnds : changes ++ [change] = (before ++ .put key kept :: after) ++ [last] := by
          rw [hSplit, List.append_assoc, List.cons_append]
        obtain ⟨hFront, hLast⟩ := List.append_inj' hEnds rfl
        obtain rfl := (List.cons.inj hLast).1
        refine ⟨hAfter change (by simp), before, after, hFront, ?_⟩
        intro other hOther
        exact hAfter other (by simp [hOther])
  · intro h
    rcases h with rfl | ⟨hUntouched, before, after, rfl, hAfter⟩
    · exact ⟨changes, [], rfl, by simp⟩
    · refine ⟨before, after ++ [change], by simp, ?_⟩
      intro other hOther
      rcases List.mem_append.mp hOther with hEarlier | hNow
      · exact hAfter other hEarlier
      · obtain rfl := List.mem_singleton.mp hNow
        exact hUntouched

/-- A map has the values which were put last. -/
theorem remembered_iff {key : κ} {changes : List (Change κ ν τ)} {kept : Kept ν τ} :
    remembered key changes = some kept ↔ LastPut key changes kept := by
  induction changes using List.reverseRecOn with
  | nil => simp [remembered, LastPut]
  | append_singleton changes change ih =>
      rw [remembered_snoc, LastPut.snoc_iff]
      by_cases hTouches : change.Touches key
      · rcases hTouches with ⟨value, rfl⟩ | rfl
        · simp [Change.at, Change.Touches]
        · simp [Change.at, Change.Touches]
      · have hNotPut : change ≠ .put key kept := by
          intro hPut
          exact hTouches (.inl ⟨kept, hPut⟩)
        rw [Change.at_untouched hTouches, ih]
        simp [hNotPut, hTouches]

end Maps

/-! ## Stores which forget -/

section Stores

variable {κ ν τ : Type} [DecidableEq κ] [LinearOrder τ]

/-- The value has not expired. -/
def Kept.live (now : τ) (kept : Kept ν τ) : Bool := kept.expiresAt.all fun time => now < time

/-- The answer to a question for a key. -/
def answered (now : τ) (kept : Option (Kept ν τ)) : Option ν :=
  (kept.filter fun value => value.live now).map Kept.value

/-- The store has what the map has, or it has forgotten an expired value. -/
def Lapsed (now : τ) (store map : Option (Kept ν τ)) : Prop :=
  store = map ∨ store = none ∧ ∃ kept, map = some kept ∧ kept.live now = false

variable {now later : τ} {store map other : Option (Kept ν τ)}

theorem Kept.live_mono (hLater : now ≤ later) {kept : Kept ν τ} (h : kept.live now = false) :
    kept.live later = false := by
  cases hExpires : kept.expiresAt with
  | none => simp [Kept.live, hExpires] at h
  | some time =>
      simp only [Kept.live, hExpires, Option.all_some, decide_eq_false_iff_not, not_lt] at h ⊢
      exact h.trans hLater

theorem Lapsed.refl (now : τ) (store : Option (Kept ν τ)) : Lapsed now store store := .inl rfl

theorem Lapsed.mono (hLater : now ≤ later) (h : Lapsed now store map) : Lapsed later store map := by
  rcases h with hSame | ⟨hNone, kept, hKept, hExpired⟩
  · exact .inl hSame
  · exact .inr ⟨hNone, kept, hKept, Kept.live_mono hLater hExpired⟩

theorem Lapsed.trans (first : Lapsed now store other) (rest : Lapsed now other map) :
    Lapsed now store map := by
  rcases first with rfl | ⟨hNone, kept, rfl, hExpired⟩
  · exact rest
  · rcases rest with rfl | ⟨hOther, -⟩
    · exact .inr ⟨hNone, kept, rfl, hExpired⟩
    · cases hOther

/-- An operation on the store and on the map. -/
theorem Lapsed.at (h : Lapsed now store map) (key : κ) (change : Change κ ν τ) :
    Lapsed now (change.at key store) (change.at key map) := by
  by_cases hTouches : change.Touches key
  · left
    rcases hTouches with ⟨value, rfl⟩ | rfl
    · simp [Change.at]
    · simp [Change.at]
  · rw [Change.at_untouched hTouches, Change.at_untouched hTouches]
    exact h

/-- Forgotten or not, an expired value is no answer. -/
theorem Lapsed.answered_eq (h : Lapsed now store map) : answered now store = answered now map := by
  rcases h with rfl | ⟨rfl, kept, rfl, hExpired⟩
  · rfl
  · have hNone : (some kept).filter (fun value : Kept ν τ => value.live now) = none := by
      simp [Option.filter_some, hExpired]
    rw [answered, answered, hNone]
    rfl

theorem answered_iff {kept : Option (Kept ν τ)} {value : ν} :
    answered now kept = some value ↔
      ∃ found, kept = some found ∧ found.live now = true ∧ found.value = value := by
  simp only [answered, Option.map_eq_some_iff, Option.filter_eq_some_iff, and_assoc]

end Stores

end Durable
end Ecrke
