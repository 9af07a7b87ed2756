import Ecrke.Pipeline.Footprints

/-!
# What happens to the blobs

A blob which is stored is never replaced, and most programs store none.

* `BlobsKept` -- a step which leaves the blob store alone, with the programs all of whose steps do.
* `BlobsGrow`, `BlobsAdd` -- a step which replaces no blob, or which adds only blobs of a kind.
* `put_spec` -- what a `put` leaves at its reference.
* `runConclude_adds` -- the conclude stage stores the report.
-/

namespace Ecrke

open Durable

/-- A step which leaves the blob store alone. -/
def BlobsKept (m : Moment Vocabulary) : Prop := m.after.blobs = m.before.blobs

section Kept

theorem BlobsKept.of_book (m : Moment Vocabulary) (h : Bookkeeping m) : BlobsKept m := h.blobs

/-- No step of the pipeline but a `put` changes a blob. -/
theorem BlobsKept.allows (u : Unicode) : Allows u BlobsKept where
  still _ _ _ := rfl
  book := BlobsKept.of_book
  commit _ _ _ _ _ hBlobs := hBlobs

theorem kept_query (question : Query) :
    Keeps BlobsKept (Prog.query (S := Vocabulary) question : Action (Answer question)) :=
  keeps_query fun _ _ => rfl

theorem kept_ofExcept {α : Type} (result : Except PyError α) :
    Keeps BlobsKept (Prog.ofExcept result : Action α) :=
  keeps_ofExcept (S := Vocabulary) result

theorem kept_selectTables {α : Type} (f : Tables → α) : Keeps BlobsKept (selectTables f) :=
  (book_selectTables f).mono BlobsKept.of_book

theorem kept_selectRows {ρ : Type} (f : Tables → List ρ) : Keeps BlobsKept (selectRows f) :=
  keeps_bind (kept_selectTables f) fun _ => keeps_bind (kept_query _) fun _ => keeps_done _

theorem kept_commitWrites (writes : List Write) : Keeps BlobsKept (commitWrites writes) :=
  keeps_commitWrites (fun _ => rfl) fun _ _ _ hBlobs _ => hBlobs

end Kept

/-! ## Puts -/

/-- A step which replaces no blob. -/
def BlobsGrow (m : Moment Vocabulary) : Prop :=
  ∀ ref content, BlobStore.lookup ref m.before.blobs = some content →
    BlobStore.lookup ref m.after.blobs = some content

theorem BlobsGrow.of_kept (m : Moment Vocabulary) (h : BlobsKept m) : BlobsGrow m := by
  intro ref content hLookup
  rwa [h]

theorem BlobsGrow.still {s : World} {happening : Happening Vocabulary} :
    BlobsGrow ⟨s, happening, s⟩ :=
  .of_kept _ rfl

/-- A step which replaces no blob, and adds only blobs in `P`. -/
def BlobsAdd (P : Text → Bytes → Prop) (m : Moment Vocabulary) : Prop :=
  BlobsGrow m ∧ ∀ ref content, BlobStore.lookup ref m.after.blobs = some content →
    BlobStore.lookup ref m.before.blobs = some content ∨ P ref content

theorem BlobsAdd.of_kept {P : Text → Bytes → Prop} (m : Moment Vocabulary) (h : BlobsKept m) :
    BlobsAdd P m :=
  ⟨.of_kept m h, fun _ _ hLookup => .inl (h ▸ hLookup)⟩

/-- What is found after a blob has been put in front. -/
theorem lookup_put (ref other : Text) (content : Bytes) (blobs : List (Text × Bytes)) :
    BlobStore.lookup other ((ref, content) :: blobs.filter fun entry => entry.1 ≠ ref) =
      if other = ref then some content else BlobStore.lookup other blobs := by
  by_cases hSame : other = ref
  · simp [BlobStore.lookup, hSame]
  · rw [if_neg hSame, BlobStore.lookup, List.find?_cons_of_neg (by simpa using Ne.symm hSame),
      List.find?_filter]
    congr 2
    funext entry
    by_cases hEntry : entry.1 = other <;> simp [hEntry, hSame]

section Puts

variable {s : World}

/-- A program which stores no blob, whatever may be added. -/
theorem Alone.keptEnd {P : Text → Bytes → Prop} {α : Type} {p : Action α}
    (h : Keeps BlobsKept p) : Alone (BlobsAdd P) anyEnd p s :=
  Alone.of_keeps (S := Vocabulary) (T := fun _ _ : World => True) (fun _ => trivial)
    (fun _ _ _ _ _ => trivial) (fun _ _ => trivial) h BlobsAdd.of_kept fun _ _ _ => trivial

/-- A program which stores no blob leaves the blobs as they were. -/
theorem Alone.kept {α : Type} {p : Action α} (h : Keeps BlobsKept p) :
    Alone BlobsGrow (fun _ t => t.blobs = s.blobs) p s :=
  Alone.of_keeps (S := Vocabulary) (T := fun s t : World => t.blobs = s.blobs) (fun _ => rfl)
    (fun _ _ _ h h' => h'.trans h) (fun _ hm => hm) h BlobsGrow.of_kept fun _ _ ht => ht

/-- A `put` leaves the blob which was there, or else the new one; where the new one is in `P`, it
adds only blobs in `P`. -/
theorem put_adds {P : Text → Bytes → Prop} {ref : Text} {content : Bytes} (h : P ref content) :
    Alone (BlobsAdd P) (onOk fun _ t => t.db = s.db ∧
        BlobStore.lookup ref t.blobs = some ((BlobStore.lookup ref s.blobs).getD content))
      (BlobStore.put ref content) s := by
  have hStill {t : World} {happening : Happening Vocabulary} : BlobsAdd P ⟨t, happening, t⟩ :=
    .of_kept _ rfl
  refine Alone.bind_ok (fun found t => t = s ∧ found = (BlobStore.lookup ref s.blobs).isSome)
    (Alone.select hStill hStill ⟨rfl, rfl⟩ fun _ => trivial) ?_
  rintro found t ⟨rfl, rfl⟩
  cases hFound : BlobStore.lookup ref t.blobs with
  | some old => exact Alone.done ⟨rfl, hFound⟩
  | none =>
      refine Alone.commit ?_ hStill fun _ _ => trivial
      rintro value u hRun
      cases hRun
      have hNew (other : Text) := lookup_put ref other content t.blobs
      refine ⟨⟨fun other old hOld => ?_, fun other new hOther => ?_⟩, ⟨rfl, ?_⟩, fun _ => trivial⟩
      · rw [hNew, if_neg]
        · exact hOld
        · rintro rfl
          rw [hFound] at hOld
          cases hOld
      · rw [hNew] at hOther
        split at hOther
        · cases hOther
          exact .inr (by subst_vars; exact h)
        · exact .inl hOther
      · rw [hNew, if_pos rfl]
        rfl

theorem put_spec (ref : Text) (content : Bytes) :
    Alone BlobsGrow (onOk fun _ t => t.db = s.db ∧
        BlobStore.lookup ref t.blobs = some ((BlobStore.lookup ref s.blobs).getD content))
      (BlobStore.put ref content) s :=
  (put_adds (P := fun _ _ => True) trivial).mono (fun _ h => h.1) fun _ _ h => h

/-- The reference of the report of a run. -/
def reportRef (runId : Uuid) : Text := "runs/".toList ++ runId.str ++ "/reports/report.md".toList

/-- The conclude stage stores nothing but the report. -/
theorem runConclude_adds (ctx : PipelineContext) :
    Alone (BlobsAdd fun ref _ => ref = reportRef ctx.runId) anyEnd (runConclude ctx) s := by
  refine Alone.seq (Alone.keptEnd (kept_selectTables _)) fun found t => ?_
  cases found with
  | none => exact Alone.raise trivial
  | some run =>
      refine Alone.seq (Alone.keptEnd (kept_selectRows _)) fun rows u => ?_
      refine Alone.seq (Alone.keptEnd (kept_selectRows _)) fun contradictions v => ?_
      refine Alone.seq (Alone.keptEnd ((BlobsKept.allows _).generate _ rfl _ _ _ _)) fun report w => ?_
      exact Alone.seq ((put_adds rfl).post fun _ _ _ => trivial) fun _ _ => Alone.done trivial

end Puts

end Ecrke
