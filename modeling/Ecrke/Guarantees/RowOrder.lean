import Ecrke.Guarantees.Contradictions
import Ecrke.Pipeline.RunHistory

/-!
# The order of the rows

The stages `detect` and `conclude` take the first verified statements in the order in which the
database returns them, and sort afterwards.

* `detectInput`, `concludeInput` -- the statements which are handed on.
* `runDetect_eq`, `runConclude_eq` -- the stages, cut where they have the rows.
* `Unordered` -- the order of the rows does not matter.
* `unordered_iff` -- when it does not.
-/

namespace Ecrke

open Durable

/-! ## What the stages hand on -/

/-- The statements of a run. -/
def statementsOf (runId : Uuid) (t : Tables) : List Statement :=
  t.statements.filter fun s => s.runId = runId

/-- The verified ones among some rows. -/
def verifiedRows (rows : List Statement) : List Statement :=
  rows.filter fun s => s.status = .verified

/-- What `runDetect` hands to the detector. -/
def detectInput (rows : List Statement) : List Statement :=
  (verifiedRows rows).take maxDetectStatements

/-- What `runConclude` hands to the report generator. -/
def concludeInput (rows : List Statement) : List Statement :=
  (verifiedRows rows).take maxConcludeStatements

/-- `runDetect` from the rows on. -/
def detectRows (ctx : PipelineContext) (rows : List Statement) : Action StageResult := do
  let contradictions ← detect ctx.services.gateway (detectInput rows) ctx.runId
  pure <| .success .detect ([countField "contradictions" contradictions.length] ++
    if maxDetectStatements < (verifiedRows rows).length then
      [countField "capped_from" (verifiedRows rows).length]
    else [])

/-- `runConclude` from the rows on. -/
def concludeRows (ctx : PipelineContext) (run : Run) (rows : List Statement) :
    Action StageResult := do
  let p := ctx.services.platform
  let contradictions ← selectRows fun t => t.contradictions.filter fun c => c.runId = ctx.runId
  let confirmed := contradictions.filter fun c => c.status = .confirmed
  let report ← generate ctx.services.gateway ctx.runId run.question (concludeInput rows) confirmed
  let markdownRef := "runs/".toList ++ ctx.runId.str ++ "/reports/report.md".toList
  BlobStore.put markdownRef (Bytes.encodeUtf8 (renderMarkdown p.isoformat report))
  pure <| .success .conclude
    [("report".toList, report.dump p.isoformat),
      ("report_markdown_ref".toList, .str markdownRef),
      countField "conclusions" report.conclusions.length,
      countField "contradictions" confirmed.length]

theorem runDetect_eq (ctx : PipelineContext) :
    runDetect ctx = (selectRows (statementsOf ctx.runId)).bind (detectRows ctx) := rfl

theorem runConclude_eq (ctx : PipelineContext) :
    runConclude ctx = (getRun ctx.runId).bind fun found => match found with
      | none => noRun ctx.runId
      | some run => (selectRows (statementsOf ctx.runId)).bind (concludeRows ctx run) := rfl

/-! ## Orders -/

/-- Two lists with the same elements. -/
def SameSet {α : Type} (a b : List α) : Prop := ∀ x, x ∈ a ↔ x ∈ b

/-- Whatever the orders in which the database returns the statements of a run, the same ones are
handed to the detector and to the report generator, and the same pairs are candidates. -/
def Unordered (u : Unicode) (runId : Uuid) (t : Tables) : Prop :=
  ∀ order order' : Equiv.Perm (Fin (statementsOf runId t).length),
    let rows := arrange (statementsOf runId t) order
    let rows' := arrange (statementsOf runId t) order'
    SameSet (detectInput rows) (detectInput rows') ∧
      candidatePairs u (detectInput rows) = candidatePairs u (detectInput rows') ∧
      SameSet (concludeInput rows) (concludeInput rows')

section Lists

variable {α : Type} {a b : List α}

theorem arrange_refl (rows : List α) : arrange rows (Equiv.refl _) = rows :=
  List.ofFn_get rows

theorem arrange_rev (rows : List α) : arrange rows Fin.revPerm = rows.reverse := by
  apply List.ext_getElem
  · simp [arrange]
  · intro i hLeft hRight
    have hLt : i < rows.length := by simpa [arrange] using hLeft
    simp [arrange, List.getElem_reverse]
    congr 1
    omega

/-- Of a list which is too long the beginning is not that of the reversed list. -/
theorem take_reverse_ne {n : Nat} (hNodup : a.Nodup) (hPositive : 0 < n) (hLong : n < a.length) :
    ¬ SameSet (a.take n) (a.reverse.take n) := by
  intro hSame
  cases a with
  | nil => simp at hLong
  | cons first rest =>
      have hFresh : first ∉ rest := (List.nodup_cons.mp hNodup).1
      have hThere : first ∈ (first :: rest).take n := by
        rw [List.take_cons hPositive]
        exact List.mem_cons_self
      have hShort : n ≤ rest.reverse.length := by
        simp only [List.length_cons] at hLong
        simp only [List.length_reverse]
        omega
      have hIn := (hSame first).mp hThere
      rw [List.reverse_cons, List.take_append_of_le_length hShort] at hIn
      exact hFresh (List.mem_reverse.mp (List.mem_of_mem_take hIn))

end Lists

/-! ## When the order does not matter -/

section Rows

variable {rows rows' : List Statement}

theorem verifiedRows_perm (h : rows.Perm rows') : (verifiedRows rows).Perm (verifiedRows rows') :=
  h.filter _

/-- Candidates depend on the set of the statements only. -/
theorem candidatePairs_perm {u : Unicode} (hDistinct : (rows.map Statement.id).Nodup)
    (h : rows.Perm rows') : candidatePairs u rows = candidatePairs u rows' := by
  have hDistinct' : (rows'.map Statement.id).Nodup := (h.map _).nodup_iff.mp hDistinct
  have hPerm : (sortedVerified rows).Perm (sortedVerified rows') :=
    (List.mergeSort_perm _ _).trans ((h.filter _).trans (List.mergeSort_perm _ _).symm)
  have hSame : sortedVerified rows = sortedVerified rows' := by
    refine List.Perm.eq_of_pairwise ?_ (sortedVerified_pairwise hDistinct)
      (sortedVerified_pairwise hDistinct') hPerm
    intro a b _ _ hAB hBA
    unfold Uuid.before at hAB hBA
    omega
  rw [candidatePairs, candidatePairs, hSame]

theorem detectInput_short (h : (verifiedRows rows).length ≤ maxDetectStatements) :
    detectInput rows = verifiedRows rows :=
  List.take_of_length_le h

theorem concludeInput_short (h : (verifiedRows rows).length ≤ maxDetectStatements) :
    concludeInput rows = verifiedRows rows := by
  apply List.take_of_length_le
  have hCaps : maxDetectStatements ≤ maxConcludeStatements := by decide
  omega

/-- With too many verified statements, the reversed rows begin with other ones. -/
theorem detectInput_reverse (hDistinct : (rows.map Statement.id).Nodup)
    (h : maxDetectStatements < (verifiedRows rows).length) :
    ¬ SameSet (detectInput rows) (detectInput rows.reverse) := by
  have hNodup : (verifiedRows rows).Nodup := (List.Nodup.of_map _ hDistinct).filter _
  have hReverse : verifiedRows rows.reverse = (verifiedRows rows).reverse := by
    rw [verifiedRows, verifiedRows, List.filter_reverse]
  rw [detectInput, detectInput, hReverse]
  exact take_reverse_ne hNodup (by decide) h

end Rows

theorem statementsOf_distinct (runId : Uuid) (w : World) :
    ((statementsOf runId w.tables).map Statement.id).Nodup :=
  w.db.valid.statementsKey.filter _

/-- The order of the rows does not matter exactly if a run has at most as many verified statements as
the detector takes. -/
theorem unordered_iff (u : Unicode) (runId : Uuid) (w : World) :
    Unordered u runId w.tables ↔
      (verifiedRows (statementsOf runId w.tables)).length ≤ maxDetectStatements := by
  have hDistinct := statementsOf_distinct runId w
  constructor
  · intro hUnordered
    by_contra hLong
    have hSame := (hUnordered (Equiv.refl _) Fin.revPerm).1
    rw [arrange_refl, arrange_rev] at hSame
    exact detectInput_reverse hDistinct (by omega) hSame
  · intro hShort order order'
    -- Both stages take all verified statements, in whatever order they come.
    have hRows (any_ : Equiv.Perm (Fin (statementsOf runId w.tables).length)) :
        (arrange (statementsOf runId w.tables) any_).Perm (statementsOf runId w.tables) :=
      perm_arrange
    have hPerm := verifiedRows_perm (hRows order)
    have hPerm' := verifiedRows_perm (hRows order')
    have hBoth := hPerm.trans hPerm'.symm
    have hLeft : (verifiedRows (arrange (statementsOf runId w.tables) order)).length ≤
        maxDetectStatements := by
      rw [hPerm.length_eq]
      exact hShort
    have hRight : (verifiedRows (arrange (statementsOf runId w.tables) order')).length ≤
        maxDetectStatements := by
      rw [hPerm'.length_eq]
      exact hShort
    simp only [detectInput_short hLeft, detectInput_short hRight, concludeInput_short hLeft,
      concludeInput_short hRight]
    refine ⟨fun x => hBoth.mem_iff, candidatePairs_perm ?_ hBoth, fun x => hBoth.mem_iff⟩
    refine (hPerm.map Statement.id).nodup_iff.mpr ?_
    exact hDistinct.sublist (List.filter_sublist.map _)

/-! ## Too many statements -/

/-- Sixteen verified statements. -/
def sixteen : List Statement :=
  (List.range 16).map fun n => .noted (n + 4) "a b".toList .verified

/-- Their world. -/
def World.sixteen : World :=
  .noted "a b c".toList Ecrke.sixteen (by decide) (by decide) (by decide)

/-- Two orders of sixteen statements, and two sets of fifteen for the detector. -/
theorem unordered_fails :
    ∃ (w : World) (runId : Uuid) (order order' : Equiv.Perm (Fin (statementsOf runId w.tables).length)),
      ¬ SameSet (detectInput (arrange (statementsOf runId w.tables) order))
        (detectInput (arrange (statementsOf runId w.tables) order')) := by
  refine ⟨.sixteen, ⟨1⟩, Equiv.refl _, Fin.revPerm, ?_⟩
  rw [arrange_refl, arrange_rev]
  exact detectInput_reverse (statementsOf_distinct _ _) (by decide)

end Ecrke
