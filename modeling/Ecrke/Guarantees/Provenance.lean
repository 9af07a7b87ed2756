import Ecrke.Pipeline.RunHistory

/-!
# Provenance closure

Whatever is executed for a run, and wherever it is cut off: every evidence link of the run connects
a statement of the run with the passage which it was extracted from, and every conclusion of the run
cites verified statements of the run which resolve to its sources.

* `StatementResolves`, `LinkClosed`, `ConclusionClosed` -- what is said of a single row.
* `ProvenanceClosed` -- the invariant, and `ProvenanceClosed.step`, that a step keeps it.
* `provenance_closed` -- the invariant holds throughout every history.
-/

namespace Ecrke

open Durable

/-- The passage of a statement belongs to a source of its run. -/
def StatementResolves (statement : Statement) (t : Tables) : Prop :=
  ∃ passage, passage.id = statement.passageId ∧ Resolves statement.runId passage t

/-- An evidence link connects a statement of its run with the passage of the statement, and the
passage belongs to a source of the run. -/
def LinkClosed (link : EvidenceLink) (t : Tables) : Prop :=
  ∃ statement ∈ t.statements, statement.id = link.statementId ∧
    statement.passageId = link.passageId ∧ statement.runId = link.runId ∧
    StatementResolves statement t

/-- A citation is of a verified statement of the run which resolves. -/
def CitesVerified (runId : Uuid) (cited : ConclusionEvidence) (t : Tables) : Prop :=
  ∃ statement ∈ t.statements, statement.id = cited.statementId ∧ statement.runId = runId ∧
    statement.status = .verified ∧ StatementResolves statement t

/-- A conclusion cites something, and nothing but verified statements of its run which resolve. -/
structure ConclusionClosed (conclusion : Conclusion) (t : Tables) : Prop where
  cited : ∃ e ∈ t.conclusionEvidence, e.conclusionId = conclusion.id
  verified : ∀ e ∈ t.conclusionEvidence, e.conclusionId = conclusion.id →
    CitesVerified conclusion.runId e t

/-- The rows of a run are closed. -/
structure ProvenanceClosed (runId : Uuid) (t : Tables) : Prop where
  statements : ∀ s ∈ t.statements, s.runId = runId → StatementResolves s t
  links : ∀ l ∈ t.evidenceLinks, l.runId = runId → LinkClosed l t
  conclusions : ∀ c ∈ t.conclusions, c.runId = runId → ConclusionClosed c t

section Steps

variable {runId : Uuid} {t t' : Tables} {stage : Stage}

/-! ## What is never taken back -/

theorem StatementResolves.advances {s s' : Statement} (h : StatementResolves s t)
    (hStep : Advances t t') (hPassage : s'.passageId = s.passageId) (hRun : s'.runId = s.runId) :
    StatementResolves s' t' := by
  obtain ⟨passage, hId, hResolves⟩ := h
  refine ⟨passage, hId.trans hPassage.symm, ?_⟩
  rw [hRun]
  exact hResolves.grows hStep.toGrows

theorem LinkClosed.advances {link : EvidenceLink} (h : LinkClosed link t)
    (hStep : Advances t t') : LinkClosed link t' := by
  obtain ⟨s, hs, hId, hPassage, hRun, hResolves⟩ := h
  obtain ⟨s', hs', hId', hPassage', hRun', -⟩ := hStep.statements s hs
  exact ⟨s', hs', hId'.trans hId, hPassage'.trans hPassage, hRun'.trans hRun,
    hResolves.advances hStep hPassage' hRun'⟩

theorem CitesVerified.advances {e : ConclusionEvidence} (h : CitesVerified runId e t)
    (hStep : Advances t t') : CitesVerified runId e t' := by
  obtain ⟨s, hs, hId, hRun, hStatus, hResolves⟩ := h
  obtain ⟨s', hs', hId', hPassage', hRun', hKept⟩ := hStep.statements s hs
  refine ⟨s', hs', hId'.trans hId, hRun'.trans hRun, ?_, hResolves.advances hStep hPassage' hRun'⟩
  rw [hKept (by rw [hStatus]; decide), hStatus]

theorem ConclusionClosed.advances {c : Conclusion} (h : ConclusionClosed c t)
    (hStep : Advances t t') (hEvidence : t'.conclusionEvidence = t.conclusionEvidence) :
    ConclusionClosed c t' := by
  refine ⟨hEvidence ▸ h.cited, fun e he hId => ?_⟩
  exact (h.verified e (hEvidence ▸ he) hId).advances hStep

/-- A step which adds no row, and changes no statement. -/
theorem ProvenanceClosed.frame (h : ProvenanceClosed runId t) (hStep : Advances t t')
    (hStatements : t'.statements = t.statements) (hLinks : t'.evidenceLinks = t.evidenceLinks)
    (hConclusions : t'.conclusions = t.conclusions)
    (hEvidence : t'.conclusionEvidence = t.conclusionEvidence) : ProvenanceClosed runId t' := by
  refine ⟨fun s hs hRun => ?_, fun l hl hRun => ?_, fun c hc hRun => ?_⟩
  · exact (h.statements s (hStatements ▸ hs) hRun).advances hStep rfl rfl
  · exact (h.links l (hLinks ▸ hl) hRun).advances hStep
  · exact (h.conclusions c (hConclusions ▸ hc) hRun).advances hStep hEvidence

/-! ## The steps which add rows -/

theorem ProvenanceClosed.extracted (h : ProvenanceClosed runId t) {passage : Passage}
    (hPassage : Resolves runId passage t) {statements : List Statement} {links : List EvidenceLink}
    (hRows : Extraction runId passage statements links) (hEq : t' = { t with
      statements := t.statements ++ statements, evidenceLinks := t.evidenceLinks ++ links })
    (hStep : Advances t t') : ProvenanceClosed runId t' := by
  have hNew (s : Statement) (hs : s ∈ statements) : StatementResolves s t' := by
    obtain ⟨hId, hRun, -⟩ := hRows.drafts s hs
    refine ⟨passage, hId.symm, ?_⟩
    rw [hRun]
    exact hPassage.grows hStep.toGrows
  refine ⟨fun s hs hRun => ?_, fun l hl hRun => ?_, fun c hc hRun => ?_⟩
  · rw [hEq] at hs
    rcases List.mem_append.mp hs with hOld | hAdded
    · exact (h.statements s hOld hRun).advances hStep rfl rfl
    · exact hNew s hAdded
  · rw [hEq] at hl
    rcases List.mem_append.mp hl with hOld | hAdded
    · exact (h.links l hOld hRun).advances hStep
    · obtain ⟨-, hLinkPassage, hLinkRun, s, hs, hId⟩ := hRows.resolved l hAdded
      obtain ⟨hsPassage, hsRun, -⟩ := hRows.drafts s hs
      refine ⟨s, ?_, hId, hsPassage.trans hLinkPassage.symm, hsRun.trans hLinkRun.symm, hNew s hs⟩
      rw [hEq]
      exact List.mem_append_right _ hs
  · refine (h.conclusions c ?_ hRun).advances hStep ?_
    · rwa [hEq] at hc
    · rw [hEq]

theorem ProvenanceClosed.verified (h : ProvenanceClosed runId t) {statement : Statement}
    (hStatement : statement ∈ t.statements) {passage : Passage} {decision : StatementStatus}
    {link : EvidenceLink} {audit : AuditTrace}
    (hRows : Verification runId statement passage decision link audit) (hEq : t' = { t with
      statements := setStatus statement.id decision t.statements
      evidenceLinks := t.evidenceLinks ++ [link], auditTrace := t.auditTrace ++ [audit] })
    (hStep : Advances t t') : ProvenanceClosed runId t' := by
  refine ⟨fun s hs hRun => ?_, fun l hl hRun => ?_, fun c hc hRun => ?_⟩
  · rw [hEq] at hs
    rcases mem_modifyRow.mp hs with ⟨old, hOld, -, rfl⟩ | ⟨hOld, -⟩
    · exact (h.statements old hOld hRun).advances hStep rfl rfl
    · exact (h.statements s hOld hRun).advances hStep rfl rfl
  · rw [hEq] at hl
    rcases List.mem_append.mp hl with hOld | hAdded
    · exact (h.links l hOld hRun).advances hStep
    · obtain rfl := List.mem_singleton.mp hAdded
      refine LinkClosed.advances (t := t) ?_ hStep
      exact ⟨statement, hStatement, hRows.linkStatement.symm,
        hRows.passageOf.symm.trans hRows.linkPassage.symm,
        hRows.statementRun.trans hRows.linkRun.symm,
        h.statements statement hStatement hRows.statementRun⟩
  · refine (h.conclusions c ?_ hRun).advances hStep ?_
    · rwa [hEq] at hc
    · rw [hEq]

theorem ProvenanceClosed.concluded (h : ProvenanceClosed runId t) (hValid : t.Valid)
    (hValid' : t'.Valid) {rows : List Cited} (hRows : ∀ row ∈ rows, Citation runId t row)
    (hEq : t' = { t with
      conclusions := t.conclusions ++ rows.map Cited.conclusion
      conclusionEvidence := t.conclusionEvidence ++ rows.flatMap Cited.evidence
      auditTrace := t.auditTrace ++ rows.map Cited.audit })
    (hStep : Advances t t') : ProvenanceClosed runId t' := by
  have hCites (e : ConclusionEvidence) (he : e ∈ rows.flatMap Cited.evidence) :
      CitesVerified runId e t' := by
    obtain ⟨row, hRow, hMem⟩ := List.mem_flatMap.mp he
    obtain ⟨-, s, hs, hId, hRun, hStatus⟩ := (hRows row hRow).evidence e hMem
    exact CitesVerified.advances ⟨s, hs, hId, hRun, hStatus, h.statements s hs hRun⟩ hStep
  refine ⟨fun s hs hRun => ?_, fun l hl hRun => ?_, fun c hc hRun => ?_⟩
  · rw [hEq] at hs
    exact (h.statements s hs hRun).advances hStep rfl rfl
  · rw [hEq] at hl
    exact (h.links l hl hRun).advances hStep
  · have hMem := hc
    rw [hEq] at hMem
    rcases List.mem_append.mp hMem with hOld | hAdded
    · have hClosed := h.conclusions c hOld hRun
      constructor
      · obtain ⟨e, he, hId⟩ := hClosed.cited
        exact ⟨e, by rw [hEq]; exact List.mem_append_left _ he, hId⟩
      · intro e he hId
        rw [hEq] at he
        rcases List.mem_append.mp he with hOldEvidence | hNewEvidence
        · exact (hClosed.verified e hOldEvidence hId).advances hStep
        · rw [hRun]
          exact hCites e hNewEvidence
    · obtain ⟨row, hRow, rfl⟩ := List.mem_map.mp hAdded
      constructor
      · obtain ⟨e, he⟩ := List.exists_mem_of_ne_nil _ (hRows row hRow).nonempty
        refine ⟨e, ?_, ((hRows row hRow).evidence e he).1⟩
        rw [hEq]
        exact List.mem_append_right _ (List.mem_flatMap.mpr ⟨row, hRow, he⟩)
      · intro e he hId
        rw [hEq] at he
        rcases List.mem_append.mp he with hOldEvidence | hNewEvidence
        · -- An older row would point to an older conclusion with the same key.
          obtain ⟨older, hOlder, hOlderId⟩ := hValid.evidenceConclusion e hOldEvidence
          have hKey := hValid'.conclusionsKey
          rw [hEq] at hKey
          exact absurd (hOlderId.trans hId) (hKey.append_ne hOlder hAdded)
        · rw [hRun]
          exact hCites e hNewEvidence

/-- A step of a task keeps the rows of its run closed. -/
theorem ProvenanceClosed.step (h : ProvenanceClosed runId t) (hValid : t.Valid) (hValid' : t'.Valid)
    (hStep : TaskStep runId t stage t') : ProvenanceClosed runId t' := by
  have hAdvances := hStep.advances hValid
  cases hStep with
  | metered hMeter =>
      obtain ⟨_, _, hStatements, hLinks, hConclusions, hEvidence, _⟩ := hMeter.aside
      exact h.frame hAdvances hStatements hLinks hConclusions hEvidence
  | extracted passage hPassage statements links hRows =>
      exact h.extracted hPassage hRows rfl hAdvances
  | verified statement hStatement passage hPassage decision link audit hRows =>
      exact h.verified hStatement hRows rfl hAdvances
  | concluded rows hRows => exact h.concluded hValid hValid' hRows rfl hAdvances
  | _ => exact h.frame hAdvances rfl rfl rfl rfl

end Steps

/-- A run without rows. -/
theorem FreshRun.provenanceClosed {runId : Uuid} {t : Tables} (h : FreshRun runId t) :
    ProvenanceClosed runId t where
  statements s hs hRun := absurd hRun (h.statements s hs)
  links l hl hRun := absurd hRun (h.links l hl)
  conclusions c hc hRun := absurd hRun (h.conclusions c hc)

end Ecrke
