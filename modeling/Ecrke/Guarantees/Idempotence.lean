import Ecrke.Durable.Executions
import Ecrke.Guarantees.Verification
import Ecrke.Services.Bookkeeping

/-!
# Verification calls side by side

A call of the verifier decides on the object which it is given; the row in the database may have moved
on since that object was loaded.

* `VerifyCall` -- a call without force.
* `Recorded` -- a draft has no record of a verdict, a decided statement has one of each.
* `verify_serial` -- calls whose objects agree with the database decide a statement once.
* `verify_stale` -- two calls on objects which were loaded as drafts decide it twice.
-/

namespace Ecrke

open Durable

/-- A call `verify(statement, passage, run_id)`. -/
structure VerifyCall where
  gateway : LLMGateway
  statement : Statement
  passage : Passage
  runId : Uuid

/-- The program of a call. -/
def VerifyCall.run (call : VerifyCall) : Action VerificationOutcome :=
  verify call.gateway call.statement call.passage call.runId

/-- The stored status of a statement. -/
def storedStatus (id : Uuid) (w : World) : Option StatementStatus :=
  (findRow Statement.id id w.tables.statements).map Statement.status

/-- The records agree with the stored status: none for a draft, one of each for a verdict. -/
inductive Recorded (id : Uuid) (w : World) : Prop where
  | draft (hStatus : storedStatus id w = some .draft) (hLinks : verifyLinks id w.tables = [])
      (hAudits : verifyAudits id w.tables = [])
  | decided (decision : StatementStatus) (hDecided : decision ≠ .draft)
      (hStatus : storedStatus id w = some decision) (link : EvidenceLink) (audit : AuditTrace)
      (hLinks : verifyLinks id w.tables = [link]) (hAudits : verifyAudits id w.tables = [audit])

/-- A step which leaves the status of a statement and its records as they are. -/
structure LeavesRecords (id : Uuid) (m : Moment Vocabulary) : Prop where
  status : storedStatus id m.after = storedStatus id m.before
  links : verifyLinks id m.after.tables = verifyLinks id m.before.tables
  audits : verifyAudits id m.after.tables = verifyAudits id m.before.tables

/-- A step which decides a statement and records the verdict. -/
def Decides (id : Uuid) (m : Moment Vocabulary) : Prop :=
  ∃ decision link audit, decision ≠ .draft ∧ storedStatus id m.after = some decision ∧
    verifyLinks id m.after.tables = verifyLinks id m.before.tables ++ [link] ∧
    verifyAudits id m.after.tables = verifyAudits id m.before.tables ++ [audit]

section Steps

variable {id : Uuid} {m : Moment Vocabulary}

theorem LeavesRecords.of_book (m : Moment Vocabulary) (h : Bookkeeping m) :
    LeavesRecords id m := by
  obtain ⟨runs, kvCache, hTables⟩ := h.tables
  constructor
  · rw [storedStatus, storedStatus, hTables]
  · rw [verifyLinks, verifyLinks, hTables]
  · rw [verifyAudits, verifyAudits, hTables]

theorem LeavesRecords.of_same (h : m.after = m.before) : LeavesRecords id m := by
  constructor <;> rw [h]

theorem Recorded.leave (h : Recorded id m.before) (hm : LeavesRecords id m) :
    Recorded id m.after := by
  cases h with
  | draft hStatus hLinks hAudits =>
      exact .draft (hm.status.trans hStatus) (hm.links.trans hLinks) (hm.audits.trans hAudits)
  | decided decision hDecided hStatus link audit hLinks hAudits =>
      exact .decided decision hDecided (hm.status.trans hStatus) link audit
        (hm.links.trans hLinks) (hm.audits.trans hAudits)

/-- A draft which is decided has one record of each kind. -/
theorem Recorded.decide (h : Recorded id m.before) (hDraft : storedStatus id m.before = some .draft)
    (hm : Decides id m) : Recorded id m.after := by
  obtain ⟨decision, link, audit, hDecided, hStatus, hLinks, hAudits⟩ := hm
  cases h with
  | draft _ hNoLinks hNoAudits =>
      refine .decided decision hDecided hStatus link audit ?_ ?_
      · rw [hLinks, hNoLinks, List.nil_append]
      · rw [hAudits, hNoAudits, List.nil_append]
  | decided other hOther hStored =>
      rw [hDraft] at hStored
      cases hStored
      exact absurd rfl hOther

end Steps

/-! ## One call -/

section Call

variable {call : VerifyCall} {id : Uuid}

/-- The columns which a verdict changes in a stored draft. -/
theorem mergedWrites_eq (object : Statement) {row : Statement} {decision : StatementStatus}
    (hDraft : row.status = .draft) (hDecided : decision ≠ .draft) :
    ∃ changes : StatementChanges, changes.status = some decision ∧
      Merged.writes ⟨some row, { object with status := decision }⟩ =
        [.updateStatement row.id changes] := by
  simp only [Merged.writes, hDraft, hDecided, if_false, StatementChanges.isEmpty, Option.isNone_some,
    Bool.and_false, Bool.false_and, Bool.false_eq_true]
  exact ⟨_, rfl, rfl⟩

/-- The commit of a verdict on a stored draft decides the statement. -/
theorem commit_decides {s t : World} {row object : Statement} {decision : StatementStatus}
    {link : EvidenceLink} {audit : AuditTrace} (hId : row.id = id) (hDraft : row.status = .draft)
    (hDecided : decision ≠ .draft) (hStored : storedStatus id s = some .draft)
    (hLink : link.statementId = id ∧ link.method = some "verify".toList)
    (hAudit : IsVerifyAudit id audit)
    (ht : t.tables = s.tables.after ([.insertAuditTrace audit, .insertEvidenceLink link] ++
      Merged.writes ⟨some row, { object with status := decision }⟩)) :
    Decides id ⟨s, .moved, t⟩ := by
  obtain ⟨changes, hStatus, hWrites⟩ := mergedWrites_eq object hDraft hDecided
  rw [hWrites] at ht
  refine ⟨decision, link, audit, hDecided, ?_, ?_, ?_⟩
  · simp only [storedStatus, Option.map_eq_some_iff] at hStored
    obtain ⟨stored, hFind, -⟩ := hStored
    have hSame : ∀ row : Statement, row.id = id → (changes.apply row).id = id := fun _ h => h
    simp only [storedStatus, ht, Tables.after_append, Tables.after_cons, Tables.after_nil,
      Write.effect, hId]
    rw [findRow_modifyRow hSame, if_pos rfl, hFind]
    simp [StatementChanges.apply, hStatus]
  · have hAfter : t.tables.evidenceLinks = s.tables.evidenceLinks ++ [link] := by
      simp only [ht, Tables.after_append, Tables.after_cons, Tables.after_nil, Write.effect]
    rw [verifyLinks, hAfter]
    exact filter_snoc hLink
  · have hAfter : t.tables.auditTrace = s.tables.auditTrace ++ [audit] := by
      simp only [ht, Tables.after_append, Tables.after_cons, Tables.after_nil, Write.effect]
    rw [verifyAudits, hAfter]
    exact filter_snoc hAudit

/-- A step is harmless if it leaves the records alone, or decides the statement while it is a stored
draft. -/
def Harmless (id : Uuid) (m : Moment Vocabulary) : Prop :=
  storedStatus id m.before = some .draft → LeavesRecords id m ∨ Decides id m

theorem judge_returns {gateway : LLMGateway} {runId : Uuid} {statementText passageText : Text}
    {score : EvidenceScore} {ratio : ℚ} :
    Returns (fun judgement : Judgement => judgement.decision ≠ .draft)
      (judge gateway runId statementText passageText score ratio) := by
  have hAsk : Returns (S := Vocabulary) (fun judgement : Judgement => judgement.decision ≠ .draft)
      (judge gateway runId statementText passageText .full ratio) := by
    refine returns_bind fun reply => returns_done ?_
    dsimp only
    split <;> simp
  cases score with
  | none => exact returns_done (by simp)
  | full => exact hAsk
  | partial_ => exact hAsk

theorem judge_leaves {gateway : LLMGateway} {runId : Uuid} {statementText passageText : Text}
    {score : EvidenceScore} {ratio : ℚ}
    (hHooks : ∀ hook ∈ gateway.hooks, ∀ ctx, Keeps (LeavesRecords id) (hook ctx)) :
    Keeps (LeavesRecords id) (judge gateway runId statementText passageText score ratio) := by
  have hCall (args : CompleteArgs) :
      Keeps (LeavesRecords id) (completeModel gateway .verificationVerdict args) :=
    keeps_completeModel (fun _ _ _ _ _ => .of_same rfl) hHooks LeavesRecords.of_book _ _
  cases score with
  | none => exact keeps_done _
  | full => exact keeps_bind (hCall _) fun _ => keeps_done _
  | partial_ => exact keeps_bind (hCall _) fun _ => keeps_done _

/-- The transaction of a verdict, whatever the others do in between. -/
theorem persist_harmless {p : Platform} {row object : Statement} {entry : AuditEntry}
    {decision : StatementStatus} {outcome : VerificationOutcome}
    (link : Uuid → Instant → EvidenceLink) (hRow : row.id = id) (hDraft : row.status = .draft) (hDecided : decision ≠ .draft)
    (hLink : ∀ linkId ts, (link linkId ts).statementId = id ∧
      (link linkId ts).method = some "verify".toList)
    (hAudit : ∀ auditId ts, IsVerifyAudit id (entry.row p.unicode auditId ts)) :
    Keeps (Harmless id) (do
      let linkId ← uuid4
      let createdAt ← dbNow
      let audit ← auditAppend p entry
      commitWrites ([.insertAuditTrace audit, .insertEvidenceLink (link linkId createdAt)] ++
        Merged.writes ⟨some row, { object with status := decision }⟩)
      pure outcome) := by
  have hQuery (question : Query) :
      Keeps (Harmless id) (Prog.query (S := Vocabulary) question : Action (Answer question)) :=
    keeps_query fun _ _ _ => .inl (.of_same rfl)
  refine keeps_bind (hQuery _) fun linkId => keeps_bind (hQuery _) fun createdAt => ?_
  refine auditAppend_returns.keeps_bind ?_ ?_
  · exact keeps_bind (keeps_ofExcept _) fun _ => keeps_bind (hQuery _) fun _ =>
      keeps_bind (hQuery _) fun _ => keeps_done _
  rintro audit ⟨auditId, ts, rfl⟩
  refine keeps_bind (keeps_commitWrites (fun _ _ => .inl (.of_same rfl)) ?_) fun _ => keeps_done _
  intro s t hTables _ _ hStored
  exact .inr (commit_decides hRow hDraft hDecided hStored (hLink _ _) (hAudit _ _) hTables)

/-- What a call relies on and what it ensures: the stored status is the one of its object, and it
decides the statement only if that is a draft. -/
def VerifyCall.contract (call : VerifyCall) (id : Uuid) : Contract Vocabulary where
  rely := fun _ _ => True
  given := fun _ m => storedStatus id m.before = some call.statement.status
  ensures := fun _ m => (call.statement.status ≠ .draft → m.after = m.before) ∧
    (LeavesRecords id m ∨ call.statement.status = .draft ∧ Decides id m)

/-- A call on an object which is decided already is skipped. -/
def VerifyCall.Skips (call : VerifyCall) : Post Vocabulary VerificationOutcome := fun r _ _ =>
  call.statement.status ≠ .draft → ∀ outcome, r = .ok outcome → outcome.skipped = true

/-- The link of a verdict. -/
def VerifyCall.link (call : VerifyCall) (score : EvidenceScore) (linkId : Uuid)
    (createdAt : Instant) : EvidenceLink where
  id := linkId
  statementId := call.statement.id
  passageId := call.passage.id
  runId := call.runId
  score
  method := some "verify".toList
  createdAt

theorem verifyCall_wp
    (hHooks : ∀ hook ∈ call.gateway.hooks, ∀ ctx, Keeps (LeavesRecords id) (hook ctx))
    (hId : call.statement.id = id) {s : World} {l : Log Vocabulary} :
    wp (call.contract id) call.Skips call.run s l := by
  -- The merge reads a row whose status is the one of the object.
  refine wp_bind (fun r _ _ => ∀ merged, r = .ok merged → merged.current = call.statement ∧
    ∃ row, merged.loaded = some row ∧ row.id = id ∧ row.status = call.statement.status) ?_ ?_ ?_
  · refine wp_bind (fun r _ _ => ∀ loaded, r = .ok loaded → ∃ row, loaded = some row ∧
      row.id = id ∧ row.status = call.statement.status) (wp_select (fun t ht => ?_) ?_) ?_ ?_
    · refine ⟨⟨fun _ => rfl, .inl (.of_same rfl)⟩, ?_⟩
      rintro _ ⟨⟩
      obtain ⟨row, hFind, hStatus⟩ := Option.map_eq_some_iff.mp ht.2
      rw [hId]
      exact ⟨row, hFind, (findRow_some hFind).2, hStatus⟩
    · exact fun fault t ht => ⟨⟨fun _ => rfl, .inl (.of_same rfl)⟩, by simp⟩
    · intro loaded t l hLoaded
      refine .done ?_
      rintro _ ⟨⟩
      exact ⟨rfl, hLoaded loaded rfl⟩
    · exact fun error t l _ => by simp
  · intro merged t l hMerged
    obtain ⟨hCurrent, row, hLoaded, hRow, hStatus⟩ := hMerged merged rfl
    obtain ⟨_, _⟩ := merged
    subst hCurrent
    subst hLoaded
    split
    · refine .done fun _ => ?_
      rintro _ ⟨⟩
      rfl
    · rename_i hNotSkipped
      have hDraft : call.statement.status = .draft := by simpa using hNotSkipped
      refine (returns_any _).wp (R := Harmless id) ?_ ?_ ?_ ?_
      · refine keeps_bind (keeps_ofExcept _) ?_
        rintro ⟨score, ratio⟩
        refine judge_returns.keeps_bind ((judge_leaves hHooks).mono fun m hm _ => .inl hm) ?_
        intro judgement hDecided
        refine persist_harmless (call.link score) hRow (hStatus.trans hDraft) hDecided
          (fun _ _ => ⟨hId, rfl⟩) fun auditId ts => ?_
        rw [← hId]
        exact (verifyEntry_audit call.gateway.platform.unicode call.runId
          { call.statement with status := judgement.decision } score ratio judgement auditId ts).1
      · intro l m hGiven hm
        refine ⟨fun hDecided => absurd hDraft hDecided, ?_⟩
        refine (hm ?_).imp_right fun hDecides => ⟨hDraft, hDecides⟩
        rw [← hDraft]
        exact hGiven
      · exact fun _ _ _ _ hDecided => absurd hDraft hDecided
      · exact fun _ _ _ hDecided => absurd hDraft hDecided
  · exact fun error t l _ _ => by simp

end Call

/-! ## Calls in any order -/

/-- Calls on one statement, in any order of their steps.  As long as the stored status is that of its
object whenever a call takes a step, the records agree with the status throughout, and a call which
finds the statement decided writes nothing and returns that it was skipped. -/
theorem verify_serial {ι : Type} [DecidableEq ι] {calls : ι → VerifyCall} {id : Uuid}
    (hHooks : ∀ i, ∀ hook ∈ (calls i).gateway.hooks, ∀ ctx, Keeps (LeavesRecords id) (hook ctx))
    (hId : ∀ i, (calls i).statement.id = id) {s t : World} {log : List (ι × Moment Vocabulary)}
    {left : ι → Action VerificationOutcome}
    (h : PoolExec (fun i => (calls i).run) s log left t) (hStart : Recorded id s)
    (hFresh : ∀ i m, (i, m) ∈ log →
      storedStatus id m.before = some (calls i).statement.status) :
    Recorded id t ∧ (∀ i m, (i, m) ∈ log → Recorded id m.after) ∧
      ∀ i m, (i, m) ∈ log → storedStatus id m.before ≠ some .draft →
        (∀ m', (i, m') ∈ log → m'.after = m'.before) ∧
          ∀ outcome, left i = .done outcome → outcome.skipped = true := by
  obtain ⟨hAlong, hLeft⟩ := h.sound (C := fun i => (calls i).contract id)
    (Q := fun i => (calls i).Skips) (l := fun _ => []) (fun _ _ => trivial)
    (fun _ _ _ _ _ _ => trivial) (fun _ _ _ _ _ _ => trivial)
    (fun i => ⟨s, trivial, verifyCall_wp (hHooks i) (hId i)⟩)
    (fun i => Contract.granted_of_forall fun m hm _ => hFresh i m (mem_own.mp hm))
  have hEnsures (i : ι) (m : Moment Vocabulary) (hm : (i, m) ∈ log) :
      ((calls i).statement.status ≠ .draft → m.after = m.before) ∧
        (LeavesRecords id m ∨ (calls i).statement.status = .draft ∧ Decides id m) := by
    obtain ⟨_, _, -, hNow⟩ := (hAlong i).mem (mem_own.mpr hm)
    exact hNow
  have hStep (i : ι) (m : Moment Vocabulary) (hm : (i, m) ∈ log) (hBefore : Recorded id m.before) :
      Recorded id m.after := by
    rcases (hEnsures i m hm).2 with hLeaves | ⟨hDraft, hDecides⟩
    · exact hBefore.leave hLeaves
    · refine hBefore.decide ?_ hDecides
      rw [hFresh i m hm, hDraft]
  obtain ⟨hEnd, hBefore⟩ := h.linked.invariant (fun w : World => Recorded id w)
    (fun m hm hBefore => by
      obtain ⟨⟨i, _⟩, hEntry, rfl⟩ := List.mem_map.mp hm
      exact hStep i _ hEntry hBefore) hStart
  refine ⟨hEnd, fun i m hm => hStep i m hm (hBefore m (List.mem_map.mpr ⟨_, hm, rfl⟩)), ?_⟩
  intro i m hm hDecided
  have hObject : (calls i).statement.status ≠ .draft := by
    rintro hDraft
    rw [hFresh i m hm, hDraft] at hDecided
    exact hDecided rfl
  refine ⟨fun m' hm' => (hEnsures i m' hm').1 hObject, fun outcome hDone => ?_⟩
  obtain ⟨u, -, hRest⟩ := hLeft i
  rw [hDone, wp_done] at hRest
  exact hRest hObject outcome rfl

/-! ## Two calls, one after the other -/

/-- The world of one draft, whose passage does not support it. -/
def World.oneDraft : World :=
  .noted "a b c".toList [.noted 4 "x".toList .draft] (by decide) (by decide) (by decide)

/-- A call on that statement, loaded with a certain status. -/
def VerifyCall.onDraft (status : StatementStatus) : VerifyCall where
  gateway := ⟨.plain, ⟨"cheap".toList, "strong".toList, 5, "a.org".toList, 0, "blobs".toList⟩, 2, []⟩
  statement := .noted 4 "x".toList status
  passage := ⟨⟨3⟩, ⟨2⟩, 0, "a b c".toList, none, none, "h".toList⟩
  runId := ⟨1⟩

/-- A call on the draft, and one on an object with a certain status. -/
def twoCalls (status : StatementStatus) (second : Bool) : VerifyCall :=
  .onDraft (if second then status else .draft)

/-- The first call runs to its end, then the second one. -/
def oneAfterOther : List Bool := List.replicate 6 false ++ List.replicate 6 true

/-- Their execution. -/
def twoCallsRun (status : StatementStatus) :
    List (Bool × Moment Vocabulary) × (Bool → Action VerificationOutcome) × World :=
  runSchedule (quietOutside fun _ => .grant) oneAfterOther 0 (fun i => (twoCalls status i).run)
    World.oneDraft

theorem twoCalls_exec (status : StatementStatus) :
    PoolExec (fun i => (twoCalls status i).run) World.oneDraft (twoCallsRun status).1
      (twoCallsRun status).2.1 (twoCallsRun status).2.2 :=
  runSchedule_exec (quietOutside fun _ => .grant) oneAfterOther 0
    (fun i => (twoCalls status i).run) World.oneDraft

theorem oneDraft_recorded : Recorded ⟨4⟩ World.oneDraft := .draft rfl rfl rfl

/-- What the stale execution comes to. -/
theorem staleRun_facts :
    ((twoCallsRun .draft).1.all fun entry =>
      !entry.1 || storedStatus ⟨4⟩ entry.2.before == some .quarantined) = true ∧
    (((twoCallsRun .draft).2.1 true).returned.map VerificationOutcome.skipped) = some false ∧
    (verifyLinks ⟨4⟩ (twoCallsRun .draft).2.2.tables).length = 2 ∧
    (verifyAudits ⟨4⟩ (twoCallsRun .draft).2.2.tables).length = 2 := by
  decide +kernel

/-- The second call is given the draft which was loaded before the first one: it is not skipped, and
it leaves a second link and a second audit row. -/
theorem verify_stale : ∃ (calls : Bool → VerifyCall) (s t : World)
    (log : List (Bool × Moment Vocabulary)) (left : Bool → Action VerificationOutcome),
    PoolExec (fun i => (calls i).run) s log left t ∧ Recorded ⟨4⟩ s ∧
      (∀ i, findRow Statement.id ⟨4⟩ s.tables.statements = some (calls i).statement) ∧
      (∀ i m, (i, m) ∈ log → i = true → storedStatus ⟨4⟩ m.before = some .quarantined) ∧
      (∃ outcome, left true = .done outcome ∧ outcome.skipped = false) ∧
      (verifyLinks ⟨4⟩ t.tables).length = 2 ∧ (verifyAudits ⟨4⟩ t.tables).length = 2 := by
  obtain ⟨hAll, hReturned, hLinks, hAudits⟩ := staleRun_facts
  refine ⟨twoCalls .draft, World.oneDraft, _, _, _, twoCalls_exec .draft, oneDraft_recorded, ?_, ?_,
    ?_, hLinks, hAudits⟩
  · intro i
    cases i <;> rfl
  · rintro i m hm rfl
    simpa using List.all_eq_true.mp hAll _ hm
  · obtain ⟨outcome, hOutcome, hSkipped⟩ := Option.map_eq_some_iff.mp hReturned
    exact ⟨outcome, Prog.eq_done hOutcome, hSkipped⟩

/-- The second call is given what the first one has stored. -/
theorem verify_serial_twice : Recorded ⟨4⟩ (twoCallsRun .quarantined).2.2 := by
  refine (verify_serial ?_ ?_ (twoCalls_exec .quarantined) oneDraft_recorded ?_).1
  · rintro i _ ⟨⟩
  · intro i
    cases i <;> rfl
  · have hAll : (twoCallsRun .quarantined).1.all fun entry => storedStatus ⟨4⟩ entry.2.before ==
        some (twoCalls .quarantined entry.1).statement.status := by
      decide +kernel
    intro i m hm
    simpa using List.all_eq_true.mp hAll _ hm

end Ecrke
