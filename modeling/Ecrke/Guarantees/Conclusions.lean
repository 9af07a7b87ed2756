import Ecrke.Guarantees.CachedCalls
import Ecrke.Pipeline.RunHistory

/-!
# The conclusions of a report

The report generator makes four things of a draft in one turn of a loop: a conclusion, its evidence
rows, an audit row and an entry of the report.

* `Cited.of` -- the four things as a function of the draft.
* `generateRows`, `persistRows` -- the generator, cut at its commit.
* `generateRows_done` -- the drafts which are kept, and what is made of them.
* `CitedFor`, `conclusions_aligned` -- what is committed and reported corresponds to the drafts.
* `firesOneSided`, `oneSided_reviewed_iff` -- when one-sided conclusions go to human review.
* `evidenceKeys_iff` -- when the keys of the evidence rows are distinct.
* `concludingCall`, `concludingRows` -- calls about one statement.
-/

namespace Ecrke

open Durable

/-! ## Drafts -/

/-- The call of the synthesis. -/
def synthesisCall (gateway : LLMGateway) (runId : Uuid) (statements : List Statement)
    (contradictions : List (Text × Text × Text)) : CompleteArgs :=
  let (system, dataBlock) := buildSynthesisPrompt ((sortedVerified statements).map fun s =>
    (s.id.str, redactSecrets gateway.platform.unicode s.text)) contradictions
  { tier := .strong, system := some system, prompt := some dataBlock, runId := some runId,
    useCache := false, responseModel := some .conclusionExtraction }

/-- The confirmed contradictions as the generator uses them. -/
def contradictionTuples (p : Platform) (contradictions : List Contradiction) :
    List (Text × Text × Text) :=
  (contradictions.filter fun c => c.status = .confirmed).map fun c =>
    (c.statementAId.str, c.statementBId.str, contradictionSummary p c)

/-- A text is the identifier of a verified statement. -/
def isVerifiedId (statements : List Statement) (id : Text) : Bool :=
  statements.any fun s => s.status = .verified && s.id.str = id

/-- A draft cites a verified statement. -/
def citesVerified (statements : List Statement) (draft : ConclusionDraft) : Bool :=
  draft.statementIds.val.any (isVerifiedId statements)

/-- What is made of a draft, with the identifiers and time stamps which it gets. -/
def Cited.of (p : Platform) (synthesis : Synthesis) (draft : ConclusionDraft) (id : Uuid)
    (createdAt : Instant) (auditId : Uuid) (ts : Instant) : Cited :=
  let cited := synthesis.cited draft
  let text := redactSecrets p.unicode draft.text.val
  let oneSided := oneSidednessCheck (cited.map synthesis.domain) draft.oneSided
  let humanReview := isHighStakes p.unicode text || draft.highStakes
  let citedIds := cited.map fun s => s.id.str
  { conclusion :=
      { id, runId := synthesis.runId, text, confidence := draft.confidence,
        humanReviewRequired := humanReview, createdAt }
    evidence := cited.map fun s => ⟨id, s.id⟩
    audit := (conclusionEntry synthesis.runId id text cited oneSided humanReview).row p.unicode
      auditId ts
    report :=
      { id := id.str, text, confidence := draft.confidence, humanReviewRequired := humanReview,
        oneSided
        contradictionWarnings := (synthesis.contradictions.filter fun (a, b, _) =>
          citedIds.contains a || citedIds.contains b).map fun (_, _, summary) => summary
        supportMatrix := cited.map fun s =>
          ⟨s.id.str, s.passageId.str, ((latestVerifyScore synthesis.links s.id).getD .none).value⟩
        evidenceStatements := cited.map fun s =>
          ⟨s.id.str, redactSecrets p.unicode s.text, synthesis.domain s⟩ } }

section Drafts

variable {p : Platform} {synthesis : Synthesis} {draft : ConclusionDraft} {s t : World}
  {log : Log Vocabulary}

/-- The identifier which a step has asked for. -/
def Moment.freshId (m : Moment Vocabulary) : Option Uuid :=
  match m.happening with
  | .asked .uuid4 (id : Uuid) => some id
  | _ => none

/-- What is made of a draft which cites a statement. -/
def MadeOf (p : Platform) (synthesis : Synthesis) (draft : ConclusionDraft) (row : Cited) : Prop :=
  ∃ id createdAt auditId ts, row = Cited.of p synthesis draft id createdAt auditId ts

/-- A draft is kept just if it cites a statement; then it becomes what `Cited.of` says, under an
identifier which has been asked for. -/
def Turned (p : Platform) (synthesis : Synthesis) (draft : ConclusionDraft)
    (turn : Option Cited × Log Vocabulary) : Prop :=
  (synthesis.cited draft = [] ∧ turn.1 = none) ∨
    synthesis.cited draft ≠ [] ∧ ∃ row, turn.1 = some row ∧ MadeOf p synthesis draft row ∧
      row.conclusion.id ∈ turn.2.filterMap Moment.freshId

theorem conclude_done {found : Option Cited}
    (h : Exec (conclude p synthesis draft) s log (.done found) t) :
    Turned p synthesis draft (found, log) := by
  unfold conclude at h
  dsimp only at h
  split at h
  · rename_i hEmpty
    obtain ⟨-, hDone, -⟩ := Exec.of_done h
    cases hDone
    exact .inl ⟨List.isEmpty_iff.mp hEmpty, rfl⟩
  · rename_i hCited
    rcases Exec.of_query h with ⟨-, hOpen, -⟩ | ⟨id, afterId, rfl, hRest⟩
    · cases hOpen
    obtain ⟨createdAt, _, afterStamp, v, rfl, hStamp, hLater⟩ := Exec.of_bind_done hRest
    obtain ⟨audit, _, last, w, rfl, hAudit, hLast⟩ := Exec.of_bind_done hLater
    obtain ⟨auditId, ts, rfl⟩ := auditAppend_returns.exec hAudit
    obtain ⟨-, hDone, -⟩ := Exec.of_done hLast
    cases hDone
    refine .inr ⟨fun hNil => hCited (List.isEmpty_iff.mpr hNil), _, rfl,
      ⟨id, createdAt, auditId, ts, rfl⟩, ?_⟩
    exact List.mem_filterMap.mpr ⟨_, List.mem_cons_self, rfl⟩

/-- The drafts which are kept, and what is made of them. -/
theorem kept_made {drafts : List ConclusionDraft} {turns : List (Option Cited × Log Vocabulary)}
    (h : List.Forall₂ (Turned p synthesis) drafts turns) :
    List.Forall₂ (MadeOf p synthesis) (drafts.filter fun draft => !(synthesis.cited draft).isEmpty)
      ((turns.map Prod.fst).filterMap id) := by
  induction h with
  | nil => exact .nil
  | @cons draft turn _ _ hTurn _ ih =>
      rcases hTurn with ⟨hNone, hFound⟩ | ⟨hCited, row, hFound, hMade, -⟩
      · simpa [hNone, hFound] using ih
      · have hKept : (synthesis.cited draft).isEmpty = false := by simpa using hCited
        simpa [hKept, hFound] using And.intro hMade ih

/-- The identifiers of the conclusions are among those which have been asked for, in this order. -/
theorem kept_ids {drafts : List ConclusionDraft} {turns : List (Option Cited × Log Vocabulary)}
    (h : List.Forall₂ (Turned p synthesis) drafts turns) :
    (((turns.map Prod.fst).filterMap id).map fun row => row.conclusion.id).Sublist
      ((turns.map Prod.snd).flatten.filterMap Moment.freshId) := by
  induction h with
  | nil => exact .slnil
  | cons hTurn _ ih =>
      simp only [List.map_cons, List.flatten_cons, List.filterMap_append]
      rcases hTurn with ⟨-, hFound⟩ | ⟨-, row, hFound, -, hId⟩
      · simpa [hFound] using ih.trans (List.sublist_append_right _ _)
      · simpa [hFound] using (List.singleton_sublist.mpr hId).append ih

end Drafts

/-! ## The generator, cut at its commit -/

/-- `generate` up to its commit: the rows of the drafts which are kept. -/
def generateRows (gateway : LLMGateway) (runId : Uuid) (statements : List Statement)
    (contradictions : List Contradiction) : Action (List Cited) := do
  let p := gateway.platform
  let verified := sortedVerified statements
  if verified.isEmpty then
    raiseError .valueError "report generation requires at least one verified statement".toList
  let conflicts := contradictionTuples p contradictions
  let (system, dataBlock) := buildSynthesisPrompt
    (verified.map fun s => (s.id.str, redactSecrets p.unicode s.text)) conflicts
  let (_, extraction) ← completeModel gateway .conclusionExtraction
    { tier := .strong, system := some system, prompt := some dataBlock, runId := some runId,
      useCache := false }
  let extraction : ConclusionExtraction := extraction
  let links ← latestVerifyScores verified
  let domains ← sourceDomains p verified
  let rows ← extraction.conclusions.val.mapM
    (conclude p ⟨runId, verified, conflicts, links, domains⟩)
  pure (rows.filterMap id)

/-- `generate` from its commit on. -/
def persistRows (p : Platform) (runId : Uuid) (topic : Text) (rows : List Cited) : Action Report := do
  commitWrites (conclusionWrites rows)
  let generatedAt ← now
  pure
    { runId := runId.str, topic := redactSecrets p.unicode topic, generatedAt,
      conclusions := rows.map Cited.report }

theorem generate_eq (gateway : LLMGateway) (runId : Uuid) (topic : Text)
    (statements : List Statement) (contradictions : List Contradiction) :
    generate gateway runId topic statements contradictions =
      (generateRows gateway runId statements contradictions).bind
        (persistRows gateway.platform runId topic) := by
  unfold generate generateRows
  dsimp only
  split
  · rfl
  · simp only [Prog.bind_def, Prog.bind_assoc]
    rfl

section Generator

variable {gateway : LLMGateway} {runId : Uuid} {topic : Text} {statements : List Statement}
  {contradictions : List Contradiction} {s t : World} {log : Log Vocabulary}

/-- A step which leaves all tables but the runs and the cache as they are. -/
def RowsKept (m : Moment Vocabulary) : Prop :=
  ∃ runs kvCache, m.after.tables = { m.before.tables with runs, kvCache }

theorem RowsKept.of_same (m : Moment Vocabulary) (h : Same m) : RowsKept m :=
  ⟨_, _, by rw [h]⟩

theorem Exec.rowsKept {α : Type} {p q : Action α} (h : Exec p s log q t) (hp : Keeps RowsKept p) :
    ∃ runs kvCache, t.tables = { s.tables with runs, kvCache } := by
  refine (h.linked.invariant
    (fun u : World => ∃ runs kvCache, u.tables = { s.tables with runs, kvCache }) ?_ ⟨_, _, rfl⟩).1
  intro m hm hBefore
  obtain ⟨runs, kvCache, hTables⟩ := hBefore
  obtain ⟨runs', kvCache', hStep⟩ := (h.keeps hp).1 m hm
  exact ⟨runs', kvCache', by rw [hStep, hTables]⟩

theorem keeps_synthesis (hHooks : ∀ hook ∈ gateway.hooks, ∀ ctx, Keeps RowsKept (hook ctx))
    (args : CompleteArgs) : Keeps RowsKept (completeModel gateway .conclusionExtraction args) :=
  keeps_completeModel (fun _ _ _ _ _ => ⟨_, _, rfl⟩) hHooks (fun _ h => h.tables) _ _

theorem same_sourceDomains (p : Platform) (verified : List Statement) :
    Keeps Same (sourceDomains p verified) := by
  refine keeps_bind (same_selectRows _) fun passages => ?_
  dsimp only
  split
  · exact keeps_bind (keeps_done _) fun _ => keeps_ofExcept _
  · exact keeps_bind (same_selectRows _) fun _ => keeps_ofExcept _

theorem same_conclude {p : Platform} {synthesis : Synthesis} (draft : ConclusionDraft) :
    Keeps Same (conclude p synthesis draft) := by
  unfold conclude
  dsimp only
  split
  · exact keeps_done _
  · exact keeps_bind (same_query _) fun _ => keeps_bind (same_query _) fun _ =>
      keeps_bind (same_auditAppend _ _) fun _ => keeps_done _

/-- Before the commit nothing is written but what the gateway keeps about its calls. -/
theorem keeps_generateRows (hHooks : ∀ hook ∈ gateway.hooks, ∀ ctx, Keeps RowsKept (hook ctx)) :
    Keeps RowsKept (generateRows gateway runId statements contradictions) := by
  unfold generateRows
  dsimp only
  split
  · exact keeps_raise _
  · refine keeps_bind (keeps_synthesis hHooks _) fun _ => ?_
    refine keeps_bind ((same_selectRows _).mono RowsKept.of_same) fun _ => ?_
    refine keeps_bind ((same_sourceDomains _ _).mono RowsKept.of_same) fun _ => ?_
    refine keeps_bind (keeps_mapM fun draft _ => (same_conclude draft).mono RowsKept.of_same) ?_
    exact fun _ => keeps_done _

/-- The synthesis which the generator makes of the tables. -/
structure Synthesis.Of (p : Platform) (runId : Uuid) (statements : List Statement)
    (contradictions : List Contradiction) (t : Tables) (synthesis : Synthesis) : Prop where
  runId : synthesis.runId = runId
  verified : synthesis.verified = sortedVerified statements
  contradictions : synthesis.contradictions = contradictionTuples p contradictions
  links : synthesis.links.Perm
    (t.evidenceLinks.filter fun l => (sortedVerified statements).any fun s => s.id = l.statementId)
  domains : ∃ passages sources : List _, passages.Perm
      (t.passages.filter fun row => (sortedVerified statements).any fun s => s.passageId = row.id) ∧
    sources.Perm (t.sources.filter fun row => passages.any fun passage => passage.sourceId = row.id) ∧
    domainsOf p (sortedVerified statements) passages sources = .ok synthesis.domains

theorem sourceDomains_done {p : Platform} {verified : List Statement}
    {domains : List (Uuid × Text)} (h : Exec (sourceDomains p verified) s log (.done domains) t) :
    ∃ passages sources : List _, passages.Perm
        (s.tables.passages.filter fun row => verified.any fun s => s.passageId = row.id) ∧
      sources.Perm
        (s.tables.sources.filter fun row => passages.any fun passage => passage.sourceId = row.id) ∧
      domainsOf p verified passages sources = .ok domains := by
  obtain ⟨passages, _, _, u, -, hPassages, hRest⟩ := Exec.of_bind_done h
  obtain ⟨rfl, hFound⟩ := selectRows_done hPassages
  dsimp only at hRest
  split at hRest
  · rename_i hNone
    obtain ⟨sources, _, _, v, -, hSources, hLast⟩ := Exec.of_bind_done hRest
    obtain ⟨-, hDone, rfl⟩ := Exec.of_done hSources
    cases hDone
    obtain rfl := List.isEmpty_iff.mp hNone
    exact ⟨[], [], hFound, by simp, (ofExcept_done hLast).2⟩
  · obtain ⟨sources, _, _, v, -, hSources, hLast⟩ := Exec.of_bind_done hRest
    obtain ⟨rfl, hOrder⟩ := selectRows_done hSources
    exact ⟨passages, sources, hFound, hOrder, (ofExcept_done hLast).2⟩

/-- The rows of the drafts which are kept: each of them is what `Cited.of` makes of its draft, in the
order of the reply. -/
theorem generateRows_done (hHooks : ∀ hook ∈ gateway.hooks, ∀ ctx, Keeps RowsKept (hook ctx))
    {rows : List Cited}
    (h : Exec (generateRows gateway runId statements contradictions) s log (.done rows) t) :
    ∃ content, ∃ extraction : ConclusionExtraction, ∃ synthesis : Synthesis,
      Answered gateway (synthesisCall gateway runId statements
        (contradictionTuples gateway.platform contradictions)) log content
        (.model .conclusionExtraction extraction) ∧
      synthesis.Of gateway.platform runId statements contradictions s.tables ∧
      List.Forall₂ (MadeOf gateway.platform synthesis)
        (extraction.conclusions.val.filter fun draft => !(synthesis.cited draft).isEmpty) rows ∧
      (rows.map fun row => row.conclusion.id).Sublist (log.filterMap Moment.freshId) := by
  unfold generateRows at h
  dsimp only at h
  split at h
  · obtain ⟨-, hDone, -⟩ := Exec.of_raise h
    cases hDone
  obtain ⟨reply, called, rest, u, rfl, hCall, hRest⟩ := Exec.of_bind_done h
  obtain ⟨runs, kvCache, hTables⟩ := Exec.rowsKept hCall (keeps_synthesis hHooks _)
  have hAnswered := completeModel_done rfl hCall
  obtain ⟨links, _, afterLinks, v, rfl, hLinks, hLater⟩ := Exec.of_bind_done hRest
  obtain ⟨rfl, hLinks⟩ := selectRows_done hLinks
  obtain ⟨domains, _, afterDomains, w, rfl, hDomains, hLoop⟩ := Exec.of_bind_done hLater
  have hWhere := sourceDomains_done hDomains
  obtain ⟨found, _, last, x, rfl, hTurns, hLast⟩ := Exec.of_bind_done hLoop
  obtain ⟨rfl, hDone, -⟩ := Exec.of_done hLast
  cases hDone
  obtain ⟨turns, rfl, rfl, hEach⟩ := Exec.of_mapM_done hTurns
  have hTurned := hEach.imp fun draft turn hTurn => by
    obtain ⟨before, after, hExec⟩ := hTurn
    exact conclude_done hExec
  rw [hTables] at hLinks hWhere
  refine ⟨reply.1.content, reply.2, _, ?_, ⟨rfl, rfl, rfl, hLinks, hWhere⟩, kept_made hTurned,
    (kept_ids hTurned).trans ?_⟩
  · unfold synthesisCall
    dsimp only
    exact hAnswered.mono fun m hm => List.mem_append_left _ hm
  · simp only [List.filterMap_append, List.append_nil]
    exact ((List.sublist_append_right _ _).trans (List.sublist_append_right _ _)).trans
      (List.sublist_append_right _ _)

end Generator

/-! ## Calls about one statement -/

/-- A gateway whose provider proposes one conclusion, which cites certain identifiers. -/
def LLMGateway.concluding (cited : BoundedList Text 1 20) : LLMGateway where
  platform :=
    { Platform.plain with
      jsonLoads := fun _ => some (.obj [])
      validate := fun
        | .conclusionExtraction, _ => do
            let text ← BoundedText.check 1 2000 "holds".toList
            let drafts ← BoundedList.check 0 50
              [(⟨text, cited, none, false, false⟩ : ConclusionDraft)]
            some (⟨drafts⟩ : ConclusionExtraction)
        | _, _ => none
      urlparse := fun _ => some ⟨"a.org".toList, some "a.org".toList⟩ }
  settings := ⟨"cheap".toList, "strong".toList, 5, "a.org".toList, 0, "blobs".toList⟩

/-- A verified statement. -/
def holding : Statement := .noted 4 "a b".toList .verified

/-- Its world. -/
def World.holding : World :=
  .noted "a b c".toList [Ecrke.holding] (by decide) (by decide) (by decide)

/-- The identifier of the statement. -/
def citedOnce : BoundedList Text 1 20 := ⟨[holding.id.str], by decide, by decide⟩

/-- The identifier of the statement, twice. -/
def citedTwice : BoundedList Text 1 20 :=
  ⟨[holding.id.str, holding.id.str], by decide, by decide⟩

/-- A call of the generator on the statement. -/
def concludingCall (cited : BoundedList Text 1 20) (verdict : Nat → Durable.Verdict Vocabulary) :
    Log Vocabulary × Action Report × World :=
  simulate (({} : Served).outside verdict) 40 0
    (generate (.concluding cited) ⟨1⟩ "q".toList [holding] []) .holding

/-- The report of the commit is lost. -/
def losesCommit (n : Nat) : Durable.Verdict Vocabulary :=
  if n = 19 then .lose "connection lost".toList else .grant

theorem concluding_hooks (cited : BoundedList Text 1 20) :
    ∀ hook ∈ (LLMGateway.concluding cited).hooks, ∀ ctx, Keeps RowsKept (hook ctx) := by
  rintro _ ⟨⟩

theorem concludingCall_exec (cited : BoundedList Text 1 20)
    (verdict : Nat → Durable.Verdict Vocabulary) :
    Exec (generate (.concluding cited) ⟨1⟩ "q".toList [holding] []) .holding
      (concludingCall cited verdict).1 (concludingCall cited verdict).2.1
      (concludingCall cited verdict).2.2 :=
  simulate_exec _ _ _ _ _

/-! ## Conclusions and their drafts -/

/-- What is committed and reported for a draft: a conclusion, its evidence rows, an audit row and an
entry of the report.  They cite the verified statements which the draft names, in its order, and
there is at least one. -/
structure CitedFor (u : Unicode) (runId : Uuid) (statements : List Statement)
    (draft : ConclusionDraft) (row : Cited) : Prop where
  conclusion : row.conclusion.runId = runId ∧ row.conclusion.text = redactSecrets u draft.text.val
  audit : row.audit.runId = runId ∧ row.audit.entityType = "conclusion".toList ∧
    row.audit.entityId = some row.conclusion.id.str
  report : row.report.id = row.conclusion.id.str ∧ row.report.text = row.conclusion.text
  cites : ∃ cited : List Statement, cited ≠ [] ∧
    (∀ s ∈ cited, s ∈ statements ∧ s.status = .verified) ∧
    cited.map (fun s => s.id.str) = draft.statementIds.val.filter (isVerifiedId statements) ∧
    row.evidence = cited.map (fun s => ⟨row.conclusion.id, s.id⟩) ∧
    row.report.supportMatrix.map ReportSupportEntry.statementId =
      cited.map (fun s => s.id.str) ∧
    row.report.evidenceStatements.map ReportEvidenceStatement.id = cited.map fun s => s.id.str

section Citations

variable {p : Platform} {runId : Uuid} {statements : List Statement}
  {contradictions : List Contradiction} {t : Tables} {synthesis : Synthesis}
  {draft : ConclusionDraft}

theorem byId_some {id : Text} {s : Statement} (h : synthesis.byId id = some s) :
    s ∈ synthesis.verified ∧ s.id.str = id :=
  ⟨List.mem_of_find?_eq_some h, by simpa using List.find?_some h⟩

theorem byId_isSome (hVerified : synthesis.verified = sortedVerified statements) (id : Text) :
    (synthesis.byId id).isSome = isVerifiedId statements id := by
  rw [Bool.eq_iff_iff, Synthesis.byId, hVerified, List.find?_isSome, isVerifiedId, List.any_eq_true]
  simp [mem_sortedVerified, and_assoc]

/-- The statements which a draft cites are those whose identifiers it names. -/
theorem cited_ids (hVerified : synthesis.verified = sortedVerified statements)
    (draft : ConclusionDraft) : (synthesis.cited draft).map (fun s => s.id.str) =
      draft.statementIds.val.filter (isVerifiedId statements) := by
  unfold Synthesis.cited
  induction draft.statementIds.val with
  | nil => rfl
  | cons id rest ih =>
      have hSome := byId_isSome hVerified id
      cases hFound : synthesis.byId id with
      | none =>
          have hUnknown : isVerifiedId statements id = false := by rw [← hSome, hFound]; rfl
          simpa [hFound, hUnknown] using ih
      | some s =>
          have hKnown : isVerifiedId statements id = true := by rw [← hSome, hFound]; rfl
          simpa [hFound, hKnown, (byId_some hFound).2] using ih

theorem cited_isEmpty (hVerified : synthesis.verified = sortedVerified statements)
    (draft : ConclusionDraft) :
    (!(synthesis.cited draft).isEmpty) = citesVerified statements draft := by
  have hIds := congrArg List.isEmpty (cited_ids hVerified draft)
  rw [List.isEmpty_map] at hIds
  rw [hIds, Bool.eq_iff_iff, citesVerified]
  simp [List.filter_eq_nil_iff]

theorem MadeOf.citedFor (hOf : synthesis.Of p runId statements contradictions t)
    (hKept : citesVerified statements draft = true) {row : Cited}
    (h : MadeOf p synthesis draft row) : CitedFor p.unicode runId statements draft row := by
  obtain ⟨id, createdAt, auditId, ts, rfl⟩ := h
  have hType : Secretless "conclusion".toList := by decide
  have hIds := cited_ids hOf.verified draft
  have hNotNil : synthesis.cited draft ≠ [] := by
    rw [← cited_isEmpty hOf.verified] at hKept
    simpa using hKept
  refine ⟨⟨hOf.runId, rfl⟩, ⟨hOf.runId, ?_, ?_⟩, ⟨rfl, rfl⟩, synthesis.cited draft, hNotNil, ?_, hIds,
    rfl, ?_, ?_⟩
  · exact AuditEntry.row_entityType rfl hType
  · exact congrArg some (redactSecrets_eq_self p.unicode (Secretless.uuid id))
  · intro s hs
    obtain ⟨named, -, hFound⟩ := List.mem_filterMap.mp hs
    have hMem := (byId_some hFound).1
    rw [hOf.verified] at hMem
    exact mem_sortedVerified.mp hMem
  · exact List.map_map
  · exact List.map_map

end Citations

/-- The rows which a call has committed, and how they correspond to the drafts of the reply. -/
structure Concluded (gateway : LLMGateway) (runId : Uuid) (statements : List Statement)
    (contradictions : List Contradiction) (s : World) (log : Log Vocabulary) (t : World)
    (rows : List Cited) : Prop where
  drafts : ∃ content, ∃ extraction : ConclusionExtraction,
    Answered gateway (synthesisCall gateway runId statements
      (contradictionTuples gateway.platform contradictions)) log content
      (.model .conclusionExtraction extraction) ∧
    List.Forall₂ (CitedFor gateway.platform.unicode runId statements)
      (extraction.conclusions.val.filter (citesVerified statements)) rows
  conclusions : t.tables.conclusions = s.tables.conclusions ++ rows.map Cited.conclusion
  evidence : t.tables.conclusionEvidence =
    s.tables.conclusionEvidence ++ rows.flatMap Cited.evidence
  audits : t.tables.auditTrace = s.tables.auditTrace ++ rows.map Cited.audit

/-- No conclusion, no evidence row and no audit row has been added. -/
structure NothingConcluded (s t : World) : Prop where
  conclusions : t.tables.conclusions = s.tables.conclusions
  evidence : t.tables.conclusionEvidence = s.tables.conclusionEvidence
  audits : t.tables.auditTrace = s.tables.auditTrace

section Calls

variable {gateway : LLMGateway} {runId : Uuid} {topic : Text} {statements : List Statement}
  {contradictions : List Contradiction} {s t : World} {log : Log Vocabulary}

theorem NothingConcluded.of_kept
    (h : ∃ runs kvCache, t.tables = { s.tables with runs, kvCache }) : NothingConcluded s t := by
  obtain ⟨runs, kvCache, hTables⟩ := h
  exact ⟨by rw [hTables], by rw [hTables], by rw [hTables]⟩

/-- The rows at the commit, in a world which has changed in its runs and its cache only. -/
theorem generateRows_drafts (hHooks : ∀ hook ∈ gateway.hooks, ∀ ctx, Keeps RowsKept (hook ctx))
    {rows : List Cited}
    (h : Exec (generateRows gateway runId statements contradictions) s log (.done rows) t) :
    ∃ content, ∃ extraction : ConclusionExtraction,
      Answered gateway (synthesisCall gateway runId statements
        (contradictionTuples gateway.platform contradictions)) log content
        (.model .conclusionExtraction extraction) ∧
      List.Forall₂ (CitedFor gateway.platform.unicode runId statements)
        (extraction.conclusions.val.filter (citesVerified statements)) rows := by
  obtain ⟨content, extraction, synthesis, hAnswered, hOf, hMade, -⟩ := generateRows_done hHooks h
  simp only [cited_isEmpty hOf.verified] at hMade
  refine ⟨content, extraction, hAnswered, ?_⟩
  exact List.forall₂_iff_get.mpr ⟨hMade.length_eq, fun i hi hi' => (hMade.get hi hi').citedFor hOf
    (List.mem_filter.mp (List.get_mem _ _)).2⟩

/-- If the commit is carried out, all rows of the kept drafts are there. -/
theorem Concluded.of_commit (hHooks : ∀ hook ∈ gateway.hooks, ∀ ctx, Keeps RowsKept (hook ctx))
    {rows : List Cited} {now : Log Vocabulary} {u : World}
    (h : Exec (generateRows gateway runId statements contradictions) s now (.done rows) u)
    (hNow : ∀ m ∈ now, m ∈ log) (hTables : t.tables = u.tables.after (conclusionWrites rows)) :
    Concluded gateway runId statements contradictions s log t rows := by
  obtain ⟨content, extraction, hAnswered, hDrafts⟩ := generateRows_drafts hHooks h
  obtain ⟨runs, kvCache, hKept⟩ := Exec.rowsKept h (keeps_generateRows hHooks)
  rw [after_conclusionWrites, hKept] at hTables
  exact ⟨⟨content, extraction, hAnswered.mono hNow, hDrafts⟩, by rw [hTables], by rw [hTables],
    by rw [hTables]⟩

theorem persistRows_done {p : Platform} {rows : List Cited} {report : Report}
    (h : Exec (persistRows p runId topic rows) s log (.done report) t) :
    t.tables = s.tables.after (conclusionWrites rows) ∧
      report.conclusions = rows.map Cited.report := by
  obtain ⟨_, _, rest, u, -, hCommit, hRest⟩ := Exec.of_bind_done h
  have hTables := commitWrites_done hCommit
  rcases Exec.of_query hRest with ⟨-, hOpen, -⟩ | ⟨clock, last, -, hLast⟩
  · cases hOpen
  · obtain ⟨-, hDone, rfl⟩ := Exec.of_done hLast
    exact ⟨hTables, congrArg Report.conclusions (Prog.done.inj hDone)⟩

/-- The commit raises without a trace, unless only the report of it is lost. -/
theorem persistRows_raise {p : Platform} {rows : List Cited} {error : PyError}
    (h : Exec (persistRows p runId topic rows) s log (.raise error) t) :
    t = s ∨ t.tables = s.tables.after (conclusionWrites rows) ∧
      ∃ fault, error = Vocabulary.ofFault fault := by
  rcases Exec.of_commitWrites h with rfl | ⟨v, hTables, hEnd⟩
  · exact .inl rfl
  · rcases hEnd with ⟨rfl, fault, hRaise⟩ | ⟨rest, hRest⟩
    · exact .inr ⟨hTables, fault, Prog.raise.inj hRaise⟩
    · -- The clock does not raise.
      rcases Exec.of_query hRest with ⟨-, hOpen, -⟩ | ⟨clock, last, -, hLast⟩
      · cases hOpen
      · obtain ⟨-, hRaise, -⟩ := Exec.of_done hLast
        cases hRaise

/-- What a call of the generator commits and returns.  It adds nothing when it raises, unless its
commit has been carried out and only the report of it is lost. -/
theorem conclusions_aligned (hHooks : ∀ hook ∈ gateway.hooks, ∀ ctx, Keeps RowsKept (hook ctx))
    {left : Action Report}
    (h : Exec (generate gateway runId topic statements contradictions) s log left t) :
    (∀ report, left = .done report → ∃ rows,
      Concluded gateway runId statements contradictions s log t rows ∧
        report.conclusions = rows.map Cited.report) ∧
    ∀ error, left = .raise error → NothingConcluded s t ∨
      (∃ fault, error = Vocabulary.ofFault fault) ∧
        ∃ rows, Concluded gateway runId statements contradictions s log t rows := by
  rw [generate_eq] at h
  constructor
  · rintro report rfl
    obtain ⟨rows, now, later, u, rfl, hRows, hPersist⟩ := Exec.of_bind_done h
    obtain ⟨hTables, hReport⟩ := persistRows_done hPersist
    exact ⟨rows, .of_commit hHooks hRows (fun m hm => List.mem_append_left _ hm) hTables, hReport⟩
  · rintro error rfl
    rcases Exec.of_bind_raise h with hEarly | ⟨rows, now, later, u, rfl, hRows, hPersist⟩
    · exact .inl (.of_kept (Exec.rowsKept hEarly (keeps_generateRows hHooks)))
    · rcases persistRows_raise hPersist with rfl | ⟨hTables, hFault⟩
      · exact .inl (.of_kept (Exec.rowsKept hRows (keeps_generateRows hHooks)))
      · exact .inr ⟨hFault, rows,
          .of_commit hHooks hRows (fun m hm => List.mem_append_left _ hm) hTables⟩

end Calls

/-- The call returns a report with a one-sided conclusion which is not marked for human review. -/
theorem concludingCall_facts :
    (concludingCall citedOnce fun _ => .grant).2.1.returned.any (fun report =>
      report.conclusions.any fun c => c.oneSided && !c.humanReviewRequired) = true := by
  decide +kernel

/-- The commit is carried out and reported as failed. -/
theorem generate_lost : ∃ (gateway : LLMGateway) (statements : List Statement) (s t : World)
    (log : Log Vocabulary) (error : PyError),
    Exec (generate gateway ⟨1⟩ "q".toList statements []) s log (.raise error) t ∧
      ¬ NothingConcluded s t := by
  have hFacts : (concludingCall citedOnce losesCommit).2.1.raised.isSome = true ∧
      (concludingCall citedOnce losesCommit).2.2.tables.conclusions.length = 1 := by
    decide +kernel
  obtain ⟨error, hRaised⟩ := Option.isSome_iff_exists.mp hFacts.1
  have hExec := concludingCall_exec citedOnce losesCommit
  rw [Prog.eq_raise hRaised] at hExec
  refine ⟨_, _, _, _, _, error, hExec, fun hNothing => ?_⟩
  have hLength := hFacts.2
  rw [hNothing.conclusions] at hLength
  cases hLength

/-- A call which returns, and what it has committed. -/
theorem conclusions_aligned_once : ∃ report rows,
    (concludingCall citedOnce fun _ => .grant).2.1 = .done report ∧
      Concluded (.concluding citedOnce) ⟨1⟩ [holding] [] .holding
        (concludingCall citedOnce fun _ => .grant).1 (concludingCall citedOnce fun _ => .grant).2.2
        rows ∧
      report.conclusions = rows.map Cited.report := by
  obtain ⟨report, hReport, -⟩ := (Option.any_eq_true _ _).mp concludingCall_facts
  obtain ⟨rows, hRows⟩ := (conclusions_aligned (concluding_hooks citedOnce)
    (concludingCall_exec citedOnce fun _ => .grant)).1 report (Prog.eq_done hReport)
  exact ⟨report, rows, Prog.eq_done hReport, hRows⟩

/-! ## One-sided conclusions -/

/-- The domain of the source of a statement, among passages and sources. -/
def domainIn (p : Platform) (passages : List Passage) (sources : List Source)
    (statement : Statement) : Text :=
  match (findRow Passage.id statement.passageId passages).bind fun passage =>
    findRow Source.id passage.sourceId sources with
  | some source => (sourceDomain p source.uri).toOption.getD []
  | none => []

/-- The verified statements which a draft cites. -/
def citedStatements (statements : List Statement) (draft : ConclusionDraft) : List Statement :=
  draft.statementIds.val.filterMap fun id =>
    (sortedVerified statements).find? fun s => s.id.str = id

/-- The one-sidedness check fires for a draft, over the sources which the tables have for the
statements it cites. -/
def firesOneSided (p : Platform) (statements : List Statement) (t : Tables)
    (draft : ConclusionDraft) : Bool :=
  oneSidednessCheck ((citedStatements statements draft).map (domainIn p t.passages t.sources))
    draft.oneSided

/-- A draft is marked for human review. -/
def asksReview (u : Unicode) (draft : ConclusionDraft) : Bool :=
  isHighStakes u (redactSecrets u draft.text.val) || draft.highStakes

section Domains

variable {p : Platform} {runId : Uuid} {statements : List Statement}
  {contradictions : List Contradiction} {w : World} {synthesis : Synthesis}

/-- What a loop which does not raise has collected, as far as each value says it of its item. -/
theorem mapM_ok {α β γ : Type} {f : α → Except PyError β} {g : α → γ} {k : β → γ} {items : List α}
    {values : List β} (h : items.mapM f = .ok values)
    (hf : ∀ item value, f item = .ok value → k value = g item) :
    values.map k = items.map g := by
  induction items generalizing values with
  | nil =>
      cases h
      rfl
  | cons item rest ih =>
      rw [List.mapM_cons] at h
      cases hItem : f item with
      | error error =>
          rw [hItem] at h
          cases h
      | ok value =>
          cases hRest : rest.mapM f with
          | error error =>
              rw [hItem, hRest] at h
              cases h
          | ok others =>
              rw [hItem, hRest] at h
              cases h
              rw [List.map_cons, List.map_cons, hf item value hItem, ih hRest]

theorem domainsOf_ok {passages : List Passage} {sources : List Source}
    {domains : List (Uuid × Text)} (h : domainsOf p statements passages sources = .ok domains) :
    domains = statements.map fun s => (s.id, domainIn p passages sources s) := by
  refine (List.map_id _).symm.trans (mapM_ok h ?_)
  intro s entry hEntry
  rw [id]
  unfold domainIn
  cases hSource : (findRow Passage.id s.passageId passages).bind fun passage =>
      findRow Source.id passage.sourceId sources with
  | none =>
      simp only [hSource] at hEntry
      cases hEntry
      rfl
  | some source =>
      cases hDomain : sourceDomain p source.uri with
      | error error =>
          simp only [hSource, hDomain] at hEntry
          cases hEntry
      | ok domain =>
          simp only [hSource, hDomain] at hEntry
          cases hEntry
          simp [hDomain, Except.toOption]

/-- The rows which the queries select for the statements have the same domains as the tables. -/
theorem domainIn_selected {passages : List Passage} {sources : List Source} {s : Statement}
    (hPassages : passages.Perm
      (w.tables.passages.filter fun row => statements.any fun s => s.passageId = row.id))
    (hSources : sources.Perm
      (w.tables.sources.filter fun row => passages.any fun passage => passage.sourceId = row.id))
    (hs : s ∈ statements) :
    domainIn p passages sources s = domainIn p w.tables.passages w.tables.sources s := by
  have hPassage : findRow Passage.id s.passageId passages =
      findRow Passage.id s.passageId w.tables.passages := by
    refine w.db.valid.passagesKey.findRow_selected hPassages fun row _ hId => ?_
    simp only [List.any_eq_true, decide_eq_true_eq]
    exact ⟨s, hs, hId.symm⟩
  unfold domainIn
  rw [← hPassage]
  cases hFound : findRow Passage.id s.passageId passages with
  | none => rfl
  | some passage =>
      have hSource : findRow Source.id passage.sourceId sources =
          findRow Source.id passage.sourceId w.tables.sources := by
        refine w.db.valid.sourcesKey.findRow_selected hSources fun row _ hId => ?_
        simp only [List.any_eq_true, decide_eq_true_eq]
        exact ⟨passage, (findRow_some hFound).1, hId.symm⟩
      simp only [Option.bind_some, hSource]

/-- The domain which the synthesis has for a statement which is cited. -/
theorem Synthesis.Of.domain (h : synthesis.Of p runId statements contradictions w.tables)
    {id : Text} {s : Statement} (hs : synthesis.byId id = some s) :
    synthesis.domain s = domainIn p w.tables.passages w.tables.sources s := by
  obtain ⟨passages, sources, hPassages, hSources, hDomains⟩ := h.domains
  have hMem := (byId_some hs).1
  rw [h.verified] at hMem
  have hSame : (fun other : Statement => decide (other.id.str = s.id.str)) =
      fun other : Statement => decide (other.id = s.id) := by
    funext other
    rw [decide_eq_decide]
    exact ⟨fun hStr => Uuid.str_injective hStr, fun hId => congrArg Uuid.str hId⟩
  have hFirst : (sortedVerified statements).find? (fun other => other.id = s.id) = some s := by
    have hById := hs
    rw [Synthesis.byId, h.verified, ← (byId_some hs).2, hSame] at hById
    exact hById
  rw [Synthesis.domain, domainsOf_ok hDomains, List.find?_map]
  simp only [Function.comp_def, hFirst, Option.map_some, Option.getD_some]
  exact domainIn_selected hPassages hSources hMem

theorem Synthesis.Of.cited (h : synthesis.Of p runId statements contradictions w.tables)
    (draft : ConclusionDraft) : synthesis.cited draft = citedStatements statements draft := by
  unfold Synthesis.cited Synthesis.byId citedStatements
  rw [h.verified]

/-- The check of the generator is the check over the tables. -/
theorem Synthesis.Of.oneSided (h : synthesis.Of p runId statements contradictions w.tables)
    (draft : ConclusionDraft) :
    oneSidednessCheck ((synthesis.cited draft).map synthesis.domain) draft.oneSided =
      firesOneSided p statements w.tables draft := by
  have hDomains : (synthesis.cited draft).map synthesis.domain =
      (citedStatements statements draft).map (domainIn p w.tables.passages w.tables.sources) := by
    rw [← h.cited]
    refine List.map_congr_left fun s hs => ?_
    obtain ⟨id, -, hFound⟩ := List.mem_filterMap.mp hs
    exact h.domain hFound
  rw [hDomains, firesOneSided]

/-- The flags of a conclusion, in the report and in its row. -/
theorem MadeOf.flags (hOf : synthesis.Of p runId statements contradictions w.tables)
    {draft : ConclusionDraft} {row : Cited} (h : MadeOf p synthesis draft row) :
    row.report.oneSided = firesOneSided p statements w.tables draft ∧
      row.report.humanReviewRequired = asksReview p.unicode draft ∧
      row.conclusion.humanReviewRequired = asksReview p.unicode draft ∧
      row.report.id = row.conclusion.id.str := by
  obtain ⟨id, createdAt, auditId, ts, rfl⟩ := h
  simp only [Cited.of, asksReview, hOf.oneSided draft, and_self]

/-- A property of the rows is one of the drafts, where a row has it just if its draft has the other. -/
theorem forall_rows_iff {α β : Type} {R : α → β → Prop} {items : List α} {rows : List β}
    (h : List.Forall₂ R items rows) {P : α → Prop} {Q : β → Prop}
    (hR : ∀ item ∈ items, ∀ row ∈ rows, R item row → (Q row ↔ P item)) :
    (∀ row ∈ rows, Q row) ↔ ∀ item ∈ items, P item := by
  induction h with
  | nil => simp
  | @cons item row _ _ hFirst _ ih =>
      have hRest := ih fun other hOther row hRow =>
        hR other (List.mem_cons_of_mem _ hOther) row (List.mem_cons_of_mem _ hRow)
      rw [List.forall_mem_cons, List.forall_mem_cons, hRest,
        hR item List.mem_cons_self row List.mem_cons_self hFirst]

end Domains

section Keys

variable {p : Platform} {synthesis : Synthesis} {statements : List Statement}

theorem byId_nodup {ids : List Text} (h : (ids.filterMap synthesis.byId).Nodup)
    (hKnown : ∀ id ∈ ids, (synthesis.byId id).isSome) : ids.Nodup := by
  induction ids with
  | nil => exact List.nodup_nil
  | cons id rest ih =>
      obtain ⟨s, hs⟩ := Option.isSome_iff_exists.mp (hKnown id List.mem_cons_self)
      rw [List.filterMap_cons_some hs, List.nodup_cons] at h
      refine List.nodup_cons.mpr ⟨fun hMem => h.1 (List.mem_filterMap.mpr ⟨id, hMem, hs⟩), ?_⟩
      exact ih h.2 fun other hOther => hKnown other (List.mem_cons_of_mem _ hOther)

/-- The evidence rows of a draft have distinct keys exactly if it names no verified statement twice. -/
theorem MadeOf.evidence_iff (hVerified : synthesis.verified = sortedVerified statements)
    {draft : ConclusionDraft} {row : Cited} (h : MadeOf p synthesis draft row) :
    row.evidence.Nodup ↔ (draft.statementIds.val.filter (isVerifiedId statements)).Nodup := by
  obtain ⟨id, createdAt, auditId, ts, rfl⟩ := h
  have hIds := cited_ids hVerified draft
  constructor
  · intro hNodup
    have hCited : (synthesis.cited draft).Nodup := List.Nodup.of_map _ hNodup
    have hFilter : synthesis.cited draft =
        (draft.statementIds.val.filter (isVerifiedId statements)).filterMap synthesis.byId := by
      rw [List.filterMap_filter]
      refine List.filterMap_congr fun id _ => ?_
      rw [← byId_isSome hVerified]
      cases synthesis.byId id <;> simp
    rw [hFilter] at hCited
    refine byId_nodup hCited fun id hId => ?_
    rw [byId_isSome hVerified]
    exact (List.mem_filter.mp hId).2
  · intro hNodup
    rw [← hIds] at hNodup
    -- Equal rows are about one statement, which has one identifier.
    refine List.pairwise_map.mpr ((List.pairwise_map.mp hNodup).imp ?_)
    intro a b hNe hEq
    have hSame : a.id = b.id := congrArg ConclusionEvidence.statementId hEq
    exact hNe (congrArg Uuid.str hSame)

theorem MadeOf.evidence_id {draft : ConclusionDraft} {row : Cited}
    (h : MadeOf p synthesis draft row) : ∀ e ∈ row.evidence, e.conclusionId = row.conclusion.id := by
  obtain ⟨id, createdAt, auditId, ts, rfl⟩ := h
  intro e he
  obtain ⟨s, -, rfl⟩ := List.mem_map.mp he
  rfl

end Keys

/-- The keys of the evidence rows at the commit are distinct exactly if no draft of the reply names a
verified statement twice. -/
theorem evidenceKeys_iff {gateway : LLMGateway} {runId : Uuid} {statements : List Statement}
    {contradictions : List Contradiction} {s t : World} {log : Log Vocabulary} {rows : List Cited}
    (hHooks : ∀ hook ∈ gateway.hooks, ∀ ctx, Keeps RowsKept (hook ctx))
    (h : Exec (generateRows gateway runId statements contradictions) s log (.done rows) t)
    (hFresh : (log.filterMap Moment.freshId).Nodup) :
    ∃ content, ∃ extraction : ConclusionExtraction,
      Answered gateway (synthesisCall gateway runId statements
        (contradictionTuples gateway.platform contradictions)) log content
        (.model .conclusionExtraction extraction) ∧
      ((rows.flatMap Cited.evidence).Nodup ↔ ∀ draft ∈ extraction.conclusions.val,
        (draft.statementIds.val.filter (isVerifiedId statements)).Nodup) := by
  obtain ⟨content, extraction, synthesis, hAnswered, hOf, hMade, hIds⟩ := generateRows_done hHooks h
  refine ⟨content, extraction, hAnswered, ?_⟩
  have hDisjoint : rows.Pairwise fun a b => a.evidence.Disjoint b.evidence := by
    have hEach : ∀ row ∈ rows, ∀ e ∈ row.evidence, e.conclusionId = row.conclusion.id :=
      (forall_rows_iff hMade (P := fun _ => True)
        fun _ _ _ _ hDraft => ⟨fun _ => trivial, fun _ => hDraft.evidence_id⟩).mpr fun _ _ => trivial
    have hDistinct := List.pairwise_map.mp (hFresh.sublist hIds)
    refine hDistinct.imp_of_mem ?_
    intro a b ha hb hNe e heA heB
    exact hNe ((hEach a ha e heA).symm.trans (hEach b hb e heB))
  rw [List.nodup_flatMap, and_iff_left hDisjoint, forall_rows_iff hMade
    (P := fun draft => (draft.statementIds.val.filter (isVerifiedId statements)).Nodup)
    fun draft _ row _ hDraft => hDraft.evidence_iff hOf.verified]
  constructor
  · intro hKept draft hDraft
    by_cases hCites : (synthesis.cited draft).isEmpty
    · have hNone : draft.statementIds.val.filter (isVerifiedId statements) = [] := by
        rw [← cited_ids hOf.verified, List.isEmpty_iff.mp hCites, List.map_nil]
      rw [hNone]
      exact List.nodup_nil
    · exact hKept draft (List.mem_filter.mpr ⟨hDraft, by simpa using hCites⟩)
  · exact fun hAll draft hDraft => hAll draft (List.mem_filter.mp hDraft).1

/-- A call of the generator up to its commit. -/
def concludingRows (cited : BoundedList Text 1 20) : Log Vocabulary × Action (List Cited) × World :=
  simulate (({} : Served).outside fun _ => .grant) 40 0
    (generateRows (.concluding cited) ⟨1⟩ [holding] []) .holding

/-- Both calls come to their commit, under fresh identifiers. -/
theorem concludingRows_facts :
    ((concludingRows citedOnce).2.1.returned.isSome = true ∧
      ((concludingRows citedOnce).1.filterMap Moment.freshId).Nodup) ∧
    (concludingRows citedTwice).2.1.returned.any (fun rows =>
      !decide (rows.flatMap Cited.evidence).Nodup) = true ∧
    ((concludingRows citedTwice).1.filterMap Moment.freshId).Nodup := by
  decide +kernel

/-- A draft which names a statement twice becomes two rows with one key. -/
theorem evidenceKeys_repeat : ∃ (gateway : LLMGateway) (statements : List Statement) (s t : World)
    (log : Log Vocabulary) (rows : List Cited),
    Exec (generateRows gateway ⟨1⟩ statements []) s log (.done rows) t ∧
      (log.filterMap Moment.freshId).Nodup ∧ ¬ (rows.flatMap Cited.evidence).Nodup := by
  obtain ⟨-, hRepeat, hFresh⟩ := concludingRows_facts
  obtain ⟨rows, hRows, hAny⟩ := (Option.any_eq_true _ _).mp hRepeat
  have hExec : Exec (generateRows (.concluding citedTwice) ⟨1⟩ [holding] []) World.holding
      (concludingRows citedTwice).1 (concludingRows citedTwice).2.1 (concludingRows citedTwice).2.2 :=
    simulate_exec _ _ _ _ _
  rw [Prog.eq_done hRows] at hExec
  exact ⟨_, _, _, _, _, rows, hExec, hFresh, by simpa using hAny⟩

/-- A draft which names the statement once. -/
theorem evidenceKeys_once : ∃ rows, ∃ content, ∃ extraction : ConclusionExtraction,
    (concludingRows citedOnce).2.1 = .done rows ∧
      Answered (.concluding citedOnce) (synthesisCall (.concluding citedOnce) ⟨1⟩ [holding]
        (contradictionTuples (LLMGateway.concluding citedOnce).platform []))
        (concludingRows citedOnce).1 content (.model .conclusionExtraction extraction) ∧
      ((rows.flatMap Cited.evidence).Nodup ↔ ∀ draft ∈ extraction.conclusions.val,
        (draft.statementIds.val.filter (isVerifiedId [holding])).Nodup) := by
  obtain ⟨⟨hReturns, hFresh⟩, -⟩ := concludingRows_facts
  obtain ⟨rows, hRows⟩ := Option.isSome_iff_exists.mp hReturns
  have hExec : Exec (generateRows (.concluding citedOnce) ⟨1⟩ [holding] []) World.holding
      (concludingRows citedOnce).1 (concludingRows citedOnce).2.1 (concludingRows citedOnce).2.2 :=
    simulate_exec _ _ _ _ _
  rw [Prog.eq_done hRows] at hExec
  obtain ⟨content, extraction, hBoth⟩ :=
    evidenceKeys_iff (concluding_hooks citedOnce) hExec hFresh
  exact ⟨rows, content, extraction, Prog.eq_done hRows, hBoth⟩

end Ecrke
