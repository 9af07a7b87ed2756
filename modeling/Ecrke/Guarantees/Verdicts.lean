import Ecrke.Guarantees.CachedCalls
import Ecrke.Guarantees.Idempotence
import Ecrke.Pipeline.RunHistory

/-!
# What a call of the verifier comes to

A call on a draft scores the statement, asks the judge where the score allows it, and persists the
decision.

* `verifyScored`, `persistVerdict` -- the call, cut at the score and at the decision.
* `verify_done` -- a call which returns.
* `promotes_iff` -- when a statement is promoted on a verdict which says so twice.
* `Scorable`, `verify_total_iff` -- when a call comes to a decision.
-/

namespace Ecrke

open Durable

/-! ## The parts of a call -/

/-- The call of the judge. -/
def judgeCall (gateway : LLMGateway) (runId : Uuid) (statement : Statement) (passage : Passage) :
    CompleteArgs :=
  let u := gateway.platform.unicode
  let (system, dataBlock) := buildJudgePrompt (redactSecrets u statement.text)
    (redactSecrets u passage.text)
  { tier := .strong, system := some system, prompt := some dataBlock, runId := some runId,
    useCache := false, responseModel := some .verificationVerdict }

/-- The score of a statement against its passage, or the exception of `score_support`. -/
def supportOf (u : Unicode) (statement : Statement) (passage : Passage) :
    Except PyError (EvidenceScore × ℚ) :=
  scoreSupport u (redactSecrets u statement.text) (redactSecrets u passage.text)

/-- `verify` from its decision on. -/
def persistVerdict (p : Platform) (merged : Merged) (passage : Passage) (runId : Uuid)
    (score : EvidenceScore) (ratio : ℚ) (judgement : Judgement) : Action VerificationOutcome := do
  let merged := { merged with current := { merged.current with status := judgement.decision } }
  let linkId ← uuid4
  let createdAt ← dbNow
  let link : EvidenceLink :=
    { id := linkId, statementId := merged.current.id, passageId := passage.id, runId,
      score, method := some "verify".toList, createdAt }
  let audit ← auditAppend p (verifyEntry p.unicode runId merged.current score ratio judgement)
  commitWrites ([.insertAuditTrace audit, .insertEvidenceLink link] ++ merged.writes)
  pure
    { decision := judgement.decision, supportScore := some score, matrixRatio := some ratio,
      judgeSupported := some judgement.supported, judgeConfidence := judgement.confidence }

/-- `verify` from its score on. -/
def verifyScored (gateway : LLMGateway) (statement : Statement) (passage : Passage) (runId : Uuid)
    (loaded : Option Statement) (found : EvidenceScore × ℚ) : Action VerificationOutcome :=
  let u := gateway.platform.unicode
  (judge gateway runId (redactSecrets u statement.text) (redactSecrets u passage.text)
    found.1 found.2).bind
      (persistVerdict gateway.platform ⟨loaded, statement⟩ passage runId found.1 found.2)

variable {gateway : LLMGateway} {statement : Statement} {passage : Passage} {runId : Uuid}
  {force : Bool}

/-- A call on a draft, or with force. -/
theorem verify_eq (hGate : statement.status = .draft ∨ force = true) :
    verify gateway statement passage runId force =
      (selectTables fun t => findRow Statement.id statement.id t.statements).bind fun loaded =>
        (Prog.ofExcept (supportOf gateway.platform.unicode statement passage)).bind
          (verifyScored gateway statement passage runId loaded) := by
  have hSkips : ¬ (statement.status ≠ .draft ∧ (!force) = true) := by
    rcases hGate with hDraft | hForce
    · simp [hDraft]
    · simp [hForce]
  unfold verify mergeStatement
  simp only [Prog.bind_def, Prog.bind_assoc]
  refine congrArg (Prog.bind _) (funext fun loaded => ?_)
  exact if_neg hSkips

/-! ## Calls which return -/

/-- A reply of the judge, and nothing where the score does not allow the question. -/
def Replied (gateway : LLMGateway) (runId : Uuid) (statement : Statement) (passage : Passage)
    (score : EvidenceScore) (log : Log Vocabulary) : Option VerificationVerdict → Prop
  | none => score = .none
  | some verdict => score ≠ .none ∧ ∃ content,
      Answered gateway (judgeCall gateway runId statement passage) log content
        (.model .verificationVerdict verdict)

/-- The decision on a statement, from the reply of the judge. -/
def decisionOf (reply : Option VerificationVerdict) : StatementStatus :=
  if reply.any VerificationVerdict.supported then .verified else .quarantined

section Done

variable {s t : World} {log : Log Vocabulary}

theorem judge_done {score : EvidenceScore} {ratio : ℚ} {judgement : Judgement}
    (h : Exec (judge gateway runId (redactSecrets gateway.platform.unicode statement.text)
      (redactSecrets gateway.platform.unicode passage.text) score ratio) s log (.done judgement) t) :
    ∃ reply, Replied gateway runId statement passage score log reply ∧
      judgement.decision = decisionOf reply := by
  cases hScore : score with
  | none =>
      subst hScore
      obtain ⟨-, hDone, -⟩ := Exec.of_done h
      cases hDone
      exact ⟨none, rfl, rfl⟩
  | full | partial_ =>
      subst hScore
      obtain ⟨reply, now, later, u, rfl, hCall, hRest⟩ := Exec.of_bind_done h
      obtain ⟨-, hDone, -⟩ := Exec.of_done hRest
      have hAnswered := completeModel_done rfl hCall
      refine ⟨some reply.2, ⟨by simp, reply.1.content, ?_⟩, ?_⟩
      · unfold judgeCall
        exact hAnswered.mono fun m hm => List.mem_append_left _ hm
      · exact congrArg Judgement.decision (Prog.done.inj hDone)

/-- The columns in which an object differs from the row it was loaded from. -/
def changesOf (row current : Statement) : StatementChanges :=
  { text := if current.text = row.text then none else some current.text
    status := if current.status = row.status then none else some current.status
    confidence := if current.confidence = row.confidence then none else some current.confidence }

theorem merged_writes (row current : Statement) : Merged.writes ⟨some row, current⟩ =
    if (changesOf row current).isEmpty then []
    else [.updateStatement row.id (changesOf row current)] := rfl

theorem changesOf_status {row current : Statement} (h : (changesOf row current).isEmpty = true) :
    current.status = row.status := by
  by_contra hDiffers
  simp [StatementChanges.isEmpty, changesOf, hDiffers] at h

/-- The changes bring the status of the object into a row which has the status of the loaded one. -/
theorem changesOf_apply {row current stored : Statement} (h : stored.status = row.status) :
    ((changesOf row current).apply stored).status = current.status := by
  by_cases hSame : current.status = row.status
  · simp [StatementChanges.apply, changesOf, hSame, h]
  · simp [StatementChanges.apply, changesOf, hSame]

/-- After the commit the stored status is the decision, whatever was stored before. -/
theorem merged_status {u : World} {decision : StatementStatus} {audit : AuditTrace}
    {link : EvidenceLink} (hKept : storedStatus statement.id u = storedStatus statement.id s)
    (ht : t.tables = u.tables.after ([.insertAuditTrace audit, .insertEvidenceLink link] ++
      Merged.writes ⟨findRow Statement.id statement.id s.tables.statements,
        { statement with status := decision }⟩)) :
    storedStatus statement.id t = some decision := by
  cases hLoaded : findRow Statement.id statement.id s.tables.statements with
  | none =>
      have hNone : findRow Statement.id statement.id u.tables.statements = none := by
        rw [storedStatus, storedStatus, hLoaded] at hKept
        exact Option.map_eq_none_iff.mp hKept
      have hAfter : t.tables.statements = u.tables.statements ++
          [{ statement with status := decision }] := by
        rw [ht, hLoaded]
        rfl
      rw [storedStatus, hAfter, findRow_append, hNone]
      simp [findRow]
  | some row =>
      have hId : row.id = statement.id := (findRow_some hLoaded).2
      rw [storedStatus, storedStatus, hLoaded, Option.map_some] at hKept
      obtain ⟨stored, hStored, hStatus⟩ := Option.map_eq_some_iff.mp hKept
      rw [hLoaded, merged_writes] at ht
      split at ht
      · -- No column differs, so the decision is what was stored.
        rename_i hEmpty
        have hAfter : t.tables.statements = u.tables.statements := by
          rw [ht]
          rfl
        rw [storedStatus, hAfter, hStored, Option.map_some, hStatus]
        exact congrArg some (changesOf_status hEmpty).symm
      · have hAfter : t.tables.statements = modifyRow Statement.id statement.id
            (changesOf row { statement with status := decision }).apply u.tables.statements := by
          rw [ht, ← hId]
          rfl
        rw [storedStatus, hAfter, findRow_modifyRow ?_, if_pos rfl, hStored]
        · exact congrArg some (changesOf_apply hStatus)
        · exact fun _ h => h

/-- The commit of a decision which has been made. -/
theorem persistVerdict_done {p : Platform} {merged : Merged} {score : EvidenceScore} {ratio : ℚ}
    {judgement : Judgement} {outcome : VerificationOutcome}
    (h : Exec (persistVerdict p merged passage runId score ratio judgement) s log (.done outcome) t) :
    outcome.decision = judgement.decision ∧ ∃ audit link, t.tables = s.tables.after
      ([.insertAuditTrace audit, .insertEvidenceLink link] ++
        Merged.writes { merged with
          current := { merged.current with status := judgement.decision } }) := by
  obtain ⟨linkId, _, _, u, -, hId, hStamp⟩ := Exec.of_bind_done h
  obtain ⟨createdAt, _, _, v, -, hTime, hAudit⟩ := Exec.of_bind_done hStamp
  obtain ⟨audit, _, _, w, -, hAppend, hCommit⟩ := Exec.of_bind_done hAudit
  obtain ⟨_, _, _, x, -, hWrites, hLast⟩ := Exec.of_bind_done hCommit
  obtain ⟨-, hDone, rfl⟩ := Exec.of_done hLast
  cases hDone
  have hTables := commitWrites_done hWrites
  rw [Exec.same hAppend (same_auditAppend _ _), Exec.same hTime (same_query _),
    Exec.same hId (same_query _)] at hTables
  exact ⟨rfl, audit, _, hTables⟩

end Done

/-! ## Calls on one draft -/

/-- The verdict of a judge who says supported, under a certain label. -/
def judgedAs (label : Verdict) : VerificationVerdict where
  supported := true
  verdict := label
  reason := ⟨"judged".toList, by decide, by decide⟩
  confidence := none

/-- A gateway with such a judge. -/
def LLMGateway.judging (label : Verdict) : LLMGateway where
  platform :=
    { Platform.plain with
      jsonLoads := fun _ => some (.obj [])
      validate := fun
        | .verificationVerdict, _ => some (judgedAs label)
        | _, _ => none }
  settings := ⟨"cheap".toList, "strong".toList, 5, "a.org".toList, 0, "blobs".toList⟩

/-- The world of a draft with a certain text. -/
def World.drafted (text : Text) : World :=
  .noted "a b c".toList [.noted 4 text .draft] (by simp [Keyed]) (by simp [Statement.noted])
    (by simp [Statement.noted])

/-- Its passage. -/
def draftedPassage : Passage := ⟨⟨3⟩, ⟨2⟩, 0, "a b c".toList, none, none, "h".toList⟩

/-- A call on the draft. -/
def draftedCall (label : Verdict) (text : Text) : Action VerificationOutcome :=
  verify (.judging label) (.noted 4 text .draft) draftedPassage ⟨1⟩

/-- Its course. -/
def draftedRun (label : Verdict) (text : Text) : Log Vocabulary × Action VerificationOutcome × World :=
  simulate (({} : Served).outside fun _ => .grant) 40 0 (draftedCall label text) (.drafted text)

theorem judging_hooks (label : Verdict) (id : Uuid) :
    ∀ hook ∈ (LLMGateway.judging label).hooks, ∀ ctx, Keeps (LeavesRecords id) (hook ctx) := by
  rintro _ ⟨⟩

theorem draftedRun_course (label : Verdict) (text : Text) :
    Course (({} : Served).outside fun _ => .grant) 0 (draftedCall label text) (.drafted text)
      (draftedRun label text).1 (draftedRun label text).2.1 (draftedRun label text).2.2 :=
  simulate_course _ _ _ _ _

/-- The judge's verdict is the only one there is. -/
theorem Answered.judged {label : Verdict} {args : CompleteArgs} {log : Log Vocabulary} {content : Text}
    {verdict : VerificationVerdict} (hModel : args.responseModel = some .verificationVerdict)
    (h : Answered (.judging label) args log content (.model .verificationVerdict verdict)) :
    verdict = judgedAs label := by
  obtain ⟨ctx, response, -, -, -, -, hAccepted⟩ := h
  obtain ⟨value, found, hSame, hFound⟩ := acceptedData_typed hAccepted hModel
  cases hSame
  cases hFound
  rfl

/-! ## Verdicts which say it twice -/

section Calls

variable {s t : World} {log : Log Vocabulary} {outcome : VerificationOutcome}

/-- A call which returns stores the decision on the reply of the judge. -/
theorem verify_done (hHooks : ∀ hook ∈ gateway.hooks, ∀ ctx, Keeps (LeavesRecords statement.id) (hook ctx))
    (hGate : statement.status = .draft ∨ force = true)
    (h : Exec (verify gateway statement passage runId force) s log (.done outcome) t) :
    ∃ score ratio, supportOf gateway.platform.unicode statement passage = .ok (score, ratio) ∧
      ∃ reply, Replied gateway runId statement passage score log reply ∧
        outcome.decision = decisionOf reply ∧
        storedStatus statement.id t = some (decisionOf reply) := by
  rw [verify_eq hGate] at h
  obtain ⟨loaded, now, later, u, rfl, hLoaded, hRest⟩ := Exec.of_bind_done h
  obtain ⟨rfl, rfl⟩ := Exec.of_select_done hLoaded
  obtain ⟨⟨score, ratio⟩, scored, rest, v, rfl, hScore, hCall⟩ := Exec.of_bind_done hRest
  obtain ⟨rfl, hFound⟩ := ofExcept_done hScore
  obtain ⟨judgement, judged, last, w, rfl, hJudge, hPersist⟩ := Exec.of_bind_done hCall
  obtain ⟨reply, hReplied, hDecision⟩ := judge_done hJudge
  obtain ⟨hOutcome, audit, link, hTables⟩ := persistVerdict_done hPersist
  have hKept : storedStatus statement.id w = storedStatus statement.id v :=
    (hJudge.linked.invariant (fun x : World => storedStatus statement.id x = storedStatus statement.id v)
      (fun m hm hBefore => ((hJudge.keeps (judge_leaves hHooks)).1 m hm).status.trans hBefore) rfl).1
  rw [hDecision] at hTables hOutcome
  refine ⟨score, ratio, hFound, reply, ?_, hOutcome, merged_status hKept hTables⟩
  cases reply with
  | none => exact hReplied
  | some verdict =>
      obtain ⟨hAsked, content, hAnswered⟩ := hReplied
      exact ⟨hAsked, content, hAnswered.mono fun m hm => by simp [hm]⟩

/-- A call which returns has promoted its statement just if the score allows it and the verdict says
so both in its flag and in its label, exactly if the verdict is not one whose flag says supported and
whose label says unsupported. -/
theorem promotes_iff (hHooks : ∀ hook ∈ gateway.hooks, ∀ ctx, Keeps (LeavesRecords statement.id) (hook ctx))
    (hGate : statement.status = .draft ∨ force = true)
    (h : Exec (verify gateway statement passage runId force) s log (.done outcome) t) :
    ∃ score ratio, supportOf gateway.platform.unicode statement passage = .ok (score, ratio) ∧
      ∃ reply, Replied gateway runId statement passage score log reply ∧
        ((storedStatus statement.id t = some .verified ↔ score ≠ .none ∧ ∃ verdict,
            reply = some verdict ∧ verdict.supported = true ∧ verdict.verdict = .supported) ↔
          ¬ ∃ verdict, reply = some verdict ∧ verdict.supported = true ∧
            verdict.verdict = .unsupported) := by
  obtain ⟨score, ratio, hScore, reply, hReplied, -, hStored⟩ := verify_done hHooks hGate h
  refine ⟨score, ratio, hScore, reply, hReplied, ?_⟩
  rw [hStored]
  cases reply with
  | none => simp [decisionOf]
  | some verdict =>
      have hAsked : score ≠ .none := hReplied.1
      cases hFlag : verdict.supported with
      | false => simp [decisionOf, hFlag]
      | true =>
          cases hLabel : verdict.verdict with
          | supported => simp [decisionOf, hFlag, hLabel, hAsked]
          | unsupported => simp [decisionOf, hFlag, hLabel]

end Calls

/-- A draft which shares two words with its passage is promoted, whatever the label says. -/
theorem draftedRun_facts (label : Verdict) :
    (draftedRun label "a b".toList).2.1.returned.isSome = true ∧
      storedStatus ⟨4⟩ (draftedRun label "a b".toList).2.2 = some .verified ∧
      (draftedRun label "a b".toList).1.all (fun m => !m.isRefused) = true := by
  cases label <;> decide +kernel

/-- A verdict which says supported under the label unsupported promotes the statement. -/
theorem promotes_unsupported : ∃ (gateway : LLMGateway) (statement : Statement) (passage : Passage)
    (s t : World) (log : Log Vocabulary) (outcome : VerificationOutcome),
    Exec (verify gateway statement passage ⟨1⟩) s log (.done outcome) t ∧
      storedStatus statement.id t = some .verified ∧
      ∃ content, ∃ verdict : VerificationVerdict,
        Answered gateway (judgeCall gateway ⟨1⟩ statement passage) log content
          (.model .verificationVerdict verdict) ∧ verdict.verdict = .unsupported := by
  obtain ⟨hReturns, hPromoted, -⟩ := draftedRun_facts .unsupported
  obtain ⟨outcome, hOutcome⟩ := Option.isSome_iff_exists.mp hReturns
  have hExec := (draftedRun_course .unsupported "a b".toList).exec
  rw [Prog.eq_done hOutcome] at hExec
  obtain ⟨score, ratio, -, reply, hReplied, -, hStored⟩ :=
    verify_done (judging_hooks _ _) (.inl rfl) hExec
  have hVerified := hStored.symm.trans hPromoted
  cases reply with
  | none => cases hVerified
  | some verdict =>
      obtain ⟨-, content, hAnswered⟩ := hReplied
      refine ⟨_, _, _, _, _, _, outcome, hExec, hPromoted, content, verdict, hAnswered, ?_⟩
      rw [hAnswered.judged rfl]
      rfl

/-- A verdict which says it twice. -/
theorem promotes_iff_twice : ∃ outcome score ratio reply,
    (draftedRun .supported "a b".toList).2.1 = .done outcome ∧
      supportOf (LLMGateway.judging .supported).platform.unicode (.noted 4 "a b".toList .draft)
        draftedPassage = .ok (score, ratio) ∧
      Replied (.judging .supported) ⟨1⟩ (.noted 4 "a b".toList .draft) draftedPassage score
        (draftedRun .supported "a b".toList).1 reply ∧
      ((storedStatus ⟨4⟩ (draftedRun .supported "a b".toList).2.2 = some .verified ↔
          score ≠ .none ∧ ∃ verdict, reply = some verdict ∧ verdict.supported = true ∧
            verdict.verdict = .supported) ↔
        ¬ ∃ verdict, reply = some verdict ∧ verdict.supported = true ∧
          verdict.verdict = .unsupported) := by
  obtain ⟨outcome, hOutcome⟩ := Option.isSome_iff_exists.mp (draftedRun_facts .supported).1
  have hExec := (draftedRun_course .supported "a b".toList).exec
  rw [Prog.eq_done hOutcome] at hExec
  obtain ⟨score, ratio, hScore, reply, hReplied, hBoth⟩ :=
    promotes_iff (judging_hooks .supported ⟨4⟩) (.inl rfl) hExec
  exact ⟨outcome, score, ratio, reply, Prog.eq_done hOutcome, hScore, hReplied, hBoth⟩

/-! ## Reasons which fit into the audit trail -/

section Texts

theorem Text.mem_ofFixed {digits : Nat} {q : ℚ} {c : Char} (h : c ∈ Text.ofFixed digits q) :
    c.isDigit = true ∨ c = '.' := by
  have hDigit {n : Nat} {c : Char} (hc : c ∈ Text.ofNat n) : c.isDigit = true :=
    Nat.isDigit_of_mem_toDigits (by decide) (by decide) hc
  simp only [Text.ofFixed, List.append_assoc, List.mem_append] at h
  rcases h with hWhole | hDot | hZero | hDecimal
  · exact .inl (hDigit hWhole)
  · exact .inr (List.mem_singleton.mp hDot)
  · rw [(List.mem_replicate.mp hZero).2]
    exact .inl (by decide)
  · exact .inl (hDigit hDecimal)

/-- A ratio with three decimals. -/
theorem Text.length_ofFixed {q : ℚ} (h : q ≤ 1) : (Text.ofFixed 3 q).length ≤ 5 := by
  have hOfNat {n k : Nat} (hk : 0 < k) (hn : n < 10 ^ k) : (Text.ofNat n).length ≤ k :=
    (Nat.length_toDigits_le_iff (by decide) hk).mpr hn
  have hFloor : ⌊q * 10 ^ 3⌋ ≤ 1000 := by
    have hScaled : q * 10 ^ 3 ≤ (1000 : ℤ) := by
      norm_num
      linarith
    exact_mod_cast (Int.floor_le _).trans hScaled
  have hText (whole : Nat) (hWhole : whole ≤ 1001) : (Text.ofNat (whole / 10 ^ 3) ++ ".".toList ++
      List.replicate (3 - (Text.ofNat (whole % 10 ^ 3)).length) '0' ++
        Text.ofNat (whole % 10 ^ 3)).length ≤ 5 := by
    have hFirst : (Text.ofNat (whole / 10 ^ 3)).length ≤ 1 := hOfNat (by decide) (by omega)
    have hLast : (Text.ofNat (whole % 10 ^ 3)).length ≤ 3 := hOfNat (by decide) (by omega)
    have hDot : ".".toList.length = 1 := rfl
    simp only [List.length_append, List.length_replicate]
    omega
  unfold Text.ofFixed
  dsimp only
  split
  · exact hText _ (by omega)
  · exact hText _ (by omega)

end Texts

/-- A statement text which can be scored: it is not blank, and there is a word in it. -/
def Scorable (u : Unicode) (statement : Statement) : Prop :=
  (Text.strip (redactSecrets u statement.text)).isEmpty = false ∧
    (tokens u (redactSecrets u statement.text)).isEmpty = false

/-- The reason of a verdict, redacted, fits into the audit trail. -/
def ReasonFits (u : Unicode) (reason : Text) : Prop :=
  (redactSecrets u reason).length ≤ maxReasonLen

section Checks

variable {u : Unicode}

theorem supportOf_ok (passage : Passage) (h : Scorable u statement) :
    ∃ score ratio, supportOf u statement passage = .ok (score, ratio) ∧ ratio ≤ 1 := by
  obtain ⟨hBlank, hWords⟩ := h
  unfold supportOf scoreSupport
  dsimp only
  rw [hBlank, hWords]
  simp only [Bool.false_eq_true, if_false]
  split
  · exact ⟨_, _, rfl, by norm_num⟩
  · have hRatio : (((tokens u (redactSecrets u statement.text)).filter fun t =>
        (tokens u (redactSecrets u passage.text)).contains t).length : ℚ) /
          (tokens u (redactSecrets u statement.text)).length ≤ 1 := by
      apply div_le_one_of_le₀
      · exact_mod_cast List.length_filter_le _ _
      · positivity
    split
    · exact ⟨_, _, rfl, hRatio⟩
    · split
      · exact ⟨_, _, rfl, hRatio⟩
      · exact ⟨_, _, rfl, hRatio⟩

theorem supportOf_error (passage : Passage) (h : ¬ Scorable u statement) :
    ∃ error, supportOf u statement passage = .error error := by
  unfold supportOf scoreSupport
  dsimp only
  split
  · exact ⟨_, rfl⟩
  · split
    · exact ⟨_, rfl⟩
    · rename_i hBlank hWords
      exact absurd ⟨by simpa using hBlank, by simpa using hWords⟩ h

theorem lexicalReason_fits {ratio : ℚ} (h : ratio ≤ 1) :
    ReasonFits u ("lexical support ratio ".toList ++ Text.ofFixed 3 ratio ++
      " below partial threshold; quarantined by deterministic support matrix".toList) := by
  have hBefore : Secretless "lexical support ratio ".toList := by decide
  have hAfter : Secretless
      " below partial threshold; quarantined by deterministic support matrix".toList := by decide
  have hRatio : Secretless (Text.ofFixed 3 ratio) := by
    intro c hc hLetter
    rcases Text.mem_ofFixed hc with hDigit | rfl
    · rcases hLetter with rfl | rfl | rfl | rfl | rfl | rfl <;> cases hDigit
    · exact absurd hLetter (by decide)
  have hLength := Text.length_ofFixed h
  rw [ReasonFits, redactSecrets_eq_self u ((hBefore.append hRatio).append hAfter)]
  have hTexts : "lexical support ratio ".toList.length = 22 ∧
      " below partial threshold; quarantined by deterministic support matrix".toList.length = 69 := by
    decide
  simp only [List.length_append, hTexts.1, hTexts.2, maxReasonLen]
  omega

/-- A verdict is accepted by the audit trail just if its reason fits. -/
theorem verifyEntry_check {score : EvidenceScore} {ratio : ℚ} {judgement : Judgement} :
    (verifyEntry u runId statement score ratio judgement).check = .ok () ↔
      ReasonFits u judgement.reason :=
  AuditEntry.check_iff verifyEntry_labelled rfl

end Checks

/-! ## Calls which come to a decision -/

/-- The gateway returns a verdict to the judge's call, which begins with a certain step. -/
def Returning (env : Environment Vocabulary) (n : Nat) (gateway : LLMGateway) (runId : Uuid)
    (statement : Statement) (passage : Passage) (s : World) (verdict : VerificationVerdict) : Prop :=
  ∃ result log t, Course env n
    (completeModel gateway .verificationVerdict (judgeCall gateway runId statement passage)) s log
    (.done (result, verdict)) t

section Courses

variable {env : Environment Vocabulary} {n : Nat} {s t : World} {log : Log Vocabulary}
  {verdict : VerificationVerdict}

/-- The reason of a judgement, from the verdict. -/
def reasonOf (score : EvidenceScore) (ratio : ℚ) (verdict : VerificationVerdict) : Text :=
  match score with
  | .none => "lexical support ratio ".toList ++ Text.ofFixed 3 ratio ++
      " below partial threshold; quarantined by deterministic support matrix".toList
  | _ => verdict.reason.val

/-- With a gateway which returns, the judge comes to a judgement. -/
theorem judge_course {score : EvidenceScore} {ratio : ℚ} {left : Action Judgement}
    (h : Course env n (judge gateway runId (redactSecrets gateway.platform.unicode statement.text)
      (redactSecrets gateway.platform.unicode passage.text) score ratio) s log left t)
    (hEnd : Ended left)
    (hReturns : score ≠ .none → Returning env n gateway runId statement passage s verdict) :
    ∃ judgement, left = .done judgement ∧ judgement.reason = reasonOf score ratio verdict := by
  cases hScore : score with
  | none =>
      subst hScore
      obtain ⟨-, rfl, -⟩ := h.of_ended (.done _)
      exact ⟨_, rfl, rfl⟩
  | full | partial_ =>
      subst hScore
      obtain ⟨result, log', u, hReturn⟩ := hReturns (by simp)
      rcases h.of_bind_ended hEnd with ⟨error, hRaise, -⟩ | ⟨reply, now, later, v, rfl, hCall, hRest⟩
      · obtain ⟨-, hSame, -⟩ := hRaise.unique hReturn (.raise error) (.done _)
        cases hSame
      · obtain ⟨-, hSame, -⟩ := hCall.unique hReturn (.done reply) (.done _)
        cases hSame
        obtain ⟨-, rfl, -⟩ := hRest.of_ended (.done _)
        exact ⟨_, rfl, rfl⟩

/-- A decision whose reason fits is persisted where the database carries out every step. -/
theorem persistVerdict_course {p : Platform} {loaded : Option Statement} {score : EvidenceScore}
    {ratio : ℚ} {judgement : Judgement} {left : Action VerificationOutcome}
    (h : Course env n (persistVerdict p ⟨loaded, statement⟩ passage runId score ratio judgement) s log
      left t) (hEnd : Ended left) (hGrant : ∀ k, env.verdict k = .grant)
    (hCarried : ∀ m ∈ log, m.happening ≠ .refused) (hFits : ReasonFits p.unicode judgement.reason) :
    ∃ outcome, left = .done outcome := by
  obtain ⟨linkId, afterId, rfl, hStamp⟩ := h.of_query hEnd
  obtain ⟨createdAt, afterTime, rfl, hAudit⟩ := hStamp.of_query hEnd
  have hCheck : (verifyEntry p.unicode runId { statement with status := judgement.decision } score
      ratio judgement).check = .ok () := verifyEntry_check.mpr hFits
  unfold auditAppend at hAudit
  simp only [Prog.bind_def, Prog.bind_assoc, hCheck] at hAudit
  obtain ⟨auditId, afterAudit, rfl, hTime⟩ := Course.of_query hAudit hEnd
  obtain ⟨ts, afterTs, rfl, hCommit⟩ := Course.of_query hTime hEnd
  obtain ⟨_, u, last, -, rfl, hLast⟩ := Course.of_commit hCommit (hGrant _) hEnd
    fun m hm => hCarried m (by simp [hm])
  obtain ⟨-, rfl, -⟩ := hLast.of_ended (.done _)
  exact ⟨_, rfl⟩

/-- A decision which is persisted has a reason which fits. -/
theorem persistVerdict_fits {p : Platform} {loaded : Option Statement} {score : EvidenceScore}
    {ratio : ℚ} {judgement : Judgement} {outcome : VerificationOutcome}
    (h : Exec (persistVerdict p ⟨loaded, statement⟩ passage runId score ratio judgement) s log
      (.done outcome) t) : ReasonFits p.unicode judgement.reason := by
  obtain ⟨linkId, _, _, u, -, -, hStamp⟩ := Exec.of_bind_done h
  obtain ⟨createdAt, _, _, v, -, -, hAudit⟩ := Exec.of_bind_done hStamp
  obtain ⟨audit, _, _, w, -, hAppend, -⟩ := Exec.of_bind_done hAudit
  obtain ⟨_, _, _, x, -, hChecked, -⟩ := Exec.of_bind_done hAppend
  exact verifyEntry_check.mp (ofExcept_done hChecked).2

/-- A call on a draft in an environment which carries out every database step and in which the gateway
returns a verdict where it is asked for one. -/
structure Undisturbed (env : Environment Vocabulary) (n : Nat) (gateway : LLMGateway)
    (statement : Statement) (passage : Passage) (runId : Uuid) (s : World)
    (verdict : VerificationVerdict) : Prop where
  draft : statement.status = .draft
  grants : ∀ k, env.verdict k = .grant
  /-- The load of the statement is the first step of the call. -/
  returns : ∀ score ratio, supportOf gateway.platform.unicode statement passage = .ok (score, ratio) →
    score ≠ .none → Returning env (n + 1) gateway runId statement passage s verdict
  carried : ∀ log left t, Course env n (verify gateway statement passage runId) s log left t →
    ∀ m ∈ log, m.happening ≠ .refused

/-- Such a call returns and decides the statement exactly if the statement can be scored and, where
the judge is asked, the reason of the verdict fits into the audit trail. -/
theorem verify_total_iff
    (hHooks : ∀ hook ∈ gateway.hooks, ∀ ctx, Keeps (LeavesRecords statement.id) (hook ctx))
    (h : Undisturbed env n gateway statement passage runId s verdict) :
    (∃ log outcome t, Course env n (verify gateway statement passage runId) s log (.done outcome) t ∧
      (storedStatus statement.id t = some .verified ∨
        storedStatus statement.id t = some .quarantined)) ↔
    Scorable gateway.platform.unicode statement ∧
      ∀ score ratio, supportOf gateway.platform.unicode statement passage = .ok (score, ratio) →
        score ≠ .none → ReasonFits gateway.platform.unicode verdict.reason.val := by
  have hGate : statement.status = .draft ∨ false = true := .inl h.draft
  constructor
  · rintro ⟨log, outcome, t, hCourse, -⟩
    rw [verify_eq hGate] at hCourse
    obtain ⟨later, rfl, hRest⟩ := hCourse.of_select (h.grants _) (.done _)
    obtain ⟨⟨score, ratio⟩, scored, rest, v, rfl, hScore, hCall⟩ := hRest.of_bind_done
    obtain ⟨rfl, hFound⟩ := ofExcept_done hScore.exec
    constructor
    · by_contra hNot
      obtain ⟨error, hError⟩ := supportOf_error passage hNot
      rw [hError] at hFound
      cases hFound
    · intro score' ratio' hFound' hAsked
      rw [hFound] at hFound'
      cases hFound'
      rw [hFound] at hScore
      obtain ⟨rfl, -, -⟩ := hScore.of_ended (.done _)
      obtain ⟨judgement, _, _, w, -, hJudge, hPersist⟩ := hCall.of_bind_done
      obtain ⟨other, hSame, hReason⟩ := judge_course hJudge (.done _) (h.returns score ratio hFound)
      cases hSame
      have hFits := persistVerdict_fits hPersist.exec
      rw [hReason] at hFits
      cases score with
      | none => exact absurd rfl hAsked
      | full | partial_ => exact hFits
  · rintro ⟨hScorable, hReason⟩
    obtain ⟨score, ratio, hFound, hRatio⟩ :=
      supportOf_ok passage hScorable
    obtain ⟨log, left, t, hCourse, hEnd⟩ :=
      Course.ends env n (verify gateway statement passage runId) s
    have hCarried := h.carried log left t hCourse
    have hDone : ∃ outcome, left = .done outcome := by
      have hSplit := hCourse
      rw [verify_eq hGate] at hSplit
      obtain ⟨later, rfl, hRest⟩ := hSplit.of_select (h.grants _) hEnd
      rw [hFound] at hRest
      have hCall : Course env (n + 1) (verifyScored gateway statement passage runId
          (findRow Statement.id statement.id s.tables.statements) (score, ratio)) s later left t := hRest
      rcases hCall.of_bind_ended hEnd with ⟨error, hRaise, -⟩ | ⟨judgement, now, rest, u, rfl,
        hJudge, hPersist⟩
      · obtain ⟨_, hNever, -⟩ := judge_course hRaise (.raise error) (h.returns score ratio hFound)
        cases hNever
      · obtain ⟨_, hSame, hJudged⟩ :=
          judge_course hJudge (.done judgement) (h.returns score ratio hFound)
        cases hSame
        refine persistVerdict_course hPersist hEnd h.grants (fun m hm => hCarried m (by simp [hm])) ?_
        rw [hJudged]
        cases score with
        | none => exact lexicalReason_fits hRatio
        | full | partial_ => exact hReason _ ratio hFound (by simp)
    obtain ⟨outcome, rfl⟩ := hDone
    obtain ⟨_, _, -, reply, -, -, hStored⟩ := verify_done hHooks hGate hCourse.exec
    refine ⟨log, outcome, t, hCourse, ?_⟩
    rw [hStored, decisionOf]
    split
    · exact .inl rfl
    · exact .inr rfl

end Courses

/-- A call on a draft is undisturbed if no step of its course is refused, and the judge's call returns. -/
theorem draftedRun_undisturbed {label : Verdict} {text : Text} {verdict : VerificationVerdict}
    (hEnd : Ended (draftedRun label text).2.1)
    (hCarried : (draftedRun label text).1.all (fun m => !m.isRefused) = true)
    (hReturns : ∀ score ratio, supportOf (LLMGateway.judging label).platform.unicode
        (.noted 4 text .draft) draftedPassage = .ok (score, ratio) → score ≠ .none →
      Returning (({} : Served).outside fun _ => .grant) 1 (.judging label) ⟨1⟩ (.noted 4 text .draft)
        draftedPassage (.drafted text) verdict) :
    Undisturbed (({} : Served).outside fun _ => .grant) 0 (.judging label) (.noted 4 text .draft)
      draftedPassage ⟨1⟩ (.drafted text) verdict := by
  refine ⟨rfl, fun _ => rfl, hReturns, fun log left t hCourse m hm hRefused => ?_⟩
  have hAll := List.all_eq_true.mp hCarried m
    (Course.subset hCourse (draftedRun_course label text) hEnd hm)
  rw [Moment.isRefused_iff.mpr hRefused] at hAll
  cases hAll

/-- A draft in Chinese has no word for the support matrix, and its call raises. -/
theorem verify_raises : ∃ (env : Environment Vocabulary) (gateway : LLMGateway) (statement : Statement)
    (passage : Passage) (s t : World) (verdict : VerificationVerdict) (log : Log Vocabulary)
    (error : PyError), Undisturbed env 0 gateway statement passage ⟨1⟩ s verdict ∧
      statement.text.length = 2 ∧ findRow Statement.id statement.id s.tables.statements = some statement ∧
      Course env 0 (verify gateway statement passage ⟨1⟩) s log (.raise error) t := by
  have hFacts : (draftedRun .supported "你好".toList).2.1.raised.isSome = true ∧
      (draftedRun .supported "你好".toList).1.all (fun m => !m.isRefused) = true ∧
      (tokens Platform.plain.unicode (redactSecrets Platform.plain.unicode "你好".toList)).isEmpty =
        true := by
    decide
  obtain ⟨hRaises, hCarried, hWords⟩ := hFacts
  obtain ⟨error, hError⟩ := Option.isSome_iff_exists.mp hRaises
  have hCourse := draftedRun_course .supported "你好".toList
  rw [Prog.eq_raise hError] at hCourse
  have hUndisturbed := @draftedRun_undisturbed _ _ (judgedAs .supported)
    (Prog.eq_raise hError ▸ .raise error) hCarried ?_
  · exact ⟨_, _, _, _, _, _, _, _, error, hUndisturbed, rfl, rfl, hCourse⟩
  · intro score ratio hFound
    have hNot : ¬ Scorable Platform.plain.unicode (.noted 4 "你好".toList .draft) := by
      rintro ⟨-, hSome⟩
      exact absurd (hSome.symm.trans hWords) (by simp)
    obtain ⟨_, hRaised⟩ := supportOf_error draftedPassage hNot
    exact absurd (hRaised.symm.trans hFound) (by simp)

/-- A draft which shares two words with its passage. -/
theorem verify_total_words : ∃ verdict : VerificationVerdict,
    (∃ log outcome t, Course (({} : Served).outside fun _ => .grant) 0
        (verify (.judging .supported) (.noted 4 "a b".toList .draft) draftedPassage ⟨1⟩)
        (.drafted "a b".toList) log (.done outcome) t ∧
      (storedStatus ⟨4⟩ t = some .verified ∨ storedStatus ⟨4⟩ t = some .quarantined)) ↔
    Scorable Platform.plain.unicode (.noted 4 "a b".toList .draft) ∧
      ∀ score ratio, supportOf Platform.plain.unicode (.noted 4 "a b".toList .draft) draftedPassage =
        .ok (score, ratio) → score ≠ .none →
          ReasonFits Platform.plain.unicode verdict.reason.val := by
  obtain ⟨hReturns, -, hCarried⟩ := draftedRun_facts .supported
  have hReply : (simulate (({} : Served).outside fun _ => .grant) 30 1
      (completeModel (.judging .supported) .verificationVerdict
        (judgeCall (.judging .supported) ⟨1⟩ (.noted 4 "a b".toList .draft) draftedPassage))
      (World.drafted "a b".toList)).2.1.returned.isSome = true := by
    decide +kernel
  obtain ⟨outcome, hOutcome⟩ := Option.isSome_iff_exists.mp hReturns
  obtain ⟨⟨result, verdict⟩, hVerdict⟩ := Option.isSome_iff_exists.mp hReply
  have hJudge := simulate_course (({} : Served).outside fun _ => .grant) 30 1
    (completeModel (.judging .supported) .verificationVerdict
      (judgeCall (.judging .supported) ⟨1⟩ (.noted 4 "a b".toList .draft) draftedPassage))
    (World.drafted "a b".toList)
  rw [Prog.eq_done hVerdict] at hJudge
  refine ⟨verdict, verify_total_iff (judging_hooks .supported ⟨4⟩) (draftedRun_undisturbed
    (Prog.eq_done hOutcome ▸ .done outcome) hCarried fun _ _ _ _ => ⟨result, _, _, hJudge⟩)⟩

end Ecrke
