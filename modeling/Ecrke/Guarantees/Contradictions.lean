import Ecrke.Guarantees.CachedCalls
import Ecrke.Guarantees.Detection

/-!
# The contradictions which the detector confirms

A call of the detector judges its candidate pairs one after the other; a pair which has a confirmed
row is passed over.

* `candidate_ordered` -- a candidate is a pair of verified statements, the smaller identifier first.
* `FlaggedBy`, `WrittenFor` -- the replies behind a row.
* `Turns` -- the log of a call, cut into the turns of its pairs.
* `detections_sound` -- what a sequence of calls writes.
-/

namespace Ecrke

open Durable

/-! ## Pairs -/

/-- The order of identifiers. -/
def Uuid.before (a b : Uuid) : Prop := a.bits.toNat < b.bits.toNat

theorem Uuid.before_of_le {a b : Uuid} (hLe : a.le b = true) (hNe : a ≠ b) : a.before b := by
  have hNat : a.bits.toNat ≤ b.bits.toNat := by simpa [Uuid.le] using hLe
  have hBits : a.bits.toNat ≠ b.bits.toNat := by
    intro hEq
    apply hNe
    cases a
    cases b
    simpa using BitVec.eq_of_toNat_eq hEq
  unfold Uuid.before
  omega

/-- A pair of a list stands in it in this order. -/
theorem mem_pairsOf {α : Type} {R : α → α → Prop} {list : List α} (hOrder : list.Pairwise R)
    {pair : α × α} (hPair : pair ∈ pairsOf list) :
    pair.1 ∈ list ∧ pair.2 ∈ list ∧ R pair.1 pair.2 := by
  induction list with
  | nil => cases hPair
  | cons first rest ih =>
      obtain ⟨hFirst, hRest⟩ := List.pairwise_cons.mp hOrder
      rcases List.mem_append.mp hPair with hHere | hLater
      · obtain ⟨second, hSecond, rfl⟩ := List.mem_map.mp hHere
        exact ⟨by simp, by simp [hSecond], hFirst second hSecond⟩
      · obtain ⟨hLeft, hRight, hRelated⟩ := ih hRest hLater
        exact ⟨by simp [hLeft], by simp [hRight], hRelated⟩

theorem sortedVerified_pairwise {statements : List Statement}
    (hDistinct : (statements.map Statement.id).Nodup) :
    (sortedVerified statements).Pairwise fun a b => a.id.before b.id := by
  have hSorted : (sortedVerified statements).Pairwise fun a b => a.id.le b.id = true := by
    apply List.pairwise_mergeSort
    · intro a b c hFirst hSecond
      simp only [Uuid.le, decide_eq_true_eq] at hFirst hSecond ⊢
      omega
    · intro a b
      simp only [Uuid.le, Bool.or_eq_true, decide_eq_true_eq]
      omega
  have hNodup : ((sortedVerified statements).map Statement.id).Nodup := by
    have hPerm := (List.mergeSort_perm (statements.filter fun s => s.status = .verified)
      fun a b => a.id.le b.id).map Statement.id
    exact hPerm.nodup_iff.mpr (hDistinct.sublist (List.filter_sublist.map _))
  have hNe : (sortedVerified statements).Pairwise fun a b => a.id ≠ b.id :=
    List.pairwise_map.mp hNodup
  exact (hSorted.and hNe).imp fun hBoth => Uuid.before_of_le hBoth.1 hBoth.2

/-- A candidate is a pair of verified statements, the one with the smaller identifier first. -/
theorem candidate_ordered {u : Unicode} {statements : List Statement}
    (hDistinct : (statements.map Statement.id).Nodup) {pair : Statement × Statement}
    (hPair : pair ∈ candidatePairs u statements) :
    (pair.1 ∈ statements ∧ pair.1.status = .verified) ∧
      (pair.2 ∈ statements ∧ pair.2.status = .verified) ∧ pair.1.id.before pair.2.id := by
  have hIn := mem_pairsOf (sortedVerified_pairwise hDistinct) (List.mem_of_mem_filter hPair)
  obtain ⟨hLeft, hRight, hBefore⟩ := hIn
  simp only [sortedVerified, List.mem_mergeSort, List.mem_filter, decide_eq_true_eq] at hLeft hRight
  exact ⟨hLeft, hRight, hBefore⟩

/-! ## Replies -/

/-- The call of the first judge about a pair. -/
def flagCall (gateway : LLMGateway) (runId : Uuid) (a b : Statement) : CompleteArgs :=
  let u := gateway.platform.unicode
  let (system, dataBlock) := buildFlagPrompt (redactSecrets u a.text) (redactSecrets u b.text)
  { tier := .strong, system := some system, prompt := some dataBlock, runId := some runId,
    useCache := false, responseModel := some .contradictionFlag }

/-- The call of the second judge about a pair. -/
def confirmCall (gateway : LLMGateway) (runId : Uuid) (a b : Statement) : CompleteArgs :=
  let u := gateway.platform.unicode
  let (system, dataBlock) := buildConfirmPrompt (redactSecrets u a.text) (redactSecrets u b.text)
  { tier := .strong, system := some system, prompt := some dataBlock, runId := some runId,
    useCache := false, responseModel := some .confirmVerdict }

/-- The replies about a pair flag it, and confirm it unless the negation signal does. -/
def FlaggedBy (gateway : LLMGateway) (runId : Uuid) (a b : Statement) (log : Log Vocabulary) :
    Prop :=
  (∃ content, ∃ flag : ContradictionFlag,
    Answered gateway (flagCall gateway runId a b) log content (.model .contradictionFlag flag) ∧
      flag.flag = .flag ∧ flag.contradictory = true) ∧
  (negationSignal gateway.platform.unicode (redactSecrets gateway.platform.unicode a.text)
      (redactSecrets gateway.platform.unicode b.text) = true ∨
    ∃ content, ∃ verdict : ConfirmVerdict,
      Answered gateway (confirmCall gateway runId a b) log content
        (.model .confirmVerdict verdict) ∧ verdict.contradictory = true)

/-- The row of a pair, with the replies behind it. -/
def WrittenFor (gateway : LLMGateway) (runId : Uuid) (a b : Statement) (log : Log Vocabulary)
    (row : Contradiction) : Prop :=
  row.status = .confirmed ∧ row.statementAId = a.id ∧ row.statementBId = b.id ∧
    FlaggedBy gateway runId a b log

/-- A confirmed row exists for the pair, in either order. -/
def pairConfirmed (a b : Statement) (w : World) : Bool :=
  (w.tables.contradictions.any fun c =>
    c.statementAId = a.id && c.statementBId = b.id && c.status = .confirmed) ||
  w.tables.contradictions.any fun c =>
    c.statementAId = b.id && c.statementBId = a.id && c.status = .confirmed

/-- A step which asks nobody and changes nothing. -/
def Looks (m : Moment Vocabulary) : Prop := m.question = none ∧ m.after = m.before

/-- A step which leaves the contradictions as they are. -/
def ConflictsKept (m : Moment Vocabulary) : Prop :=
  m.after.tables.contradictions = m.before.tables.contradictions

section Turn

variable {gateway : LLMGateway} {runId : Uuid} {a b : Statement} {s t : World}
  {log : Log Vocabulary}

theorem ConflictsKept.of_book (m : Moment Vocabulary) (h : Bookkeeping m) : ConflictsKept m := by
  obtain ⟨runs, kvCache, hTables⟩ := h.tables
  rw [ConflictsKept, hTables]

theorem Exec.conflictsKept {α : Type} {p q : Action α} (h : Exec p s log q t)
    (hp : Keeps ConflictsKept p) : t.tables.contradictions = s.tables.contradictions :=
  (h.linked.invariant (fun u : World => u.tables.contradictions = s.tables.contradictions)
    (fun m hm hBefore => ((h.keeps hp).1 m hm).trans hBefore) rfl).1

theorem confirmedExists_looks : Keeps Looks (confirmedExists a b) := by
  have hSelect {α : Type} (f : Tables → α) : Keeps Looks (selectTables f) :=
    keeps_select (fun _ => ⟨rfl, rfl⟩) fun _ => ⟨rfl, rfl⟩
  exact keeps_bind (hSelect _) fun _ => keeps_ite (fun _ => keeps_done _) fun _ => hSelect _

theorem Exec.looks {α : Type} {p q : Action α} (h : Exec p s log q t) (hp : Keeps Looks p) :
    t = s ∧ ∀ m ∈ log, m.question = none := by
  have hSteps := (h.keeps hp).1
  constructor
  · exact (h.linked.invariant (fun u : World => u = s)
      (fun m hm hBefore => (hSteps m hm).2.trans hBefore) rfl).1
  · exact fun m hm => (hSteps m hm).1

theorem confirmedExists_done {known : Bool}
    (h : Exec (confirmedExists a b) s log (.done known) t) : known = pairConfirmed a b s := by
  obtain ⟨first, now, later, u, rfl, hFirst, hRest⟩ := Exec.of_bind_done h
  obtain ⟨hFound, hSame⟩ := Exec.of_select_done hFirst
  subst hFound hSame
  unfold pairConfirmed
  split at hRest
  · rename_i hKnown
    obtain ⟨-, hDone, -⟩ := Exec.of_done hRest
    cases hDone
    simp [hKnown]
  · rename_i hUnknown
    obtain ⟨hSecond, -⟩ := Exec.of_select_done hRest
    simp only [Bool.not_eq_true] at hUnknown
    rw [hUnknown, Bool.false_or, hSecond]

/-- A confirmation which confirms: the signal, or the reply of the second judge. -/
theorem confirm_done {confirmation : Confirmation}
    (h : Exec (confirm gateway runId (redactSecrets gateway.platform.unicode a.text)
      (redactSecrets gateway.platform.unicode b.text)) s log (.done confirmation) t)
    (hConfirmed : confirmation.confirmed = true) :
    negationSignal gateway.platform.unicode (redactSecrets gateway.platform.unicode a.text)
      (redactSecrets gateway.platform.unicode b.text) = true ∨
    ∃ content, ∃ verdict : ConfirmVerdict,
      Answered gateway (confirmCall gateway runId a b) log content
        (.model .confirmVerdict verdict) ∧ verdict.contradictory = true := by
  unfold confirm at h
  split at h
  · exact .inl ‹_›
  · right
    obtain ⟨reply, now, later, u, rfl, hCall, hRest⟩ := Exec.of_bind_done h
    obtain ⟨-, hDone, -⟩ := Exec.of_done hRest
    cases hDone
    have hAnswered := completeModel_done rfl hCall
    exact ⟨_, reply.2, hAnswered.mono fun m hm => by simp [hm], hConfirmed⟩

/-- Judges who confirm a pair: it was not known, and these are their replies. -/
theorem judgement_done {flag : ContradictionFlag} {confirmation : Confirmation}
    (h : Exec (judgement gateway runId a b) s log (.done (some (flag, confirmation))) t) :
    pairConfirmed a b s = false ∧ FlaggedBy gateway runId a b log := by
  obtain ⟨known, now, later, u, rfl, hKnown, hRest⟩ := Exec.of_bind_done h
  have hSame := (Exec.looks hKnown confirmedExists_looks).1
  have hPair := confirmedExists_done hKnown
  split at hRest
  · obtain ⟨-, hDone, -⟩ := Exec.of_done hRest
    cases hDone
  rename_i hUnknown
  subst hSame
  simp only [Bool.not_eq_true] at hUnknown
  rw [hUnknown] at hPair
  obtain ⟨reply, called, rest, v, rfl, hCall, hLater⟩ := Exec.of_bind_done hRest
  have hAnswered := completeModel_done rfl hCall
  dsimp only at hLater
  split at hLater
  · obtain ⟨-, hDone, -⟩ := Exec.of_done hLater
    cases hDone
  rename_i hFlag
  simp only [Bool.not_eq_true, Bool.not_eq_false', decide_eq_true_eq] at hFlag
  obtain ⟨found, second, last, w, rfl, hConfirm, hLast⟩ := Exec.of_bind_done hLater
  split at hLast
  · obtain ⟨-, hDone, -⟩ := Exec.of_done hLast
    cases hDone
  rename_i hConfirmed
  obtain ⟨-, hDone, -⟩ := Exec.of_done hLast
  cases hDone
  simp only [Bool.not_eq_true, Bool.not_eq_false'] at hConfirmed
  refine ⟨hPair.symm, ⟨_, reply.2, hAnswered.mono fun m hm => by simp [hm], hFlag⟩, ?_⟩
  rcases confirm_done hConfirm hConfirmed with hSignal | ⟨content, verdict, hReply, hYes⟩
  · exact .inl hSignal
  · exact .inr ⟨content, verdict, hReply.mono fun m hm => by simp [hm], hYes⟩

/-- The turn of a pair which has a confirmed row asks nobody and changes nothing. -/
theorem judgePair_known {left : Action (Option Contradiction)} (hKnown : pairConfirmed a b s = true)
    (h : Exec (judgePair gateway runId a b) s log left t) :
    t = s ∧ ∀ m ∈ log, m.question = none := by
  unfold judgePair at h
  rcases Exec.of_bind h with ⟨p', hLook, -⟩ | ⟨known, now, later, u, rfl, hLook, hRest⟩
  · exact Exec.looks hLook confirmedExists_looks
  · obtain ⟨hSame, hQuiet⟩ := Exec.looks hLook confirmedExists_looks
    obtain rfl : known = true := (confirmedExists_done hLook).trans hKnown
    obtain ⟨rfl, -, rfl⟩ := Exec.of_done hRest
    exact ⟨hSame, by simpa using hQuiet⟩

/-- The commit of a confirmed pair adds its row, or it leaves the contradictions as they are. -/
theorem persistPair_adds {flag : ContradictionFlag} {confirmation : Confirmation}
    {left : Action (Option Contradiction)}
    (h : Exec (persistPair gateway runId a b flag confirmation) s log left t) :
    t.tables.contradictions = s.tables.contradictions ∨
      ∃ row : Contradiction, t.tables.contradictions = s.tables.contradictions ++ [row] ∧
        row.status = .confirmed ∧ row.statementAId = a.id ∧ row.statementBId = b.id := by
  have hQuery (question : Query) : Keeps ConflictsKept
      (Prog.query (S := Vocabulary) question : Action (Answer question)) :=
    keeps_query fun _ _ => rfl
  rcases Exec.of_query h with ⟨-, -, rfl⟩ | ⟨id, afterId, rfl, hId⟩
  · exact .inl rfl
  rcases Exec.of_query hId with ⟨-, -, rfl⟩ | ⟨confirmedAt, afterTime, rfl, hTime⟩
  · exact .inl rfl
  rcases Exec.of_query hTime with ⟨-, -, rfl⟩ | ⟨createdAt, afterStamp, rfl, hRest⟩
  · exact .inl rfl
  rcases Exec.of_bind hRest with ⟨_, hAudit, -⟩ | ⟨audit, now, last, u, rfl, hAudit, hLast⟩
  · refine .inl (Exec.conflictsKept hAudit ?_)
    exact keeps_bind (keeps_ofExcept _) fun _ => keeps_bind (hQuery _) fun _ =>
      keeps_bind (hQuery _) fun _ => keeps_done _
  have hSame : u.tables.contradictions = s.tables.contradictions := by
    refine Exec.conflictsKept hAudit ?_
    exact keeps_bind (keeps_ofExcept _) fun _ => keeps_bind (hQuery _) fun _ =>
      keeps_bind (hQuery _) fun _ => keeps_done _
  rw [← hSame]
  rcases Exec.of_commitWrites hLast with rfl | hCommitted
  · exact .inl rfl
  · right
    obtain ⟨v, hTables, hEnd⟩ := hCommitted
    have hAfter : t = v := by
      rcases hEnd with ⟨rfl, -⟩ | ⟨rest, hRest⟩
      · rfl
      · exact (Exec.of_done hRest).2.2
    rw [hAfter, hTables]
    exact ⟨_, rfl, rfl, rfl, rfl⟩

/-- The turn of a pair leaves the contradictions as they are, or it adds a row for a pair which had
none. -/
theorem judgePair_adds (hHooks : ∀ hook ∈ gateway.hooks, ∀ ctx, Keeps ConflictsKept (hook ctx))
    {left : Action (Option Contradiction)} (h : Exec (judgePair gateway runId a b) s log left t) :
    t.tables.contradictions = s.tables.contradictions ∨
      ∃ row, t.tables.contradictions = s.tables.contradictions ++ [row] ∧
        pairConfirmed a b s = false ∧ WrittenFor gateway runId a b log row := by
  have hJudges : Keeps ConflictsKept (judgement gateway runId a b) :=
    keeps_judgement (fun _ _ _ _ _ => rfl) hHooks ConflictsKept.of_book
  rw [judgePair_eq] at h
  rcases Exec.of_bind h with ⟨_, hOpen, -⟩ | ⟨replies, now, later, u, rfl, hDone, hRest⟩
  · exact .inl (Exec.conflictsKept hOpen hJudges)
  have hSame := Exec.conflictsKept hDone hJudges
  cases replies with
  | none =>
      obtain ⟨-, -, rfl⟩ := Exec.of_done hRest
      exact .inl hSame
  | some replies =>
      obtain ⟨flag, confirmation⟩ := replies
      obtain ⟨hFresh, hReplies⟩ := judgement_done hDone
      rw [← hSame]
      rcases persistPair_adds hRest with hNone | ⟨row, hRow, hStatus, hA, hB⟩
      · exact .inl hNone
      · refine .inr ⟨row, hRow, hFresh, hStatus, hA, hB, ?_⟩
        obtain ⟨⟨content, flag, hFlag, hBoth⟩, hConfirm⟩ := hReplies
        refine ⟨⟨content, flag, hFlag.mono fun m hm => by simp [hm], hBoth⟩, ?_⟩
        rcases hConfirm with hSignal | ⟨content, verdict, hReply, hYes⟩
        · exact .inl hSignal
        · exact .inr ⟨content, verdict, hReply.mono fun m hm => by simp [hm], hYes⟩

end Turn

/-! ## Turns -/

/-- Two rows about one pair of statements, in either order. -/
def SamePair (c d : Contradiction) : Prop :=
  c.statementAId = d.statementAId ∧ c.statementBId = d.statementBId ∨
    c.statementAId = d.statementBId ∧ c.statementBId = d.statementAId

/-- The log of a call, cut into the turns of its pairs up to where it ends: a pause, and the judging
of the pair, which asks nobody about a pair with a confirmed row. -/
inductive Turns (gateway : LLMGateway) (runId : Uuid) :
    List (Statement × Statement) → World → Log Vocabulary → World → Prop where
  | stop {pairs : List (Statement × Statement)} {s : World} : Turns gateway runId pairs s [] s
  | turn {a b : Statement} {rest : List (Statement × Statement)} {pause now later : Log Vocabulary}
      {s u t : World} {left : Action (Option Contradiction)}
      (hPause : ∀ m ∈ pause, m.question = some (.sleep contradictionDelaySeconds))
      (hTurn : Exec (judgePair gateway runId a b) s now left u)
      (hSpares : pairConfirmed a b s = true → u = s ∧ ∀ m ∈ now, m.question = none)
      (hRest : Turns gateway runId rest u later t) :
      Turns gateway runId ((a, b) :: rest) s (pause ++ now ++ later) t

/-- The rows which are added: one for a pair at most, none for a pair which had a confirmed row, and
each with what `J` says about it. -/
def Gains (J : Contradiction → Prop) (s t : World) : Prop :=
  ∃ rows, t.tables.contradictions = s.tables.contradictions ++ rows ∧
    (rows.Pairwise fun c d => ¬ SamePair c d) ∧
    ∀ row ∈ rows, row.status = .confirmed ∧ J row ∧
      ∀ old ∈ s.tables.contradictions, old.status = .confirmed → ¬ SamePair old row

section Gains

variable {J J' : Contradiction → Prop} {s t u : World}

theorem Gains.none (h : t.tables.contradictions = s.tables.contradictions) : Gains J s t :=
  ⟨[], by simp [h], List.Pairwise.nil, by simp⟩

theorem Gains.mono (h : Gains J s t) (hJ : ∀ row, J row → J' row) : Gains J' s t := by
  obtain ⟨rows, hRows, hPairs, hEach⟩ := h
  refine ⟨rows, hRows, hPairs, fun row hRow => ?_⟩
  obtain ⟨hStatus, hRow, hOld⟩ := hEach row hRow
  exact ⟨hStatus, hJ row hRow, hOld⟩

theorem Gains.trans (h : Gains J s t) (h' : Gains J t u) : Gains J s u := by
  obtain ⟨rows, hRows, hPairs, hEach⟩ := h
  obtain ⟨rows', hRows', hPairs', hEach'⟩ := h'
  refine ⟨rows ++ rows', by rw [hRows', hRows, List.append_assoc], ?_, ?_⟩
  · rw [List.pairwise_append]
    refine ⟨hPairs, hPairs', fun row hRow later hLater => ?_⟩
    -- The later rows respect the rows which are there when they are added.
    have hThere : row ∈ t.tables.contradictions := by
      rw [hRows]
      exact List.mem_append_right _ hRow
    exact (hEach' later hLater).2.2 row hThere (hEach row hRow).1
  · intro row hRow
    rcases List.mem_append.mp hRow with hNow | hLater
    · exact hEach row hNow
    · obtain ⟨hStatus, hJ, hOld⟩ := hEach' row hLater
      refine ⟨hStatus, hJ, fun old hThere => hOld old ?_⟩
      rw [hRows]
      exact List.mem_append_left _ hThere

/-- A row for a pair which had no confirmed row. -/
theorem Gains.one {gateway : LLMGateway} {runId : Uuid} {a b : Statement} {log : Log Vocabulary}
    {row : Contradiction} (hRow : t.tables.contradictions = s.tables.contradictions ++ [row])
    (hFresh : pairConfirmed a b s = false) (hWritten : WrittenFor gateway runId a b log row)
    (hJ : J row) : Gains J s t := by
  refine ⟨[row], hRow, List.pairwise_singleton _ _, ?_⟩
  intro other hOther
  obtain rfl := List.mem_singleton.mp hOther
  refine ⟨hWritten.1, hJ, fun old hOld hConfirmed hSame => ?_⟩
  obtain ⟨-, hA, hB, -⟩ := hWritten
  simp only [pairConfirmed, Bool.or_eq_false_iff, List.any_eq_false, Bool.and_eq_true,
    decide_eq_true_eq] at hFresh
  rcases hSame with ⟨hLeft, hRight⟩ | ⟨hLeft, hRight⟩
  · exact hFresh.1 old hOld ⟨⟨hLeft.trans hA, hRight.trans hB⟩, hConfirmed⟩
  · exact hFresh.2 old hOld ⟨⟨hLeft.trans hB, hRight.trans hA⟩, hConfirmed⟩

end Gains

section Calls

variable {gateway : LLMGateway} {runId : Uuid} {s t : World} {log : Log Vocabulary}

theorem judgePairs_turns {pairs : List (Statement × Statement)} {n : Nat}
    {left : Action (List (Option Contradiction))}
    (h : Exec ((pairs.zipIdx n).mapM (judgeNext gateway runId)) s log left t) :
    Turns gateway runId pairs s log t := by
  induction pairs generalizing n s log left with
  | nil =>
      obtain ⟨rfl, -, rfl⟩ := Exec.of_done h
      exact .stop
  | cons pair rest ih =>
      obtain ⟨a, b⟩ := pair
      rw [List.zipIdx_cons, List.mapM_cons] at h
      -- A turn, up to its end or up to the end of the log.
      have hTurn {now : Log Vocabulary} {u : World} {left : Action (Option Contradiction)}
          (hNext : Exec (judgeNext gateway runId ((a, b), n)) s now left u) :
          ∃ pause turn left, now = pause ++ turn ∧
            (∀ m ∈ pause, m.question = some (.sleep contradictionDelaySeconds)) ∧
            Exec (judgePair gateway runId a b) s turn left u := by
        unfold judgeNext at hNext
        dsimp only at hNext
        split at hNext
        · rcases Exec.of_query hNext with ⟨rfl, -, rfl⟩ | ⟨answer, later, rfl, hLater⟩
          · exact ⟨[], [], _, rfl, by simp, .refl _ _⟩
          · exact ⟨[_], later, _, rfl, by simp [Moment.question], hLater⟩
        · exact ⟨[], now, _, rfl, by simp, hNext⟩
      rcases Exec.of_bind h with ⟨p', hNow, -⟩ | ⟨found, now, later, u, rfl, hNow, hLater⟩
      · obtain ⟨pause, turn, left, rfl, hPause, hJudged⟩ := hTurn hNow
        have hAll := Turns.turn hPause hJudged (fun hKnown => judgePair_known hKnown hJudged)
          (.stop : Turns gateway runId rest t [] t)
        simpa using hAll
      · obtain ⟨pause, turn, left, rfl, hPause, hJudged⟩ := hTurn hNow
        refine .turn hPause hJudged (fun hKnown => judgePair_known hKnown hJudged) ?_
        rcases Exec.of_bind hLater with ⟨p', hRest, -⟩ | ⟨rows, rest', last, v, rfl, hRest, hDone⟩
        · exact ih hRest
        · obtain ⟨rfl, -, rfl⟩ := Exec.of_done hDone
          simpa using ih hRest

/-- The log of a call is made of the turns of its candidate pairs. -/
theorem detect_turns {statements : List Statement} {left : Action (List Contradiction)}
    (h : Exec (detect gateway statements runId) s log left t) :
    Turns gateway runId ((candidatePairs gateway.platform.unicode statements).take
      maxContradictionPairs) s log t := by
  rw [detect_eq] at h
  rcases Exec.of_bind h with ⟨p', hLoop, -⟩ | ⟨rows, now, later, u, rfl, hLoop, hDone⟩
  · exact judgePairs_turns hLoop
  · obtain ⟨rfl, -, rfl⟩ := Exec.of_done hDone
    simpa using judgePairs_turns hLoop

/-- What the turns of a call add. -/
theorem Turns.gains (hHooks : ∀ hook ∈ gateway.hooks, ∀ ctx, Keeps ConflictsKept (hook ctx))
    {pairs : List (Statement × Statement)} (h : Turns gateway runId pairs s log t) :
    Gains (fun row => ∃ pair ∈ pairs, ∃ turn, turn <:+: log ∧
      WrittenFor gateway runId pair.1 pair.2 turn row) s t := by
  induction h with
  | stop => exact .none rfl
  | @turn a b rest pause now later s u t left hPause hTurn hSpares hRest ih =>
      have hNow : Gains (fun row => ∃ pair ∈ (a, b) :: rest, ∃ turn, turn <:+: pause ++ now ++ later ∧
          WrittenFor gateway runId pair.1 pair.2 turn row) s u := by
        rcases judgePair_adds hHooks hTurn with hNone | ⟨row, hRow, hFresh, hWritten⟩
        · exact .none hNone
        · exact .one hRow hFresh hWritten ⟨(a, b), by simp, now, ⟨pause, later, rfl⟩, hWritten⟩
      refine hNow.trans (ih.mono ?_)
      intro row hRow
      obtain ⟨pair, hPair, turn, ⟨before, after, hTurn⟩, hWritten⟩ := hRow
      exact ⟨pair, by simp [hPair], turn, ⟨pause ++ now ++ before, after, by simp [← hTurn]⟩,
        hWritten⟩

end Calls

/-! ## Histories -/

/-- A call of the detector, on statements with distinct identifiers. -/
structure DetectCall where
  gateway : LLMGateway
  statements : List Statement
  runId : Uuid
  distinct : (statements.map Statement.id).Nodup

namespace DetectCall

/-- The pairs which a call judges. -/
def pairs (call : DetectCall) : List (Statement × Statement) :=
  (candidatePairs call.gateway.platform.unicode call.statements).take maxContradictionPairs

/-- The hooks of a call leave the contradictions alone. -/
def Admitted (call : DetectCall) : Prop :=
  ∀ hook ∈ call.gateway.hooks, ∀ ctx, Keeps ConflictsKept (hook ctx)

/-- The row belongs to a pair of verified statements of the call, the smaller identifier first, and
its replies are in one turn of the log. -/
def Confirms (call : DetectCall) (log : Log Vocabulary) (row : Contradiction) : Prop :=
  ∃ a b, (a ∈ call.statements ∧ a.status = .verified) ∧ (b ∈ call.statements ∧ b.status = .verified) ∧
    row.statementAId.before row.statementBId ∧ ∃ turn, turn <:+: log ∧
      WrittenFor call.gateway call.runId a b turn row

end DetectCall

/-- Calls of the detector one after the other.  Each of them may return, raise, or be cut off. -/
abbrev DetectHistory : World → List (DetectCall × Log Vocabulary) → World → Prop :=
  Calls (fun call : DetectCall => detect call.gateway call.statements call.runId)
    DetectCall.Admitted

/-- What a sequence of calls writes: at most one confirmed row for a pair, each of them for a pair of
verified statements whose replies confirm it; and a pair with a confirmed row asks nobody. -/
theorem detections_sound {s t : World} {calls : List (DetectCall × Log Vocabulary)}
    (h : DetectHistory s calls t) :
    Gains (fun row => ∃ call ∈ calls, call.1.Confirms call.2 row) s t ∧
      ∀ call ∈ calls, ∃ u v, Turns call.1.gateway call.1.runId call.1.pairs u call.2 v := by
  induction h with
  | nil => exact ⟨.none rfl, by simp⟩
  | @snoc t u calls past call hMay log left last ih =>
      obtain ⟨hPast, hTurns⟩ := ih
      have hLast := detect_turns last
      constructor
      · refine (hPast.mono ?_).trans ((hLast.gains hMay).mono ?_)
        · intro row hRow
          obtain ⟨earlier, hEarlier, hConfirms⟩ := hRow
          exact ⟨earlier, by simp [hEarlier], hConfirms⟩
        · intro row hRow
          obtain ⟨pair, hPair, turn, hTurn, hWritten⟩ := hRow
          have hCandidate := candidate_ordered call.distinct (List.mem_of_mem_take hPair)
          obtain ⟨hLeft, hRight, hBefore⟩ := hCandidate
          refine ⟨(call, log), by simp, pair.1, pair.2, hLeft, hRight, ?_, turn, hTurn, hWritten⟩
          rw [hWritten.2.1, hWritten.2.2.1]
          exact hBefore
      · intro other hOther
        rcases List.mem_append.mp hOther with hEarlier | hNow
        · exact hTurns other hEarlier
        · obtain rfl := List.mem_singleton.mp hNow
          exact ⟨t, u, hLast⟩

/-- A call on three conflicting statements. -/
def DetectCall.conflicting : DetectCall := ⟨.flagging, Ecrke.conflicting, ⟨1⟩, by decide⟩

/-- It confirms its first pair and fails at the second one. -/
theorem detections_sound_conflicting :
    ∃ row, (conflictingCall 20).2.2.tables.contradictions = [row] ∧
      DetectCall.conflicting.Confirms (conflictingCall 20).1 row := by
  obtain ⟨hRaised, hOne, -⟩ := conflictingCall_facts
  have hAdmitted : DetectCall.conflicting.Admitted := by
    intro hook hHook
    cases hHook
  have hHistory : DetectHistory .conflicting [(.conflicting, (conflictingCall 20).1)]
      (conflictingCall 20).2.2 :=
    .snoc .nil DetectCall.conflicting hAdmitted (conflictingCall_exec 20 _ hRaised)
  obtain ⟨⟨rows, hRows, -, hEach⟩, -⟩ := detections_sound hHistory
  have hNone : World.conflicting.tables.contradictions = [] := rfl
  rw [hNone, List.nil_append] at hRows
  rw [hRows] at hOne ⊢
  obtain ⟨row, rfl⟩ := List.length_eq_one_iff.mp hOne
  obtain ⟨-, ⟨call, hCall, hConfirms⟩, -⟩ := hEach row (by simp)
  obtain rfl := List.mem_singleton.mp hCall
  exact ⟨row, rfl, hConfirms⟩

end Ecrke
