import Ecrke.Durable.Executions
import Ecrke.Pipeline.RunHistory
import Ecrke.Services.Bookkeeping

/-!
# The contradictions of a call which fails

The detector judges one pair after the other and commits each confirmed pair at once.

* `judgement`, `persistPair` -- the two halves of `judgePair`.
* `Unconfirmed`, `FailsAt` -- replies of the judges which confirm no pair, up to the failure.
* `detect_unchanged_iff` -- when a call which raises leaves the tables as they were.
* `detect_changed` -- a call which fails at its second pair and leaves the first one behind.
-/

namespace Ecrke

open Durable

/-- What the judges say about a pair: the flag and the confirmation of a confirmed pair, and nothing
for a pair which is known, not flagged, or rejected. -/
def judgement (gateway : LLMGateway) (runId : Uuid) (a b : Statement) :
    Action (Option (ContradictionFlag × Confirmation)) := do
  let p := gateway.platform
  let aText := redactSecrets p.unicode a.text
  let bText := redactSecrets p.unicode b.text
  if ← confirmedExists a b then return none
  let (system, dataBlock) := buildFlagPrompt aText bText
  let (_, flag) ← completeModel gateway .contradictionFlag
    { tier := .strong, system := some system, prompt := some dataBlock, runId := some runId,
      useCache := false }
  let flag : ContradictionFlag := flag
  if !(flag.flag = .flag ∧ flag.contradictory) then return none
  let confirmation ← confirm gateway runId aText bText
  if !confirmation.confirmed then return none
  return some (flag, confirmation)

/-- Persist a confirmed pair. -/
def persistPair (gateway : LLMGateway) (runId : Uuid) (a b : Statement) (flag : ContradictionFlag)
    (confirmation : Confirmation) : Action (Option Contradiction) := do
  let p := gateway.platform
  let evidence := contradictionEvidence p.unicode (redactSecrets p.unicode a.text)
    (redactSecrets p.unicode b.text) flag confirmation
  let id ← uuid4
  let confirmedAt ← now
  let createdAt ← dbNow
  let row : Contradiction :=
    { id, runId, statementAId := a.id, statementBId := b.id, status := .confirmed,
      evidence := some (redactJson p.unicode evidence), createdAt, confirmedAt := some confirmedAt }
  let audit ← auditAppend p
    (contradictionEntry p.unicode runId row evidence confirmation.reason)
  commitWrites [.insertAuditTrace audit, .insertContradiction row]
  return some row

/-- Persist a pair for which there are replies. -/
def persistReplies (gateway : LLMGateway) (runId : Uuid) (a b : Statement) :
    Option (ContradictionFlag × Confirmation) → Action (Option Contradiction)
  | none => pure none
  | some (flag, confirmation) => persistPair gateway runId a b flag confirmation

section Detection

variable {gateway : LLMGateway} {runId : Uuid} {a b : Statement}

theorem judgePair_eq :
    judgePair gateway runId a b =
      (judgement gateway runId a b).bind (persistReplies gateway runId a b) := by
  unfold judgePair judgement
  simp only [Prog.bind_def, Prog.bind_assoc]
  refine congrArg (Prog.bind _) (funext fun known => ?_)
  cases known
  · simp only [Bool.false_eq_true, if_false, Prog.bind_assoc]
    refine congrArg (Prog.bind _) (funext fun reply => ?_)
    obtain ⟨result, flag⟩ := reply
    dsimp only
    split
    · rfl
    · simp only [Prog.bind_assoc]
      refine congrArg (Prog.bind _) (funext fun confirmation => ?_)
      split
      · rfl
      · show _ = persistPair gateway runId a b flag confirmation
        unfold persistPair
        rfl
  · rfl

/-! ## Footprints -/

/-- A step which leaves the contradictions and the audit trail as they are. -/
def LeavesVerdicts (m : Moment Vocabulary) : Prop :=
  m.after.tables.contradictions = m.before.tables.contradictions ∧
    m.after.tables.auditTrace = m.before.tables.auditTrace

theorem LeavesVerdicts.of_book (m : Moment Vocabulary) (h : Bookkeeping m) : LeavesVerdicts m := by
  obtain ⟨runs, kvCache, hTables⟩ := h.tables
  rw [LeavesVerdicts, hTables]
  exact ⟨rfl, rfl⟩

/-- The number of contradictions. -/
def conflictCount (w : World) : Nat := w.tables.contradictions.length

/-- A step which takes no contradiction away. -/
def ConflictsStay (m : Moment Vocabulary) : Prop := conflictCount m.before ≤ conflictCount m.after

theorem ConflictsStay.of_leaves (m : Moment Vocabulary) (h : LeavesVerdicts m) :
    ConflictsStay m := by
  rw [ConflictsStay, conflictCount, conflictCount, h.1]

/-- A step of `persistPair`: the commit adds a contradiction, the others change nothing. -/
def Persists (m : Moment Vocabulary) : Prop :=
  LeavesVerdicts m ∧ m.happening ≠ .moved ∨ conflictCount m.before < conflictCount m.after

theorem ConflictsStay.of_persists (m : Moment Vocabulary) (h : Persists m) : ConflictsStay m := by
  rcases h with ⟨hLeaves, -⟩ | hMore
  · exact ConflictsStay.of_leaves m hLeaves
  · exact Nat.le_of_lt hMore

theorem persistPair_persists {flag : ContradictionFlag} {confirmation : Confirmation} :
    Keeps Persists (persistPair gateway runId a b flag confirmation) := by
  have hQuery (question : Query) :
      Keeps Persists (Prog.query (S := Vocabulary) question : Action (Answer question)) :=
    keeps_query fun _ _ => .inl ⟨⟨rfl, rfl⟩, by simp⟩
  refine keeps_bind (hQuery _) fun id => keeps_bind (hQuery _) fun confirmedAt => ?_
  refine keeps_bind (hQuery _) fun createdAt => keeps_bind ?_ fun audit => ?_
  · exact keeps_bind (keeps_ofExcept _) fun _ => keeps_bind (hQuery _) fun _ =>
      keeps_bind (hQuery _) fun _ => keeps_done _
  · refine keeps_bind (keeps_commitWrites (fun _ => .inl ⟨⟨rfl, rfl⟩, by simp⟩) ?_) fun _ =>
      keeps_done _
    intro u v hTables _ _
    right
    simp [conflictCount, hTables, Write.effect]

/-- A pair which is persisted leaves a row. -/
theorem persistPair_done {flag : ContradictionFlag} {confirmation : Confirmation} {s t : World}
    {log : Log Vocabulary} {row : Option Contradiction}
    (h : Exec (persistPair gateway runId a b flag confirmation) s log (.done row) t) :
    conflictCount s < conflictCount t := by
  have hSpec : Alone (fun _ => True) (onOk fun _ t => conflictCount s < conflictCount t)
      (persistPair gateway runId a b flag confirmation) s := by
    refine Alone.ask (fun _ _ => trivial) fun id => Alone.ask (fun _ _ => trivial) fun time => ?_
    refine Alone.ask (fun _ _ => trivial) fun createdAt => ?_
    refine Alone.bind_ok _ (Alone.quietDb (fun _ _ => trivial) (quiet_auditAppend _ _))
      fun audit u hu => ?_
    refine Alone.bind_ok (fun _ (t : World) => conflictCount s < conflictCount t) ?_ ?_
    rotate_left
    · exact fun _ v hv => Alone.done hv
    refine Alone.commitWrites (fun _ _ => trivial) (fun v hv => ⟨trivial, ?_, fun _ _ => trivial⟩)
      fun _ _ => trivial
    have hTables : World.tables u = s.tables := by rw [World.tables, hu]
    show conflictCount s < conflictCount v
    simp [conflictCount, hv, hTables, Write.effect]
  exact (hSpec.exec h).2 row rfl

/-- The footprint of the judges: their books, the provider, and the hooks of the gateway. -/
theorem keeps_judgement {R : Moment Vocabulary → Prop}
    (hProvider : ∀ model messages kwargs (answer : ProviderAnswer) (s : World),
      R ⟨s, .asked (.provider model messages kwargs) answer, s⟩)
    (hHooks : ∀ hook ∈ gateway.hooks, ∀ ctx, Keeps R (hook ctx))
    (hBook : ∀ m, Bookkeeping m → R m) : Keeps R (judgement gateway runId a b) := by
  have hSelect {α : Type} (f : Tables → α) : Keeps R (selectTables f) :=
    (book_selectTables f).mono hBook
  have hCall (responseModel : ResponseModel) (args : CompleteArgs) :
      Keeps R (completeModel gateway responseModel args) :=
    keeps_completeModel hProvider hHooks hBook _ _
  refine keeps_bind ?_ fun _ => keeps_ite (fun _ => keeps_done _) fun _ => ?_
  · exact keeps_bind (hSelect _) fun _ => keeps_ite (fun _ => keeps_done _) fun _ => hSelect _
  · refine keeps_bind (hCall _ _) fun _ => keeps_ite (fun _ => keeps_done _) fun _ => ?_
    refine keeps_bind ?_ fun _ => keeps_ite (fun _ => keeps_done _) fun _ => keeps_done _
    exact keeps_ite (fun _ => keeps_done _) fun _ =>
      keeps_bind (hCall _ _) fun _ => keeps_done _

/-- Judges write neither contradictions nor audit rows, as long as the hooks of the gateway do not. -/
theorem judgement_leaves
    (hHooks : ∀ hook ∈ gateway.hooks, ∀ ctx, Keeps LeavesVerdicts (hook ctx)) :
    Keeps LeavesVerdicts (judgement gateway runId a b) :=
  keeps_judgement (fun _ _ _ _ _ => ⟨rfl, rfl⟩) hHooks LeavesVerdicts.of_book

theorem judgePair_stays
    (hHooks : ∀ hook ∈ gateway.hooks, ∀ ctx, Keeps LeavesVerdicts (hook ctx)) :
    Keeps ConflictsStay (judgePair gateway runId a b) := by
  rw [judgePair_eq]
  refine keeps_bind ((judgement_leaves hHooks).mono ConflictsStay.of_leaves) fun reply => ?_
  cases reply with
  | none => exact keeps_done _
  | some reply => exact persistPair_persists.mono ConflictsStay.of_persists

/-- Along steps which take no contradiction away there are not fewer at the end. -/
theorem conflicts_le {s t : World} {log : Log Vocabulary}
    (h : Linked (S := Vocabulary) s log t) (hStay : ∀ m ∈ log, ConflictsStay m) :
    conflictCount s ≤ conflictCount t :=
  (h.invariant (fun u => conflictCount s ≤ conflictCount u)
    (fun m hm hBefore => Nat.le_trans hBefore (hStay m hm)) (Nat.le_refl _)).1

/-- If one of the steps adds a contradiction, there are more at the end. -/
theorem conflicts_lt {s t : World} {log : Log Vocabulary} {m : Moment Vocabulary}
    (h : Linked (S := Vocabulary) s log t) (hStay : ∀ m ∈ log, ConflictsStay m) (hm : m ∈ log)
    (hMore : conflictCount m.before < conflictCount m.after) :
    conflictCount s < conflictCount t := by
  induction log generalizing s with
  | nil => cases hm
  | cons first rest ih =>
      obtain ⟨hFirst, hRest⟩ := h
      have hLater : ∀ m ∈ rest, ConflictsStay m := fun m hm => hStay m (by simp [hm])
      rw [← hFirst]
      rcases List.mem_cons.mp hm with rfl | hm
      · exact Nat.lt_of_lt_of_le hMore (conflicts_le hRest hLater)
      · exact Nat.lt_of_le_of_lt (hStay first (by simp)) (ih hRest hLater hm)

/-! ## One call -/

/-- Replies which confirm none of the pairs, each judged to the end. -/
inductive Unconfirmed (gateway : LLMGateway) (runId : Uuid) :
    List (Statement × Statement) → Log Vocabulary → Prop where
  | nil : Unconfirmed gateway runId [] []
  | cons {a b : Statement} {rest : List (Statement × Statement)} {pause now later : Log Vocabulary}
      {s t : World} (hPause : ∀ m ∈ pause, m.question = some (.sleep contradictionDelaySeconds))
      (hReplies : Exec (judgement gateway runId a b) s now (.done none) t)
      (hRest : Unconfirmed gateway runId rest later) :
      Unconfirmed gateway runId ((a, b) :: rest) (pause ++ now ++ later)

/-- A pair at which a call fails and persists nothing: its judging fails, or its replies confirm it
and its commit is not carried out. -/
def FailsAt (gateway : LLMGateway) (runId : Uuid) (a b : Statement) (log : Log Vocabulary) : Prop :=
  ∃ pause now last s q t, log = pause ++ now ++ last ∧
    (∀ m ∈ pause, m.question = some (.sleep contradictionDelaySeconds)) ∧
    Exec (judgement gateway runId a b) s now q t ∧
    ((∃ error, q = .raise error) ∧ last = [] ∨
      (∃ replies, q = .done (some replies)) ∧ ∀ m ∈ last, m.happening ≠ .moved)

/-- No pair is confirmed and persisted before the call fails. -/
def NothingConfirmed (gateway : LLMGateway) (runId : Uuid) (pairs : List (Statement × Statement))
    (log : Log Vocabulary) : Prop :=
  ∃ judged a b rest past now, pairs = judged ++ (a, b) :: rest ∧ log = past ++ now ∧
    Unconfirmed gateway runId judged past ∧ FailsAt gateway runId a b now

theorem NothingConfirmed.cons {pairs : List (Statement × Statement)} {pause now later : Log Vocabulary}
    {s t : World} (hPause : ∀ m ∈ pause, m.question = some (.sleep contradictionDelaySeconds))
    (hReplies : Exec (judgement gateway runId a b) s now (.done none) t)
    (h : NothingConfirmed gateway runId pairs later) :
    NothingConfirmed gateway runId ((a, b) :: pairs) (pause ++ now ++ later) := by
  obtain ⟨judged, c, d, rest, past, last, rfl, rfl, hPast, hLast⟩ := h
  exact ⟨(a, b) :: judged, c, d, rest, pause ++ now ++ past, last, rfl, by simp,
    .cons hPause hReplies hPast, hLast⟩

/-- Steps which move nothing leave everything as it is. -/
def Still (m : Moment Vocabulary) : Prop := m.happening ≠ .moved → m.after = m.before

theorem Still.leaves {m : Moment Vocabulary} (h : Still m) (hStill : m.happening ≠ .moved) :
    LeavesVerdicts m := by
  rw [LeavesVerdicts, h hStill]
  exact ⟨rfl, rfl⟩

theorem Still.pause {m : Moment Vocabulary} (h : Still m) {query : Query}
    (hPause : m.question = some query) : LeavesVerdicts m := by
  refine h.leaves fun hMoved => ?_
  rw [Moment.question, hMoved] at hPause
  cases hPause

section Quiet

variable (hHooks : ∀ hook ∈ gateway.hooks, ∀ ctx, Keeps LeavesVerdicts (hook ctx))

include hHooks

theorem Unconfirmed.leaves {pairs : List (Statement × Statement)} {log : Log Vocabulary}
    (h : Unconfirmed gateway runId pairs log) (hStill : ∀ m ∈ log, Still m) :
    ∀ m ∈ log, LeavesVerdicts m := by
  induction h with
  | nil => simp
  | @cons a b rest pause now later s t hPause hReplies hRest ih =>
      intro m hm
      have hHere : Still m := hStill m hm
      simp only [List.mem_append] at hm
      rcases hm with (hm | hm) | hm
      · exact hHere.pause (hPause m hm)
      · exact (hReplies.keeps (judgement_leaves hHooks)).1 m hm
      · exact ih (fun m hm => hStill m (by simp [hm])) m hm

theorem FailsAt.leaves {log : Log Vocabulary} (h : FailsAt gateway runId a b log)
    (hStill : ∀ m ∈ log, Still m) : ∀ m ∈ log, LeavesVerdicts m := by
  obtain ⟨pause, now, last, s, q, t, rfl, hPause, hJudging, hEnd⟩ := h
  intro m hm
  have hHere : Still m := hStill m hm
  simp only [List.mem_append] at hm
  rcases hm with (hm | hm) | hm
  · exact hHere.pause (hPause m hm)
  · exact (hJudging.keeps (judgement_leaves hHooks)).1 m hm
  · rcases hEnd with ⟨-, rfl⟩ | ⟨-, hLast⟩
    · cases hm
    · exact hHere.leaves (hLast m hm)

theorem NothingConfirmed.leaves {pairs : List (Statement × Statement)} {log : Log Vocabulary}
    (h : NothingConfirmed gateway runId pairs log) (hStill : ∀ m ∈ log, Still m) :
    ∀ m ∈ log, LeavesVerdicts m := by
  obtain ⟨judged, a, b, rest, past, now, rfl, rfl, hPast, hNow⟩ := h
  intro m hm
  rcases List.mem_append.mp hm with hIn | hIn
  · exact hPast.leaves hHooks (fun m hm => hStill m (by simp [hm])) m hIn
  · exact hNow.leaves hHooks (fun m hm => hStill m (by simp [hm])) m hIn

end Quiet

/-- One turn of the loop of `detect`. -/
def judgeNext (gateway : LLMGateway) (runId : Uuid) (entry : (Statement × Statement) × Nat) :
    Action (Option Contradiction) := do
  if 0 < entry.2 then sleep contradictionDelaySeconds else pure ()
  judgePair gateway runId entry.1.1 entry.1.2

theorem detect_eq (statements : List Statement) :
    detect gateway statements runId =
      (((candidatePairs gateway.platform.unicode statements).take maxContradictionPairs).zipIdx.mapM
        (judgeNext gateway runId)).bind fun rows => .done (rows.filterMap id) :=
  rfl

theorem judgeNext_stays
    (hHooks : ∀ hook ∈ gateway.hooks, ∀ ctx, Keeps LeavesVerdicts (hook ctx))
    (entry : (Statement × Statement) × Nat) : Keeps ConflictsStay (judgeNext gateway runId entry) :=
  keeps_ite (fun _ => keeps_bind (keeps_query fun _ _ => Nat.le_refl _) fun _ =>
    judgePair_stays hHooks) fun _ => judgePair_stays hHooks

/-- The pause before a pair changes nothing. -/
theorem judgeNext_ended {n : Nat} {s t : World} {log : Log Vocabulary}
    {r : Action (Option Contradiction)} (h : Exec (judgeNext gateway runId ((a, b), n)) s log r t)
    (hEnd : Ended r) : ∃ pause rest, log = pause ++ rest ∧
      (∀ m ∈ pause, m.question = some (.sleep contradictionDelaySeconds)) ∧
      Exec (judgePair gateway runId a b) s rest r t := by
  unfold judgeNext at h
  by_cases hPause : 0 < n
  · simp only [hPause, if_true] at h
    rcases Exec.of_query h with ⟨-, rfl, -⟩ | ⟨answer, later, rfl, hLater⟩
    · cases hEnd
    · exact ⟨[_], later, rfl, by simp [Moment.question], hLater⟩
  · simp only [hPause, if_false] at h
    exact ⟨[], log, rfl, by simp, h⟩

section Turns

variable (hHooks : ∀ hook ∈ gateway.hooks, ∀ ctx, Keeps LeavesVerdicts (hook ctx))

include hHooks

/-- A turn which fails persists nothing, or its row stays behind. -/
theorem judgeNext_raise {n : Nat} {s t : World} {log : Log Vocabulary} {error : PyError}
    (h : Exec (judgeNext gateway runId ((a, b), n)) s log (.raise error) t) :
    FailsAt gateway runId a b log ∨ conflictCount s < conflictCount t := by
  obtain ⟨pause, turn, rfl, hPause, hPair⟩ :=
    judgeNext_ended h (Ended.raise (S := Vocabulary) error)
  rw [judgePair_eq] at hPair
  rcases Exec.of_bind_raise hPair with hJudging | ⟨replies, heard, last, u, rfl, hHeard, hLast⟩
  · exact .inl ⟨pause, turn, [], s, _, t, by simp, hPause, hJudging, .inl ⟨⟨error, rfl⟩, rfl⟩⟩
  · cases replies with
    | none =>
        obtain ⟨-, hNever, -⟩ := Exec.of_done hLast
        cases hNever
    | some replies =>
        have hSteps := (hLast.keeps persistPair_persists).1
        by_cases hStill : ∀ m ∈ last, m.happening ≠ .moved
        · exact .inl ⟨pause, heard, last, s, _, u, by simp, hPause, hHeard,
            .inr ⟨⟨replies, rfl⟩, hStill⟩⟩
        · -- The commit has been carried out although the call is told that it failed.
          obtain ⟨m, hm, hMoved⟩ : ∃ m ∈ last, m.happening = .moved := by simpa using hStill
          have hMore : conflictCount m.before < conflictCount m.after := by
            rcases hSteps m hm with ⟨-, hStill⟩ | hMore
            · exact absurd hMoved hStill
            · exact hMore
          have hHeardStay := (hHeard.keeps (judgement_leaves hHooks)).1
          refine .inr (Nat.lt_of_le_of_lt
            (conflicts_le hHeard.linked fun m hm => ConflictsStay.of_leaves m (hHeardStay m hm)) ?_)
          exact conflicts_lt hLast.linked (fun m hm => ConflictsStay.of_persists m (hSteps m hm))
            hm hMore

/-- A turn which succeeds found the pair unconfirmed, or its row stays behind. -/
theorem judgeNext_done {n : Nat} {s t : World} {log : Log Vocabulary}
    {found : Option Contradiction}
    (h : Exec (judgeNext gateway runId ((a, b), n)) s log (.done found) t) :
    (∃ pause now, log = pause ++ now ∧
      (∀ m ∈ pause, m.question = some (.sleep contradictionDelaySeconds)) ∧
      Exec (judgement gateway runId a b) s now (.done none) t) ∨
      conflictCount s < conflictCount t := by
  obtain ⟨pause, turn, rfl, hPause, hPair⟩ :=
    judgeNext_ended h (Ended.done (S := Vocabulary) found)
  rw [judgePair_eq] at hPair
  obtain ⟨replies, heard, last, u, rfl, hHeard, hLast⟩ := Exec.of_bind_done hPair
  cases replies with
  | none =>
      obtain ⟨rfl, -, rfl⟩ := Exec.of_done hLast
      exact .inl ⟨pause, heard, by simp, hPause, hHeard⟩
  | some replies =>
      have hHeardStay := (hHeard.keeps (judgement_leaves hHooks)).1
      refine .inr (Nat.lt_of_le_of_lt
        (conflicts_le hHeard.linked fun m hm => ConflictsStay.of_leaves m (hHeardStay m hm)) ?_)
      exact persistPair_done hLast

/-- The loop of a call which fails: either nothing has been confirmed, or a row stays behind. -/
theorem judgePairs_raise {pairs : List (Statement × Statement)} {n : Nat} {s t : World}
    {log : Log Vocabulary} {error : PyError}
    (h : Exec ((pairs.zipIdx n).mapM (judgeNext gateway runId)) s log (.raise error) t) :
    NothingConfirmed gateway runId pairs log ∨ conflictCount s < conflictCount t := by
  induction pairs generalizing n s log with
  | nil =>
      obtain ⟨-, hNever, -⟩ := Exec.of_done h
      cases hNever
  | cons pair rest ih =>
      obtain ⟨a, b⟩ := pair
      rw [List.zipIdx_cons, List.mapM_cons] at h
      rcases Exec.of_bind_raise h with hNow | ⟨found, now, later, u, rfl, hNow, hLater⟩
      · refine (judgeNext_raise hHooks hNow).imp (fun hFails => ?_) id
        exact ⟨[], a, b, rest, [], log, rfl, rfl, .nil, hFails⟩
      · have hRaise : Exec ((rest.zipIdx (n + 1)).mapM (judgeNext gateway runId)) u later
            (.raise error) t := by
          rcases Exec.of_bind_raise hLater with hRaise | ⟨rows, _, _, _, -, -, hNever⟩
          · exact hRaise
          · obtain ⟨-, hNever, -⟩ := Exec.of_done hNever
            cases hNever
        have hStays : ∀ m ∈ later, ConflictsStay m :=
          (hRaise.keeps (keeps_mapM fun entry _ => judgeNext_stays hHooks entry)).1
        have hNowStays : ∀ m ∈ now, ConflictsStay m := (hNow.keeps (judgeNext_stays hHooks _)).1
        rcases judgeNext_done hHooks hNow with ⟨pause, turn, rfl, hPause, hReplies⟩ | hMore
        · rcases ih hRaise with hNothing | hMore
          · exact .inl (hNothing.cons hPause hReplies)
          · exact .inr (Nat.lt_of_le_of_lt (conflicts_le hNow.linked hNowStays) hMore)
        · exact .inr (Nat.lt_of_lt_of_le hMore (conflicts_le hRaise.linked hStays))

end Turns

/-- A call which raises leaves the contradictions and the audit trail as they were exactly if no pair
has been confirmed and persisted before it fails. -/
theorem detect_unchanged_iff
    (hHooks : ∀ hook ∈ gateway.hooks, ∀ ctx, Keeps LeavesVerdicts (hook ctx))
    {statements : List Statement} {s t : World} {log : Log Vocabulary} {error : PyError}
    (h : Exec (detect gateway statements runId) s log (.raise error) t) :
    (t.tables.contradictions = s.tables.contradictions ∧
        t.tables.auditTrace = s.tables.auditTrace) ↔
      NothingConfirmed gateway runId
        ((candidatePairs gateway.platform.unicode statements).take maxContradictionPairs) log := by
  constructor
  · rintro ⟨hSame, -⟩
    rw [detect_eq] at h
    rcases Exec.of_bind_raise h with hLoop | ⟨rows, _, _, _, -, -, hNever⟩
    · rcases judgePairs_raise hHooks hLoop with hNothing | hMore
      · exact hNothing
      · rw [conflictCount, conflictCount, hSame] at hMore
        exact absurd hMore (Nat.lt_irrefl _)
    · obtain ⟨-, hNever, -⟩ := Exec.of_done hNever
      cases hNever
  · intro hNothing
    have hLeaves : ∀ m ∈ log, LeavesVerdicts m := hNothing.leaves hHooks h.still
    exact (h.linked.invariant (fun u : World =>
      u.tables.contradictions = s.tables.contradictions ∧ u.tables.auditTrace = s.tables.auditTrace)
      (fun m hm hBefore => ⟨(hLeaves m hm).1.trans hBefore.1, (hLeaves m hm).2.trans hBefore.2⟩)
      ⟨rfl, rfl⟩).1

end Detection

/-! ## A call which fails at its second pair -/

deriving instance DecidableEq for Statement, PyError

/-- Three statements which share a word. -/
def conflicting : List Statement :=
  [.noted 4 "a b".toList .verified, .noted 5 "a c".toList .verified,
    .noted 6 "a d".toList .verified]

/-- Their pairs. -/
def conflictingPairs : List (Statement × Statement) :=
  [(.noted 4 "a b".toList .verified, .noted 5 "a c".toList .verified),
    (.noted 4 "a b".toList .verified, .noted 6 "a d".toList .verified),
    (.noted 5 "a c".toList .verified, .noted 6 "a d".toList .verified)]

/-- Their world. -/
def World.conflicting : World :=
  .noted "a b c".toList Ecrke.conflicting (by decide) (by decide) (by decide)

/-- A gateway whose provider flags and confirms each pair. -/
def LLMGateway.flagging : LLMGateway where
  platform :=
    { Platform.plain with
      jsonLoads := fun _ => some (.obj [])
      validate := fun
        | .contradictionFlag, _ => some
            (⟨true, .flag, ⟨"flagged".toList, by decide, by decide⟩, none⟩ : ContradictionFlag)
        | .confirmVerdict, _ => some
            (⟨true, ⟨"flagged".toList, by decide, by decide⟩, none⟩ : ConfirmVerdict)
        | _, _ => none }
  settings := ⟨"cheap".toList, "strong".toList, 5, "a.org".toList, 0, "blobs".toList⟩

/-- An outside in which the provider answers up to a certain step and fails from then on. -/
def answersUntil (step : Nat) : Environment Vocabulary where
  answer := fun n => fun
    | .provider .. =>
        if n < step then ProviderAnswer.response ⟨some "a".toList, none⟩
        else ProviderAnswer.otherError ⟨.runtimeError, []⟩
    | question => (quietOutside fun _ => .grant).answer n question
  verdict _ := .grant

/-- The statements are sorted already, and each pair is worth a judge call. -/
theorem conflicting_pairs :
    (candidatePairs LLMGateway.flagging.platform.unicode conflicting).take maxContradictionPairs =
      conflictingPairs := by
  have hSorted : sortedVerified conflicting = conflicting := by
    rw [sortedVerified]
    refine (List.mergeSort_of_pairwise ?_).trans ?_
    · decide
    · decide
  rw [candidatePairs, hSorted]
  decide +kernel

/-- Their detection, with a provider which fails at a certain step. -/
def conflictingCall (step : Nat) : Log Vocabulary × Action (List Contradiction) × World :=
  simulate (answersUntil step) 40 0
    ((conflictingPairs.zipIdx.mapM (judgeNext .flagging ⟨1⟩)).bind fun rows =>
      .done (rows.filterMap id)) World.conflicting

theorem conflictingCall_exec (step : Nat) (error : PyError)
    (h : (conflictingCall step).2.1.raised = some error) :
    Exec (detect .flagging conflicting ⟨1⟩) World.conflicting (conflictingCall step).1
      (.raise error) (conflictingCall step).2.2 := by
  rw [detect_eq, conflicting_pairs, ← Prog.eq_raise h]
  exact simulate_exec _ _ _ _ _

/-- What the two calls come to. -/
theorem conflictingCall_facts :
    (conflictingCall 20).2.1.raised = some ⟨.runtimeError, []⟩ ∧
      (conflictingCall 20).2.2.tables.contradictions.length = 1 ∧
      (conflictingCall 0).2.1.raised = some ⟨.runtimeError, []⟩ ∧
      (conflictingCall 0).2.2.tables.contradictions.length = 0 ∧
      (conflictingCall 0).2.2.tables.auditTrace.length = 0 := by
  decide +kernel

/-- The first pair is confirmed and committed, the second one fails. -/
theorem detect_changed : ∃ (gateway : LLMGateway) (statements : List Statement) (runId : Uuid)
    (s t : World) (log : Log Vocabulary) (error : PyError),
    Exec (detect gateway statements runId) s log (.raise error) t ∧
      ¬ (t.tables.contradictions = s.tables.contradictions ∧
        t.tables.auditTrace = s.tables.auditTrace) := by
  obtain ⟨hRaised, hOne, -⟩ := conflictingCall_facts
  refine ⟨.flagging, conflicting, ⟨1⟩, .conflicting, _, _, _, conflictingCall_exec 20 _ hRaised, ?_⟩
  rintro ⟨hSame, -⟩
  rw [hSame] at hOne
  cases hOne

/-- A call whose first judge fails. -/
theorem detect_unchanged_first :
    NothingConfirmed .flagging ⟨1⟩
      ((candidatePairs LLMGateway.flagging.platform.unicode conflicting).take
        maxContradictionPairs) (conflictingCall 0).1 := by
  obtain ⟨-, -, hRaised, hNone, hNoAudit⟩ := conflictingCall_facts
  refine (detect_unchanged_iff (by rintro _ ⟨⟩) (conflictingCall_exec 0 _ hRaised)).mp ⟨?_, ?_⟩
  · exact List.eq_nil_of_length_eq_zero hNone
  · exact List.eq_nil_of_length_eq_zero hNoAudit

end Ecrke
