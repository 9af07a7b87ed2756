import Ecrke.Api.Deps
import Ecrke.Durable.Scheduled
import Ecrke.Guarantees.AuditTrail

/-!
# Failures of a run are persisted

What the in-process runner leaves behind when one step fails.  The failure of a stage, of a
checkpoint or of the construction of the services is recorded; that of a read in front of the stage
loop is not, nor that of a step which records a pause.

* `FailurePersisted` -- the run is failed, with one more audit row of a failure.
* `SingleFailure` -- at most one step fails.
* `Unfailing` -- a step which records no failure.
* `failurePersisted_iff` -- when a failure is persisted.
-/

namespace Ecrke

open Durable

/-- The audit rows of the failures of a run. -/
def failureRows (runId : Uuid) (t : Tables) : List AuditTrace :=
  t.auditTrace.filter fun row =>
    row.runId = runId && row.entityType = "run".toList && row.action = "run.failed".toList

/-- The run is failed, and there is exactly one more audit row of a failure. -/
structure FailurePersisted (runId : Uuid) (s t : World) : Prop where
  status : ∃ run, runOf runId t.tables = some run ∧ run.status = .failed
  audit : ∃ row, failureRows runId t.tables = failureRows runId s.tables ++ [row]

/-- What the flow does up to its handlers: the reads and the loop over the stages. -/
def stageLoop (ctx : PipelineContext) : Action Unit := do
  let start ← readStart ctx
  stages.forM (executeStage stageTasks .default ctx start)

/-- At most one step fails: the construction of the services, the step number `k`, or, when there is
none, a stage by itself. -/
structure SingleFailure (env : Environment Vocabulary) (runId : Uuid)
    (services : Except PyError PipelineServices) (s : World) (log : Log Vocabulary)
    (k : Option Nat) : Prop where
  others : ∀ n m, log[n]? = some m → k ≠ some n → m.happening ≠ .refused
  built : ∀ error, services = .error error → k = none
  stage : ∀ bundle, services = .ok bundle → ∀ now error u,
    Course env 0 (stageLoop ⟨runId, bundle⟩) s now (.raise error) u →
    error.kind ≠ .circuitBreakerError → ∀ n, k = some n → n < now.length

/-- The circuit breaker does not open. -/
def StaysClosed (env : Environment Vocabulary) (runId : Uuid)
    (services : Except PyError PipelineServices) (s : World) : Prop :=
  ∀ bundle, services = .ok bundle → ∀ now error u,
    Course env 0 (stageLoop ⟨runId, bundle⟩) s now (.raise error) u →
    error.kind ≠ .circuitBreakerError

/-! ## Steps which record no failure -/

/-- A step which records no failure of a run and does not remove it. -/
structure Unfailing (runId : Uuid) (m : Moment Vocabulary) : Prop where
  rows : failureRows runId m.after.tables = failureRows runId m.before.tables
  runs : m.after.tables.runs.map Run.id = m.before.tables.runs.map Run.id

section Unfailing

variable {runId : Uuid}

theorem failureRows_aside {t t' : Tables} {rows : List AuditTrace}
    (hRows : t'.auditTrace = t.auditTrace ++ rows)
    (hType : ∀ row ∈ rows, row.entityType ≠ "run".toList) :
    failureRows runId t' = failureRows runId t := by
  have hNone : rows.filter (fun row => row.runId = runId && row.entityType = "run".toList &&
      row.action = "run.failed".toList) = [] := by
    refine List.filter_eq_nil_iff.mpr fun row hRow => ?_
    have hOther := hType row hRow
    simp only [Bool.and_eq_true, decide_eq_true_eq]
    exact fun hAll => hOther hAll.1.2
  rw [failureRows, hRows, List.filter_append, hNone, List.append_nil]
  rfl

theorem failureRows_added {t t' : Tables} {row : AuditTrace}
    (hRows : t'.auditTrace = t.auditTrace ++ [row]) (hRow : IsRunFailed runId row) :
    failureRows runId t' = failureRows runId t ++ [row] := by
  have hKept : [row].filter (fun row => row.runId = runId && row.entityType = "run".toList &&
      row.action = "run.failed".toList) = [row] := by
    refine List.filter_eq_self.mpr fun other hOther => ?_
    obtain rfl := List.mem_singleton.mp hOther
    simp only [Bool.and_eq_true, decide_eq_true_eq]
    exact ⟨⟨hRow.run, hRow.audit.entityType⟩, hRow.action⟩
  rw [failureRows, hRows, List.filter_append, hKept]
  rfl

theorem Unfailing.of_same {s t : World} {happening : Happening Vocabulary}
    (h : t.tables = s.tables) : Unfailing runId ⟨s, happening, t⟩ :=
  ⟨by rw [h], by rw [h]⟩

theorem Unfailing.allows (u : Unicode) : Allows u (Unfailing runId) where
  still s happening _ := .of_same rfl
  book m h := by
    obtain ⟨runs, kvCache, hTables⟩ := h.tables
    refine ⟨by rw [hTables]; rfl, ?_⟩
    have hIds := congrArg (List.map Prod.fst) h.standings
    simpa [standings, Function.comp_def] using hIds
  commit writes hWrites s t hTables _ := by
    obtain ⟨rows, hRows, hType⟩ := hWrites.audits s.tables
    rw [← hTables] at hRows
    refine ⟨failureRows_aside hRows hType, ?_⟩
    rw [hTables]
    exact hWrites.runs s.tables

theorem unfailing_put (s t : World) (h : t.db = s.db) : Unfailing runId ⟨s, .moved, t⟩ :=
  .of_same (congrArg Database.tables h)

theorem unfailing_stages (ctx : PipelineContext) (start : FlowStart) :
    Keeps (Unfailing runId) (stages.forM (executeStage stageTasks .default ctx start)) :=
  (Unfailing.allows _).forM_executeStage (fun _ _ _ => .of_same rfl) ctx
    ((Unfailing.allows _).tasksKeep unfailing_put ctx) _ _ _

theorem unfailing_stageLoop (runId : Uuid) (ctx : PipelineContext) :
    Keeps (Unfailing runId) (stageLoop ctx) :=
  keeps_bind ((Unfailing.allows ctx.services.platform.unicode).readStart ctx) fun _ => unfailing_stages ctx _

/-- What an execution which records no failure leaves. -/
theorem Exec.unfailing {α : Type} {p q : Action α} {s t : World} {log : Log Vocabulary}
    (h : Exec p s log q t) (hp : Keeps (Unfailing runId) p) :
    failureRows runId t.tables = failureRows runId s.tables ∧
      t.tables.runs.map Run.id = s.tables.runs.map Run.id :=
  (h.linked.invariant (fun u : World => failureRows runId u.tables = failureRows runId s.tables ∧
      u.tables.runs.map Run.id = s.tables.runs.map Run.id)
    (fun m hm hBefore => by
      have hStep := (h.keeps hp).1 m hm
      exact ⟨hStep.rows.trans hBefore.1, hStep.runs.trans hBefore.2⟩) ⟨rfl, rfl⟩).1

theorem runOf_isSome_iff {t : Tables} :
    (∃ run, runOf runId t = some run) ↔ runId ∈ t.runs.map Run.id := by
  constructor
  · rintro ⟨run, hRun⟩
    exact List.mem_map.mpr ⟨run, runOf_mem hRun, runOf_id hRun⟩
  · intro hMem
    obtain ⟨run, hRun, hId⟩ := List.mem_map.mp hMem
    cases hFound : runOf runId t with
    | some found => exact ⟨found, rfl⟩
    | none => exact absurd hId (by simpa using List.find?_eq_none.mp hFound run hRun)

end Unfailing

/-! ## The handlers -/

section Handlers

variable {runId : Uuid} {u v : World} {log : Log Vocabulary} {run : Run}

theorem Exec.of_getRun {β : Type} {f : Option Run → Action β} {r : Action β}
    (h : Exec (getRun runId >>= f) u log r v) (hEnd : Ended r) :
    (∃ error, log = [⟨u, .refused, u⟩] ∧ r = .raise error ∧ v = u) ∨
      ∃ later, log = ⟨u, .looked, u⟩ :: later ∧ Exec (f (runOf runId u.tables)) u later r v :=
  Exec.of_select h hEnd

/-- The writes which record a failure. -/
theorem FailurePersisted.of_writes {audit : AuditTrace} (hRun : runOf runId u.tables = some run)
    (hAudit : IsRunFailed runId audit) (hTables : v.tables = u.tables.after (failureWrites run audit)) :
    FailurePersisted runId u v := by
  have hEdit : ({ run with status := .failed } : Run).EditOf run := ⟨rfl, rfl, rfl, rfl, rfl⟩
  have hAfter : v.tables = { u.tables.setRun { run with status := .failed } with
      auditTrace := u.tables.auditTrace ++ [audit] } := by
    rw [hTables, failureWrites, Tables.after_append,
      Tables.after_updates u.db.valid.runsKey (runOf_mem hRun) hEdit]
    rfl
  refine ⟨⟨{ run with status := .failed }, ?_, rfl⟩, audit, failureRows_added (by rw [hAfter]) hAudit⟩
  rw [hAfter]
  exact runOf_setRun hRun rfl

/-- The commit which records a failure. -/
theorem recordFailure_persists {uni : Unicode} {error : PyError} {r : Action Unit}
    (h : Exec (do
      let id ← uuid4
      let ts ← dbNow
      commitWrites (run.updates { run with status := .failed } ++
        [.insertAuditTrace (failureAudit uni run error id ts)])) u log r v)
    (hEnd : Ended r) (hCarried : ∀ m ∈ log, m.happening ≠ .refused)
    (hRun : runOf runId u.tables = some run) : FailurePersisted runId u v := by
  rcases Exec.of_query h with ⟨-, rfl, -⟩ | ⟨id, later, rfl, hId⟩
  · cases hEnd
  rcases Exec.of_query hId with ⟨-, rfl, -⟩ | ⟨ts, later, rfl, hTs⟩
  · cases hEnd
  obtain ⟨value, hCommit, -⟩ := hTs.of_commit hEnd fun m hm => hCarried m (by simp [hm])
  obtain rfl : run.id = runId := runOf_id hRun
  have hAudit : IsRunFailed run.id (failureAudit uni run error id ts) := ⟨rfl, ⟨rfl, rfl⟩, rfl⟩
  refine .of_writes hRun hAudit ?_
  cases hWrites : u.db.applyAll (run.updates { run with status := .failed } ++
      [Write.insertAuditTrace (failureAudit uni run error id ts)]) with
  | error error => simp [hWrites] at hCommit
  | ok db =>
      simp only [hWrites, Except.ok.injEq, Prod.mk.injEq] at hCommit
      rw [← hCommit.2]
      exact Database.applyAll_ok hWrites

theorem failRun_persists {uni : Unicode} {error : PyError} {r : Action Unit}
    (h : Exec (failRun uni runId error) u log r v) (hEnd : Ended r)
    (hCarried : ∀ m ∈ log, m.happening ≠ .refused) (hRun : runOf runId u.tables = some run) :
    FailurePersisted runId u v := by
  rcases Exec.of_getRun h hEnd with ⟨raised, rfl, -, -⟩ | ⟨later, rfl, hRest⟩
  · exact absurd rfl (hCarried _ List.mem_cons_self)
  rw [hRun] at hRest
  exact recordFailure_persists hRest hEnd (fun m hm => hCarried m (by simp [hm])) hRun

/-- What follows the commit leaves the tables alone. -/
theorem persisted_later {β : Type} {p q : Action β} {s t : World} {later : Log Vocabulary}
    (hPersisted : FailurePersisted runId u s)
    (hKeeps : Keeps (fun m : Moment Vocabulary => m.after.tables = m.before.tables) p)
    (h : Exec p s later q t) : FailurePersisted runId u t := by
  have hSame : t.tables = s.tables :=
    (h.linked.invariant (fun w : World => w.tables = s.tables)
      (fun m hm hBefore => ((h.keeps hKeeps).1 m hm).trans hBefore) rfl).1
  obtain ⟨hStatus, hAudit⟩ := hPersisted
  exact ⟨by rwa [hSame], by rwa [hSame]⟩

theorem onFailure_persists {ctx : PipelineContext} {error : PyError} {r : Action Text}
    (h : Exec (onFailure ctx error) u log r v) (hEnd : Ended r)
    (hCarried : ∀ m ∈ log, m.happening ≠ .refused)
    (hRun : runOf ctx.runId u.tables = some run) : FailurePersisted ctx.runId u v := by
  rcases Exec.of_bind h with ⟨p', hFail, rfl, hOpen⟩ | ⟨_, now, later, w, rfl, hFail, hLater⟩
  · refine failRun_persists hFail ?_ hCarried hRun
    cases p' with
    | done value => exact absurd rfl (hOpen value)
    | raise error => exact .raise error
    | _ => cases hEnd
  · have hNow := failRun_persists hFail (.done _) (fun m hm => hCarried m (by simp [hm])) hRun
    refine persisted_later hNow ?_ hLater
    refine keeps_bind ?_ fun _ => keeps_bind (keeps_log fun _ => rfl) fun _ =>
      keeps_bind (keeps_atomically fun _ => rfl) fun _ => keeps_raise _
    refine keeps_tryCatch (keeps_bind (keeps_select (fun _ => rfl) fun _ => rfl) fun found => ?_)
      fun _ => keeps_done _
    cases found with
    | none => exact keeps_done _
    | some found => exact keeps_atomically fun _ => rfl

/-- The body of `persistStartFailure`, in front of the handler which swallows its exceptions. -/
def recordStartFailure (uni : Unicode) (runId : Uuid) (error : PyError) : Action Unit := do
  match ← getRun runId with
  | none => pure ()
  | some run =>
      if run.status ≠ .submitted then pure ()
      else
        let _ ← now
        let id ← uuid4
        let ts ← dbNow
        commitWrites (run.updates { run with status := .failed } ++
          [.insertAuditTrace (failureAudit uni run error id ts)])

theorem persistStartFailure_persists {uni : Unicode} {error : PyError} {r : Action Unit}
    (h : Exec (persistStartFailure uni runId error) u log r v) (hEnd : Ended r)
    (hCarried : ∀ m ∈ log, m.happening ≠ .refused) (hRun : runOf runId u.tables = some run)
    (hSubmitted : run.status = .submitted) : FailurePersisted runId u v := by
  have hBody {p' : Action Unit} {now : Log Vocabulary} {w : World} (hEnd' : Ended p')
      (hCarried' : ∀ m ∈ now, m.happening ≠ .refused)
      (hExec : Exec (recordStartFailure uni runId error) u now p' w) :
      FailurePersisted runId u w := by
    rcases Exec.of_getRun hExec hEnd' with ⟨raised, rfl, -, -⟩ | ⟨later, rfl, hRest⟩
    · exact absurd rfl (hCarried' _ List.mem_cons_self)
    rw [hRun] at hRest
    simp only [hSubmitted, ne_eq, not_true_eq_false, if_false] at hRest
    rcases Exec.of_query hRest with ⟨-, rfl, -⟩ | ⟨clock, later, rfl, hLater⟩
    · cases hEnd'
    · exact recordFailure_persists hLater hEnd' (fun m hm => hCarried' m (by simp [hm])) hRun
  rcases Exec.of_tryCatch h with ⟨p', hExec, rfl⟩ | ⟨raised, now, later, w, rfl, hExec, hDone⟩
  · refine hBody ?_ hCarried hExec
    cases p' with
    | done value => exact .done value
    | raise error => exact .raise error
    | _ => cases hEnd
  · obtain ⟨rfl, -, rfl⟩ := hDone.of_done
    exact hBody (.raise raised) (fun m hm => hCarried m (by simp [hm])) hExec

end Handlers

/-! ## The runner -/

section Runner

variable {runId : Uuid} {s t : World} {log : Log Vocabulary} {run : Run}

/-- The reads in front of the loop: one of the first two steps is refused, or both are carried out. -/
theorem readStart_ends {ctx : PipelineContext} {r : Action FlowStart}
    (h : Exec (readStart ctx) s log r t) (hEnd : Ended r)
    (hRun : runOf ctx.runId s.tables = some run) :
    ((∃ error, r = .raise error) ∧ ∃ m ∈ log.take 2, m.happening = .refused) ∨
      ((∃ start, r = .done start) ∧ log.length = 2 ∧ ∀ m ∈ log, m.happening ≠ .refused) := by
  rcases Exec.of_select h hEnd with ⟨error, rfl, rfl, -⟩ | ⟨later, rfl, hRest⟩
  · exact .inl ⟨⟨error, rfl⟩, _, List.mem_cons_self, rfl⟩
  rcases Exec.of_getRun hRest hEnd with ⟨error, rfl, rfl, -⟩ | ⟨later, rfl, hLater⟩
  · exact .inl ⟨⟨error, rfl⟩, _, List.mem_cons_of_mem _ List.mem_cons_self, rfl⟩
  rw [hRun] at hLater
  obtain ⟨rfl, rfl, -⟩ := hLater.of_done
  exact .inr ⟨⟨_, rfl⟩, rfl, by simp⟩

/-- No outcome of the flow is the one which the runner reports for an exception. -/
theorem executeStages_returns (ctx : PipelineContext) :
    Returns (fun outcome => outcome ≠ "failed".toList) (executeStages ctx) := by
  have hPaused (error : PyError) :
      Returns (fun outcome => outcome ≠ "failed".toList) (onBreach ctx error) :=
    returns_bind fun _ => returns_bind fun _ => returns_bind fun _ => returns_bind fun _ =>
      returns_done (by decide)
  have hRaises (error : PyError) : Returns (fun _ => False) (onFailure ctx error) :=
    returns_bind fun _ => returns_bind fun _ => returns_bind fun _ => returns_bind fun _ =>
      returns_raise
  refine returns_bind fun start => ?_
  refine Returns.bind (A := fun outcome => ∀ text, outcome = some text → text ≠ "failed".toList)
    (.tryCatch (returns_bind fun _ => returns_done (by rintro text ⟨⟩)) fun error => ?_) ?_
  · refine .ite (fun _ => (hPaused error).bind fun text hText => returns_done ?_) fun _ => ?_
    · rintro _ ⟨⟩
      exact hText
    · exact (hRaises error).bind fun _ hNever => hNever.elim
  · rintro (_ | text) hText
    · exact returns_bind fun _ => returns_bind fun _ => returns_bind fun _ =>
        returns_done (by decide)
    · exact returns_done (hText text rfl)

theorem onCompletion_not_raise {ctx : PipelineContext} {error : PyError} :
    ¬ Exec (onCompletion ctx) s log (.raise error) t := by
  intro h
  rcases Exec.of_bind_raise h with hCost | ⟨_, _, later, u, -, -, hLater⟩
  · rcases Exec.of_tryCatch hCost with ⟨p', -, hRaise⟩ | ⟨_, _, _, _, -, -, hDone⟩
    · cases p' with
      | raise first => cases hRaise
      | _ => cases hRaise
    · cases hDone.of_done.2.1
  · cases hLater with
    | step first rest =>
        cases first
        cases rest with
        | step second rest =>
            cases second
            cases rest.of_done.2.1

/-- Where an execution of the flow raises: in a read in front of the loop, or in the handler of an
exception of the loop. -/
theorem executeStages_raises {env : Environment Vocabulary} {ctx : PipelineContext}
    {error : PyError} (h : Course env 0 (executeStages ctx) s log (.raise error) t) :
    Exec (readStart ctx) s log (.raise error) t ∨
      ∃ start now middle later first u v, log = now ++ middle ++ later ∧
        Exec (readStart ctx) s now (.done start) v ∧
        Course env 0 (stageLoop ctx) s (now ++ middle) (.raise first) u ∧
        (first.kind = .circuitBreakerError ∧ Exec (onBreach ctx first) u later (.raise error) t ∨
          first.kind ≠ .circuitBreakerError ∧
            Exec (onFailure ctx first) u later (.raise error) t) := by
  rcases h.of_bind_raise with hRead | ⟨start, now, rest, v, rfl, hRead, hRest⟩
  · exact .inl hRead.exec
  refine .inr ?_
  rcases hRest.of_bind_raise with hGuarded | ⟨outcome, _, later, u, -, -, hLater⟩
  · obtain ⟨first, middle, later, u, rfl, hLoop, hHandler⟩ := hGuarded.of_tryCatch_raise
    have hStages : Course env (0 + now.length)
        (stages.forM (executeStage stageTasks .default ctx start)) v middle (.raise first) u := by
      rcases hLoop.of_bind_raise with hStages | ⟨_, _, _, _, -, -, hDone⟩
      · exact hStages
      · cases hDone.exec.of_done.2.1
    refine ⟨start, now, middle, later, first, u, v, by simp, hRead.exec, hRead.bind hStages, ?_⟩
    split at hHandler
    · refine .inl ⟨‹_›, ?_⟩
      rcases Exec.of_bind_raise hHandler.exec with hBreach | ⟨_, _, _, _, -, -, hDone⟩
      · exact hBreach
      · cases hDone.of_done.2.1
    · refine .inr ⟨‹_›, ?_⟩
      rcases Exec.of_bind_raise hHandler.exec with hFailure | ⟨_, _, _, _, -, -, hDone⟩
      · exact hFailure
      · cases hDone.of_done.2.1
  · cases outcome with
    | some text => cases hLater.exec.of_done.2.1
    | none => exact absurd hLater.exec onCompletion_not_raise

theorem not_persisted (h : failureRows runId t.tables = failureRows runId s.tables) :
    ¬ FailurePersisted runId s t := by
  rintro ⟨-, row, hRow⟩
  simp [h] at hRow

/-- Where at most one step fails and the runner reports a failure, the failure is persisted, unless
the failing step is one of the reads in front of the loop, or the breaker has opened and the failing
step is one of those which record the pause. -/
theorem failurePersisted_iff {env : Environment Vocabulary} {u : Unicode}
    {services : Except PyError PipelineServices} {k : Option Nat}
    (hRun : runOf runId s.tables = some run) (hSubmitted : run.status = .submitted)
    (h : Course env 0 (DefaultPipelineRunner.run u runId services) s log
      (.done "failed".toList) t)
    (hSingle : SingleFailure env runId services s log k) :
    FailurePersisted runId s t ↔
      (∀ m ∈ log.take 2, m.happening ≠ .refused) ∧ StaysClosed env runId services s := by
  cases services with
  | error error =>
      have hCarried : ∀ m ∈ log, m.happening ≠ .refused := by
        intro m hm
        obtain ⟨n, hn⟩ := List.mem_iff_getElem?.mp hm
        exact hSingle.others n m hn (by rw [hSingle.built error rfl]; simp)
      refine iff_of_true ?_ ⟨fun m hm => hCarried m (List.mem_of_mem_take hm), ?_⟩
      · obtain ⟨value, now, later, v, rfl, hPersist, hDone⟩ := Exec.of_bind_done h.exec
        obtain ⟨rfl, -, rfl⟩ := hDone.of_done
        exact persistStartFailure_persists hPersist (.done _)
          (fun m hm => hCarried m (by simp [hm])) hRun hSubmitted
      · rintro bundle ⟨⟩
  | ok bundle =>
      have hRaise : ∃ error, Course env 0 (executeStages ⟨runId, bundle⟩) s log (.raise error) t := by
        rcases h.of_tryCatch_done with hDone | ⟨error, now, later, v, rfl, hRaise, hDone⟩
        · exact absurd rfl ((executeStages_returns _).exec hDone.exec)
        · obtain ⟨rfl, -, rfl⟩ := hDone.exec.of_done
          exact ⟨error, by simpa using hRaise⟩
      obtain ⟨error, hRaise⟩ := hRaise
      rcases executeStages_raises hRaise with
        hRead | ⟨start, now, middle, later, first, v, w, rfl, hRead, hLoop, hHandler⟩
      · -- A read in front of the loop fails.
        rcases readStart_ends hRead (.raise _) hRun with ⟨-, m, hm, hRefused⟩ | ⟨⟨_, hEq⟩, -⟩
        · refine iff_of_false (not_persisted ?_) fun hAll => hAll.1 m hm hRefused
          exact (Exec.unfailing hRead ((Unfailing.allows u).readStart _)).1
        · cases hEq
      have hEnters : ∀ m ∈ (now ++ middle ++ later).take 2, m.happening ≠ .refused := by
        rcases readStart_ends hRead (.done _) hRun with ⟨⟨_, hEq⟩, -⟩ | ⟨-, hLength, hCarried⟩
        · cases hEq
        · rw [List.append_assoc, List.take_append_of_le_length hLength.ge, ← hLength,
            List.take_length]
          exact hCarried
      obtain ⟨hRows, hRuns⟩ := Exec.unfailing hLoop.exec (unfailing_stageLoop runId _)
      rcases hHandler with ⟨hKind, hBreach⟩ | ⟨hKind, hFailure⟩
      · -- The breaker has opened, and the pause cannot be recorded.
        refine iff_of_false (not_persisted ?_) fun hAll => hAll.2 bundle rfl _ _ _ hLoop hKind
        exact (Exec.unfailing hBreach ((Unfailing.allows u).onBreach _ _)).1.trans hRows
      · -- A stage has failed, and the steps of the handler are carried out.
        refine iff_of_true ?_ ⟨hEnters, ?_⟩
        · have hCarried : ∀ m ∈ later, m.happening ≠ .refused := by
            intro m hm
            obtain ⟨n, hn⟩ := List.mem_iff_getElem?.mp hm
            refine hSingle.others ((now ++ middle).length + n) m ?_ fun hk => ?_
            · rw [List.getElem?_append_right (by omega), Nat.add_sub_cancel_left]
              exact hn
            · have hLt := hSingle.stage bundle rfl _ _ _ hLoop hKind _ hk
              omega
          obtain ⟨found, hFound⟩ := runOf_isSome_iff.mpr
            (hRuns ▸ runOf_isSome_iff.mp ⟨run, hRun⟩)
          obtain ⟨hStatus, row, hRow⟩ :=
            onFailure_persists hFailure (.raise _) hCarried hFound
          exact ⟨hStatus, row, by rw [← hRows]; exact hRow⟩
        · rintro _ ⟨⟩ now' error' v' hOther
          obtain ⟨-, hSame, -⟩ := hLoop.unique hOther (.raise _) (.raise _)
          cases hSame
          exact hKind

end Runner

/-! ## Two runs -/

/-- The provider fails in the first stage, and the failure is persisted. -/
theorem failurePersisted_stage :
    FailurePersisted ⟨1⟩ (World.submitted 1) (simulate (quietOutside fun _ => .grant) 100 0
      (DefaultPipelineRunner.run Platform.plain.unicode ⟨1⟩ (.ok .plain)) (World.submitted 1)).2.2 := by
  let now := simulate (quietOutside fun _ => .grant) 100 0
    (DefaultPipelineRunner.run Platform.plain.unicode ⟨1⟩ (.ok .plain)) (World.submitted 1)
  let loop := simulate (quietOutside fun _ => .grant) 100 0 (stageLoop ⟨⟨1⟩, .plain⟩)
    (World.submitted 1)
  have hRun : now.2.1.returned = some "failed".toList ∧ now.1.any Moment.isRefused = false ∧
      loop.2.1.raised.map PyError.kind = some .runtimeError := by
    decide +kernel
  obtain ⟨hReturned, hRefused, hRaised⟩ := hRun
  have hCarried : ∀ m ∈ now.1, m.happening ≠ .refused := by
    intro m hm hEq
    rw [List.any_eq_false] at hRefused
    exact hRefused m hm (Moment.isRefused_iff.mpr hEq)
  obtain ⟨error, hError, hKind⟩ := Option.map_eq_some_iff.mp hRaised
  have hLoop : Course (quietOutside fun _ => .grant) 0 (stageLoop ⟨⟨1⟩, .plain⟩)
      (World.submitted 1) loop.1 (.raise error) loop.2.2 := by
    rw [← Prog.eq_raise hError]
    exact simulate_course _ _ _ _ _
  have hNow : Course (quietOutside fun _ => .grant) 0
      (DefaultPipelineRunner.run Platform.plain.unicode ⟨1⟩ (.ok .plain)) (World.submitted 1)
      now.1 (.done "failed".toList) now.2.2 := by
    rw [← Prog.eq_done hReturned]
    exact simulate_course _ _ _ _ _
  have hSubmitted : runOf ⟨1⟩ (World.submitted 1).tables = some (Run.submitted 1) := rfl
  refine (failurePersisted_iff (k := none) hSubmitted rfl hNow ⟨?_, ?_, ?_⟩).mpr
    ⟨fun m hm => hCarried m (List.mem_of_mem_take hm), ?_⟩
  · exact fun n m hn _ => hCarried m (List.mem_of_getElem? hn)
  · rintro _ ⟨⟩
  · rintro bundle - now' error' v - - n ⟨⟩
  · rintro _ ⟨⟩ now' error' v hOther
    obtain ⟨-, hSame, -⟩ := hLoop.unique hOther (.raise _) (.raise _)
    cases hSame
    rw [hKind]
    decide

/-- The first read fails, every other step is carried out, and the run stays submitted. -/
theorem failurePersisted_fails :
    ∃ env log t, runOf ⟨1⟩ (World.submitted 1).tables = some (Run.submitted 1) ∧
      (Run.submitted 1).status = .submitted ∧
      Course env 0 (DefaultPipelineRunner.run Platform.plain.unicode ⟨1⟩ (.ok .plain))
        (World.submitted 1) log (.done "failed".toList) t ∧
      SingleFailure env ⟨1⟩ (.ok .plain) (World.submitted 1) log (some 0) ∧
      runOf ⟨1⟩ t.tables = some (Run.submitted 1) ∧ ¬ FailurePersisted ⟨1⟩ (World.submitted 1) t := by
  let env : Environment Vocabulary :=
    quietOutside fun n => if n = 0 then .refuse "connection lost".toList else .grant
  have hCourse : Course env 0
      (DefaultPipelineRunner.run Platform.plain.unicode ⟨1⟩ (.ok .plain)) (World.submitted 1)
      [⟨World.submitted 1, .refused, World.submitted 1⟩] (.done "failed".toList)
      (World.submitted 1) :=
    .step rfl (.refl _ _ _)
  refine ⟨env, _, _, rfl, rfl, hCourse, ⟨?_, ?_, ?_⟩, rfl, ?_⟩
  · intro n m hn hOther
    cases n with
    | zero => exact absurd rfl hOther
    | succ n => simp at hn
  · rintro _ ⟨⟩
  · rintro bundle - now error v hLoop - n hn
    cases hn
    cases hLoop with
    | step first rest => exact Nat.succ_pos _
  · rintro ⟨⟨run, hRun, hFailed⟩, -⟩
    cases hRun
    cases hFailed

end Ecrke
