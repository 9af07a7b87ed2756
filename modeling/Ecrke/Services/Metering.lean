import Ecrke.Quiet
import Ecrke.Services.LLMGateway

/-!
# What a model call does to the database

A call of the gateway touches two things: entries of the cache, and the spend of its run, which only
grows.

* `MeterStep`, `MeterMoment` -- the steps of a call.
* `kvGet_spec`, `kvSet_spec` -- the cache.
* `recordCall_spec` -- the meter.
* `complete_spec`, `completeModel_spec` -- the gateway.
-/

namespace Ecrke

open Durable

/-- What one step of a model call for a run can do to the tables. -/
inductive MeterStep (runId : Uuid) (t : Tables) : Tables → Prop where
  | idle : MeterStep runId t t
  | cached (entries : List KVEntry) : MeterStep runId t { t with kvCache := entries }
  | spent (run : Run) (hRun : runOf runId t = some run) (cost : Usd) (hCost : 0 ≤ cost) :
      MeterStep runId t (t.setRun { run with costSpentUsd := run.costSpentUsd + cost })

/-- A step of a model call for a run. -/
def MeterMoment (runId : Uuid) (m : Moment Vocabulary) : Prop :=
  MeterStep runId m.before.tables m.after.tables ∧ ∀ event, m.happening ≠ .wrote event

theorem MeterMoment.of_quiet {runId : Uuid} (m : Moment Vocabulary) (h : Quiet m) :
    MeterMoment runId m := by
  refine ⟨?_, h.2⟩
  rw [World.tables, World.tables, h.1]
  exact .idle

/-- A model call leaves all tables but the runs and the cache alone. -/
structure MeterFrame (t t' : Tables) : Prop where
  sources : t'.sources = t.sources
  passages : t'.passages = t.passages
  statements : t'.statements = t.statements
  evidenceLinks : t'.evidenceLinks = t.evidenceLinks
  auditTrace : t'.auditTrace = t.auditTrace
  checkpoints : t'.checkpoints = t.checkpoints

theorem MeterFrame.refl (t : Tables) : MeterFrame t t := ⟨rfl, rfl, rfl, rfl, rfl, rfl⟩

theorem MeterFrame.trans {t t' t'' : Tables} (h : MeterFrame t t') (h' : MeterFrame t' t'') :
    MeterFrame t t'' :=
  ⟨h'.sources.trans h.sources, h'.passages.trans h.passages, h'.statements.trans h.statements,
    h'.evidenceLinks.trans h.evidenceLinks, h'.auditTrace.trans h.auditTrace,
    h'.checkpoints.trans h.checkpoints⟩

theorem MeterStep.frame {runId : Uuid} {t t' : Tables} (h : MeterStep runId t t') :
    MeterFrame t t' := by
  cases h <;> exact ⟨rfl, rfl, rfl, rfl, rfl, rfl⟩

section Calls

variable {runId : Uuid} {s : World}

/-- A program of metering steps keeps the frame. -/
theorem Alone.metering {α : Type} {p : Action α} {Q : Except PyError α → World → Prop}
    (h : Alone (MeterMoment runId) Q p s) :
    Alone (MeterMoment runId) (fun r t => Q r t ∧ MeterFrame s.tables t.tables) p s :=
  Alone.along (S := Vocabulary) (T := fun s t : World => MeterFrame s.tables t.tables)
    (fun _ => .refl _) (fun _ _ _ h h' => h.trans h') (fun _ hm => hm.1.frame) h

/-! ## The cache -/

theorem commitCache_spec {w : Write}
    (hw : ∀ t, ∃ entries, w.effect t = { t with kvCache := entries }) :
    Alone (MeterMoment runId) anyEnd (commitWrites [w]) s := by
  refine Alone.commitWrites MeterMoment.of_quiet (fun t ht => ?_) (fun _ _ => trivial)
  obtain ⟨entries, hEffect⟩ := hw s.tables
  refine ⟨⟨?_, by simp⟩, trivial, fun _ _ => trivial⟩
  simp only [Tables.after_cons, Tables.after_nil, hEffect] at ht
  rw [ht]
  exact .cached entries

theorem kvGet_spec (key : Text) : Alone (MeterMoment runId) anyEnd (KVCache.get key) s := by
  refine Alone.seq (Alone.quietly MeterMoment.of_quiet (quiet_selectTables _)) fun found t => ?_
  cases found with
  | none => exact Alone.done trivial
  | some found =>
      dsimp only
      split
      · exact Alone.done trivial
      · refine Alone.seq (Alone.quietly MeterMoment.of_quiet quiet_now) fun clock u => ?_
        refine Alone.ite (fun _ => ?_) (fun _ => Alone.done trivial)
        exact Alone.seq (commitCache_spec fun t => ⟨_, rfl⟩) fun _ _ => Alone.done trivial

theorem kvSet_spec (p : Platform) (key model promptHash : Text) (payload : List (Text × Json))
    (ttlSeconds : Option Int) :
    Alone (MeterMoment runId) anyEnd (KVCache.set p key model promptHash payload ttlSeconds) s := by
  have hUpsert (row : KVEntry) (t : World) :
      Alone (MeterMoment runId) anyEnd (KVCache.upsert row) t := by
    refine Alone.seq (Alone.quietly MeterMoment.of_quiet (quiet_selectTables _)) fun found u => ?_
    cases found with
    | none => exact commitCache_spec fun t => ⟨_, rfl⟩
    | some found => exact commitCache_spec fun t => ⟨_, rfl⟩
  refine Alone.seq (Alone.ofExcept trivial) fun _ t => ?_
  cases ttlSeconds with
  | none => exact hUpsert ⟨key, model, promptHash, .obj payload, none⟩ t
  | some seconds =>
      exact Alone.seq (Alone.quietly MeterMoment.of_quiet quiet_now) fun clock u =>
        hUpsert ⟨key, model, promptHash, .obj payload, some (clock + seconds)⟩ u

/-! ## The meter -/

theorem callCost_nonneg {p : Platform} {call : MeteredCall} {cost : Usd}
    (h : callCost p call = .ok cost) : 0 ≤ cost := by
  unfold callCost at h
  cases hQuantize : quantize (rawCost p call) with
  | error error => simp [hQuantize, bind, Except.bind] at h
  | ok rounded =>
      simp only [hQuantize, bind, Except.bind] at h
      split at h
      · cases h
      · cases h
        exact not_lt.mp ‹_›

/-- The meter adds the cost of a call to the row which it has read. -/
theorem recordCall_spec (p : Platform) (call : MeteredCall) (hRun : call.runId = some runId) :
    Alone (MeterMoment runId) anyEnd (recordCall p call) s := by
  unfold recordCall
  refine Alone.bind (fun r _ => ∀ cost, r = .ok cost → 0 ≤ cost)
    (Alone.ofExcept fun _ => callCost_nonneg) ?_ (fun _ _ _ => trivial)
  intro cost t hCost
  simp only [hRun]
  refine Alone.withRun MeterMoment.of_quiet ?_ (fun _ => Alone.raise trivial) ?_
  · intro run hFound
    refine Alone.seq (Alone.commitRun MeterMoment.of_quiet hFound ?_ ?_ ?_)
      fun _ _ => Alone.done trivial
    · exact ⟨rfl, rfl, rfl, rfl, rfl⟩
    · intro u hu
      refine ⟨⟨?_, by simp⟩, trivial, fun _ _ => trivial⟩
      rw [hu]
      exact .spent run hFound cost (hCost cost rfl)
    · exact fun _ _ => trivial
  · exact fun _ _ => trivial

/-! ## The provider -/

theorem quiet_backOff (kind : ErrorClass) (message : Text) (delays : List ℚ) (attempt : Nat) :
    Keeps Quiet (backOff kind message delays attempt) := by
  unfold backOff
  simp only [raiseError_bind]
  refine keeps_ite (fun _ => quiet_raiseError _ _) (fun _ => ?_)
  split
  · exact keeps_bind (quiet_sleep _) fun _ => keeps_done _
  · exact quiet_raiseError _ _

theorem quiet_tryProvider (gateway : LLMGateway) (model : Text) (messages : List Message)
    (kwargs : List (Text × Json)) (attempt : Nat) :
    Keeps Quiet (tryProvider gateway model messages kwargs attempt) := by
  refine keeps_bind (quiet_query _) fun answer => ?_
  cases (answer : ProviderAnswer) with
  | response response =>
      refine keeps_bind quiet_loopTime fun _ => keeps_bind (quiet_modifyMemory _) fun _ => ?_
      exact keeps_bind quiet_loopTime fun _ => keeps_bind (quiet_modifyMemory _) fun _ =>
        keeps_done _
  | rateLimitError message =>
      exact keeps_ite (fun _ => quiet_raiseError _ _) (fun _ => quiet_backOff _ _ _ _)
  | serviceUnavailableError message => exact quiet_backOff _ _ _ _
  | apiConnectionError message => exact quiet_backOff _ _ _ _
  | otherError error => exact keeps_raise _

theorem quiet_callWithRateLimitRetry (gateway : LLMGateway) (model : Text)
    (messages : List Message) (kwargs : List (Text × Json)) :
    Keeps Quiet (callWithRateLimitRetry gateway model messages kwargs) := by
  have hCall : Keeps Quiet (Prog.forElse (tryProvider gateway model messages kwargs)
      (raiseError .attributeError "'NoneType' object has no attribute 'get'".toList)
      (List.range (maxRateLimitRetries + 1))) :=
    keeps_forElse (fun attempt _ => quiet_tryProvider _ _ _ _ attempt) (quiet_raiseError _ _)
  refine keeps_bind quiet_loopTime fun time => keeps_bind (quiet_readMemory _) fun last => ?_
  cases last with
  | none => exact hCall
  | some last =>
      exact keeps_ite (fun _ => keeps_bind (quiet_sleep _) fun _ => hCall) (fun _ => hCall)

/-! ## The gateway -/

theorem quiet_attemptCall (gateway : LLMGateway)
    (hHooks : ∀ hook ∈ gateway.hooks, ∀ ctx, Keeps Quiet (hook ctx)) (args : CompleteArgs)
    (model : Text) (messages : List Message) (cacheKey : Text) (attempt : Nat) :
    Keeps Quiet (attemptCall gateway args model messages cacheKey attempt) := by
  refine keeps_bind (keeps_forM fun hook hMem => hHooks hook hMem _) fun _ => ?_
  refine keeps_bind (quiet_callWithRateLimitRetry _ _ _ _) fun response => ?_
  split
  · exact quiet_raiseError _ _
  · split
    · exact keeps_done _
    · split
      · exact keeps_done _
      · exact keeps_ite (fun _ => keeps_done _) (fun _ => keeps_raise _)

theorem meterAndCache_spec (gateway : LLMGateway) (args : CompleteArgs)
    (hRun : args.runId = some runId) (model prompt cacheKey : Text) (accepted : Accepted) :
    Alone (MeterMoment runId) anyEnd (meterAndCache gateway args model prompt cacheKey accepted)
      s := by
  refine Alone.seq (recordCall_spec _ _ hRun) fun cost t => ?_
  exact Alone.ite (fun _ => Alone.seq (kvSet_spec _ _ _ _ _ _) fun _ _ => Alone.done trivial)
    (fun _ => Alone.done trivial)

theorem complete_spec (gateway : LLMGateway) (hHooks : gateway.hooks = []) (args : CompleteArgs)
    (hRun : args.runId = some runId) :
    Alone (MeterMoment runId) anyEnd (complete gateway args) s := by
  refine Alone.seq (Alone.ofExcept trivial) fun messages t => ?_
  have hFresh (cacheKey prompt : Text) (u : World) :
      Alone (MeterMoment runId) anyEnd (do
        let accepted ← Prog.forElse
          (attemptCall gateway args (gateway.resolveModel args.tier) messages cacheKey)
          (Prog.raise (quarantine gateway)) (List.range (gateway.maxRetries + 1))
        meterAndCache gateway args (gateway.resolveModel args.tier) prompt cacheKey accepted)
        u := by
    refine Alone.seq (Alone.quietly MeterMoment.of_quiet (keeps_forElse ?_ (keeps_raise _)))
      fun accepted v => meterAndCache_spec _ _ hRun _ _ _ _
    exact fun attempt _ => quiet_attemptCall gateway (by simp [hHooks]) _ _ _ _ _
  refine Alone.ite (fun _ => Alone.seq (kvGet_spec _) fun cached u => ?_) (fun _ => hFresh _ _ _)
  cases cached with
  | none => exact hFresh _ _ _
  | some payload => exact Alone.ofExcept trivial

theorem completeModel_spec (gateway : LLMGateway) (hHooks : gateway.hooks = [])
    (responseModel : ResponseModel) (args : CompleteArgs) (hRun : args.runId = some runId) :
    Alone (MeterMoment runId) anyEnd (completeModel gateway responseModel args) s := by
  refine Alone.seq (complete_spec gateway hHooks _ hRun) fun result t => ?_
  split
  · split
    · exact Alone.done trivial
    · exact Alone.raise trivial
  · exact Alone.raise trivial

end Calls

end Ecrke
