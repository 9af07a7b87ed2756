import Ecrke.Guarantees.CachedCalls
import Ecrke.Guarantees.Spend

/-!
# The metered response of a call

A call of the gateway may get several responses of the provider before it accepts one.  The meter is
given the accepted one, after the attempts; the responses which are rejected cost nothing on record,
and neither does a call which ends in quarantine.

* `responses`, `callFor`, `responseCost` -- the responses of a log, and what each of them costs.
* `recordCall_spent` -- what the meter does to the spend.
* `complete_spent` -- what a call does to it.
-/

namespace Ecrke

open Durable

/-- The response of the provider which is received in a step. -/
def responseIn (m : Moment Vocabulary) : Option LLMResponse :=
  match m.happening with
  | .asked (.provider ..) answer =>
      match (show ProviderAnswer from answer) with
      | .response response => some response
      | _ => none
  | _ => none

/-- The responses of the provider, in order. -/
def responses (log : Log Vocabulary) : List LLMResponse := log.filterMap responseIn

/-- The prompt text of a call. -/
def requestPrompt (gateway : LLMGateway) (args : CompleteArgs) : Text :=
  match buildMessages args with
  | .ok messages => promptText gateway args messages
  | .error _ => []

/-- What the meter is given for a response. -/
def callFor (gateway : LLMGateway) (args : CompleteArgs) (response : LLMResponse) : MeteredCall where
  model := gateway.resolveModel args.tier
  runId := args.runId
  costUsd := none
  response := some response
  prompt := some (requestPrompt gateway args)
  completion := response.content
  promptTokens := response.usage.bind Usage.promptTokens
  completionTokens := response.usage.bind Usage.completionTokens

/-- The cost of a response, rounded to the storage. -/
def responseCost (gateway : LLMGateway) (args : CompleteArgs) (response : LLMResponse) : Usd :=
  costOf gateway.platform (callFor gateway args response)

/-! ## Steps and their responses -/

/-- The recorded spend stays, and the provider gives no response. -/
structure Unpaid (runId : Uuid) (m : Moment Vocabulary) : Prop where
  spent : spentIn runId m.after = spentIn runId m.before
  response : responseIn m = none

section Steps

variable {runId : Uuid} {s t : World} {log : Log Vocabulary} {α : Type}

theorem responseIn_offline {m : Moment Vocabulary} (h : Offline m) : responseIn m = none := by
  unfold responseIn
  split
  · rename_i hAsked
    exact absurd (h (.provider _ _ _) (by rw [Moment.question, hAsked])) id
  · rfl

theorem responses_offline (h : ∀ m ∈ log, Offline m) : responses log = [] :=
  List.filterMap_eq_nil_iff.mpr fun m hm => responseIn_offline (h m hm)

theorem responses_append (log later : Log Vocabulary) :
    responses (log ++ later) = responses log ++ responses later :=
  List.filterMap_append ..

theorem spentIn_runs (h : t.tables.runs = s.tables.runs) : spentIn runId t = spentIn runId s := by
  rw [spentIn, spentIn, runOf, runOf, h]

theorem Unpaid.of_pacing (m : Moment Vocabulary) (h : Pacing m) : Unpaid runId m :=
  ⟨spentIn_runs (by rw [h.tables]), responseIn_offline h.asks⟩

/-- Along an execution of such steps. -/
theorem Exec.unpaid {p q : Action α} (h : Exec p s log q t) (hp : Keeps (Unpaid runId) p) :
    spentIn runId t = spentIn runId s ∧ responses log = [] := by
  have hSteps := (h.keeps hp).1
  refine ⟨(h.linked.invariant (fun u : World => spentIn runId u = spentIn runId s)
    (fun m hm hBefore => (hSteps m hm).spent.trans hBefore) rfl).1, ?_⟩
  exact List.filterMap_eq_nil_iff.mpr fun m hm => (hSteps m hm).response

theorem unpaid_commit {writes : List Write} (h : ∀ t : Tables, (t.after writes).runs = t.runs) :
    Keeps (Unpaid runId) (commitWrites writes) :=
  keeps_commitWrites (fun _ => ⟨rfl, rfl⟩) fun s t hTables _ _ =>
    ⟨spentIn_runs (by rw [hTables, h]), rfl⟩

theorem Unpaid.of_resting (m : Moment Vocabulary) (h : Resting m) : Unpaid runId m :=
  .of_pacing m h.toPacing

theorem unpaid_kvGet (key : Text) : Keeps (Unpaid runId) (KVCache.get key) :=
  keeps_kvGet Unpaid.of_resting (unpaid_commit fun _ => rfl)

theorem unpaid_kvSet (p : Platform) (key model promptHash : Text) (fields : List (Text × Json))
    (ttlSeconds : Option Int) :
    Keeps (Unpaid runId) (KVCache.set p key model promptHash fields ttlSeconds) :=
  keeps_kvSet Unpaid.of_resting fun _ =>
    keeps_upsert Unpaid.of_resting (unpaid_commit fun _ => rfl) (unpaid_commit fun _ => rfl)

end Steps

/-! ## The meter -/

section Meter

variable {runId : Uuid} {s t : World} {log : Log Vocabulary} {p : Platform} {call : MeteredCall}

/-- The meter leaves the spend, or it adds the cost of the call; where it returns, it has added it. -/
theorem recordCall_spent {left : Action Usd} (hRun : call.runId = some runId)
    (h : Exec (recordCall p call) s log left t) :
    (spentIn runId t = spentIn runId s ∨
      spentIn runId t = (spentIn runId s).map (· + costOf p call)) ∧
      ∀ cost, left = .done cost → callCost p call = .ok cost ∧
        spentIn runId t = (spentIn runId s).map (· + cost) := by
  unfold recordCall at h
  cases hCost : callCost p call with
  | error error =>
      rw [hCost] at h
      obtain ⟨-, rfl, rfl⟩ := Exec.of_raise h
      exact ⟨.inl rfl, by rintro _ ⟨⟩⟩
  | ok cost =>
      have hOf : costOf p call = cost := by simp [costOf, hCost, Except.toOption]
      simp only [hCost, Prog.ofExcept, Prog.bind_def, Prog.bind, hRun] at h
      rcases Exec.of_bind h with ⟨q, hRead, rfl, hOpen⟩ | ⟨found, now, later, u, rfl, hRead, hRest⟩
      · obtain ⟨hSame, -⟩ := Exec.unpaid hRead ((pace_selectTables _).mono Unpaid.of_pacing)
        refine ⟨.inl hSame, fun value hDone => ?_⟩
        obtain ⟨_, hFirst, -⟩ := Prog.bind_eq_done hDone
        exact absurd hFirst (hOpen _)
      · obtain ⟨rfl, rfl⟩ := Exec.of_select_done hRead
        cases hRow : runOf runId u.tables with
        | none =>
            simp only [show findRow Run.id runId u.tables.runs = none from hRow] at hRest
            obtain ⟨-, rfl, rfl⟩ := Exec.of_raise hRest
            exact ⟨.inl rfl, by rintro _ ⟨⟩⟩
        | some run =>
            simp only [show findRow Run.id runId u.tables.runs = some run from hRow] at hRest
            have hBefore : spentIn runId u = some run.costSpentUsd := by
              rw [spentIn, hRow, Option.map_some]
            have hAfter {v : World} (hTables : v.tables = u.tables.after
                (run.updates { run with costSpentUsd := run.costSpentUsd + cost })) :
                spentIn runId v = (spentIn runId u).map (· + cost) := by
              rw [spentIn_updates (runOf_id hRow) hBefore hTables, hBefore, Option.map_some]
            constructor
            · rcases Exec.of_commitWrites hRest with rfl | ⟨v, hTables, ⟨rfl, -⟩ | ⟨_, hDone⟩⟩
              · exact .inl rfl
              · exact .inr (hOf ▸ hAfter hTables)
              · obtain ⟨-, -, rfl⟩ := Exec.of_done hDone
                exact .inr (hOf ▸ hAfter hTables)
            · rintro value rfl
              obtain ⟨_, _, _, v, -, hCommit, hDone⟩ := Exec.of_bind_done hRest
              obtain ⟨-, hValue, rfl⟩ := Exec.of_done hDone
              cases hValue
              exact ⟨rfl, hAfter (commitWrites_done hCommit)⟩

end Meter

/-! ## Exceptions of the meter and of the cache -/

/-- What holds of every exception in which a program ends. -/
def Raises (P : PyError → Prop) {α : Type} (program : Action α) : Prop :=
  ∀ s, Alone (fun _ => True) (fun r _ => ∀ error, r = .error error → P error) program s

section Raises

variable {P : PyError → Prop} {α β : Type}

theorem raises_done (value : α) : Raises P (.done value) := fun _ => Alone.done fun _ h => by cases h

theorem raises_bind {program : Action α} {rest : α → Action β} (hFirst : Raises P program)
    (hRest : ∀ value, Raises P (rest value)) : Raises P (program.bind rest) :=
  fun s => Alone.bind _ (hFirst s) (fun value t _ => hRest value t) fun error _ h other hOther => by
    cases hOther
    exact h error rfl

theorem raises_ofExcept {result : Except PyError α} (h : ∀ error, result = .error error → P error) :
    Raises P (Prog.ofExcept result : Action α) :=
  fun _ => Alone.ofExcept h

theorem raises_query (question : Query) :
    Raises P (Prog.query (S := Vocabulary) question : Action (Answer question)) :=
  fun _ => Alone.query fun _ => ⟨trivial, fun _ h => by cases h⟩

theorem raises_select (hDb : ∀ error, IsDbError error → P error) (f : Tables → α) :
    Raises P (selectTables f) :=
  fun _ => Alone.selectTables (fun _ _ => trivial) (fun _ h => by cases h) fun error hError other h => by
    cases h
    exact hDb error hError

theorem raises_commit (hDb : ∀ error, IsDbError error → P error) (writes : List Write) :
    Raises P (commitWrites writes) :=
  fun _ => Alone.commitWrites (fun _ _ => trivial)
    (fun _ _ => ⟨trivial, (fun _ h => by cases h), fun error hError _ h => by
      cases h
      exact hDb error hError⟩)
    fun error hError _ h => by
      cases h
      exact hDb error hError

theorem Raises.exec {program : Action α} (h : Raises P program) {s t : World}
    {log : Log Vocabulary} {error : PyError} (hExec : Exec program s log (.raise error) t) :
    P error := by
  obtain ⟨-, hLeft⟩ := wp_exec (fun _ => rfl) hExec (h s []) (Contract.alone_granted _ [] log)
  rw [wp_raise] at hLeft
  exact hLeft error rfl

end Raises

/-- No quarantine. -/
def Unquarantined (error : PyError) : Prop := error.kind ≠ .quarantineError

/-- An exception of the request, the meter, the cache or the database. -/
def BookError (error : PyError) : Prop :=
  error.kind ∈ [.valueError, .keyError, .arithmeticError, .negativeCostError, .runNotFoundError,
    .operationalError, .integrityError, .dataError, .staleDataError]

theorem BookError.unquarantined {error : PyError} (h : BookError error) : Unquarantined error := by
  intro hKind
  rw [BookError, hKind] at h
  simp at h

theorem bookError_db (error : PyError) (h : IsDbError error) : BookError error := by
  simp only [IsDbError, BookError, List.mem_cons] at h ⊢
  tauto

theorem callCost_kind {p : Platform} {call : MeteredCall} {error : PyError}
    (h : callCost p call = .error error) : BookError error := by
  unfold callCost at h
  cases hCost : quantize (rawCost p call) with
  | error other =>
      rw [hCost] at h
      cases h
      simp only [quantize] at hCost
      by_cases hLarge : 10 ^ 28 ≤ ⌊|rawCost p call| / storageUnit + 1 / 2⌋.toNat
      · rw [if_pos hLarge, Except.error.injEq] at hCost
        simp [BookError, ← hCost]
      · rw [if_neg hLarge] at hCost
        cases hCost
  | ok cost =>
      rw [hCost] at h
      simp only [bind, Except.bind, pure, Except.pure] at h
      split at h
      · cases h
        simp [BookError]
      · cases h

theorem recordCall_raises (p : Platform) (call : MeteredCall) :
    Raises BookError (recordCall p call) := by
  refine raises_bind (raises_ofExcept fun _ => callCost_kind) fun cost => ?_
  cases call.runId with
  | none => exact raises_done _
  | some runId =>
      refine raises_bind (raises_select bookError_db _) fun found => ?_
      cases found with
      | none => exact fun _ => Alone.raise fun error h => by cases h; simp [BookError]
      | some run => exact raises_bind (raises_commit bookError_db _) fun _ => raises_done _

/-- A look-up raises the errors of the database only. -/
theorem kvGet_raises (key : Text) : Raises IsDbError (KVCache.get key) := by
  have hDb : ∀ error, IsDbError error → IsDbError error := fun _ h => h
  rw [KVCache.get, KVCache.entry, Prog.bind_def]
  apply raises_bind (raises_select hDb _)
  intro found
  cases found with
  | none => exact raises_done _
  | some entry =>
      obtain ⟨_, _, _, _, expiresAt⟩ := entry
      cases expiresAt with
      | none => exact raises_done _
      | some expiresAt =>
          apply raises_bind (raises_query .now)
          intro clock
          change Instant at clock
          by_cases hExpired : expiresAt ≤ clock
          · simp only [hExpired, if_true]
            exact raises_bind (raises_commit hDb _) fun _ => raises_done _
          · simp only [hExpired, if_false]
            exact raises_done _

theorem kvUpsert_raises (row : KVEntry) : Raises BookError (KVCache.upsert row) := by
  refine raises_bind (raises_select bookError_db _) fun found => ?_
  cases found with
  | none => exact raises_commit bookError_db _
  | some found => exact raises_commit bookError_db _

theorem kvSet_raises (p : Platform) (key model promptHash : Text) (fields : List (Text × Json))
    (ttlSeconds : Option Int) :
    Raises BookError (KVCache.set p key model promptHash fields ttlSeconds) := by
  refine raises_bind (raises_ofExcept fun error h => ?_) fun _ => ?_
  · unfold assertNoSecretPayload at h
    split at h
    · cases h
    · cases h
      simp [BookError]
  cases ttlSeconds with
  | none => exact kvUpsert_raises ⟨key, model, promptHash, .obj fields, none⟩
  | some seconds =>
      exact raises_bind (raises_query .now) fun clock =>
        kvUpsert_raises ⟨key, model, promptHash, .obj fields, some (clock + seconds)⟩

theorem meterAndCache_raises (gateway : LLMGateway) (args : CompleteArgs)
    (model prompt cacheKey : Text) (accepted : Accepted) :
    Raises BookError (meterAndCache gateway args model prompt cacheKey accepted) := by
  refine raises_bind (recordCall_raises _ _) fun cost => ?_
  dsimp only
  split
  · exact raises_bind (kvSet_raises _ _ _ _ _ _) fun _ => raises_done _
  · exact raises_done _

/-! ## Attempts -/

section Attempts

variable {runId : Uuid} {gateway : LLMGateway} {args : CompleteArgs} {s t : World}
  {log : Log Vocabulary}

/-- The response is the last one of its log. -/
theorem RespondsLast.last {request : Text × List Message × List (Text × Json)}
    {response : LLMResponse} (h : RespondsLast request response log) :
    ∃ before, responses log = before ++ [response] := by
  obtain ⟨before, w, later, rfl, hLater⟩ := h
  refine ⟨responses before, ?_⟩
  rw [responses_append, ← List.singleton_append, responses_append, responses_offline hLater]
  rfl

/-- More steps in front. -/
theorem last_after {now later : Log Vocabulary} {response : LLMResponse}
    (h : ∃ before, responses later = before ++ [response]) :
    ∃ before, responses (now ++ later) = before ++ [response] := by
  obtain ⟨before, hLater⟩ := h
  exact ⟨responses now ++ before, by rw [responses_append, hLater, List.append_assoc]⟩

/-- What the meter is given for an accepted attempt. -/
def acceptedCall (gateway : LLMGateway) (args : CompleteArgs) (prompt : Text)
    (accepted : Accepted) : MeteredCall where
  model := gateway.resolveModel args.tier
  runId := args.runId
  costUsd := none
  response := some accepted.response
  prompt := some prompt
  completion := some accepted.content
  promptTokens := accepted.promptTokens
  completionTokens := accepted.completionTokens

/-- An accepted attempt belongs to the last response. -/
theorem attemptCall_last {messages : List Message} {cacheKey : Text} {attempt : Nat}
    {accepted : Accepted}
    (h : Exec (attemptCall gateway args (gateway.resolveModel args.tier) messages cacheKey attempt)
      s log (.done (some accepted)) t) :
    (∃ before, responses log = before ++ [accepted.response]) ∧
      acceptedCall gateway args (requestPrompt gateway args) accepted =
        callFor gateway args accepted.response := by
  have hAccepts := attemptCall_accepts h
  refine ⟨hAccepts.responds.last, ?_⟩
  rw [acceptedCall, callFor, hAccepts.content, hAccepts.promptTokens, hAccepts.completionTokens]

theorem attempts_last {messages : List Message} {cacheKey : Text} {accepted : Accepted}
    (h : Exec (attempts gateway args messages cacheKey) s log (.done accepted) t) :
    (∃ before, responses log = before ++ [accepted.response]) ∧
      acceptedCall gateway args (requestPrompt gateway args) accepted =
        callFor gateway args accepted.response := by
  obtain ⟨earlier, now, u, rfl, hLast⟩ := Exec.of_forElse_done h
  rcases hLast with ⟨attempt, -, hTry⟩ | hRaise
  · exact (attemptCall_last hTry).imp_left last_after
  · obtain ⟨-, hEnd, -⟩ := Exec.of_raise hRaise
    cases hEnd

/-- The attempts leave the spend alone, when their hooks do. -/
theorem attempts_spent (hHooks : ∀ hook ∈ gateway.hooks, ∀ ctx, Keeps (Unpaid runId) (hook ctx))
    {messages : List Message} {cacheKey : Text} {left : Action Accepted}
    (h : Exec (attempts gateway args messages cacheKey) s log left t) :
    spentIn runId t = spentIn runId s := by
  have hKeeps : Keeps (fun m : Moment Vocabulary => spentIn runId m.after = spentIn runId m.before)
      (attempts gateway args messages cacheKey) :=
    keeps_forElse (fun _ _ => keeps_attemptCall (fun m hm => (Unpaid.of_pacing m hm).spent)
      (fun _ _ _ _ _ => rfl) (fun hook hMem ctx => (hHooks hook hMem ctx).mono fun _ hm => hm.spent)
      _ _ _ _ _) (keeps_raise _)
  exact (h.linked.invariant (fun u : World => spentIn runId u = spentIn runId s)
    (fun m hm hBefore => ((h.keeps hKeeps).1 m hm).trans hBefore) rfl).1

end Attempts

/-! ## Calls -/

/-- A call whose result is fresh returns the cost of the last response. -/
structure Metered (runId : Uuid) (gateway : LLMGateway) (args : CompleteArgs) (s : World)
    (log : Log Vocabulary) (result : GatewayResult) (t : World) : Prop where
  fresh : result.cached = false
  last : ∃ before response, responses log = before ++ [response] ∧
    ∃ cost, callCost gateway.platform (callFor gateway args response) = .ok cost ∧
      result.costUsd = some cost ∧ spentIn runId t = (spentIn runId s).map (· + cost)

/-- A call whose result comes from the cache asks nobody and costs nothing. -/
structure Uncharged (runId : Uuid) (s : World) (log : Log Vocabulary) (result : GatewayResult)
    (t : World) : Prop where
  cached : result.cached = true
  responses : responses log = []
  spent : spentIn runId t = spentIn runId s

section Calls

variable {runId : Uuid} {gateway : LLMGateway} {args : CompleteArgs} {s t : World}
  {log : Log Vocabulary}

theorem responses_book {p q : Action α} (h : Exec p s log q t) (hKeeps : Keeps Bookkeeping p) :
    responses log = [] :=
  responses_offline fun m hm => ((h.keeps hKeeps).1 m hm).asks

/-- The meter and the cache behind an accepted attempt. -/
theorem meterAndCache_spent {prompt cacheKey : Text} {accepted : Accepted}
    {left : Action GatewayResult} (hRun : args.runId = some runId)
    (h : Exec (meterAndCache gateway args (gateway.resolveModel args.tier) prompt cacheKey accepted)
      s log left t) :
    (spentIn runId t = spentIn runId s ∨ spentIn runId t = (spentIn runId s).map
      (· + costOf gateway.platform (acceptedCall gateway args prompt accepted))) ∧
      ∀ result, left = .done result → result.cached = false ∧ ∃ cost,
        callCost gateway.platform (acceptedCall gateway args prompt accepted) = .ok cost ∧
          result.costUsd = some cost ∧ spentIn runId t = (spentIn runId s).map (· + cost) := by
  have hCall : (acceptedCall gateway args prompt accepted).runId = some runId := hRun
  rcases Exec.of_bind h with ⟨q, hMeter, rfl, hOpen⟩ | ⟨cost, now, later, u, rfl, hMeter, hRest⟩
  · obtain ⟨hSpent, -⟩ := recordCall_spent hCall hMeter
    refine ⟨hSpent, fun result hDone => ?_⟩
    obtain ⟨_, hFirst, -⟩ := Prog.bind_eq_done hDone
    exact absurd hFirst (hOpen _)
  obtain ⟨hSpent, hPaid⟩ := recordCall_spent hCall hMeter
  obtain ⟨hCost, hAdded⟩ := hPaid cost rfl
  have hReturns (value : GatewayResult) (hValue : value.cached = false ∧ value.costUsd = some cost)
      {v : World} {last : Log Vocabulary} (hDone : Exec (.done value) v last left t) :
      t = v ∧ ∀ result, left = .done result → result.cached = false ∧ result.costUsd = some cost := by
    obtain ⟨-, rfl, rfl⟩ := Exec.of_done hDone
    refine ⟨rfl, fun result hResult => ?_⟩
    cases hResult
    exact hValue
  have hFinish : spentIn runId t = spentIn runId u ∧ ∀ result, left = .done result →
      result.cached = false ∧ result.costUsd = some cost := by
    dsimp only at hRest
    split at hRest
    · rcases Exec.of_bind hRest with ⟨q, hSet, rfl, hOpen⟩ | ⟨_, _, last, v, rfl, hSet, hDone⟩
      · refine ⟨(Exec.unpaid hSet (unpaid_kvSet _ _ _ _ _ _)).1, fun result hDone => ?_⟩
        obtain ⟨_, hFirst, -⟩ := Prog.bind_eq_done hDone
        exact absurd hFirst (hOpen _)
      · obtain ⟨rfl, hResult⟩ := hReturns _ ⟨rfl, rfl⟩ hDone
        exact ⟨(Exec.unpaid hSet (unpaid_kvSet _ _ _ _ _ _)).1, hResult⟩
    · obtain ⟨rfl, hResult⟩ := hReturns _ ⟨rfl, rfl⟩ hRest
      exact ⟨rfl, hResult⟩
  obtain ⟨hKept, hResult⟩ := hFinish
  refine ⟨by rwa [hKept], fun result hDone => ?_⟩
  obtain ⟨hCached, hReported⟩ := hResult result hDone
  exact ⟨hCached, cost, hCost, hReported, hKept.trans hAdded⟩

/-- What a call does to the spend of its run. -/
structure SpentBy (runId : Uuid) (gateway : LLMGateway) (args : CompleteArgs) (s : World)
    (log : Log Vocabulary) (left : Action GatewayResult) (t : World) : Prop where
  /-- At any time the cost of the last response has been added, or nothing. -/
  always : spentIn runId t = spentIn runId s ∨ ∃ before response,
    responses log = before ++ [response] ∧
      spentIn runId t = (spentIn runId s).map (· + responseCost gateway args response)
  returns : ∀ result, left = .done result →
    Uncharged runId s log result t ∨ Metered runId gateway args s log result t
  quarantines : ∀ error, left = .raise error → error.kind = .quarantineError →
    spentIn runId t = spentIn runId s

/-- The part of a call behind the cache. -/
theorem completeFresh_spent {messages : List Message} {cacheKey : Text} {left : Action GatewayResult}
    (hRun : args.runId = some runId)
    (hHooks : ∀ hook ∈ gateway.hooks, ∀ ctx, Keeps (Unpaid runId) (hook ctx))
    (h : Exec (completeFresh gateway args messages (requestPrompt gateway args) cacheKey) s log left
      t) : SpentBy runId gateway args s log left t := by
  rcases Exec.of_bind h with ⟨q, hTries, rfl, hOpen⟩ | ⟨accepted, now, later, u, rfl, hTries, hRest⟩
  · have hSame := attempts_spent hHooks hTries
    refine ⟨.inl hSame, fun result hDone => ?_, fun _ _ _ => hSame⟩
    obtain ⟨_, hFirst, -⟩ := Prog.bind_eq_done hDone
    exact absurd hFirst (hOpen _)
  have hBefore := attempts_spent hHooks hTries
  obtain ⟨⟨before, hNow⟩, hCall⟩ := attempts_last hTries
  have hLast : responses (now ++ later) = before ++ [accepted.response] := by
    rw [responses_append, hNow, responses_book hRest (book_meterAndCache _ _ _ _ _ _),
      List.append_nil]
  obtain ⟨hSpent, hReturns⟩ := meterAndCache_spent hRun hRest
  rw [hCall, hBefore] at hSpent
  rw [hCall] at hReturns
  refine ⟨hSpent.imp id fun hAdded => ⟨before, accepted.response, hLast, hAdded⟩,
    fun result hDone => ?_, fun error hRaise hKind => ?_⟩
  · obtain ⟨hFresh, cost, hCost, hReported, hAdded⟩ := hReturns result hDone
    exact .inr ⟨hFresh, before, accepted.response, hLast, cost, hCost, hReported, hBefore ▸ hAdded⟩
  · subst hRaise
    exact absurd hKind ((meterAndCache_raises _ _ _ _ _ _).exec hRest).unquarantined

/-- Steps in front which neither pay nor bring a response. -/
theorem SpentBy.after {u : World} {now later : Log Vocabulary} {left : Action GatewayResult}
    (h : SpentBy runId gateway args u later left t) (hBefore : spentIn runId u = spentIn runId s)
    (hNone : responses now = []) : SpentBy runId gateway args s (now ++ later) left t := by
  have hLog : responses (now ++ later) = responses later := by
    rw [responses_append, hNone, List.nil_append]
  obtain ⟨hAlways, hReturns, hQuarantines⟩ := h
  rw [hBefore, ← hLog] at hAlways
  refine ⟨hAlways, fun result hDone => ?_, fun error hRaise hKind => ?_⟩
  · refine (hReturns result hDone).imp (fun ⟨hCached, hNothing, hSame⟩ => ?_)
      fun ⟨hFresh, before, response, hLast, cost, hCost, hReported, hAdded⟩ => ?_
    · exact ⟨hCached, hLog.trans hNothing, hSame.trans hBefore⟩
    · exact ⟨hFresh, before, response, hLog.trans hLast, cost, hCost, hReported, hBefore ▸ hAdded⟩
  · exact (hQuarantines error hRaise hKind).trans hBefore

theorem complete_prompt (gateway : LLMGateway) {messages : List Message}
    (h : buildMessages args = .ok messages) : ∃ cacheKey, complete gateway args =
      completeWith gateway args messages (requestPrompt gateway args) cacheKey := by
  refine ⟨buildKey gateway.platform (gateway.resolveModel args.tier)
    (promptText gateway args messages) args.inputs, ?_⟩
  rw [complete, h, completeWith, lookUp, requestPrompt, h]
  cases args.useCache <;> rfl

/-- A call which is answered from the cache. -/
theorem cachedResult_spent {cacheKey : Text} {payload : Json} {left : Action GatewayResult}
    (h : Exec (Prog.ofExcept (cachedResult gateway args cacheKey payload)) s log left t) :
    log = [] ∧ t = s ∧ ∀ result, left = .done result → result.cached = true := by
  cases hResult : cachedResult gateway args cacheKey payload with
  | error error =>
      rw [hResult] at h
      obtain ⟨rfl, rfl, rfl⟩ := Exec.of_raise h
      exact ⟨rfl, rfl, fun result hDone => by cases hDone⟩
  | ok found =>
      rw [hResult] at h
      obtain ⟨rfl, rfl, rfl⟩ := Exec.of_done h
      refine ⟨rfl, rfl, fun result hDone => ?_⟩
      cases hDone
      exact (cachedResult_ok hResult).cached

/-- A call adds to the spend of its run the cost of the last response, whatever it has cost before
that; and nothing where it is answered from the cache or ends in quarantine. -/
theorem complete_spent (hRun : args.runId = some runId)
    (hHooks : ∀ hook ∈ gateway.hooks, ∀ ctx, Keeps (Unpaid runId) (hook ctx))
    {left : Action GatewayResult} (h : Exec (complete gateway args) s log left t) :
    SpentBy runId gateway args s log left t := by
  have hNothing (hSame : spentIn runId t = spentIn runId s) (hOpen : ∀ result, left ≠ .done result) :
      SpentBy runId gateway args s log left t :=
    ⟨.inl hSame, fun result hDone => absurd hDone (hOpen result), fun _ _ _ => hSame⟩
  cases hMessages : buildMessages args with
  | error error =>
      rw [complete_error hMessages] at h
      obtain ⟨-, rfl, rfl⟩ := h.of_raise
      exact hNothing rfl fun result hDone => by cases hDone
  | ok messages =>
      obtain ⟨cacheKey, hComplete⟩ := complete_prompt gateway hMessages
      rw [hComplete] at h
      have hLook : Keeps (Unpaid runId) (lookUp args cacheKey) :=
        keeps_ite (fun _ => unpaid_kvGet _) fun _ => keeps_done _
      rcases Exec.of_bind h with ⟨q, hLooked, rfl, hOpen⟩ | ⟨cached, now, later, u, rfl, hLooked, hRest⟩
      · refine hNothing (Exec.unpaid hLooked hLook).1 fun result hDone => ?_
        obtain ⟨_, hFirst, -⟩ := Prog.bind_eq_done hDone
        exact absurd hFirst (hOpen _)
      obtain ⟨hBefore, hNone⟩ := Exec.unpaid hLooked hLook
      cases cached with
      | some payload =>
          obtain ⟨rfl, rfl, hCached⟩ := cachedResult_spent hRest
          refine ⟨.inl hBefore, fun result hDone => .inl ⟨hCached result hDone, ?_, hBefore⟩,
            fun _ _ _ => hBefore⟩
          rw [responses_append, hNone]
          rfl
      | none =>
          exact (completeFresh_spent hRun hHooks hRest).after hBefore hNone

end Calls

/-! ## Two calls at a dollar a response -/

section Examples

/-- A gateway whose responses cost one dollar each, and which reads them in a certain way. -/
def dollarGateway (validate : (model : ResponseModel) → Json → Option model.Data) : LLMGateway where
  platform := { ({} : Served).platform with validate, completionCost := fun _ _ => some 1 }
  settings := ({} : Served).services.settings

/-- A call of a run for a verdict. -/
def verdictArgs : CompleteArgs :=
  { prompt := some "q".toList, runId := some ⟨1⟩, responseModel := some .confirmVerdict }

/-- The call in a state with the run. -/
def verdictCall (gateway : LLMGateway) : Log Vocabulary × Action GatewayResult × World :=
  simulate (({} : Served).outside fun _ => .grant) 60 0 (complete gateway verdictArgs)
    (World.submitted 5)

theorem verdictCall_exec (gateway : LLMGateway) : Exec (complete gateway verdictArgs)
    (World.submitted 5) (verdictCall gateway).1 (verdictCall gateway).2.1
      (verdictCall gateway).2.2 :=
  simulate_exec _ _ _ _ _

/-- One response is accepted, or three of them are rejected. -/
theorem verdictCall_facts :
    (verdictCall (dollarGateway fun model _ =>
        ({} : Served).read "a".toList model)).2.1.returned.map GatewayResult.cached = some false ∧
      (verdictCall (dollarGateway fun _ _ => none)).2.1.raised.map PyError.kind =
        some .quarantineError ∧
      (responses (verdictCall (dollarGateway fun _ _ => none)).1).map
        (responseCost (dollarGateway fun _ _ => none) verdictArgs) = [1, 1, 1] ∧
      spentIn ⟨1⟩ (verdictCall (dollarGateway fun _ _ => none)).2.2 = some 0 := by
  decide +kernel

/-- A call whose first response is accepted. -/
theorem complete_spent_once : ∃ result,
    (verdictCall (dollarGateway fun model _ => ({} : Served).read "a".toList model)).2.1 =
      .done result ∧
    Metered ⟨1⟩ (dollarGateway fun model _ => ({} : Served).read "a".toList model) verdictArgs
      (World.submitted 5)
      (verdictCall (dollarGateway fun model _ => ({} : Served).read "a".toList model)).1 result
      (verdictCall (dollarGateway fun model _ => ({} : Served).read "a".toList model)).2.2 := by
  obtain ⟨result, hReturned, hCached⟩ := Option.map_eq_some_iff.mp verdictCall_facts.1
  have hSpent := complete_spent (show verdictArgs.runId = some ⟨1⟩ from rfl) (by simp [dollarGateway]) (verdictCall_exec
    (dollarGateway fun model _ => ({} : Served).read "a".toList model))
  refine ⟨result, Prog.eq_done hReturned, ?_⟩
  rcases hSpent.returns result (Prog.eq_done hReturned) with hHit | hMetered
  · rw [hHit.cached] at hCached
    cases hCached
  · exact hMetered

/-- Three responses which are rejected, a dollar each, and nothing is recorded. -/
theorem complete_unpaid : ∃ (gateway : LLMGateway) (args : CompleteArgs) (s t : World)
    (log : Log Vocabulary) (error : PyError), gateway.hooks = [] ∧ args.runId = some ⟨1⟩ ∧
      Exec (complete gateway args) s log (.raise error) t ∧
      (responses log).map (responseCost gateway args) = [1, 1, 1] ∧
      spentIn ⟨1⟩ s = some 0 ∧ spentIn ⟨1⟩ t = some 0 := by
  obtain ⟨-, hRaised, hCosts, hSpent⟩ := verdictCall_facts
  obtain ⟨error, hError, -⟩ := Option.map_eq_some_iff.mp hRaised
  refine ⟨dollarGateway fun _ _ => none, verdictArgs, World.submitted 5, _, _, error, rfl, rfl,
    ?_, hCosts, rfl, hSpent⟩
  rw [← Prog.eq_raise hError]
  exact verdictCall_exec _

end Examples

end Ecrke
