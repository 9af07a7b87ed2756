import Ecrke.Guarantees.Hooks
import Ecrke.Session

/-!
# Calls which are answered from the cache

A call of the gateway which finds a live entry under its cache key returns the payload of this
entry.  The key is the hash of the model, the prompt text and the inputs; whatever else makes up the
request does not enter into it.

* `requestKey` -- the cache key of a call.
* `Answered` -- the provider has answered an attempt of a call with content which is accepted.
* `complete_cache` -- what an execution of a call leaves in the cache.
* `complete_done` -- a call which returns: from an entry of the cache, or freshly.
* `cachedCall_sound` -- a cached result comes from an earlier call with the same cache key.
* `typedResult_iff` -- the calls whose data is an instance of their response model.
-/

namespace Ecrke

open Durable

/-! ## Requests and answers -/

/-- The prompt text of a call: its prompt, or its messages as JSON. -/
def promptText (gateway : LLMGateway) (args : CompleteArgs) (messages : List Message) : Text :=
  match args.prompt with
  | some prompt => if prompt.isEmpty then dumpMessages gateway.platform messages else prompt
  | none => dumpMessages gateway.platform messages

/-- The cache key of a call, or the exception of a call without prompt and messages. -/
def requestKey (gateway : LLMGateway) (args : CompleteArgs) : Except PyError Text :=
  (buildMessages args).map fun messages => buildKey gateway.platform
    (gateway.resolveModel args.tier) (promptText gateway args messages) args.inputs

/-- What an attempt makes of the content of an answer. -/
def acceptedData (gateway : LLMGateway) (args : CompleteArgs) (attempt : Nat) (content : Text) :
    Except PyError ResultData :=
  match args.responseModel with
  | none => .ok (.text content)
  | some responseModel =>
      (validateContent gateway.platform responseModel attempt content).map (.model responseModel)

/-- The provider has answered an attempt of the call with content which is accepted. -/
def Answered (gateway : LLMGateway) (args : CompleteArgs) (log : Log Vocabulary) (content : Text)
    (data : ResultData) : Prop :=
  ∃ ctx response, ctx.model = gateway.resolveModel args.tier ∧
    buildMessages args = .ok ctx.messages ∧
    (∃ m ∈ log, m.happening = .asked (.provider ctx.model (attemptMessages gateway args ctx)
      (callKwargs args ctx.attempt)) (ProviderAnswer.response response)) ∧
    response.content = some content ∧ acceptedData gateway args ctx.attempt content = .ok data

/-- What the cache keeps of an accepted answer. -/
def entryPayload (gateway : LLMGateway) (args : CompleteArgs) (content : Text) (data : ResultData) :
    Json :=
  .obj (payloadOf (gateway.resolveModel args.tier) content data)

/-- The reading of the clock of a step. -/
def Moment.clock (m : Moment Vocabulary) : Option Instant :=
  match m.happening with
  | .asked .now (clock : Instant) => some clock
  | _ => none

/-- An entry has not expired by the first clock which is read. -/
def KVEntry.isLive (log : Log Vocabulary) (entry : KVEntry) : Bool :=
  match entry.expiresAt with
  | none => true
  | some expiresAt => (log.findSome? Moment.clock).any fun clock => expiresAt > clock

/-- The live entry under a key. -/
def liveEntry (key : Text) (log : Log Vocabulary) (s : World) : Option KVEntry :=
  (findRow KVEntry.key key s.tables.kvCache).filter (KVEntry.isLive log)

/-- Validated data as JSON. -/
def ResultData.dump : ResultData → Option Json
  | .text _ => none
  | .model responseModel data => some (responseModel.dump data)

theorem entryPayload_content {gateway : LLMGateway} {args : CompleteArgs} {content : Text}
    {data : ResultData} :
    (entryPayload gateway args content data).get? "content".toList = some (.str content) := by
  cases data <;> rfl

theorem entryPayload_model {gateway : LLMGateway} {args : CompleteArgs} {content : Text}
    {data : ResultData} : (entryPayload gateway args content data).get? "model".toList =
      some (.str (gateway.resolveModel args.tier)) := by
  cases data <;> rfl

theorem entryPayload_data {gateway : LLMGateway} {args : CompleteArgs} {content : Text}
    {data : ResultData} :
    (entryPayload gateway args content data).get? "data".toList = data.dump := by
  cases data <;> rfl

theorem modelValidate_ok {p : Platform} {model : ResponseModel} {value : Json}
    {data : model.Data} (h : modelValidate p model value = .ok data) :
    p.validate model value = some data := by
  unfold modelValidate at h
  cases hFound : p.validate model value with
  | none => simp [hFound] at h
  | some found => simpa [hFound] using h

/-- Content is accepted only if some JSON value in it validates. -/
theorem validateContent_ok {p : Platform} {model : ResponseModel} {attempt : Nat} {content : Text}
    {data : model.Data} (h : validateContent p model attempt content = .ok data) :
    ∃ value, p.validate model value = some data := by
  have hParsed (parsed : Except PyError Json) (hData : (parsed >>= modelValidate p model) = .ok data) :
      ∃ value, p.validate model value = some data := by
    cases parsed with
    | error error => cases hData
    | ok value => exact ⟨value, modelValidate_ok hData⟩
  unfold validateContent at h
  dsimp only at h
  split at h
  · exact hParsed _ h
  · exact hParsed _ h

/-- The data which is accepted for a response model is an instance of it. -/
theorem acceptedData_typed {gateway : LLMGateway} {args : CompleteArgs} {attempt : Nat}
    {content : Text} {data : ResultData} {model : ResponseModel}
    (h : acceptedData gateway args attempt content = .ok data)
    (hModel : args.responseModel = some model) :
    ∃ value found, data = .model model found ∧
      gateway.platform.validate model value = some found := by
  simp only [acceptedData, hModel] at h
  cases hContent : validateContent gateway.platform model attempt content with
  | error error => simp [hContent, Except.map] at h
  | ok found =>
      simp only [hContent, Except.map, Except.ok.injEq] at h
      obtain ⟨value, hValue⟩ := validateContent_ok hContent
      exact ⟨value, found, h.symm, hValue⟩

/-- What a cached result is made of. -/
structure CachedFrom (gateway : LLMGateway) (args : CompleteArgs) (cacheKey : Text) (payload : Json)
    (result : GatewayResult) : Prop where
  cacheKey : result.cacheKey = cacheKey
  cached : result.cached = true
  content : ∃ content, payload.get? "content".toList = some content ∧
    result.content = content.toText gateway.platform.unicode gateway.platform.floatRepr
  model : ∃ model, payload.get? "model".toList = some model ∧
    result.model = model.toText gateway.platform.unicode gateway.platform.floatRepr
  typed : ∀ model value, args.responseModel = some model → payload.get? "data".toList = some value →
    ∃ data, gateway.platform.validate model value = some data ∧ result.data = .model model data
  plain : args.responseModel = none ∨ payload.get? "data".toList = none →
    result.data = .text result.content

theorem cachedResult_ok {gateway : LLMGateway} {args : CompleteArgs} {cacheKey : Text}
    {payload : Json} {result : GatewayResult}
    (h : cachedResult gateway args cacheKey payload = .ok result) :
    CachedFrom gateway args cacheKey payload result := by
  unfold cachedResult at h
  cases hContent : payload.get? "content".toList with
  | none =>
      simp only [hContent, bind, Except.bind] at h
      cases h
  | some content =>
      simp only [hContent, bind, Except.bind] at h
      split at h
      · rename_i responseModel value hResponse hData
        cases hValid : modelValidate gateway.platform responseModel value with
        | error error =>
            simp only [hValid, Except.map] at h
            cases h
        | ok data =>
            cases hModel : payload.get? "model".toList with
            | none =>
                simp only [hValid, hModel, Except.map] at h
                cases h
            | some model =>
                simp only [hValid, hModel, Except.map] at h
                cases h
                refine ⟨rfl, rfl, ⟨content, hContent, rfl⟩, ⟨model, hModel, rfl⟩, ?_, ?_⟩
                · intro asked kept hAsked hKept
                  rw [hResponse] at hAsked
                  rw [hData] at hKept
                  cases hAsked
                  cases hKept
                  exact ⟨data, modelValidate_ok hValid, rfl⟩
                · intro hPlain
                  rw [hResponse, hData] at hPlain
                  simp at hPlain
      · rename_i hPlain
        cases hModel : payload.get? "model".toList with
        | none =>
            simp only [hModel] at h
            cases h
        | some model =>
            simp only [hModel] at h
            cases h
            refine ⟨rfl, rfl, ⟨content, hContent, rfl⟩, ⟨model, hModel, rfl⟩, ?_, fun _ => rfl⟩
            intro asked kept hAsked hKept
            exact (hPlain asked kept hAsked hKept).elim

/-! ## The entries of the cache -/

/-- The cache gains no entry. -/
def CacheShrinks (m : Moment Vocabulary) : Prop :=
  m.after.tables.kvCache ⊆ m.before.tables.kvCache

/-- The cache gains nothing but entries with a certain key and payload. -/
def CacheGains (key : Text) (payload : Json) (m : Moment Vocabulary) : Prop :=
  ∀ entry ∈ m.after.tables.kvCache,
    entry ∈ m.before.tables.kvCache ∨ entry.key = key ∧ entry.payload = payload

section Footprints

variable {key : Text} {payload : Json}

theorem CacheShrinks.of_same {s t : World} {happening : Happening Vocabulary}
    (h : t.tables.kvCache = s.tables.kvCache) : CacheShrinks ⟨s, happening, t⟩ := by
  intro entry hEntry
  exact h ▸ hEntry

theorem CacheShrinks.gains (m : Moment Vocabulary) (h : CacheShrinks m) : CacheGains key payload m :=
  fun _ hEntry => .inl (h hEntry)

theorem CacheShrinks.of_pacing (m : Moment Vocabulary) (h : Pacing m) : CacheShrinks m :=
  .of_same (by rw [h.tables])

theorem CacheShrinks.of_resting (m : Moment Vocabulary) (h : Resting m) : CacheShrinks m :=
  .of_pacing m h.toPacing

/-- A look-up removes an entry at most. -/
theorem cacheShrinks_kvGet (key : Text) : Keeps CacheShrinks (KVCache.get key) := by
  apply keeps_kvGet CacheShrinks.of_resting
  refine keeps_commitWrites (fun s => .of_same rfl) ?_
  intro s t hTables _ _ entry hEntry
  rw [hTables] at hEntry
  exact List.mem_of_mem_filter hEntry

theorem cacheGains_upsert (row : KVEntry) :
    Keeps (CacheGains row.key row.payload) (KVCache.upsert row) := by
  refine keeps_upsert (fun m hm => (CacheShrinks.of_resting m hm).gains) ?insert ?update
  case insert =>
    refine keeps_commitWrites (fun s _ hEntry => .inl hEntry) ?_
    intro s t hTables _ _ entry hEntry
    rw [hTables] at hEntry
    rcases List.mem_append.mp hEntry with hOld | hNew
    · exact .inl hOld
    · obtain rfl := List.mem_singleton.mp hNew
      exact .inr ⟨rfl, rfl⟩
  case update =>
    refine keeps_commitWrites (fun s _ hEntry => .inl hEntry) ?_
    intro s t hTables _ _ entry hEntry
    rw [hTables] at hEntry
    rcases mem_modifyRow.mp hEntry with ⟨old, -, -, rfl⟩ | ⟨hOld, -⟩
    · exact .inr ⟨rfl, rfl⟩
    · exact .inl hOld

theorem cacheGains_kvSet (p : Platform) (model promptHash : Text) (fields : List (Text × Json))
    (ttlSeconds : Option Int) : Keeps (CacheGains key (.obj fields))
      (KVCache.set p key model promptHash fields ttlSeconds) :=
  keeps_kvSet (fun m hm => (CacheShrinks.of_resting m hm).gains) fun expiresAt =>
    cacheGains_upsert ⟨key, model, promptHash, .obj fields, expiresAt⟩

theorem cacheShrinks_recordCall (p : Platform) (call : MeteredCall) :
    Keeps CacheShrinks (recordCall p call) := by
  refine keeps_recordCall CacheShrinks.of_resting fun run cost =>
    keeps_commitWrites (fun s => .of_same rfl) ?_
  intro s t hTables _ _
  apply CacheShrinks.of_same
  rw [hTables]
  unfold Run.updates
  dsimp only
  split
  · rfl
  · rfl

/-- The meter leaves the cache alone, and what is then kept there is the accepted answer. -/
theorem cacheGains_meterAndCache (gateway : LLMGateway) (args : CompleteArgs) (prompt : Text)
    (accepted : Accepted) :
    Keeps (CacheGains key (entryPayload gateway args accepted.content accepted.data))
      (meterAndCache gateway args (gateway.resolveModel args.tier) prompt key accepted) :=
  keeps_meterAndCache (fun call => (cacheShrinks_recordCall _ call).mono CacheShrinks.gains)
    fun _ => cacheGains_kvSet ..

/-- Along an execution the cache gains what its steps gain. -/
theorem Exec.cacheGains {α : Type} {p q : Action α} {s t : World} {log : Log Vocabulary}
    (h : Exec p s log q t) (hp : Keeps (CacheGains key payload) p) :
    ∀ entry ∈ t.tables.kvCache, entry ∈ s.tables.kvCache ∨ entry.key = key ∧ entry.payload = payload := by
  refine (h.linked.invariant (fun u : World => ∀ entry ∈ u.tables.kvCache,
    entry ∈ s.tables.kvCache ∨ entry.key = key ∧ entry.payload = payload) ?_ fun _ => .inl).1
  intro m hm hBefore entry hEntry
  rcases (h.keeps hp).1 m hm entry hEntry with hOld | hNew
  · exact hBefore entry hOld
  · exact .inr hNew

theorem Exec.cacheShrinks {α : Type} {p q : Action α} {s t : World} {log : Log Vocabulary}
    (h : Exec p s log q t) (hp : Keeps CacheShrinks p) : t.tables.kvCache ⊆ s.tables.kvCache :=
  (h.linked.invariant (fun u : World => u.tables.kvCache ⊆ s.tables.kvCache)
    (fun m hm hBefore _ hEntry => hBefore ((h.keeps hp).1 m hm hEntry)) fun _ hEntry => hEntry).1

end Footprints

/-! ## Executions -/

section Executions

variable {gateway : LLMGateway} {args : CompleteArgs} {s t : World} {log : Log Vocabulary}

/-- A look-up which comes to its end finds the payload of the live entry. -/
theorem kvGet_done {key : Text} {found : Option Json}
    (h : Exec (KVCache.get key) s log (.done found) t) (rest : Log Vocabulary) :
    found = (liveEntry key (log ++ rest) s).map KVEntry.payload := by
  rcases Exec.of_select h (.done _) with ⟨error, -, hRaise, -⟩ | ⟨later, rfl, hRest⟩
  · cases hRaise
  cases hEntry : findRow KVEntry.key key s.tables.kvCache with
  | none =>
      simp only [hEntry] at hRest
      obtain ⟨-, hDone, -⟩ := Exec.of_done hRest
      cases hDone
      simp [liveEntry, hEntry]
  | some entry =>
      simp only [hEntry] at hRest
      cases hExpires : entry.expiresAt with
      | none =>
          simp only [hExpires] at hRest
          obtain ⟨-, hDone, -⟩ := Exec.of_done hRest
          cases hDone
          simp [liveEntry, hEntry, KVEntry.isLive, hExpires]
      | some expiresAt =>
          simp only [hExpires] at hRest
          rcases Exec.of_query hRest with ⟨-, hOpen, -⟩ | ⟨clock, last, rfl, hLast⟩
          · cases hOpen
          change Instant at clock
          -- The question to the clock is the first one of the log.
          have hClock : (⟨s, .looked, s⟩ :: ⟨s, .asked .now clock, s⟩ :: last ++ rest).findSome?
              Moment.clock = some clock := rfl
          have hLive : entry.isLive (⟨s, .looked, s⟩ :: ⟨s, .asked .now clock, s⟩ :: last ++ rest) =
              decide (expiresAt > clock) := by
            simp only [KVEntry.isLive, hExpires, hClock, Option.any_some]
          by_cases hExpired : expiresAt ≤ clock
          · simp only [hExpired, if_true] at hLast
            obtain ⟨_, _, _, _, -, -, hDone⟩ := Exec.of_bind_done hLast
            obtain ⟨-, hDone, -⟩ := Exec.of_done hDone
            cases hDone
            simp only [liveEntry, hEntry, Option.filter_some, hLive]
            simp [hExpired]
          · simp only [hExpired, if_false] at hLast
            obtain ⟨-, hDone, -⟩ := Exec.of_done hLast
            cases hDone
            simp only [liveEntry, hEntry, Option.filter_some, hLive]
            simp [not_le.mp hExpired]

theorem upsert_done (row : KVEntry) {value : Unit}
    (h : Exec (KVCache.upsert row) s log (.done value) t) :
    findRow KVEntry.key row.key t.tables.kvCache = some row := by
  rcases Exec.of_select h (.done _) with ⟨error, -, hRaise, -⟩ | ⟨later, rfl, hRest⟩
  · cases hRaise
  cases hEntry : findRow KVEntry.key row.key s.tables.kvCache with
  | none =>
      simp only [hEntry] at hRest
      have hTables := commitWrites_done hRest
      have hCache : t.tables.kvCache = s.tables.kvCache ++ [row] := by rw [hTables]; rfl
      rw [hCache, findRow_append, hEntry]
      simp [findRow]
  | some entry =>
      simp only [hEntry] at hRest
      have hTables := commitWrites_done hRest
      have hCache : t.tables.kvCache =
          modifyRow KVEntry.key row.key (fun _ => row) s.tables.kvCache := by rw [hTables]; rfl
      rw [hCache, findRow_modifyRow (fun _ _ => rfl), if_pos rfl, hEntry]
      rfl

/-- A payload which has been kept is found under its key. -/
theorem kvSet_done {p : Platform} {key model promptHash : Text} {fields : List (Text × Json)}
    {ttlSeconds : Option Int} {value : Unit}
    (h : Exec (KVCache.set p key model promptHash fields ttlSeconds) s log (.done value) t) :
    ∃ entry, findRow KVEntry.key key t.tables.kvCache = some entry ∧
      entry.payload = .obj fields := by
  obtain ⟨_, _, _, _, -, -, hSet⟩ := Exec.of_bind_done h
  cases ttlSeconds with
  | none => exact ⟨_, upsert_done ⟨key, model, promptHash, .obj fields, none⟩ hSet, rfl⟩
  | some seconds =>
      obtain ⟨_, _, _, _, -, hClock, hSet⟩ := Exec.of_bind_done hSet
      obtain ⟨expiresAt, _, _, _, -, hExpires, hSet⟩ := Exec.of_bind_done hSet
      exact ⟨_, upsert_done ⟨key, model, promptHash, .obj fields, expiresAt⟩ hSet, rfl⟩

/-- What is returned after an accepted attempt, and what is kept in the cache. -/
theorem meterAndCache_done {prompt key : Text} {accepted : Accepted} {result : GatewayResult}
    (h : Exec (meterAndCache gateway args (gateway.resolveModel args.tier) prompt key accepted) s log
      (.done result) t) :
    (result.content = accepted.content ∧ result.data = accepted.data ∧ result.cached = false ∧
      result.model = gateway.resolveModel args.tier ∧ result.cacheKey = key) ∧
    (args.useCache = true → ∃ entry, findRow KVEntry.key key t.tables.kvCache = some entry ∧
      entry.payload = entryPayload gateway args accepted.content accepted.data) := by
  obtain ⟨cost, _, _, _, -, -, hRest⟩ := Exec.of_bind_done h
  split at hRest
  · obtain ⟨_, _, _, _, -, hSet, hDone⟩ := Exec.of_bind_done hRest
    obtain ⟨-, hResult, rfl⟩ := Exec.of_done hDone
    cases hResult
    exact ⟨⟨rfl, rfl, rfl, rfl, rfl⟩, fun _ => kvSet_done hSet⟩
  · obtain ⟨-, hResult, rfl⟩ := Exec.of_done hRest
    cases hResult
    exact ⟨⟨rfl, rfl, rfl, rfl, rfl⟩, fun hCache => absurd hCache ‹_›⟩

/-! ### Attempts -/

theorem backOff_returns (kind : ErrorClass) (message : Text) (delays : List ℚ) (attempt : Nat) :
    Returns (S := Vocabulary) (· = none) (backOff kind message delays attempt) := by
  unfold backOff
  simp only [raiseError_bind]
  refine Returns.ite (fun _ => returns_raise) fun _ => ?_
  split
  · exact returns_bind fun _ => returns_done rfl
  · exact returns_raise

/-- A log whose last question to the provider is a certain one, which is answered with a response. -/
def RespondsLast (request : Text × List Message × List (Text × Json)) (response : LLMResponse)
    (log : Log Vocabulary) : Prop :=
  ∃ before w later, log = before ++ ⟨w, .asked (.provider request.1 request.2.1 request.2.2)
    (ProviderAnswer.response response), w⟩ :: later ∧ ∀ m ∈ later, Offline m

section Responds

variable {request : Text × List Message × List (Text × Json)} {response : LLMResponse}
  {now later : Log Vocabulary}

theorem RespondsLast.after (h : RespondsLast request response later) :
    RespondsLast request response (now ++ later) := by
  obtain ⟨before, w, last, rfl, hLast⟩ := h
  exact ⟨now ++ before, w, last, by simp, hLast⟩

/-- The response is an answer of the provider. -/
theorem RespondsLast.answered (h : RespondsLast request response later) :
    ∃ m ∈ later, m.happening = .asked (.provider request.1 request.2.1 request.2.2)
      (ProviderAnswer.response response) := by
  obtain ⟨before, w, last, rfl, -⟩ := h
  exact ⟨_, List.mem_append_right _ List.mem_cons_self, rfl⟩

end Responds

/-- A try which returns a response ends with the answer of the provider. -/
theorem tryProvider_responds {model : Text} {messages : List Message} {kwargs : List (Text × Json)}
    {attempt : Nat} {response : LLMResponse}
    (h : Exec (tryProvider gateway model messages kwargs attempt) s log (.done (some response)) t) :
    RespondsLast (model, messages, kwargs) response log := by
  rcases Exec.of_query h with ⟨-, hOpen, -⟩ | ⟨answer, later, rfl, hRest⟩
  · cases hOpen
  have hGivesUp {kind : ErrorClass} {message : Text} {delays : List ℚ}
      (hBack : Exec (backOff kind message delays attempt) s later (.done (some response)) t) :
      False := by
    have hNone := (backOff_returns kind message delays attempt).exec hBack
    cases hNone
  cases (answer : ProviderAnswer) with
  | response found =>
      have hSame := (recordTime_returns (some found)).exec hRest
      cases hSame
      have hLater := (hRest.keeps (pace_recordTime (some response))).1
      exact ⟨[], s, later, rfl, fun m hm => (hLater m hm).asks⟩
  | rateLimitError message =>
      dsimp only at hRest
      split at hRest
      · obtain ⟨-, hRaise, -⟩ := Exec.of_raise hRest
        cases hRaise
      · exact (hGivesUp hRest).elim
  | serviceUnavailableError message => exact (hGivesUp hRest).elim
  | apiConnectionError message => exact (hGivesUp hRest).elim
  | otherError error =>
      obtain ⟨-, hRaise, -⟩ := Exec.of_raise hRest
      cases hRaise

theorem callWithRateLimitRetry_responds {model : Text} {messages : List Message}
    {kwargs : List (Text × Json)} {response : LLMResponse}
    (h : Exec (callWithRateLimitRetry gateway model messages kwargs) s log (.done response) t) :
    RespondsLast (model, messages, kwargs) response log := by
  have hTries {u : World} {now : Log Vocabulary}
      (hLoop : Exec (Prog.forElse (tryProvider gateway model messages kwargs)
        (raiseError .attributeError "'NoneType' object has no attribute 'get'".toList)
        (List.range (maxRateLimitRetries + 1))) u now (.done response) t) :
      RespondsLast (model, messages, kwargs) response now := by
    obtain ⟨earlier, later, v, rfl, hLast⟩ := hLoop.of_forElse_done
    rcases hLast with ⟨attempt, -, hTry⟩ | hFallback
    · exact (tryProvider_responds hTry).after
    · obtain ⟨-, hRaise, -⟩ := Exec.of_raise hFallback
      cases hRaise
  obtain ⟨time, _, later, _, rfl, -, hRest⟩ := Exec.of_bind_done h
  obtain ⟨last, _, later, _, rfl, -, hRest⟩ := Exec.of_bind_done hRest
  apply RespondsLast.after
  apply RespondsLast.after
  cases last with
  | none => exact hTries hRest
  | some last =>
      dsimp only at hRest
      split at hRest
      · obtain ⟨_, _, later, _, rfl, -, hRest⟩ := Exec.of_bind_done hRest
        exact (hTries hRest).after
      · exact hTries hRest

/-- What an accepted attempt takes from the last response of its log. -/
structure AcceptedFrom (gateway : LLMGateway) (args : CompleteArgs) (ctx : GatewayCallContext)
    (log : Log Vocabulary) (accepted : Accepted) : Prop where
  responds : RespondsLast (ctx.model, attemptMessages gateway args ctx, callKwargs args ctx.attempt)
    accepted.response log
  content : accepted.response.content = some accepted.content
  data : acceptedData gateway args ctx.attempt accepted.content = .ok accepted.data
  promptTokens : accepted.promptTokens = accepted.response.usage.bind Usage.promptTokens
  completionTokens : accepted.completionTokens =
    accepted.response.usage.bind Usage.completionTokens

/-- An accepted attempt has been answered by the provider. -/
theorem attemptCall_accepts {model : Text} {messages : List Message} {cacheKey : Text}
    {attempt : Nat} {accepted : Accepted}
    (h : Exec (attemptCall gateway args model messages cacheKey attempt) s log
      (.done (some accepted)) t) :
    AcceptedFrom gateway args
      ⟨model, args.tier, messages, args.runId, cacheKey, args.responseModel, attempt⟩ log accepted := by
  obtain ⟨_, _, later, _, rfl, -, hRest⟩ := Exec.of_bind_done h
  obtain ⟨response, now, last, _, rfl, hCall, hLast⟩ := Exec.of_bind_done hRest
  have hResponds := callWithRateLimitRetry_responds hCall
  have hAccepted {u : World} {content : Text} {data : ResultData}
      (hContent : response.content = some content)
      (hData : acceptedData gateway args attempt content = .ok data)
      (hDone : Exec (.done (some (⟨response, content, data, response.usage.bind Usage.promptTokens,
        response.usage.bind Usage.completionTokens⟩ : Accepted)) : Action (Option Accepted)) u last
        (.done (some accepted)) t) :
      AcceptedFrom gateway args
        ⟨model, args.tier, messages, args.runId, cacheKey, args.responseModel, attempt⟩
        (now ++ last) accepted := by
    obtain ⟨rfl, hSame, -⟩ := Exec.of_done hDone
    obtain rfl := Option.some.inj (Prog.done.inj hSame)
    rw [List.append_nil]
    exact ⟨hResponds, hContent, hData, rfl, rfl⟩
  suffices hNow : AcceptedFrom gateway args
      ⟨model, args.tier, messages, args.runId, cacheKey, args.responseModel, attempt⟩
      (now ++ last) accepted from
    ⟨hNow.responds.after, hNow.content, hNow.data, hNow.promptTokens, hNow.completionTokens⟩
  cases hContent : response.content with
  | none =>
      simp only [hContent] at hLast
      obtain ⟨-, hRaise, -⟩ := Exec.of_raise hLast
      cases hRaise
  | some content =>
      simp only [hContent] at hLast
      cases hModel : args.responseModel with
      | none =>
          simp only [hModel] at hLast hAccepted
          exact hAccepted hContent (by rw [acceptedData, hModel]) hLast
      | some model =>
          simp only [hModel] at hLast hAccepted
          cases hValid : validateContent gateway.platform model attempt content with
          | ok data =>
              simp only [hValid] at hLast
              refine hAccepted hContent ?_ hLast
              simp only [acceptedData, hModel, hValid, Except.map]
          | error error =>
              simp only [hValid] at hLast
              split at hLast
              · obtain ⟨-, hDone, -⟩ := Exec.of_done hLast
                cases hDone
              · obtain ⟨-, hRaise, -⟩ := Exec.of_raise hLast
                cases hRaise

theorem attemptCall_answered {messages : List Message} {cacheKey : Text} {attempt : Nat}
    {accepted : Accepted} (hMessages : buildMessages args = .ok messages)
    (h : Exec (attemptCall gateway args (gateway.resolveModel args.tier) messages cacheKey attempt)
      s log (.done (some accepted)) t) :
    Answered gateway args log accepted.content accepted.data := by
  have hAccepts := attemptCall_accepts h
  exact ⟨_, accepted.response, rfl, hMessages, hAccepts.responds.answered, hAccepts.content,
    hAccepts.data⟩

end Executions

/-! ## Calls -/

/-- A result which comes from the live entry under the key. -/
structure FromCache (gateway : LLMGateway) (args : CompleteArgs) (s : World) (log : Log Vocabulary)
    (result : GatewayResult) (entry : KVEntry) : Prop where
  useCache : args.useCache = true
  found : liveEntry result.cacheKey log s = some entry
  result : cachedResult gateway args result.cacheKey entry.payload = .ok result

/-- A result which comes from an answer of the provider, with its entry in the cache. -/
structure Fresh (gateway : LLMGateway) (args : CompleteArgs) (s : World) (log : Log Vocabulary)
    (result : GatewayResult) (t : World) : Prop where
  missed : args.useCache = true → liveEntry result.cacheKey log s = none
  answered : Answered gateway args log result.content result.data
  cached : result.cached = false
  model : result.model = gateway.resolveModel args.tier
  kept : args.useCache = true → ∃ entry,
    findRow KVEntry.key result.cacheKey t.tables.kvCache = some entry ∧
      entry.payload = entryPayload gateway args result.content result.data

/-- The attempts of `complete`. -/
def attempts (gateway : LLMGateway) (args : CompleteArgs) (messages : List Message)
    (cacheKey : Text) : Action Accepted :=
  Prog.forElse (attemptCall gateway args (gateway.resolveModel args.tier) messages cacheKey)
    (.raise (quarantine gateway)) (List.range (gateway.maxRetries + 1))

/-- The part of `complete` behind the cache. -/
def completeFresh (gateway : LLMGateway) (args : CompleteArgs) (messages : List Message)
    (prompt cacheKey : Text) : Action GatewayResult := do
  let accepted ← attempts gateway args messages cacheKey
  meterAndCache gateway args (gateway.resolveModel args.tier) prompt cacheKey accepted

/-- The look-up of a call, if it uses the cache. -/
def lookUp (args : CompleteArgs) (cacheKey : Text) : Action (Option Json) :=
  if args.useCache then KVCache.get cacheKey else pure none

/-- `complete` with messages: the cache first. -/
def completeWith (gateway : LLMGateway) (args : CompleteArgs) (messages : List Message)
    (prompt cacheKey : Text) : Action GatewayResult := do
  let cached ← lookUp args cacheKey
  match cached with
  | some payload => Prog.ofExcept (cachedResult gateway args cacheKey payload)
  | none => completeFresh gateway args messages prompt cacheKey

section Calls

variable {gateway : LLMGateway} {args : CompleteArgs} {s t : World} {log : Log Vocabulary}

theorem complete_ok (gateway : LLMGateway) {messages : List Message} (h : buildMessages args = .ok messages) :
    ∃ prompt cacheKey, requestKey gateway args = .ok cacheKey ∧
      complete gateway args = completeWith gateway args messages prompt cacheKey := by
  refine ⟨promptText gateway args messages, _, by rw [requestKey, h]; rfl, ?_⟩
  rw [complete, h, completeWith, lookUp]
  cases args.useCache <;> rfl

theorem complete_error {error : PyError} (h : buildMessages args = .error error) :
    complete gateway args = .raise error := by
  rw [complete, h]
  rfl

/-- The attempts of a call add nothing to the cache, when its hooks do not. -/
theorem cacheShrinks_attempts
    (hHooks : ∀ hook ∈ gateway.hooks, ∀ ctx, Keeps CacheShrinks (hook ctx))
    (args : CompleteArgs) (messages : List Message) (cacheKey : Text) :
    Keeps CacheShrinks (attempts gateway args messages cacheKey) :=
  keeps_forElse (fun _ _ => keeps_attemptCall CacheShrinks.of_pacing
    (fun _ _ _ _ _ => .of_same rfl) hHooks _ _ _ _ _) (keeps_raise _)

/-- The accepted attempt of a call has been answered. -/
theorem attempts_answered {messages : List Message} {cacheKey : Text} {accepted : Accepted}
    (hMessages : buildMessages args = .ok messages)
    (h : Exec (attempts gateway args messages cacheKey) s log (.done accepted) t) :
    Answered gateway args log accepted.content accepted.data := by
  obtain ⟨earlier, now, u, rfl, hLast⟩ := Exec.of_forElse_done h
  rcases hLast with ⟨attempt, -, hTry⟩ | hRaise
  · obtain ⟨ctx, response, hModel, hSame, ⟨m, hm, hAsked⟩, hRest⟩ := attemptCall_answered hMessages hTry
    exact ⟨ctx, response, hModel, hSame, ⟨m, by simp [hm], hAsked⟩, hRest⟩
  · obtain ⟨-, hEnd, -⟩ := Exec.of_raise hRaise
    cases hEnd

theorem Answered.mono {now all : Log Vocabulary} {content : Text} {data : ResultData}
    (h : Answered gateway args now content data) (hLog : ∀ m ∈ now, m ∈ all) :
    Answered gateway args all content data := by
  obtain ⟨ctx, response, hModel, hMessages, ⟨m, hm, hAsked⟩, hRest⟩ := h
  exact ⟨ctx, response, hModel, hMessages, ⟨m, hLog m hm, hAsked⟩, hRest⟩

/-- Whatever becomes of a call, the cache gains nothing but its own answer under its own key. -/
theorem complete_cache (hHooks : ∀ hook ∈ gateway.hooks, ∀ ctx, Keeps CacheShrinks (hook ctx))
    {left : Action GatewayResult} (h : Exec (complete gateway args) s log left t) :
    ∀ entry ∈ t.tables.kvCache, entry ∈ s.tables.kvCache ∨
      (requestKey gateway args = .ok entry.key ∧ ∃ content data,
        Answered gateway args log content data ∧
          entry.payload = entryPayload gateway args content data) := by
  cases hMessages : buildMessages args with
  | error error =>
      rw [complete_error hMessages] at h
      obtain ⟨-, -, rfl⟩ := h.of_raise
      exact fun entry => .inl
  | ok messages =>
      obtain ⟨prompt, cacheKey, hKey, hComplete⟩ := complete_ok gateway hMessages
      rw [hComplete] at h
      have hLook : Keeps CacheShrinks (lookUp args cacheKey) :=
        keeps_ite (fun _ => cacheShrinks_kvGet _) fun _ => keeps_done _
      rcases Exec.of_bind h with ⟨_, hLooked, -⟩ | ⟨cached, now, later, u, rfl, hLooked, hRest⟩
      · exact fun entry hEntry => .inl (Exec.cacheShrinks hLooked hLook hEntry)
      have hFirst := Exec.cacheShrinks hLooked hLook
      cases cached with
      | some payload =>
          have hSame := Exec.cacheShrinks hRest (keeps_ofExcept _)
          exact fun entry hEntry => .inl (hFirst (hSame hEntry))
      | none =>
          have hTries := cacheShrinks_attempts hHooks args messages cacheKey
          rcases Exec.of_bind hRest with ⟨_, hOpen, -⟩ | ⟨accepted, tries, last, v, rfl, hDone, hLast⟩
          · exact fun entry hEntry => .inl (hFirst (Exec.cacheShrinks hOpen hTries hEntry))
          intro entry hEntry
          rcases Exec.cacheGains hLast (cacheGains_meterAndCache _ _ _ _) entry hEntry with
            hOld | ⟨rfl, hPayload⟩
          · exact .inl (hFirst (Exec.cacheShrinks hDone hTries hOld))
          · have hAnswered := attempts_answered hMessages hDone
            exact .inr ⟨hKey, _, _, hAnswered.mono fun m hm => by simp [hm], hPayload⟩

/-- A call which returns has found its result in the cache, or it is fresh. -/
theorem complete_done {result : GatewayResult}
    (h : Exec (complete gateway args) s log (.done result) t) :
    requestKey gateway args = .ok result.cacheKey ∧
      ((∃ entry, FromCache gateway args s log result entry) ∨ Fresh gateway args s log result t) := by
  cases hMessages : buildMessages args with
  | error error =>
      rw [complete_error hMessages] at h
      obtain ⟨-, hEnd, -⟩ := h.of_raise
      cases hEnd
  | ok messages =>
      obtain ⟨prompt, cacheKey, hKey, hComplete⟩ := complete_ok gateway hMessages
      rw [hComplete] at h
      obtain ⟨cached, now, later, u, rfl, hLook, hRest⟩ := Exec.of_bind_done h
      have hFound : args.useCache = true →
          cached = (liveEntry cacheKey (now ++ later) s).map KVEntry.payload := by
        intro hCache
        rw [lookUp, if_pos hCache] at hLook
        exact kvGet_done hLook later
      cases cached with
      | some payload =>
          have hCache : args.useCache = true := by
            by_contra hOff
            rw [lookUp, if_neg hOff] at hLook
            obtain ⟨-, hEnd, -⟩ := Exec.of_done hLook
            cases hEnd
          obtain ⟨entry, hEntry, rfl⟩ := Option.map_eq_some_iff.mp (hFound hCache).symm
          cases hResult : cachedResult gateway args cacheKey entry.payload with
          | error error =>
              simp only [hResult] at hRest
              obtain ⟨-, hEnd, -⟩ := Exec.of_raise hRest
              cases hEnd
          | ok found =>
              simp only [hResult] at hRest
              obtain ⟨-, hEnd, -⟩ := Exec.of_done hRest
              cases hEnd
              have hSame := (cachedResult_ok hResult).cacheKey
              subst hSame
              exact ⟨hKey, .inl ⟨entry, hCache, hEntry, hResult⟩⟩
      | none =>
          obtain ⟨accepted, tries, last, v, rfl, hTries, hLast⟩ := Exec.of_bind_done hRest
          obtain ⟨⟨hContent, hData, hCached, hModel, rfl⟩, hKept⟩ := meterAndCache_done hLast
          have hAnswered := attempts_answered hMessages hTries
          refine ⟨hKey, .inr ⟨fun hCache => ?_, ?_, hCached, hModel, ?_⟩⟩
          · exact Option.map_eq_none_iff.mp (hFound hCache).symm
          · rw [hContent, hData]
            exact hAnswered.mono fun m hm => by simp [hm]
          · rw [hContent, hData]
            exact hKept

/-- The data of a call without the cache has been answered. -/
theorem completeModel_done {model : ResponseModel} {reply : GatewayResult × model.Data}
    (hUse : args.useCache = false)
    (h : Exec (completeModel gateway model args) s log (.done reply) t) :
    Answered gateway { args with responseModel := some model } log reply.1.content
      (.model model reply.2) := by
  obtain ⟨result, now, later, u, rfl, hCall, hRest⟩ := Exec.of_bind_done h
  obtain ⟨-, ⟨entry, hHit⟩ | hFresh⟩ := complete_done hCall
  · have hCached : args.useCache = true := hHit.useCache
    rw [hUse] at hCached
    cases hCached
  have hAnswered := hFresh.answered
  cases hData : result.data with
  | text content =>
      simp only [hData] at hRest
      obtain ⟨-, hRaise, -⟩ := Exec.of_raise hRest
      cases hRaise
  | model found data =>
      simp only [hData] at hRest
      split at hRest
      · rename_i hSame
        subst hSame
        obtain ⟨-, hDone, -⟩ := Exec.of_done hRest
        cases hDone
        rw [hData] at hAnswered
        exact hAnswered.mono fun m hm => by simp [hm]
      · obtain ⟨-, hRaise, -⟩ := Exec.of_raise hRest
        cases hRaise

end Calls

/-! ## Histories of calls -/

/-- A call of a gateway. -/
structure GatewayCall where
  gateway : LLMGateway
  args : CompleteArgs

/-- The cache key of a call. -/
def GatewayCall.key (call : GatewayCall) : Except PyError Text := requestKey call.gateway call.args

/-- The hooks of a call add nothing to the cache. -/
def GatewayCall.Admitted (call : GatewayCall) : Prop :=
  ∀ hook ∈ call.gateway.hooks, ∀ ctx, Keeps CacheShrinks (hook ctx)

/-- Calls one after the other, whose hooks add nothing to the cache.  Each of them may return, raise,
or be cut off anywhere. -/
abbrev CallHistory : World → List (GatewayCall × Log Vocabulary) → World → Prop :=
  Calls (fun call : GatewayCall => complete call.gateway call.args) GatewayCall.Admitted

section Histories

variable {calls : List (GatewayCall × Log Vocabulary)} {s t u : World} {log : Log Vocabulary}
  {result : GatewayResult}

/-- The call has left the entry: under its key, with an answer of the provider. -/
def LeftBy (call : GatewayCall) (log : Log Vocabulary) (entry : KVEntry) : Prop :=
  call.key = .ok entry.key ∧ ∃ content data, Answered call.gateway call.args log content data ∧
    entry.payload = entryPayload call.gateway call.args content data

/-- Every entry of the cache has been left by one of the calls. -/
theorem CallHistory.entries (h : CallHistory s calls t) (hEmpty : s.tables.kvCache = []) :
    ∀ entry ∈ t.tables.kvCache, ∃ earlier ∈ calls, LeftBy earlier.1 earlier.2 entry := by
  induction h with
  | nil => simp [hEmpty]
  | @snoc t u calls past call hHooks log left last ih =>
      intro entry hEntry
      rcases complete_cache hHooks last entry hEntry with hOld | hNew
      · obtain ⟨earlier, hEarlier, hLeft⟩ := ih entry hOld
        exact ⟨earlier, List.mem_append_left _ hEarlier, hLeft⟩
      · exact ⟨(call, log), by simp, hNew⟩

/-- A cached result has the content and the model of an earlier call with the same cache key, which
the provider has answered. -/
theorem cachedCall_sound (hEmpty : s.tables.kvCache = []) (hPast : CallHistory s calls t)
    {call : GatewayCall} (h : Exec (complete call.gateway call.args) t log (.done result) u)
    (hCached : result.cached = true) :
    ∃ earlier ∈ calls, earlier.1.key = call.key ∧ ∃ content data,
      Answered earlier.1.gateway earlier.1.args earlier.2 content data ∧
      result.content = content ∧
      result.model = earlier.1.gateway.resolveModel earlier.1.args.tier ∧
      CachedFrom call.gateway call.args result.cacheKey
        (entryPayload earlier.1.gateway earlier.1.args content data) result := by
  obtain ⟨hKey, ⟨entry, hHit⟩ | hFresh⟩ := complete_done h
  · obtain ⟨hRow, -⟩ := Option.filter_eq_some_iff.mp hHit.found
    obtain ⟨hMem, hSame⟩ := findRow_some hRow
    obtain ⟨earlier, hEarlier, hEarlierKey, content, data, hAnswered, hPayload⟩ :=
      hPast.entries hEmpty entry hMem
    have hFrom := cachedResult_ok hHit.result
    rw [hPayload] at hFrom
    refine ⟨earlier, hEarlier, ?_, content, data, hAnswered, ?_, ?_, hFrom⟩
    · rw [hEarlierKey, hSame]
      exact hKey.symm
    · obtain ⟨found, hFound, hContent⟩ := hFrom.content
      rw [entryPayload_content, Option.some.injEq] at hFound
      rw [hContent, ← hFound]
      rfl
    · obtain ⟨found, hFound, hModel⟩ := hFrom.model
      rw [entryPayload_model, Option.some.injEq] at hFound
      rw [hModel, ← hFound]
      rfl
  · rw [hFresh.cached] at hCached
    cases hCached

/-- The request of a call to the provider, apart from the prompt which goes into the cache key. -/
def SameRequest (call other : GatewayCall) : Prop :=
  call.gateway.resolveModel call.args.tier = other.gateway.resolveModel other.args.tier ∧
    buildMessages call.args = buildMessages other.args ∧
    call.args.responseModel = other.args.responseModel ∧
    call.args.temperature = other.args.temperature ∧ call.args.maxTokens = other.args.maxTokens ∧
    call.args.providerKwargs = other.args.providerKwargs

end Histories

/-! ## Typed results -/

section Typed

variable {gateway : LLMGateway} {args : CompleteArgs} {s t : World} {log : Log Vocabulary}
  {result : GatewayResult} {model : ResponseModel}

/-- The data of a result is an instance of a response model, read from a value which validates. -/
def TypedData (p : Platform) (model : ResponseModel) (data : ResultData) : Prop :=
  ∃ value found, data = .model model found ∧ p.validate model value = some found

/-- A live entry under the key of the call has validated data. -/
def EntryTyped (gateway : LLMGateway) (args : CompleteArgs) (s : World) (log : Log Vocabulary) :
    Prop :=
  ∀ key entry, requestKey gateway args = .ok key → liveEntry key log s = some entry →
    ∃ value, entry.payload.get? "data".toList = some value

/-- A cached result has data of its response model just if its entry has data. -/
theorem FromCache.typed_iff {entry : KVEntry} (h : FromCache gateway args s log result entry)
    (hModel : args.responseModel = some model) :
    TypedData gateway.platform model result.data ↔
      ∃ value, entry.payload.get? "data".toList = some value := by
  have hFrom := cachedResult_ok h.result
  constructor
  · rintro ⟨value, found, hData, -⟩
    by_contra hNone
    have hPlain := Option.eq_none_iff_forall_ne_some.mpr (not_exists.mp hNone)
    rw [hFrom.plain (.inr hPlain)] at hData
    cases hData
  · rintro ⟨value, hValue⟩
    obtain ⟨found, hValid, hData⟩ := hFrom.typed model value hModel hValue
    exact ⟨value, found, hData, hValid⟩

theorem Fresh.typed (h : Fresh gateway args s log result t)
    (hModel : args.responseModel = some model) :
    TypedData gateway.platform model result.data := by
  obtain ⟨ctx, response, -, -, -, -, hData⟩ := h.answered
  exact acceptedData_typed hData hModel

/-- A result which is found in the entry of a fresh one has the same data, when instances survive
being written out and read back. -/
theorem cached_data_eq {result' : GatewayResult} {t : World} {s' t' : World}
    {log log' : Log Vocabulary} (hModel : args.responseModel = some model)
    (hUse : args.useCache = true)
    (h : Exec (complete gateway args) s log (.done result) t) (hFresh : result.cached = false)
    (h' : Exec (complete gateway args) s' log' (.done result') t') (hCached : result'.cached = true)
    (hEntry : ∀ key, requestKey gateway args = .ok key →
      findRow KVEntry.key key s'.tables.kvCache = findRow KVEntry.key key t.tables.kvCache)
    (hRead : ∀ value data, gateway.platform.validate model value = some data →
      gateway.platform.validate model (model.dump data) = some data) :
    result'.data = result.data := by
  obtain ⟨hKey, ⟨entry, hHit⟩ | hNew⟩ := complete_done h
  · rw [(cachedResult_ok hHit.result).cached] at hFresh
    cases hFresh
  obtain ⟨hKey', ⟨entry, hHit⟩ | hOther⟩ := complete_done h'
  · have hSame : result'.cacheKey = result.cacheKey := by
      rw [hKey, Except.ok.injEq] at hKey'
      exact hKey'.symm
    obtain ⟨kept, hKept, hPayload⟩ := hNew.kept hUse
    obtain ⟨hFound, -⟩ := Option.filter_eq_some_iff.mp hHit.found
    rw [hSame, hEntry _ hKey, hKept, Option.some.injEq] at hFound
    subst hFound
    obtain ⟨value, found, hData, hValid⟩ := hNew.typed hModel
    have hDump : kept.payload.get? "data".toList = some (model.dump found) := by
      rw [hPayload, entryPayload_data, hData]
      rfl
    obtain ⟨again, hAgain, hResult⟩ := (cachedResult_ok hHit.result).typed model _ hModel hDump
    rw [hRead value found hValid, Option.some.injEq] at hAgain
    rw [hResult, hData, hAgain]
  · rw [hOther.cached] at hCached
    cases hCached

/-- A call with a response model which returns has an instance of this model just if it does not
find an entry without data; and a result which is found in the entry of a fresh result of the same
call has the same data. -/
theorem typedResult_iff (hModel : args.responseModel = some model)
    (h : Exec (complete gateway args) s log (.done result) t) :
    (TypedData gateway.platform model result.data ↔
      (args.useCache = true → EntryTyped gateway args s log)) ∧
    (args.useCache = true → result.cached = false → ∀ s' log' result' t',
      Exec (complete gateway args) s' log' (.done result') t' → result'.cached = true →
      (∀ key, requestKey gateway args = .ok key →
        findRow KVEntry.key key s'.tables.kvCache = findRow KVEntry.key key t.tables.kvCache) →
      (∀ value data, gateway.platform.validate model value = some data →
        gateway.platform.validate model (model.dump data) = some data) →
      result'.data = result.data) := by
  refine ⟨?_, fun hUse hFresh s' log' result' t' h' hCached hEntry hRead =>
    cached_data_eq hModel hUse h hFresh h' hCached hEntry hRead⟩
  obtain ⟨hKey, ⟨entry, hHit⟩ | hFresh⟩ := complete_done h
  · rw [hHit.typed_iff hModel]
    constructor
    · intro hData _ key other hOther hLive
      rw [hKey, Except.ok.injEq] at hOther
      rw [← hOther, hHit.found, Option.some.injEq] at hLive
      rwa [← hLive]
    · exact fun hTyped => hTyped hHit.useCache _ entry hKey hHit.found
  · refine iff_of_true (hFresh.typed hModel) fun hUse key other hOther hLive => ?_
    rw [hKey, Except.ok.injEq] at hOther
    rw [← hOther, hFresh.missed hUse] at hLive
    cases hLive

end Typed

/-! ## Two calls with one prompt -/

section Examples

/-- A platform on which every object validates. -/
def Served.answering (served : Served) : LLMGateway where
  platform := { served.platform with validate := fun model _ => served.read "a b c".toList model }
  settings := served.services.settings

/-- A call with a system message. -/
def askedAs (system : Text) : GatewayCall :=
  ⟨({} : Served).answering, { prompt := some "q".toList, system := some system }⟩

/-- A call with a response model, or without one. -/
def askedFor (responseModel : Option ResponseModel) : GatewayCall :=
  ⟨({} : Served).answering, { prompt := some "q".toList, responseModel }⟩

/-- A call in a state, from a certain step on. -/
def called (call : GatewayCall) (step : Nat) (s : World) :
    Log Vocabulary × Action GatewayResult × World :=
  simulate (({} : Served).outside fun _ => .grant) 20 step (complete call.gateway call.args) s

/-- The state after a first call. -/
def World.called (first : GatewayCall) : World := (Ecrke.called first 0 (World.submitted 1)).2.2

theorem called_exec {call : GatewayCall} {step : Nat} {s : World} {result : GatewayResult}
    (h : (called call step s).2.1.returned = some result) :
    Exec (complete call.gateway call.args) s (called call step s).1 (.done result)
      (called call step s).2.2 := by
  rw [← Prog.eq_done h]
  exact simulate_exec _ _ _ _ _

theorem called_history {first : GatewayCall} (hHooks : first.gateway.hooks = []) :
    CallHistory (World.submitted 1) [(first, (called first 0 (World.submitted 1)).1)]
      (World.called first) :=
  .snoc .nil first (by simp [GatewayCall.Admitted, hHooks]) (simulate_exec _ _ _ _ _)

theorem submitted_cache : (World.submitted 1).tables.kvCache = [] := rfl

/-- The second call asks under another system message and is answered from the cache. -/
theorem askedAs_cached :
    (called (askedAs "b".toList) 20 (.called (askedAs "a".toList))).2.1.returned.map
      GatewayResult.cached = some true := by
  decide +kernel

/-- Its result is that of the first call. -/
theorem cachedCall_sound_twice :
    ∃ result, (called (askedAs "b".toList) 20 (.called (askedAs "a".toList))).2.1 = .done result ∧
      result.cached = true ∧
      ∃ earlier ∈ [(askedAs "a".toList, (called (askedAs "a".toList) 0 (World.submitted 1)).1)],
        earlier.1.key = (askedAs "b".toList).key ∧
          ∃ content data, Answered earlier.1.gateway earlier.1.args earlier.2 content data ∧
            result.content = content := by
  obtain ⟨result, hReturned, hHit⟩ := Option.map_eq_some_iff.mp askedAs_cached
  obtain ⟨earlier, hEarlier, hKey, content, data, hAnswered, hContent, -⟩ :=
    cachedCall_sound submitted_cache (called_history rfl) (called_exec hReturned) hHit
  exact ⟨result, Prog.eq_done hReturned, hHit, earlier, hEarlier, hKey, content, data, hAnswered,
    hContent⟩

/-- A cached result of a call which nobody has made before. -/
theorem cachedCall_differs :
    ∃ s calls t, ∃ call : GatewayCall, ∃ log result u, s.tables.kvCache = [] ∧
      CallHistory s calls t ∧ call.args.useCache = true ∧
      (∀ earlier ∈ calls, earlier.1.args.useCache = true) ∧
      Exec (complete call.gateway call.args) t log (.done result) u ∧ result.cached = true ∧
      ∀ earlier ∈ calls, ¬ SameRequest earlier.1 call := by
  obtain ⟨result, hReturned, hHit⟩ := Option.map_eq_some_iff.mp askedAs_cached
  refine ⟨_, _, _, _, _, result, _, submitted_cache, called_history rfl, rfl, ?_,
    called_exec hReturned, hHit, ?_⟩
  · simp [askedAs]
  · intro earlier hEarlier hSame
    obtain rfl := List.mem_singleton.mp hEarlier
    obtain ⟨-, hMessages, -⟩ := hSame
    simp [askedAs, buildMessages] at hMessages

/-- A call with a response model, the same one again, and one after a call without a model. -/
theorem askedFor_facts :
    (called (askedFor (some .confirmVerdict)) 0 (World.submitted 1)).2.1.returned.map
        GatewayResult.cached = some false ∧
      (called (askedFor (some .confirmVerdict)) 20
        (.called (askedFor (some .confirmVerdict)))).2.1.returned.map
          GatewayResult.cached = some true ∧
      (called (askedFor (some .confirmVerdict)) 20
        (.called (askedFor none))).2.1.returned.map (fun result => result.data.dump.isSome) =
          some false := by
  decide +kernel

/-- A call with a response model after the same one: typed, and equal to it. -/
theorem typedResult_iff_twice :
    ∃ first second,
      (called (askedFor (some .confirmVerdict)) 0 (World.submitted 1)).2.1 = .done first ∧
      first.cached = false ∧
      (called (askedFor (some .confirmVerdict)) 20
        (.called (askedFor (some .confirmVerdict)))).2.1 = .done second ∧
      second.cached = true ∧
      TypedData ({} : Served).answering.platform .confirmVerdict first.data ∧
      second.data = first.data := by
  obtain ⟨hFresh, hCached, -⟩ := askedFor_facts
  obtain ⟨first, hFirst, hNew⟩ := Option.map_eq_some_iff.mp hFresh
  obtain ⟨second, hSecond, hHit⟩ := Option.map_eq_some_iff.mp hCached
  have hModel : (askedFor (some .confirmVerdict)).args.responseModel = some .confirmVerdict := rfl
  obtain ⟨hTyped, hEqual⟩ := typedResult_iff hModel (called_exec hFirst)
  refine ⟨first, second, Prog.eq_done hFirst, hNew, Prog.eq_done hSecond, hHit, hTyped.mpr ?_, ?_⟩
  · intro _ key entry _ hLive
    rw [liveEntry, submitted_cache] at hLive
    cases hLive
  · refine hEqual rfl hNew _ _ _ _ (called_exec hSecond) hHit (fun _ _ => rfl) ?_
    intro value data hValid
    exact hValid

/-- After a call without a response model, the same prompt with one returns the plain text. -/
theorem typedResult_fails :
    ∃ s calls t, ∃ call : GatewayCall, ∃ model log result u, s.tables.kvCache = [] ∧
      CallHistory s calls t ∧ call.args.responseModel = some model ∧
      Exec (complete call.gateway call.args) t log (.done result) u ∧
      ∀ data, result.data ≠ .model model data := by
  obtain ⟨-, -, hPlain⟩ := askedFor_facts
  obtain ⟨result, hReturned, hNone⟩ := Option.map_eq_some_iff.mp hPlain
  have hModel : (askedFor (some .confirmVerdict)).args.responseModel = some .confirmVerdict := rfl
  refine ⟨_, _, _, _, .confirmVerdict, _, result, _, submitted_cache, called_history rfl, hModel,
    called_exec hReturned, ?_⟩
  intro data hData
  rw [hData] at hNone
  cases hNone

end Examples

end Ecrke
