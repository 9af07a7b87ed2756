import Ecrke.Guarantees.Attempts

/-!
# Bounded calls

A call of the gateway makes a bounded number of attempts, each of them with a bounded number of
calls of the provider.  It returns validated data, or it raises an exception whose cause is known.

* `CallLog` -- the log of a call: its look-up, its attempts, and what follows an accepted one.
* `Cause`, `RaisedBy` -- the causes of an exception.
* `Completed`, `complete_completed` -- how a call ends.
* `complete_bounded` -- the calls of the provider, the data and the exceptions of a call.
-/

namespace Ecrke

open Durable

/-! ## The log of a call -/

/-- The log of a call: its look-up, its attempts, and what follows an accepted one. -/
structure CallLog where
  lookUp : Log Vocabulary
  attempts : List AttemptLog
  rest : Log Vocabulary

namespace CallLog

/-- The steps of the call. -/
def log (c : CallLog) : Log Vocabulary :=
  c.lookUp ++ c.attempts.flatMap AttemptLog.log ++ c.rest

/-- The steps of the call without those of its hooks. -/
def own (c : CallLog) : Log Vocabulary :=
  c.lookUp ++ c.attempts.flatMap AttemptLog.calls ++ c.rest

/-- The parts of the log belong to the parts of the call. -/
structure Of (gateway : LLMGateway) (args : CompleteArgs) (c : CallLog) : Prop where
  lookUp : ∃ cacheKey s q t, Exec (Ecrke.lookUp args cacheKey) s c.lookUp q t
  attempts : ∀ a ∈ c.attempts, a.Of gateway
  length : c.attempts.length ≤ gateway.maxRetries + 1
  rest : c.rest = [] ∨ ∃ prompt cacheKey accepted s q t,
    Exec (meterAndCache gateway args (gateway.resolveModel args.tier) prompt cacheKey accepted) s
      c.rest q t

end CallLog

section Parts

variable {gateway : LLMGateway} {args : CompleteArgs} {c : CallLog}

theorem book_lookUp (args : CompleteArgs) (cacheKey : Text) :
    Keeps Bookkeeping (lookUp args cacheKey) :=
  keeps_ite (fun _ => book_kvGet _) fun _ => keeps_done _

theorem cacheShrinks_lookUp (args : CompleteArgs) (cacheKey : Text) :
    Keeps CacheShrinks (lookUp args cacheKey) :=
  keeps_ite (fun _ => cacheShrinks_kvGet _) fun _ => keeps_done _

/-- Neither the look-up nor what follows an accepted attempt asks the provider. -/
theorem CallLog.Of.offline (h : c.Of gateway args) :
    (∀ m ∈ c.lookUp, Offline m) ∧ ∀ m ∈ c.rest, Offline m := by
  constructor
  · obtain ⟨cacheKey, s, q, t, hLook⟩ := h.lookUp
    exact fun m hm => ((hLook.keeps (book_lookUp args cacheKey)).1 m hm).asks
  · rcases h.rest with hNil | ⟨prompt, cacheKey, accepted, s, q, t, hRest⟩
    · simp [hNil]
    · exact fun m hm => ((hRest.keeps (book_meterAndCache ..)).1 m hm).asks

/-- Four calls of the provider for each attempt. -/
theorem calls_le {logs : List AttemptLog} (h : ∀ a ∈ logs, a.Of gateway) :
    (logs.flatMap AttemptLog.calls).countP Moment.callsProvider ≤ logs.length * 4 := by
  induction logs with
  | nil => simp
  | cons a later ih =>
      have hFirst : a.calls.countP Moment.callsProvider ≤ 4 := (h a List.mem_cons_self).calls
      have hLater := ih fun b hb => h b (List.mem_cons_of_mem _ hb)
      rw [List.flatMap_cons, List.countP_append, List.length_cons]
      omega

/-- The calls of the provider which the call itself makes. -/
theorem CallLog.Of.calls (h : c.Of gateway args) :
    c.own.countP Moment.callsProvider ≤ (gateway.maxRetries + 1) * 4 := by
  obtain ⟨hLook, hRest⟩ := h.offline
  have hTries := calls_le h.attempts
  have hLength := h.length
  rw [CallLog.own, List.countP_append, List.countP_append, offline_calls hLook,
    offline_calls hRest]
  omega

/-- The responses which the call itself receives are those of its attempts. -/
theorem CallLog.Of.responses (h : c.Of gateway args) :
    responses c.own = c.attempts.flatMap fun a => Ecrke.responses a.calls := by
  obtain ⟨hLook, hRest⟩ := h.offline
  have hEach : Ecrke.responses (c.attempts.flatMap AttemptLog.calls) =
      c.attempts.flatMap fun a => Ecrke.responses a.calls := by
    induction c.attempts with
    | nil => rfl
    | cons a later ih => rw [List.flatMap_cons, responses_append, ih, List.flatMap_cons]
  rw [CallLog.own, responses_append, responses_append, responses_offline hLook,
    responses_offline hRest, hEach, List.nil_append, List.append_nil]

/-- If what follows the attempts adds nothing to the cache, then no step of the call itself does. -/
theorem CallLog.Of.spares (h : c.Of gateway args) (hRest : ∀ m ∈ c.rest, CacheShrinks m) :
    ∀ m ∈ c.own, CacheShrinks m := by
  intro m hm
  rcases List.mem_append.mp hm with hFront | hLast
  · rcases List.mem_append.mp hFront with hFirst | hTries
    · obtain ⟨cacheKey, s, q, t, hLook⟩ := h.lookUp
      exact (hLook.keeps (cacheShrinks_lookUp args cacheKey)).1 m hFirst
    · obtain ⟨a, ha, hIn⟩ := List.mem_flatMap.mp hTries
      exact (h.attempts a ha).spares m hIn
  · exact hRest m hLast

end Parts

/-! ## How a call ends -/

/-- What a call raises an exception because of. -/
inductive Cause where
  | request
  | lookUp
  | entry
  | hook
  | provider
  | schema
  | meter
  | keeping
  deriving DecidableEq

/-- The attempts of a call end with the acceptance of the last one. -/
def Accepts (gateway : LLMGateway) (args : CompleteArgs) (logs : List AttemptLog)
    (accepted : Accepted) : Prop :=
  Attempted gateway args (List.range (gateway.maxRetries + 1)) logs (.done accepted)

/-- An exception and its cause, with the log of the call. -/
inductive RaisedBy (gateway : LLMGateway) (args : CompleteArgs) :
    Cause → CallLog → PyError → Prop where
  | request {error : PyError} (hMessages : buildMessages args = .error error) :
      RaisedBy gateway args .request ⟨[], [], []⟩ error
  | lookUp {error : PyError} {cacheKey : Text} {s t : World} {now : Log Vocabulary}
      (hLook : Exec (lookUp args cacheKey) s now (.raise error) t) :
      RaisedBy gateway args .lookUp ⟨now, [], []⟩ error
  | entry {error : PyError} {cacheKey : Text} {payload : Json} {now : Log Vocabulary}
      (hEntry : cachedResult gateway args cacheKey payload = .error error) :
      RaisedBy gateway args .entry ⟨now, [], []⟩ error
  | hook {error : PyError} {now : Log Vocabulary} {earlier : List AttemptLog} {a : AttemptLog}
      (hHook : HookRaises gateway a error) :
      RaisedBy gateway args .hook ⟨now, earlier ++ [a], []⟩ error
  | provider {error : PyError} {now : Log Vocabulary} {earlier : List AttemptLog} {a : AttemptLog}
      (hProvider : ProviderRaises a error) :
      RaisedBy gateway args .provider ⟨now, earlier ++ [a], []⟩ error
  | schema {now : Log Vocabulary} {logs : List AttemptLog} (hAll : AllRejected gateway args logs) :
      RaisedBy gateway args .schema ⟨now, logs, []⟩ (quarantine gateway)
  | meter {error : PyError} {now rest : Log Vocabulary} {logs : List AttemptLog}
      {accepted : Accepted} {call : MeteredCall} {s t : World}
      (hAccepts : Accepts gateway args logs accepted)
      (hMeter : Exec (recordCall gateway.platform call) s rest (.raise error) t) :
      RaisedBy gateway args .meter ⟨now, logs, rest⟩ error
  | keeping {error : PyError} {now metered rest : Log Vocabulary} {logs : List AttemptLog}
      {accepted : Accepted} {key model promptHash : Text} {fields : List (Text × Json)} {s t : World}
      (hAccepts : Accepts gateway args logs accepted)
      (hSet : Exec (KVCache.set gateway.platform key model promptHash fields args.ttlSeconds) s rest
        (.raise error) t) :
      RaisedBy gateway args .keeping ⟨now, logs, metered ++ rest⟩ error

/-- How a call ends: with an exception, with a cached result, with a fresh one, or not at all. -/
inductive Completed (gateway : LLMGateway) (args : CompleteArgs) :
    CallLog → Action GatewayResult → Prop where
  | raised {c : CallLog} {error : PyError} (cause : Cause)
      (hRaised : RaisedBy gateway args cause c error) : Completed gateway args c (.raise error)
  | cached {now : Log Vocabulary} {result : GatewayResult} (hCached : result.cached = true) :
      Completed gateway args ⟨now, [], []⟩ (.done result)
  | fresh {c : CallLog} {accepted : Accepted} {result : GatewayResult}
      (hAccepts : Accepts gateway args c.attempts accepted) (hFresh : result.cached = false)
      (hData : result.data = accepted.data) : Completed gateway args c (.done result)
  | cut {c : CallLog} {left : Action GatewayResult} (hOpen : ¬ Ended left) :
      Completed gateway args c left

section Endings

variable {gateway : LLMGateway} {args : CompleteArgs} {s t : World} {log : Log Vocabulary}
  {c : CallLog} {left : Action GatewayResult} {error : PyError}

/-- What follows an accepted attempt. -/
theorem meterAndCache_completed {prompt cacheKey : Text} {accepted : Accepted}
    {now : Log Vocabulary} {logs : List AttemptLog} (hAccepts : Accepts gateway args logs accepted)
    (h : Exec (meterAndCache gateway args (gateway.resolveModel args.tier) prompt cacheKey accepted)
      s log left t) : Completed gateway args ⟨now, logs, log⟩ left := by
  by_cases hEnd : Ended left
  · cases hEnd with
    | done result =>
        obtain ⟨⟨-, hData, hFresh, -, -⟩, -⟩ := meterAndCache_done h
        exact .fresh hAccepts hFresh hData
    | raise error =>
        rcases Exec.of_bind_cases h with ⟨_, hMeter, hSame⟩ | ⟨_, -, -, hOpen⟩ |
          ⟨cost, metered, rest, u, rfl, -, hRest⟩
        · cases hSame
          exact .raised .meter (.meter hAccepts hMeter)
        · exact (hOpen (.raise error)).elim
        · dsimp only at hRest
          split at hRest
          · rcases Exec.of_bind_cases hRest with ⟨_, hSet, hSame⟩ | ⟨_, -, -, hOpen⟩ |
              ⟨_, _, _, _, -, -, hDone⟩
            · cases hSame
              exact .raised .keeping (.keeping hAccepts hSet)
            · exact (hOpen (.raise error)).elim
            · obtain ⟨-, hDone, -⟩ := Exec.of_done hDone
              cases hDone
          · obtain ⟨-, hDone, -⟩ := Exec.of_done hRest
            cases hDone
  · exact .cut hEnd

/-- The part of a call behind the cache, after its look-up. -/
theorem completeFresh_completed {messages : List Message} {prompt cacheKey key : Text}
    {now : Log Vocabulary} {q : Action (Option Json)} {u v : World}
    (hLook : Exec (lookUp args key) u now q v) (hFormed : WellFormed log)
    (h : Exec (completeFresh gateway args messages prompt cacheKey) s log left t) :
    ∃ logs rest, log = logs.flatMap AttemptLog.log ++ rest ∧
      (⟨now, logs, rest⟩ : CallLog).Of gateway args ∧ Completed gateway args ⟨now, logs, rest⟩ left := by
  -- An execution which has not come past the attempts.
  have hTriesOnly {p : Action Accepted} (hTries : Exec (attempts gateway args messages cacheKey) s log p t)
      (hEnds : ∀ logs, Attempted gateway args (List.range (gateway.maxRetries + 1)) logs p →
        Completed gateway args ⟨now, logs, []⟩ left) :
      ∃ logs rest, log = logs.flatMap AttemptLog.log ++ rest ∧
        (⟨now, logs, rest⟩ : CallLog).Of gateway args ∧
          Completed gateway args ⟨now, logs, rest⟩ left := by
    obtain ⟨logs, hLog, hOf, hAttempted⟩ := attempts_attempted hFormed hTries
    have hLength := hAttempted.length
    rw [List.length_range] at hLength
    exact ⟨logs, [], by rw [hLog, List.append_nil], ⟨⟨key, u, q, v, hLook⟩, hOf, hLength, .inl rfl⟩,
      hEnds logs hAttempted⟩
  rcases Exec.of_bind_cases h with ⟨error, hTries, rfl⟩ | ⟨p, hTries, -, hOpen⟩ |
    ⟨accepted, tried, rest, w, rfl, hTries, hRest⟩
  · apply hTriesOnly hTries
    intro logs hAttempted
    rcases hAttempted.of_raise with ⟨rfl, hAll⟩ | ⟨earlier, a, rfl, hHook | hProvider⟩
    · exact .raised .schema (.schema hAll)
    · exact .raised .hook (.hook hHook)
    · exact .raised .provider (.provider hProvider)
  · exact hTriesOnly hTries fun _ _ => .cut hOpen
  · have hFormedTried : WellFormed tried := fun response hIn =>
      hFormed response (by rw [responses_append]; exact List.mem_append_left _ hIn)
    obtain ⟨logs, rfl, hOf, hAttempted⟩ := attempts_attempted hFormedTried hTries
    have hLength := hAttempted.length
    rw [List.length_range] at hLength
    refine ⟨logs, rest, rfl, ⟨⟨key, u, q, v, hLook⟩, hOf, hLength, .inr ?_⟩, ?_⟩
    · exact ⟨prompt, cacheKey, accepted, w, left, t, hRest⟩
    · exact meterAndCache_completed hAttempted hRest

/-- A call has a log of these parts, and ends in one of these ways. -/
theorem complete_completed (hFormed : WellFormed log)
    (h : Exec (complete gateway args) s log left t) :
    ∃ c : CallLog, c.log = log ∧ c.Of gateway args ∧ Completed gateway args c left := by
  have hLookOnly {key : Text} {u v : World} {now : Log Vocabulary} {q : Action (Option Json)}
      (hLook : Exec (lookUp args key) u now q v) : (⟨now, [], []⟩ : CallLog).Of gateway args :=
    ⟨⟨key, u, q, v, hLook⟩, by simp, by simp, .inl rfl⟩
  have hLog (now : Log Vocabulary) : (⟨now, [], []⟩ : CallLog).log = now := by simp [CallLog.log]
  cases hMessages : buildMessages args with
  | error error =>
      rw [complete_error hMessages] at h
      obtain ⟨rfl, rfl, rfl⟩ := Exec.of_raise h
      exact ⟨⟨[], [], []⟩, rfl, hLookOnly (.refl (lookUp args []) t),
        .raised .request (.request hMessages)⟩
  | ok messages =>
      obtain ⟨cacheKey, hComplete⟩ := complete_prompt gateway hMessages
      rw [hComplete] at h
      rcases Exec.of_bind_cases h with ⟨error, hLook, rfl⟩ | ⟨q, hLook, -, hOpen⟩ |
        ⟨cached, now, later, u, rfl, hLook, hRest⟩
      · exact ⟨⟨log, [], []⟩, hLog log, hLookOnly hLook, .raised .lookUp (.lookUp hLook)⟩
      · exact ⟨⟨log, [], []⟩, hLog log, hLookOnly hLook, .cut hOpen⟩
      cases cached with
      | some payload =>
          have hEntry : later = [] ∧ Completed gateway args ⟨now, [], []⟩ left := by
            cases hResult : cachedResult gateway args cacheKey payload with
            | error error =>
                simp only [hResult] at hRest
                obtain ⟨rfl, rfl, -⟩ := Exec.of_raise hRest
                exact ⟨rfl, .raised .entry (.entry hResult)⟩
            | ok result =>
                simp only [hResult] at hRest
                obtain ⟨rfl, rfl, -⟩ := Exec.of_done hRest
                exact ⟨rfl, .cached (cachedResult_ok hResult).cached⟩
          obtain ⟨rfl, hEnds⟩ := hEntry
          exact ⟨⟨now, [], []⟩, by simp [CallLog.log], hLookOnly hLook, hEnds⟩
      | none =>
          have hFormedLater : WellFormed later := fun response hIn =>
            hFormed response (by rw [responses_append]; exact List.mem_append_right _ hIn)
          obtain ⟨logs, rest, rfl, hOf, hEnds⟩ := completeFresh_completed hLook hFormedLater hRest
          exact ⟨⟨now, logs, rest⟩, by simp [CallLog.log], hOf, hEnds⟩

/-! ## Exceptions -/

theorem buildMessages_error (h : buildMessages args = .error error) : BookError error := by
  unfold buildMessages at h
  dsimp only at h
  split at h
  · cases h
  · cases h
  · cases h
    simp [BookError]

theorem cachedResult_error {cacheKey : Text} {payload : Json}
    (h : cachedResult gateway args cacheKey payload = .error error) : BookError error := by
  have hValue {other : PyError} (hKind : other.kind = .valueError) : BookError other := by
    simp [BookError, hKind]
  unfold cachedResult at h
  cases hContent : payload.get? "content".toList with
  | none =>
      simp only [hContent, bind, Except.bind] at h
      cases h
      simp [BookError]
  | some content =>
      simp only [hContent, bind, Except.bind] at h
      split at h
      · rename_i responseModel value hResponse hData
        cases hValid : modelValidate gateway.platform responseModel value with
        | error other =>
            simp only [hValid, Except.map] at h
            cases h
            exact hValue (modelValidate_error hValid)
        | ok data =>
            cases hModel : payload.get? "model".toList with
            | none =>
                simp only [hValid, hModel, Except.map] at h
                cases h
                simp [BookError]
            | some model =>
                simp only [hValid, hModel, Except.map] at h
                cases h
      · cases hModel : payload.get? "model".toList with
        | none =>
            simp only [hModel] at h
            cases h
            simp [BookError]
        | some model =>
            simp only [hModel] at h
            cases h

theorem lookUp_error {cacheKey : Text} (h : Exec (lookUp args cacheKey) s log (.raise error) t) :
    BookError error := by
  unfold lookUp at h
  split at h
  · exact bookError_db error ((kvGet_raises cacheKey).exec h)
  · obtain ⟨-, hDone, -⟩ := Exec.of_done h
    cases hDone

/-- Apart from the hooks, the provider and the schema, only exceptions of the request, the meter,
the cache and the database are raised. -/
theorem RaisedBy.book {cause : Cause} (h : RaisedBy gateway args cause c error) :
    cause = .hook ∨ cause = .provider ∨ (cause = .schema ∧ error = quarantine gateway) ∨
      BookError error := by
  cases h with
  | request hMessages => simp [buildMessages_error hMessages]
  | lookUp hLook => simp [lookUp_error hLook]
  | entry hEntry => simp [cachedResult_error hEntry]
  | hook hHook => simp
  | provider hProvider => simp
  | schema hAll => simp
  | meter hAccepts hMeter => simp [(recordCall_raises _ _).exec hMeter]
  | keeping hAccepts hSet => simp [(kvSet_raises _ _ _ _ _ _).exec hSet]

/-- No table of delays is read behind its end: an `IndexError` comes from a hook or the provider. -/
theorem RaisedBy.indexError {cause : Cause} (h : RaisedBy gateway args cause c error)
    (hKind : error.kind = .indexError) : cause = .hook ∨ cause = .provider := by
  rcases h.book with hHook | hProvider | ⟨-, rfl⟩ | hBook
  · exact .inl hHook
  · exact .inr hProvider
  · cases hKind
  · simp [BookError, hKind] at hBook

/-- Only the writing of an accepted answer adds an entry to the cache. -/
theorem RaisedBy.spares {cause : Cause} (h : RaisedBy gateway args cause c error)
    (hOf : c.Of gateway args) (hCause : cause ≠ .keeping) : ∀ m ∈ c.own, CacheShrinks m := by
  apply hOf.spares
  cases h with
  | meter hAccepts hMeter => exact (hMeter.keeps (cacheShrinks_recordCall _ _)).1
  | keeping hAccepts hSet => exact absurd rfl hCause
  | _ => simp

/-! ## Quarantine -/

/-- Neither a hook nor the provider raises a `QuarantineError`. -/
structure Sincere (gateway : LLMGateway) (log : Log Vocabulary) : Prop where
  hooks : ∀ hook ∈ gateway.hooks, ∀ ctx, Raises Unquarantined (hook ctx)
  provider : ∀ m ∈ log, ∀ error, FailsWith error m → Unquarantined error

theorem runHooks_raises (hHooks : ∀ hook ∈ gateway.hooks, ∀ ctx, Raises Unquarantined (hook ctx))
    (ctx : GatewayCallContext) : Raises Unquarantined (runHooks gateway ctx) := by
  unfold runHooks
  generalize gateway.hooks = hooks at hHooks
  induction hooks with
  | nil => exact raises_done _
  | cons hook later ih =>
      show Raises Unquarantined (Prog.bind (hook ctx) fun _ => later.forM fun hook => hook ctx)
      apply raises_bind (hHooks hook List.mem_cons_self ctx)
      intro _
      exact ih fun other hOther => hHooks other (List.mem_cons_of_mem _ hOther)

theorem RaisedBy.quarantined {cause : Cause} (h : RaisedBy gateway args cause c error)
    (hSincere : Sincere gateway c.log) (hKind : error.kind = .quarantineError) :
    AllRejected gateway args c.attempts := by
  cases h with
  | request hMessages => exact absurd hKind (buildMessages_error hMessages).unquarantined
  | lookUp hLook => exact absurd hKind (lookUp_error hLook).unquarantined
  | entry hEntry => exact absurd hKind (cachedResult_error hEntry).unquarantined
  | hook hHook =>
      obtain ⟨-, ctx, u, v, hRun⟩ := hHook
      exact absurd hKind ((runHooks_raises hSincere.hooks ctx).exec hRun)
  | @provider _ now earlier a hProvider =>
      obtain ⟨-, front, m, hCalls, hFails⟩ := hProvider
      have hMem : m ∈ (⟨now, earlier ++ [a], []⟩ : CallLog).log := by
        simp [CallLog.log, AttemptLog.log, hCalls]
      exact absurd hKind (hSincere.provider m hMem error hFails)
  | schema hAll => exact hAll
  | meter hAccepts hMeter => exact absurd hKind ((recordCall_raises _ _).exec hMeter).unquarantined
  | keeping hAccepts hSet => exact absurd hKind ((kvSet_raises _ _ _ _ _ _).exec hSet).unquarantined

/-- There is at least one attempt. -/
theorem allRejected_nil : ¬ AllRejected gateway args [] := by
  intro hAll
  have hLength := hAll.length_eq
  simp at hLength

theorem allRejected_last {earlier : List AttemptLog} {a : AttemptLog}
    (h : AllRejected gateway args (earlier ++ [a])) : ∃ attempt, Rejected gateway args attempt a := by
  have hLast := List.forall₂_drop_append _ earlier [a] h
  generalize (List.range (gateway.maxRetries + 1)).drop earlier.length = attempts at hLast
  cases hLast with
  | cons hFirst _ => exact ⟨_, hFirst⟩

theorem Accepts.not_rejected {logs : List AttemptLog} {accepted : Accepted}
    (h : Accepts gateway args logs accepted) : ¬ AllRejected gateway args logs := by
  intro hAll
  cases h.all_rejected hAll (.done accepted)

/-- If all attempts are rejected, then nothing but the schema raises. -/
theorem RaisedBy.all_rejected {cause : Cause} (h : RaisedBy gateway args cause c error)
    (hAll : AllRejected gateway args c.attempts) : error = quarantine gateway := by
  cases h with
  | request hMessages => exact absurd hAll allRejected_nil
  | lookUp hLook => exact absurd hAll allRejected_nil
  | entry hEntry => exact absurd hAll allRejected_nil
  | hook hHook =>
      obtain ⟨attempt, hRejected⟩ := allRejected_last hAll
      exact absurd (.inl hHook) (hRejected.not_last.2 _)
  | provider hProvider =>
      obtain ⟨attempt, hRejected⟩ := allRejected_last hAll
      exact absurd (.inr hProvider) (hRejected.not_last.2 _)
  | schema hAll => rfl
  | meter hAccepts hMeter => exact absurd hAll hAccepts.not_rejected
  | keeping hAccepts hSet => exact absurd hAll hAccepts.not_rejected

/-- A call which has ended has raised `QuarantineError` just if all its attempts were rejected. -/
theorem Completed.quarantined_iff (h : Completed gateway args c left)
    (hSincere : Sincere gateway c.log) (hEnd : Ended left) :
    (∃ error, left = .raise error ∧ error.kind = .quarantineError) ↔
      AllRejected gateway args c.attempts := by
  cases h with
  | raised cause hRaised =>
      constructor
      · intro ⟨other, hSame, hKind⟩
        obtain rfl := Prog.raise.inj hSame
        exact hRaised.quarantined hSincere hKind
      · intro hAll
        exact ⟨_, rfl, by rw [hRaised.all_rejected hAll]; rfl⟩
  | cached hCached =>
      apply iff_of_false
      · rintro ⟨_, hSame, -⟩
        cases hSame
      · exact allRejected_nil
  | fresh hAccepts hFresh hData =>
      apply iff_of_false
      · rintro ⟨_, hSame, -⟩
        cases hSame
      · exact hAccepts.not_rejected
  | cut hOpen => exact absurd hEnd hOpen

/-! ## The data of a fresh result -/

/-- The data of a result has been validated from the content of the last response. -/
def ValidatedLast (gateway : LLMGateway) (model : ResponseModel) (c : CallLog)
    (result : GatewayResult) : Prop :=
  ∃ earlier a before response content data, c.attempts = earlier ++ [a] ∧
    responses a.calls = [response] ∧ responses c.own = before ++ [response] ∧
    response.content = some content ∧
    validateContent gateway.platform model earlier.length content = .ok data ∧
    result.data = .model model data

theorem Completed.validated {result : GatewayResult} {model : ResponseModel}
    (h : Completed gateway args c (.done result)) (hOf : c.Of gateway args)
    (hModel : args.responseModel = some model) (hFresh : result.cached = false) :
    ValidatedLast gateway model c result := by
  cases h with
  | cached hCached =>
      rw [hCached] at hFresh
      cases hFresh
  | @fresh _ accepted _ hAccepts _ hData =>
      obtain ⟨earlier, a, attempt, hLogs, hNumber, hAccepted⟩ := Attempted.of_done hAccepts
      have hAttempt : attempt = earlier.length := by
        rw [List.getElem?_range, Option.some.injEq] at hNumber
        · exact hNumber.symm
        · have hLength := hOf.length
          rw [hLogs, List.length_append, List.length_singleton] at hLength
          omega
      have hResult := hAccepted.data
      simp only [acceptedData, hModel, hAttempt] at hResult
      cases hValid : validateContent gateway.platform model earlier.length accepted.content with
      | error error =>
          rw [hValid] at hResult
          cases hResult
      | ok data =>
          rw [hValid] at hResult
          refine ⟨earlier, a, earlier.flatMap fun a => responses a.calls, accepted.response,
            accepted.content, data, hLogs, hAccepted.response, ?_, hAccepted.content, hValid, ?_⟩
          · rw [hOf.responses, hLogs, List.flatMap_append, List.flatMap_singleton,
              hAccepted.response]
          · rw [hData, ← Except.ok.inj hResult]
  | cut hOpen => exact absurd (.done result) hOpen

/-- A call makes at most four calls of the provider for each of its attempts, and never reads a
table of delays behind its end.  A fresh result has the data which was validated from the last
response.  If neither the hooks nor the provider raise `QuarantineError`, the call does so just if
every attempt got a response and none of them validated.  An exception of a hook, the provider, the
schema or the meter leaves no entry in the cache. -/
theorem complete_bounded (hFormed : WellFormed log)
    (h : Exec (complete gateway args) s log left t) :
    ∃ c : CallLog, c.log = log ∧ c.Of gateway args ∧
      c.own.countP Moment.callsProvider ≤ (gateway.maxRetries + 1) * 4 ∧
      (∀ error, left = .raise error → ∃ cause, RaisedBy gateway args cause c error) ∧
      (∀ cause error, RaisedBy gateway args cause c error →
        (error.kind = .indexError → cause = .hook ∨ cause = .provider) ∧
        (cause ≠ .keeping → ∀ m ∈ c.own, CacheShrinks m)) ∧
      (∀ result model, left = .done result → args.responseModel = some model →
        result.cached = false → ValidatedLast gateway model c result) ∧
      (Sincere gateway log → Ended left →
        ((∃ error, left = .raise error ∧ error.kind = .quarantineError) ↔
          AllRejected gateway args c.attempts)) := by
  obtain ⟨c, hLog, hOf, hEnds⟩ := complete_completed hFormed h
  refine ⟨c, hLog, hOf, hOf.calls, ?_, ?_, ?_, ?_⟩
  · rintro error rfl
    cases hEnds with
    | raised cause hRaised => exact ⟨cause, hRaised⟩
    | cut hOpen => exact absurd (.raise error) hOpen
  · intro cause error hRaised
    exact ⟨hRaised.indexError, hRaised.spares hOf⟩
  · rintro result model rfl hModel hFresh
    exact hEnds.validated hOf hModel hFresh
  · rintro hSincere hEnd
    exact hEnds.quarantined_iff (by rwa [hLog]) hEnd

end Endings

/-! ## A call which is accepted and one which is not -/

section Examples

/-- A gateway which accepts the first response. -/
def acceptingGateway : LLMGateway :=
  dollarGateway fun model _ => ({} : Served).read "a".toList model

/-- A gateway which rejects all responses. -/
def rejectingGateway : LLMGateway := dollarGateway fun _ _ => none

/-- The provider fails in no step. -/
theorem sincere_answered {gateway : LLMGateway} {log : Log Vocabulary} (hHooks : gateway.hooks = [])
    (hAnswered : log.all (fun m => (failureIn m).isNone) = true) : Sincere gateway log := by
  constructor
  · simp [hHooks]
  · intro m hm error hFails
    have hNone := List.all_eq_true.mp hAnswered m hm
    rw [hFails] at hNone
    cases hNone

/-- The provider answers every request, and every response has content. -/
theorem verdictCall_answered :
    (responses (verdictCall acceptingGateway).1).all (fun response => response.content.isSome) =
        true ∧
      (responses (verdictCall rejectingGateway).1).all
        (fun response => response.content.isSome) = true ∧
      (verdictCall rejectingGateway).1.all (fun m => (failureIn m).isNone) = true := by
  decide +kernel

/-- The response of a call is accepted, and the three responses of another one are rejected. -/
theorem complete_bounded_twice :
    (∃ c result, c.log = (verdictCall acceptingGateway).1 ∧
      (verdictCall acceptingGateway).2.1 = .done result ∧
      c.own.countP Moment.callsProvider ≤ 12 ∧
      ValidatedLast acceptingGateway .confirmVerdict c result) ∧
    ∃ c error, c.log = (verdictCall rejectingGateway).1 ∧
      (verdictCall rejectingGateway).2.1 = .raise error ∧
      c.own.countP Moment.callsProvider ≤ 12 ∧ AllRejected rejectingGateway verdictArgs c.attempts ∧
      ∃ cause, RaisedBy rejectingGateway verdictArgs cause c error := by
  obtain ⟨hFresh, hRaised, -⟩ := verdictCall_facts
  obtain ⟨hAccepted, hRejected, hAnswered⟩ := verdictCall_answered
  constructor
  · obtain ⟨result, hReturned, hCached⟩ := Option.map_eq_some_iff.mp hFresh
    obtain ⟨c, hLog, -, hCalls, -, -, hData, -⟩ := complete_bounded
      (List.all_eq_true.mp hAccepted) (verdictCall_exec acceptingGateway)
    exact ⟨c, result, hLog, Prog.eq_done hReturned, hCalls,
      hData result .confirmVerdict (Prog.eq_done hReturned) rfl hCached⟩
  · obtain ⟨error, hError, hKind⟩ := Option.map_eq_some_iff.mp hRaised
    have hRaise : (verdictCall rejectingGateway).2.1 = .raise error := Prog.eq_raise hError
    obtain ⟨c, hLog, -, hCalls, hCause, -, -, hAll⟩ := complete_bounded
      (List.all_eq_true.mp hRejected) (verdictCall_exec rejectingGateway)
    have hSincere : Sincere rejectingGateway (verdictCall rejectingGateway).1 :=
      sincere_answered rfl hAnswered
    have hEnd : Ended (verdictCall rejectingGateway).2.1 := by
      rw [hRaise]
      exact Ended.raise (S := Vocabulary) error
    exact ⟨c, error, hLog, hRaise, hCalls, (hAll hSincere hEnd).mp ⟨error, hRaise, hKind⟩,
      hCause error hRaise⟩

end Examples

end Ecrke
