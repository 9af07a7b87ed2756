import Ecrke.Guarantees.MeteredCalls

/-!
# The attempts of a call

The log of a call of the gateway, cut into its attempts, each of them into the steps of its hooks and
its own ones.

* `FailsWith`, `AttemptLog` -- a call of the provider which fails, and the log of an attempt.
* `tries_cases` -- a provider call: at most four tries, and how they end.
* `Rejected`, `AcceptedBy`, `HookRaises`, `ProviderRaises` -- how an attempt ends.
* `Attempted` -- how the attempts of a call end; `attempts_attempted`, that they do so.
-/

namespace Ecrke

open Durable

/-! ## Tries -/

/-- A sequence: its first part raises, or has not ended, or is done. -/
theorem Exec.of_bind_cases {α β : Type} {p : Action α} {f : α → Action β} {left : Action β}
    {s t : World} {log : Log Vocabulary} (h : Exec (p.bind f) s log left t) :
    (∃ error, Exec p s log (.raise error) t ∧ left = .raise error) ∨
      (∃ p', Exec p s log p' t ∧ ¬ Ended p' ∧ ¬ Ended left) ∨
      ∃ value now later u, log = now ++ later ∧ Exec p s now (.done value) u ∧
        Exec (f value) u later left t := by
  rcases Exec.of_bind h with ⟨p', hFirst, rfl, hOpen⟩ | hDone
  · cases p' with
    | done value => exact absurd rfl (hOpen value)
    | raise error => exact .inl ⟨error, hFirst, rfl⟩
    | _ =>
        right
        left
        refine ⟨_, hFirst, ?_, ?_⟩
        · intro hEnd
          cases hEnd
        · intro hEnd
          cases hEnd
  · exact .inr (.inr hDone)

/-- What a failed call of the provider raises. -/
def ProviderAnswer.failure : ProviderAnswer → Option PyError
  | .response _ => none
  | .rateLimitError message => some ⟨.rateLimitError, message⟩
  | .serviceUnavailableError message => some ⟨.serviceUnavailableError, message⟩
  | .apiConnectionError message => some ⟨.apiConnectionError, message⟩
  | .otherError error => some error

/-- What the call of the provider in a step raises. -/
def failureIn (m : Moment Vocabulary) : Option PyError :=
  match m.happening with
  | .asked (.provider ..) answer => ProviderAnswer.failure answer
  | _ => none

/-- A call of the provider which fails with an exception. -/
def FailsWith (error : PyError) (m : Moment Vocabulary) : Prop := failureIn m = some error

/-- How a provider call, or a try of it, ends: with one response, with the exception of its last
step, or not at all. -/
inductive Called {α : Type} (value : LLMResponse → α) (log : Log Vocabulary) : Action α → Prop where
  | response (response : LLMResponse) (hResponse : responses log = [response]) :
      Called value log (.done (value response))
  | failed (error : PyError) (front : Log Vocabulary) (m : Moment Vocabulary)
      (hLog : log = front ++ [m]) (hFails : FailsWith error m) (hNone : responses log = []) :
      Called value log (.raise error)
  | cut (left : Action α) (hOpen : ¬ Ended left) : Called value log left

section Tries

variable {gateway : LLMGateway} {args : CompleteArgs} {s t : World} {log : Log Vocabulary}
  {model : Text} {messages : List Message} {kwargs : List (Text × Json)}

/-- Steps in front of a provider call which ask nobody. -/
theorem Called.after {α : Type} {value : LLMResponse → α} {now later : Log Vocabulary}
    {left : Action α} (h : Called value later left) (hNone : responses now = []) :
    Called value (now ++ later) left := by
  have hLog : responses (now ++ later) = responses later := by
    rw [responses_append, hNone, List.nil_append]
  cases h with
  | response response hResponse => exact .response response (hLog.trans hResponse)
  | failed error front m hSplit hFails hLater =>
      apply Called.failed error (now ++ front) m _ hFails (hLog.trans hLater)
      rw [hSplit, List.append_assoc]
  | cut left hOpen => exact .cut left hOpen

theorem Called.raised {α β : Type} {value : LLMResponse → α} {value' : LLMResponse → β}
    {error : PyError} (h : Called value log (.raise error)) : Called value' log (.raise error) := by
  cases h with
  | failed _ front m hLog hFails hNone => exact .failed error front m hLog hFails hNone
  | cut _ hOpen => exact (hOpen (Ended.raise (S := Vocabulary) error)).elim

theorem Called.done {α β : Type} {value : LLMResponse → α} {value' : LLMResponse → β} {found : α}
    (h : Called value log (.done found)) :
    ∃ response, found = value response ∧ Called value' log (.done (value' response)) := by
  cases h with
  | response response hResponse => exact ⟨response, rfl, .response response hResponse⟩
  | cut _ hOpen => exact (hOpen (.done found)).elim

theorem failed_none {error : PyError} {m : Moment Vocabulary} (h : FailsWith error m) :
    responseIn m = none := by
  unfold FailsWith failureIn at h
  split at h
  · rename_i answer hAsked
    unfold responseIn
    rw [hAsked]
    cases (answer : ProviderAnswer) with
    | response response => cases h
    | rateLimitError message => rfl
    | serviceUnavailableError message => rfl
    | apiConnectionError message => rfl
    | otherError error => rfl
  · cases h

theorem offline_quiet {now : Log Vocabulary} (h : ∀ m ∈ now, Offline m) :
    now.countP Moment.callsProvider = 0 ∧ responses now = [] :=
  ⟨offline_calls h, responses_offline h⟩

/-- Waiting after a failed try: it goes on while there are tries left, and the table of the delays
has one for each of them. -/
theorem backOff_cases {kind : ErrorClass} {message : Text} {delays : List ℚ} {attempt : Nat}
    {left : Action (Option LLMResponse)} (hDelays : maxRateLimitRetries ≤ delays.length)
    (h : Exec (backOff kind message delays attempt) s log left t) :
    (left = .done none ∧ attempt < maxRateLimitRetries) ∨
      (left = .raise ⟨kind, message⟩ ∧ log = []) ∨ ¬ Ended left := by
  unfold backOff at h
  simp only [raiseError_bind] at h
  split at h
  · obtain ⟨rfl, rfl, -⟩ := Exec.of_raise h
    exact .inr (.inl ⟨rfl, rfl⟩)
  · rename_i hLeft
    have hBound : attempt < delays.length := by omega
    rw [List.getElem?_eq_getElem hBound] at h
    rcases Exec.of_query h with ⟨-, rfl, -⟩ | ⟨answer, later, rfl, hRest⟩
    · right
      right
      intro hEnd
      cases hEnd
    · obtain ⟨-, rfl, -⟩ := Exec.of_done hRest
      left
      exact ⟨rfl, by omega⟩

/-- What `tryProvider` does after a response raises nothing. -/
theorem recordTime_raises {α : Type} (value : α) :
    Raises (fun _ => False) (loopTime >>= fun time =>
      modifyMemory (fun m => { m with callTimestamps := m.callTimestamps ++ [time] }) >>= fun _ =>
      loopTime >>= fun time =>
      modifyMemory (fun m => { m with
        callTimestamps := m.callTimestamps.filter fun t => time - 60 < t }) >>= fun _ =>
      (pure value : Action α)) := by
  have hModify (f : Memory → Memory) : Raises (fun _ => False) (modifyMemory f) :=
    fun _ => Alone.atomically trivial fun _ h => by cases h
  exact raises_bind (raises_query .loopTime) fun _ => raises_bind (hModify _) fun _ =>
    raises_bind (raises_query .loopTime) fun _ => raises_bind (hModify _) fun _ => raises_done _

/-- One try: at most one call.  It goes on to the next try only if there is one. -/
theorem tryProvider_cases {attempt : Nat} {left : Action (Option LLMResponse)}
    (h : Exec (tryProvider gateway model messages kwargs attempt) s log left t) :
    log.countP Moment.callsProvider ≤ 1 ∧
      ((left = .done none ∧ attempt < maxRateLimitRetries ∧ responses log = []) ∨
        Called some log left) := by
  rcases Exec.of_query h with ⟨rfl, rfl, -⟩ | ⟨answer, later, rfl, hRest⟩
  · refine ⟨by simp, .inr (.cut _ ?_)⟩
    intro hEnd
    cases hEnd
  let m : Moment Vocabulary := ⟨s, .asked (.provider model messages kwargs) answer, s⟩
  have hCount (hLater : ∀ m ∈ later, Offline m) :
      (m :: later).countP Moment.callsProvider ≤ 1 := by
    rw [List.countP_cons, offline_calls hLater]
    split
    · omega
    · omega
  have hRaised {error : PyError} (hFailure : ProviderAnswer.failure answer = some error)
      (hEnd : left = .raise error) (hNil : later = []) : Called some (m :: later) left := by
    have hFails : FailsWith error m := hFailure
    subst hEnd hNil
    exact .failed error [] m rfl hFails (by rw [responses, List.filterMap_cons, failed_none hFails]; rfl)
  have hBack {kind : ErrorClass} {message : Text} {delays : List ℚ}
      (hFailure : ProviderAnswer.failure answer = some ⟨kind, message⟩)
      (hDelays : maxRateLimitRetries ≤ delays.length)
      (hWait : Exec (backOff kind message delays attempt) s later left t) :
      (m :: later).countP Moment.callsProvider ≤ 1 ∧
        ((left = .done none ∧ attempt < maxRateLimitRetries ∧ responses (m :: later) = []) ∨
          Called some (m :: later) left) := by
    have hLater : ∀ m ∈ later, Offline m :=
      (hWait.keeps ((pace_backOff _ _ _ _).mono fun m hm => hm.asks)).1
    refine ⟨hCount hLater, ?_⟩
    rcases backOff_cases hDelays hWait with ⟨hEnd, hLess⟩ | ⟨hEnd, hNil⟩ | hOpen
    · left
      have hFails : FailsWith ⟨kind, message⟩ m := hFailure
      refine ⟨hEnd, hLess, ?_⟩
      rw [responses, List.filterMap_cons, failed_none hFails]
      exact responses_offline hLater
    · right
      exact hRaised hFailure hEnd hNil
    · right
      exact .cut left hOpen
  have hDirect {error : PyError} (hFailure : ProviderAnswer.failure answer = some error)
      (hRaise : Exec (.raise error) s later left t) :
      (m :: later).countP Moment.callsProvider ≤ 1 ∧
        ((left = .done none ∧ attempt < maxRateLimitRetries ∧ responses (m :: later) = []) ∨
          Called some (m :: later) left) := by
    obtain ⟨hNil, hEnd, -⟩ := Exec.of_raise hRaise
    refine ⟨hCount (by simp [hNil]), .inr (hRaised hFailure hEnd hNil)⟩
  cases hAnswer : (answer : ProviderAnswer) with
  | response response =>
      subst hAnswer
      have hLater : ∀ m ∈ later, Offline m :=
        (hRest.keeps ((pace_recordTime (some response)).mono fun m hm => hm.asks)).1
      refine ⟨hCount hLater, .inr ?_⟩
      by_cases hEnd : Ended left
      · cases hEnd with
        | done value =>
            have hSome := (recordTime_returns (some response)).exec hRest
            subst hSome
            apply Called.response response
            rw [responses, List.filterMap_cons, ← responses, responses_offline hLater]
            rfl
        | raise error => exact ((recordTime_raises (some response)).exec hRest).elim
      · exact .cut left hEnd
  | rateLimitError message =>
      subst hAnswer
      dsimp only at hRest
      split at hRest
      · exact hDirect rfl hRest
      · exact hBack rfl (by decide) hRest
  | serviceUnavailableError message =>
      subst hAnswer
      exact hBack rfl (by decide) hRest
  | apiConnectionError message =>
      subst hAnswer
      exact hBack rfl (by decide) hRest
  | otherError error =>
      subst hAnswer
      exact hDirect rfl hRest

/-- The tries which are left: at most one call for each, and the last one does not go on. -/
theorem tries_cases {fallback left : Action LLMResponse} {start count : Nat}
    (hEnd : start + count = maxRateLimitRetries)
    (h : Exec (Prog.forElse (tryProvider gateway model messages kwargs) fallback
      (List.range' start (count + 1))) s log left t) :
    log.countP Moment.callsProvider ≤ count + 1 ∧ Called id log left := by
  induction count generalizing start s log with
  | zero =>
      rcases Exec.of_bind_cases h with ⟨error, hTry, rfl⟩ | ⟨p', hTry, -, hOpen⟩ |
        ⟨value, now, later, u, rfl, hTry, hLater⟩
      · obtain ⟨hCount, hNext | hCalled⟩ := tryProvider_cases hTry
        · cases hNext.1
        · exact ⟨hCount, hCalled.raised⟩
      · exact ⟨(tryProvider_cases hTry).1, .cut left hOpen⟩
      · obtain ⟨hCount, ⟨-, hLess, -⟩ | hCalled⟩ := tryProvider_cases hTry
        · -- The last try raises, so no other one follows it.
          omega
        · obtain ⟨response, rfl, hFound⟩ := hCalled.done 
          obtain ⟨rfl, rfl, -⟩ := Exec.of_done hLater
          rw [List.append_nil]
          exact ⟨hCount, hFound⟩
  | succ count ih =>
      rw [List.range'_succ] at h
      rcases Exec.of_bind_cases h with ⟨error, hTry, rfl⟩ | ⟨p', hTry, -, hOpen⟩ |
        ⟨value, now, later, u, rfl, hTry, hLater⟩
      · obtain ⟨hCount, hNext | hCalled⟩ := tryProvider_cases hTry
        · cases hNext.1
        · exact ⟨by omega, hCalled.raised⟩
      · have hCount := (tryProvider_cases hTry).1
        exact ⟨by omega, .cut left hOpen⟩
      · obtain ⟨hCount, ⟨hNext, -, hNone⟩ | hCalled⟩ := tryProvider_cases hTry
        · obtain rfl := Prog.done.inj hNext
          obtain ⟨hRest, hFound⟩ := ih (by omega) hLater
          rw [List.countP_append]
          exact ⟨by omega, hFound.after hNone⟩
        · obtain ⟨response, rfl, hFound⟩ := hCalled.done 
          obtain ⟨rfl, rfl, -⟩ := Exec.of_done hLater
          rw [List.append_nil]
          exact ⟨by omega, hFound⟩

/-- A provider call: at most four calls, and one response at most. -/
theorem callWithRateLimitRetry_cases {left : Action LLMResponse}
    (h : Exec (callWithRateLimitRetry gateway model messages kwargs) s log left t) :
    log.countP Moment.callsProvider ≤ maxRateLimitRetries + 1 ∧ Called id log left := by
  have hTries {u : World} {now : Log Vocabulary}
      (hLoop : Exec (Prog.forElse (tryProvider gateway model messages kwargs)
        (raiseError .attributeError "'NoneType' object has no attribute 'get'".toList)
        (List.range (maxRateLimitRetries + 1))) u now left t) :
      now.countP Moment.callsProvider ≤ maxRateLimitRetries + 1 ∧ Called id now left := by
    rw [List.range_eq_range'] at hLoop
    exact tries_cases (by omega) hLoop
  -- The pacing asks nobody but the clock.
  have hAfter {m : Moment Vocabulary} {now : Log Vocabulary} (hOffline : Offline m)
      (hNow : now.countP Moment.callsProvider ≤ maxRateLimitRetries + 1 ∧ Called id now left) :
      (m :: now).countP Moment.callsProvider ≤ maxRateLimitRetries + 1 ∧
        Called id (m :: now) left := by
    have hQuiet : ∀ m' ∈ [m], Offline m' := by simpa using hOffline
    obtain ⟨hZero, hNone⟩ := offline_quiet hQuiet
    rw [← List.singleton_append, List.countP_append, hZero]
    exact ⟨by omega, hNow.2.after hNone⟩
  have hCut (hOpen : ¬ Ended left) :
      ([] : Log Vocabulary).countP Moment.callsProvider ≤ maxRateLimitRetries + 1 ∧
        Called id [] left := ⟨by simp, .cut left hOpen⟩
  rcases Exec.of_query h with ⟨rfl, rfl, -⟩ | ⟨time, later, rfl, hRest⟩
  · exact hCut (by intro hEnd; cases hEnd)
  apply hAfter (by rintro query ⟨⟩; trivial)
  rcases Exec.of_atomically hRest with ⟨rfl, rfl, -⟩ | ⟨last, rfl, hLast⟩
  · exact hCut (by intro hEnd; cases hEnd)
  apply hAfter (asks_of_none rfl)
  split at hLast
  · split at hLast
    · rcases Exec.of_query hLast with ⟨rfl, rfl, -⟩ | ⟨_, rest, rfl, hLoop⟩
      · exact hCut (by intro hEnd; cases hEnd)
      · exact hAfter (by rintro query ⟨⟩; trivial) (hTries hLoop)
    · exact hTries hLast
  · exact hTries hLast

end Tries

/-! ## Attempts -/

/-- The log of an attempt: the steps of its hooks, and its own ones. -/
structure AttemptLog where
  hooks : Log Vocabulary
  calls : Log Vocabulary

/-- The steps of an attempt. -/
def AttemptLog.log (a : AttemptLog) : Log Vocabulary := a.hooks ++ a.calls

/-- The hooks of the gateway are run first; the own steps have at most four calls of the provider
and add nothing to the cache. -/
structure AttemptLog.Of (gateway : LLMGateway) (a : AttemptLog) : Prop where
  hooks : ∃ ctx s q t, Exec (runHooks gateway ctx) s a.hooks q t
  calls : a.calls.countP Moment.callsProvider ≤ maxRateLimitRetries + 1
  spares : ∀ m ∈ a.calls, CacheShrinks m

/-- The attempt gets one response, and its content does not validate. -/
def Rejected (gateway : LLMGateway) (args : CompleteArgs) (attempt : Nat) (a : AttemptLog) : Prop :=
  ∃ model response content error, args.responseModel = some model ∧
    responses a.calls = [response] ∧ response.content = some content ∧
    validateContent gateway.platform model attempt content = .error error

/-- The attempt gets one response, and its content is accepted. -/
structure AcceptedBy (gateway : LLMGateway) (args : CompleteArgs) (attempt : Nat) (a : AttemptLog)
    (accepted : Accepted) : Prop where
  response : responses a.calls = [accepted.response]
  content : accepted.response.content = some accepted.content
  data : acceptedData gateway args attempt accepted.content = .ok accepted.data

/-- A hook raises, and the provider is not called. -/
def HookRaises (gateway : LLMGateway) (a : AttemptLog) (error : PyError) : Prop :=
  a.calls = [] ∧ ∃ ctx s t, Exec (runHooks gateway ctx) s a.hooks (.raise error) t

/-- The last call of the provider fails, and no call gets a response. -/
def ProviderRaises (a : AttemptLog) (error : PyError) : Prop :=
  responses a.calls = [] ∧ ∃ front m, a.calls = front ++ [m] ∧ FailsWith error m

/-- The responses of the provider have content. -/
def WellFormed (log : Log Vocabulary) : Prop :=
  ∀ response ∈ responses log, response.content.isSome = true

theorem loads_error {p : Platform} {content : Text} {error : PyError}
    (h : loads p content = .error error) : error.kind = .valueError := by
  unfold loads at h
  split at h
  · cases h
  · cases h
    rfl

theorem expectObject_error {value : Json} {error : PyError}
    (h : expectObject value = .error error) : error.kind = .valueError := by
  unfold expectObject at h
  split at h
  · cases h
  · cases h
    rfl

theorem modelValidate_error {p : Platform} {model : ResponseModel} {value : Json} {error : PyError}
    (h : modelValidate p model value = .error error) : error.kind = .valueError := by
  unfold modelValidate at h
  split at h
  · cases h
  · cases h
    rfl

theorem loadsObject_error {p : Platform} {content : Text} {error : PyError}
    (h : (loads p content >>= expectObject) = .error error) : error.kind = .valueError := by
  cases hLoads : loads p content with
  | error other =>
      rw [hLoads] at h
      cases h
      exact loads_error hLoads
  | ok value =>
      rw [hLoads] at h
      exact expectObject_error h

theorem parseJsonLenient_error {p : Platform} {content : Text} {error : PyError}
    (h : parseJsonLenient p content = .error error) : error.kind = .valueError := by
  unfold parseJsonLenient at h
  dsimp only at h
  split at h
  · split at h
    · cases h
      rfl
    · exact loadsObject_error h
  · cases h
    rfl

/-- Content which does not validate raises `ValueError`. -/
theorem validateContent_error {p : Platform} {model : ResponseModel} {attempt : Nat} {content : Text}
    {error : PyError} (h : validateContent p model attempt content = .error error) :
    error.isValidation = true := by
  have hParsed (parsed : Except PyError Json)
      (hError : ∀ other, parsed = .error other → other.kind = .valueError)
      (hBoth : (parsed >>= modelValidate p model) = .error error) : error.kind = .valueError := by
    cases parsed with
    | error other =>
        cases hBoth
        exact hError _ rfl
    | ok value => exact modelValidate_error hBoth
  have hKind : error.kind = .valueError := by
    unfold validateContent at h
    dsimp only at h
    split at h
    · exact hParsed _ (fun _ => loadsObject_error) h
    · exact hParsed _ (fun _ => parseJsonLenient_error) h
  rw [PyError.isValidation, hKind]
  rfl

section Attempts

variable {gateway : LLMGateway} {args : CompleteArgs} {s t : World} {log : Log Vocabulary}
  {messages : List Message} {cacheKey : Text}

/-- The steps of an attempt, and how it ends: rejected, accepted, by an exception of a hook or of
the provider, or not at all. -/
theorem attemptCall_cases {attempt : Nat} {left : Action (Option Accepted)}
    (hFormed : WellFormed log)
    (h : Exec (attemptCall gateway args (gateway.resolveModel args.tier) messages cacheKey attempt)
      s log left t) :
    ∃ a : AttemptLog, log = a.log ∧ a.Of gateway ∧
      ((left = .done none ∧ Rejected gateway args attempt a) ∨
        (∃ accepted, left = .done (some accepted) ∧ AcceptedBy gateway args attempt a accepted) ∨
        (∃ error, left = .raise error ∧ (HookRaises gateway a error ∨ ProviderRaises a error)) ∨
        ¬ Ended left) := by
  let ctx : GatewayCallContext := ⟨gateway.resolveModel args.tier, args.tier, messages, args.runId,
    cacheKey, args.responseModel, attempt⟩
  have hHooksOnly {q : Action Unit} (hHooks : Exec (runHooks gateway ctx) s log q t) :
      log = (⟨log, []⟩ : AttemptLog).log ∧ (⟨log, []⟩ : AttemptLog).Of gateway :=
    ⟨by simp [AttemptLog.log], ⟨ctx, s, q, t, hHooks⟩, by simp, by simp⟩
  rcases Exec.of_bind_cases h with ⟨error, hHooks, rfl⟩ | ⟨p', hHooks, -, hOpen⟩ |
    ⟨_, hooks, later, u, rfl, hHooks, hLater⟩
  · obtain ⟨hLog, hOf⟩ := hHooksOnly hHooks
    exact ⟨_, hLog, hOf, .inr (.inr (.inl ⟨error, rfl, .inl ⟨rfl, ctx, s, t, hHooks⟩⟩))⟩
  · obtain ⟨hLog, hOf⟩ := hHooksOnly hHooks
    exact ⟨_, hLog, hOf, .inr (.inr (.inr hOpen))⟩
  have hOf {q : Action LLMResponse} {v : World} {model : Text} {sent : List Message}
      {kwargs : List (Text × Json)} {now : Log Vocabulary}
      (hCall : Exec (callWithRateLimitRetry gateway model sent kwargs) u now q v) :
      (⟨hooks, now⟩ : AttemptLog).Of gateway := by
    refine ⟨⟨ctx, s, _, u, hHooks⟩, (callWithRateLimitRetry_cases hCall).1, ?_⟩
    exact (hCall.keeps (keeps_callWithRateLimitRetry CacheShrinks.of_pacing
      (fun _ _ _ _ _ => .of_same rfl) _ _ _ _)).1
  rcases Exec.of_bind_cases hLater with ⟨error, hCall, rfl⟩ | ⟨p', hCall, -, hOpen⟩ |
    ⟨response, now, last, v, rfl, hCall, hLast⟩
  · refine ⟨⟨hooks, later⟩, rfl, hOf hCall, .inr (.inr (.inl ⟨error, rfl, .inr ?_⟩))⟩
    cases (callWithRateLimitRetry_cases hCall).2 with
    | failed _ front m hLog hFails hNone => exact ⟨hNone, front, m, hLog, hFails⟩
    | cut _ hOpen => exact absurd (.raise error) hOpen
  · exact ⟨⟨hooks, later⟩, rfl, hOf hCall, .inr (.inr (.inr hOpen))⟩
  -- The response has come; what follows takes no step.
  have hResponse : responses now = [response] := by
    cases (callWithRateLimitRetry_cases hCall).2 with
    | response _ hResponse => exact hResponse
    | cut _ hOpen => exact absurd (.done response) hOpen
  have hSome : response.content.isSome = true := by
    apply hFormed
    rw [responses_append, responses_append, hResponse]
    simp
  obtain ⟨content, hContent⟩ := Option.isSome_iff_exists.mp hSome
  simp only [hContent] at hLast
  have hEnds {value : Option Accepted} (hDone : Exec (.done value) v last left t) :
      now ++ last = now ∧ left = .done value := by
    obtain ⟨rfl, rfl, -⟩ := Exec.of_done hDone
    exact ⟨List.append_nil _, rfl⟩
  refine ⟨⟨hooks, now⟩, ?_⟩
  cases hModel : args.responseModel with
  | none =>
      simp only [hModel] at hLast
      obtain ⟨hLog, rfl⟩ := hEnds hLast
      refine ⟨by rw [hLog]; rfl, hOf hCall, .inr (.inl ⟨_, rfl, hResponse, hContent, ?_⟩)⟩
      simp [acceptedData, hModel]
  | some model =>
      simp only [hModel] at hLast
      cases hValid : validateContent gateway.platform model attempt content with
      | ok data =>
          simp only [hValid] at hLast
          obtain ⟨hLog, rfl⟩ := hEnds hLast
          refine ⟨by rw [hLog]; rfl, hOf hCall, .inr (.inl ⟨_, rfl, hResponse, hContent, ?_⟩)⟩
          simp [acceptedData, hModel, hValid, Except.map]
      | error error =>
          simp only [hValid, validateContent_error hValid, if_true] at hLast
          obtain ⟨hLog, rfl⟩ := hEnds hLast
          exact ⟨by rw [hLog]; rfl, hOf hCall,
            .inl ⟨rfl, model, response, content, error, hModel, hResponse, hContent, hValid⟩⟩

/-- How the attempts of a call end, each of them rejected but the last one: all attempts are used
up, or the last one is accepted, or ends by an exception, or has not ended. -/
inductive Attempted (gateway : LLMGateway) (args : CompleteArgs) :
    List Nat → List AttemptLog → Action Accepted → Prop where
  | exhausted : Attempted gateway args [] [] (.raise (quarantine gateway))
  | rejected {attempt : Nat} {rest : List Nat} {a : AttemptLog} {later : List AttemptLog}
      {left : Action Accepted} (hFirst : Rejected gateway args attempt a)
      (hRest : Attempted gateway args rest later left) :
      Attempted gateway args (attempt :: rest) (a :: later) left
  | accepted {attempt : Nat} {rest : List Nat} {a : AttemptLog} {accepted : Accepted}
      (hLast : AcceptedBy gateway args attempt a accepted) :
      Attempted gateway args (attempt :: rest) [a] (.done accepted)
  | raised {attempt : Nat} {rest : List Nat} {a : AttemptLog} {error : PyError}
      (hLast : HookRaises gateway a error ∨ ProviderRaises a error) :
      Attempted gateway args (attempt :: rest) [a] (.raise error)
  | cut {attempt : Nat} {rest : List Nat} {a : AttemptLog} {left : Action Accepted}
      (hOpen : ¬ Ended left) : Attempted gateway args (attempt :: rest) [a] left

/-- The attempts of a call end in one of these ways. -/
theorem attempts_attempted {left : Action Accepted} {numbers : List Nat} (hFormed : WellFormed log)
    (h : Exec (Prog.forElse
      (attemptCall gateway args (gateway.resolveModel args.tier) messages cacheKey)
      (.raise (quarantine gateway)) numbers) s log left t) :
    ∃ logs : List AttemptLog, log = logs.flatMap AttemptLog.log ∧ (∀ a ∈ logs, a.Of gateway) ∧
      Attempted gateway args numbers logs left := by
  induction numbers generalizing s log with
  | nil =>
      obtain ⟨rfl, rfl, -⟩ := Exec.of_raise h
      exact ⟨[], rfl, by simp, .exhausted⟩
  | cons attempt rest ih =>
      rcases Exec.of_bind_cases h with ⟨error, hTry, rfl⟩ | ⟨p', hTry, hTryOpen, hOpen⟩ |
        ⟨value, now, later, u, rfl, hTry, hLater⟩
      · obtain ⟨a, hLog, hOf, hEnd⟩ := attemptCall_cases hFormed hTry
        refine ⟨[a], by simpa using hLog, by simpa using hOf, ?_⟩
        rcases hEnd with ⟨hNone, -⟩ | ⟨accepted, hDone, -⟩ | ⟨other, hSame, hRaises⟩ | hCut
        · cases hNone
        · cases hDone
        · obtain rfl := Prog.raise.inj hSame
          exact .raised hRaises
        · exact absurd (.raise error) hCut
      · obtain ⟨a, hLog, hOf, -⟩ := attemptCall_cases hFormed hTry
        exact ⟨[a], by simpa using hLog, by simpa using hOf, .cut hOpen⟩
      · have hFormedNow : WellFormed now := fun response hIn =>
          hFormed response (by rw [responses_append]; exact List.mem_append_left _ hIn)
        have hFormedLater : WellFormed later := fun response hIn =>
          hFormed response (by rw [responses_append]; exact List.mem_append_right _ hIn)
        obtain ⟨a, rfl, hOf, hEnd⟩ := attemptCall_cases hFormedNow hTry
        rcases hEnd with ⟨hNone, hRejected⟩ | ⟨accepted, hDone, hAccepted⟩ | ⟨other, hSame, -⟩ | hCut
        · obtain rfl := Prog.done.inj hNone
          obtain ⟨logs, rfl, hAll, hRest⟩ := ih hFormedLater hLater
          refine ⟨a :: logs, by rw [List.flatMap_cons], ?_, .rejected hRejected hRest⟩
          exact List.forall_mem_cons.mpr ⟨hOf, hAll⟩
        · obtain rfl := Prog.done.inj hDone
          obtain ⟨rfl, rfl, -⟩ := Exec.of_done hLater
          exact ⟨[a], by simp, by simpa using hOf, .accepted hAccepted⟩
        · cases hSame
        · exact absurd (.done value) hCut

end Attempts

/-! ## How the attempts end -/

section Endings

variable {gateway : LLMGateway} {args : CompleteArgs} {numbers : List Nat}
  {logs : List AttemptLog}

theorem Attempted.length {left : Action Accepted} (h : Attempted gateway args numbers logs left) :
    logs.length ≤ numbers.length := by
  induction h with
  | exhausted => simp
  | rejected hFirst hRest ih => simpa using ih
  | accepted hLast => simp
  | raised hLast => simp
  | cut hOpen => simp

/-- All attempts are used up, and each of them is rejected. -/
def AllRejected (gateway : LLMGateway) (args : CompleteArgs) (logs : List AttemptLog) : Prop :=
  List.Forall₂ (Rejected gateway args) (List.range (gateway.maxRetries + 1)) logs

/-- Where the attempts raise, all of them have been rejected, or the last one raises. -/
theorem Attempted.of_raise {error : PyError}
    (h : Attempted gateway args numbers logs (.raise error)) :
    (error = quarantine gateway ∧ List.Forall₂ (Rejected gateway args) numbers logs) ∨
      ∃ earlier a, logs = earlier ++ [a] ∧ (HookRaises gateway a error ∨ ProviderRaises a error) := by
  generalize hLeft : (Prog.raise error : Action Accepted) = left at h
  induction h with
  | exhausted =>
      obtain rfl := Prog.raise.inj hLeft
      exact .inl ⟨rfl, .nil⟩
  | @rejected attempt rest a later left hFirst hRest ih =>
      rcases ih hLeft with ⟨hSame, hAll⟩ | ⟨earlier, last, rfl, hRaises⟩
      · exact .inl ⟨hSame, .cons hFirst hAll⟩
      · exact .inr ⟨a :: earlier, last, rfl, hRaises⟩
  | accepted hLast => cases hLeft
  | @raised attempt rest a other hLast =>
      obtain rfl := Prog.raise.inj hLeft
      exact .inr ⟨[], a, rfl, hLast⟩
  | cut hOpen =>
      subst hLeft
      exact (hOpen (Ended.raise (S := Vocabulary) error)).elim

/-- Where the attempts return, the last one is accepted. -/
theorem Attempted.of_done {accepted : Accepted}
    (h : Attempted gateway args numbers logs (.done accepted)) :
    ∃ earlier a attempt, logs = earlier ++ [a] ∧ numbers[earlier.length]? = some attempt ∧
      AcceptedBy gateway args attempt a accepted := by
  generalize hLeft : (Prog.done accepted : Action Accepted) = left at h
  induction h with
  | exhausted => cases hLeft
  | @rejected attempt rest a later left hFirst hRest ih =>
      obtain ⟨earlier, last, number, rfl, hNumber, hAccepted⟩ := ih hLeft
      exact ⟨a :: earlier, last, number, rfl, by simpa using hNumber, hAccepted⟩
  | @accepted attempt rest a other hLast =>
      obtain rfl := Prog.done.inj hLeft
      exact ⟨[], a, attempt, rfl, rfl, hLast⟩
  | raised hLast => cases hLeft
  | cut hOpen =>
      subst hLeft
      exact absurd (.done accepted) hOpen

/-- An attempt which is rejected is not accepted, and no exception ends it. -/
theorem Rejected.not_last {attempt : Nat} {a : AttemptLog} (h : Rejected gateway args attempt a) :
    (∀ accepted, ¬ AcceptedBy gateway args attempt a accepted) ∧
      ∀ error, ¬ (HookRaises gateway a error ∨ ProviderRaises a error) := by
  obtain ⟨model, response, content, failure, hModel, hResponse, hContent, hFailure⟩ := h
  constructor
  · intro accepted hAccepted
    have hSame := hAccepted.response
    rw [hResponse] at hSame
    obtain rfl := (List.cons.inj hSame).1
    have hText := hAccepted.content
    rw [hContent] at hText
    obtain rfl := Option.some.inj hText
    have hData := hAccepted.data
    simp [acceptedData, hModel, hFailure, Except.map] at hData
  · intro error hRaises
    rcases hRaises with ⟨hNone, -⟩ | ⟨hNone, -⟩
    · rw [hNone] at hResponse
      cases hResponse
    · rw [hNone] at hResponse
      cases hResponse

/-- Attempts which are all rejected end in quarantine. -/
theorem Attempted.all_rejected {left : Action Accepted}
    (h : Attempted gateway args numbers logs left)
    (hAll : List.Forall₂ (Rejected gateway args) numbers logs) (hEnd : Ended left) :
    left = .raise (quarantine gateway) := by
  induction h with
  | exhausted => rfl
  | rejected hFirst hRest ih =>
      cases hAll with
      | cons _ hLater => exact ih hLater hEnd
  | accepted hLast =>
      cases hAll with
      | cons hFirst _ => exact absurd hLast (hFirst.not_last.1 _)
  | raised hLast =>
      cases hAll with
      | cons hFirst _ => exact absurd hLast (hFirst.not_last.2 _)
  | cut hOpen => exact absurd hEnd hOpen

end Endings

end Ecrke
