import Ecrke.Durable.Executions
import Ecrke.Pipeline.RunHistory
import Ecrke.Services.Bookkeeping

/-!
# The hooks before provider calls

A before-call hook may refuse a call of the provider.  The gateway runs all hooks once for each
attempt, and an attempt may call the provider several times.

* `Offline`, `Retried` -- steps which do not call the provider, and calls which are tried again.
* `GatedCall`, `HookGated` -- logs in which all hooks have run immediately before each call.
* `complete_gated` -- the log of a call of the gateway, as long as nothing is tried again.
* `complete_ungated` -- a provider which is unavailable once is called twice on one run of the hooks.
-/

namespace Ecrke

open Durable

/-! ## Logs -/

/-- A step which does not call the provider. -/
abbrev Offline (m : Moment Vocabulary) : Prop := Asks (S := Vocabulary) NoProvider m

/-- An answer of the provider after which the gateway tries again. -/
def ProviderAnswer.isTransient (u : Unicode) : ProviderAnswer → Bool
  | .rateLimitError message => !isQuotaExhaustion u message
  | .serviceUnavailableError _ => true
  | .apiConnectionError _ => true
  | _ => false

/-- A call of the provider which fails for the moment. -/
def Retried (u : Unicode) (m : Moment Vocabulary) : Prop :=
  ∃ model messages kwargs answer, m.happening = .asked (.provider model messages kwargs) answer ∧
    ProviderAnswer.isTransient u answer = true

/-- The messages of an attempt. -/
def attemptMessages (gateway : LLMGateway) (args : CompleteArgs) (ctx : GatewayCallContext) :
    List Message :=
  match args.responseModel with
  | some responseModel => ctx.messages ++
      [⟨"system".toList, schemaInstruction gateway.platform responseModel ctx.attempt⟩]
  | none => ctx.messages

/-- The call of the provider which belongs to what the hooks are told. -/
def attemptCallOf (gateway : LLMGateway) (args : CompleteArgs) (ctx : GatewayCallContext) : Query :=
  .provider ctx.model (attemptMessages gateway args ctx) (callKwargs args ctx.attempt)

/-- `_run_before_call_hooks` -/
def runHooks (gateway : LLMGateway) (ctx : GatewayCallContext) : Action Unit :=
  gateway.hooks.forM fun hook => hook ctx

/-- One call of the provider, and immediately before it a run of all hooks for this call in which
none has raised; only the pacing stands between them. -/
def GatedCall (gateway : LLMGateway) (args : CompleteArgs) (log : Log Vocabulary) : Prop :=
  ∃ ctx s t hooks pacing m, log = hooks ++ pacing ++ [m] ∧
    Exec (runHooks gateway ctx) s hooks (.done ()) t ∧ (∀ m ∈ pacing, Offline m) ∧
    m.question = some (attemptCallOf gateway args ctx)

/-- A log of calls of the provider each with its own run of the hooks, of other steps, and of other
runs of the hooks. -/
inductive HookGated (gateway : LLMGateway) (args : CompleteArgs) : Log Vocabulary → Prop where
  | nil : HookGated gateway args []
  | step {log : Log Vocabulary} {m : Moment Vocabulary} (past : HookGated gateway args log)
      (hOffline : Offline m) : HookGated gateway args (log ++ [m])
  | hooks {log now : Log Vocabulary} {ctx : GatewayCallContext} {s t : World}
      (past : HookGated gateway args log) (hRun : Exec (runHooks gateway ctx) s now (.done ()) t) :
      HookGated gateway args (log ++ now)
  | call {log now : Log Vocabulary} (past : HookGated gateway args log)
      (hCall : GatedCall gateway args now) : HookGated gateway args (log ++ now)

/-- A log which is gated up to a run of the hooks which has not come to its end, because one of them
has raised or because the execution is cut off there. -/
def GatedUpTo (gateway : LLMGateway) (args : CompleteArgs) (log : Log Vocabulary) : Prop :=
  ∃ past tail, log = past ++ tail ∧ HookGated gateway args past ∧ (tail = [] ∨
    ∃ ctx s q t, Exec (runHooks gateway ctx) s tail q t ∧ q ≠ .done ())

section Logs

variable {gateway : LLMGateway} {args : CompleteArgs} {log : Log Vocabulary}

theorem HookGated.steps (h : HookGated gateway args log) {now : Log Vocabulary}
    (hNow : ∀ m ∈ now, Offline m) : HookGated gateway args (log ++ now) := by
  induction now generalizing log with
  | nil => simpa using h
  | cons m rest ih =>
      have hStep := h.step (hNow m (by simp))
      simpa using ih hStep fun later hLater => hNow later (by simp [hLater])

theorem HookGated.upTo (h : HookGated gateway args log) : GatedUpTo gateway args log :=
  ⟨log, [], by simp, h, .inl rfl⟩

end Logs

theorem Offline.of_book (m : Moment Vocabulary) (h : Bookkeeping m) : Offline m := h.asks

/-- What `tryProvider` does after a response returns the response. -/
theorem recordTime_returns {α : Type} (value : α) :
    Returns (S := Vocabulary) (· = value) (loopTime >>= fun time =>
      modifyMemory (fun m => { m with callTimestamps := m.callTimestamps ++ [time] }) >>= fun _ =>
      loopTime >>= fun time =>
      modifyMemory (fun m => { m with
        callTimestamps := m.callTimestamps.filter fun t => time - 60 < t }) >>= fun _ =>
      (pure value : Action α)) :=
  returns_bind fun _ => returns_bind fun _ => returns_bind fun _ => returns_bind fun _ =>
    returns_done rfl

/-! ## Executions -/

section Executions

variable {gateway : LLMGateway} {args : CompleteArgs} {s t : World} {log : Log Vocabulary}

/-- A log with one call of the provider, to a certain request. -/
def OneCall (request : Query) (log : Log Vocabulary) : Prop :=
  ∃ pacing m rest, log = pacing ++ m :: rest ∧ (∀ m ∈ pacing, Offline m) ∧
    m.question = some request ∧ ∀ m ∈ rest, Offline m

/-- The log of a provider call which is not tried again: at most one request. -/
def AtMostOneCall (request : Query) (log : Log Vocabulary) : Prop :=
  (∀ m ∈ log, Offline m) ∨ OneCall request log

theorem AtMostOneCall.prepend {request : Query} {now later : Log Vocabulary}
    (h : AtMostOneCall request later) (hNow : ∀ m ∈ now, Offline m) :
    AtMostOneCall request (now ++ later) := by
  rcases h with hOffline | ⟨pacing, m, rest, rfl, hPacing, hAsks, hRest⟩
  · left
    intro m hm
    rcases List.mem_append.mp hm with hm | hm
    · exact hNow m hm
    · exact hOffline m hm
  · refine .inr ⟨now ++ pacing, m, rest, by simp, ?_, hAsks, hRest⟩
    intro m hm
    rcases List.mem_append.mp hm with hm | hm
    · exact hNow m hm
    · exact hPacing m hm

theorem AtMostOneCall.append {request : Query} {now later : Log Vocabulary}
    (h : AtMostOneCall request now) (hLater : ∀ m ∈ later, Offline m) :
    AtMostOneCall request (now ++ later) := by
  rcases h with hOffline | ⟨pacing, m, rest, rfl, hPacing, hAsks, hRest⟩
  · left
    intro m hm
    rcases List.mem_append.mp hm with hm | hm
    · exact hOffline m hm
    · exact hLater m hm
  · refine .inr ⟨pacing, m, rest ++ later, by simp, hPacing, hAsks, ?_⟩
    intro m hm
    rcases List.mem_append.mp hm with hm | hm
    · exact hRest m hm
    · exact hLater m hm

/-- A try which is not tried again makes one request, and it does not go on to another try. -/
theorem tryProvider_log {model : Text} {messages : List Message} {kwargs : List (Text × Json)}
    {attempt : Nat} {left : Action (Option LLMResponse)}
    (h : Exec (tryProvider gateway model messages kwargs attempt) s log left t)
    (hOnce : ∀ m ∈ log, ¬ Retried gateway.platform.unicode m) :
    AtMostOneCall (.provider model messages kwargs) log ∧ left ≠ .done none := by
  rcases Exec.of_query h with ⟨rfl, rfl, -⟩ | ⟨answer, later, rfl, hRest⟩
  · exact ⟨.inl (by simp), nofun⟩
  · have hAnswer : ¬ ProviderAnswer.isTransient gateway.platform.unicode answer = true :=
      fun hTransient => hOnce _ List.mem_cons_self ⟨_, _, _, _, rfl, hTransient⟩
    suffices hOffline : (∀ m ∈ later, Offline m) ∧ left ≠ .done none from
      ⟨.inr ⟨[], _, later, rfl, by simp, rfl, hOffline.1⟩, hOffline.2⟩
    have hRaised {error : PyError} (hRest : Exec (.raise error) s later left t) :
        (∀ m ∈ later, Offline m) ∧ left ≠ .done none := by
      obtain ⟨rfl, rfl, -⟩ := hRest.of_raise
      exact ⟨by simp, nofun⟩
    cases (answer : ProviderAnswer) with
    | response response =>
        refine ⟨(hRest.keeps ((pace_recordTime (some response)).mono fun m hm => hm.asks)).1, ?_⟩
        rintro rfl
        have hSome := (recordTime_returns (some response)).exec hRest
        cases hSome
    | rateLimitError message =>
        have hQuota : isQuotaExhaustion gateway.platform.unicode message = true := by
          simpa [ProviderAnswer.isTransient] using hAnswer
        simp only [hQuota, if_true] at hRest
        exact hRaised hRest
    | serviceUnavailableError message => exact absurd rfl hAnswer
    | apiConnectionError message => exact absurd rfl hAnswer
    | otherError error => exact hRaised hRest

/-- The tries of a provider call: the first one decides. -/
theorem providerTries_log {model : Text} {messages : List Message} {kwargs : List (Text × Json)}
    {fallback left : Action LLMResponse}
    (h : Exec (Prog.forElse (tryProvider gateway model messages kwargs) fallback
      (List.range (maxRateLimitRetries + 1))) s log left t)
    (hOnce : ∀ m ∈ log, ¬ Retried gateway.platform.unicode m) :
    AtMostOneCall (.provider model messages kwargs) log := by
  have hTries : List.range (maxRateLimitRetries + 1) = 0 :: [1, 2, 3] := rfl
  rw [hTries] at h
  rcases h.of_forElse with ⟨q, hTry, -⟩ | ⟨value, hTry, -⟩ | ⟨now, later, u, rfl, hTry, -⟩
  · exact (tryProvider_log hTry hOnce).1
  · exact (tryProvider_log hTry hOnce).1
  · have hNow := (tryProvider_log hTry fun m hm => hOnce m (by simp [hm])).2
    exact absurd rfl hNow

theorem callWithRateLimitRetry_log {model : Text} {messages : List Message}
    {kwargs : List (Text × Json)} {left : Action LLMResponse}
    (h : Exec (callWithRateLimitRetry gateway model messages kwargs) s log left t)
    (hOnce : ∀ m ∈ log, ¬ Retried gateway.platform.unicode m) :
    AtMostOneCall (.provider model messages kwargs) log := by
  -- The pacing calls nobody; whatever it is, the tries follow it.
  rcases Exec.skip h (asks_query (A := NoProvider) trivial) with
    hOffline | ⟨time, now, later, u, rfl, hNow, hLater⟩
  · exact .inl hOffline
  refine AtMostOneCall.prepend ?_ hNow
  replace hOnce : ∀ m ∈ later, ¬ Retried gateway.platform.unicode m :=
    fun m hm => hOnce m (by simp [hm])
  rcases Exec.skip hLater (asks_atomically (A := NoProvider)) with
    hOffline | ⟨last, now, later, u, rfl, hNow, hLater⟩
  · exact .inl hOffline
  refine AtMostOneCall.prepend ?_ hNow
  replace hOnce : ∀ m ∈ later, ¬ Retried gateway.platform.unicode m :=
    fun m hm => hOnce m (by simp [hm])
  cases last with
  | none => exact providerTries_log hLater hOnce
  | some last =>
      dsimp only at hLater
      split at hLater
      · rcases Exec.skip hLater (asks_query (A := NoProvider) trivial) with
          hOffline | ⟨_, now, later, u, rfl, hNow, hLater⟩
        · exact .inl hOffline
        · refine AtMostOneCall.prepend ?_ hNow
          exact providerTries_log hLater fun m hm => hOnce m (by simp [hm])
      · exact providerTries_log hLater hOnce

/-- A run of the hooks and then at most one call for which they have run. -/
theorem HookGated.attempt (hPast : HookGated gateway args log) {ctx : GatewayCallContext}
    {hooks call : Log Vocabulary} (hRun : Exec (runHooks gateway ctx) s hooks (.done ()) t)
    (hCall : AtMostOneCall (attemptCallOf gateway args ctx) call) :
    HookGated gateway args (log ++ (hooks ++ call)) := by
  rcases hCall with hOffline | ⟨pacing, m, rest, rfl, hPacing, hAsks, hRest⟩
  · have hSteps := (hPast.hooks hRun).steps hOffline
    simpa using hSteps
  · have hGated : GatedCall gateway args (hooks ++ pacing ++ [m]) :=
      ⟨ctx, s, t, hooks, pacing, m, rfl, hRun, hPacing, hAsks⟩
    have hSteps := (hPast.call hGated).steps hRest
    simpa using hSteps

/-- One attempt of the gateway. -/
theorem attemptCall_log {past : Log Vocabulary} (hPast : HookGated gateway args past)
    {model cacheKey : Text} {messages : List Message} {attempt : Nat}
    {left : Action (Option Accepted)}
    (h : Exec (attemptCall gateway args model messages cacheKey attempt) s log left t)
    (hOnce : ∀ m ∈ log, ¬ Retried gateway.platform.unicode m) :
    GatedUpTo gateway args (past ++ log) ∧
      ∀ value, left = .done value → HookGated gateway args (past ++ log) := by
  let ctx : GatewayCallContext :=
    ⟨model, args.tier, messages, args.runId, cacheKey, args.responseModel, attempt⟩
  rcases Exec.of_bind h with ⟨p', hHooks, rfl, hOpen⟩ | ⟨_, hooks, later, u, rfl, hHooks, hLater⟩
  · refine ⟨⟨past, log, rfl, hPast, .inr ⟨ctx, s, p', t, hHooks, hOpen ()⟩⟩, ?_⟩
    intro value hDone
    obtain ⟨first, hFirst, -⟩ := Prog.bind_eq_done hDone
    exact absurd hFirst (hOpen first)
  · have hCall : AtMostOneCall (attemptCallOf gateway args ctx) later := by
      rcases Exec.of_bind hLater with ⟨p', hCall, -⟩ | ⟨response, call, rest, v, rfl, hCall, hRest⟩
      · exact callWithRateLimitRetry_log hCall fun m hm => hOnce m (by simp [hm])
      · have hOne := callWithRateLimitRetry_log hCall fun m hm => hOnce m (by simp [hm])
        refine AtMostOneCall.append hOne (hRest.keeps ?_).1
        -- The validation takes no step.
        split
        · exact keeps_raise _
        · split
          · exact keeps_done _
          · split
            · exact keeps_done _
            · exact keeps_ite (fun _ => keeps_done _) (fun _ => keeps_raise _)
    have hGated := hPast.attempt hHooks hCall
    exact ⟨hGated.upTo, fun _ _ => hGated⟩

/-- The attempts of the gateway. -/
theorem attempts_log {past : Log Vocabulary} (hPast : HookGated gateway args past)
    {model cacheKey : Text} {messages : List Message} {attempts : List Nat} {error : PyError}
    {left : Action Accepted}
    (h : Exec (Prog.forElse (attemptCall gateway args model messages cacheKey) (.raise error)
      attempts) s log left t)
    (hOnce : ∀ m ∈ log, ¬ Retried gateway.platform.unicode m) :
    GatedUpTo gateway args (past ++ log) ∧
      ∀ value, left = .done value → HookGated gateway args (past ++ log) := by
  induction attempts generalizing past s log with
  | nil =>
      obtain ⟨rfl, rfl, -⟩ := Exec.of_raise h
      refine ⟨by simpa using hPast.upTo, ?_⟩
      intro value hDone
      cases hDone
  | cons attempt rest ih =>
      rcases Exec.of_bind h with ⟨p', hTry, rfl, hOpen⟩ | ⟨value, now, later, u, rfl, hTry, hLater⟩
      · refine ⟨(attemptCall_log hPast hTry hOnce).1, ?_⟩
        intro value hDone
        obtain ⟨first, hFirst, -⟩ := Prog.bind_eq_done hDone
        exact absurd hFirst (hOpen first)
      · have hNow := (attemptCall_log hPast hTry fun m hm => hOnce m (by simp [hm])).2 value rfl
        cases value with
        | some accepted =>
            obtain ⟨rfl, -, -⟩ := Exec.of_done hLater
            have hAll : HookGated gateway args (past ++ (now ++ [])) := by simpa using hNow
            exact ⟨hAll.upTo, fun _ _ => hAll⟩
        | none =>
            rw [← List.append_assoc]
            exact ih hNow hLater fun m hm => hOnce m (by simp [hm])

/-- The attempts, the meter and the cache. -/
theorem fresh_log {past : Log Vocabulary} (hPast : HookGated gateway args past)
    {model prompt cacheKey : Text} {messages : List Message} {attempts : List Nat}
    {error : PyError} {left : Action GatewayResult}
    (h : Exec ((Prog.forElse (attemptCall gateway args model messages cacheKey) (.raise error)
      attempts).bind (meterAndCache gateway args model prompt cacheKey)) s log left t)
    (hOnce : ∀ m ∈ log, ¬ Retried gateway.platform.unicode m) :
    GatedUpTo gateway args (past ++ log) := by
  rcases Exec.of_bind h with ⟨p', hTries, -⟩ | ⟨accepted, tries, last, u, rfl, hTries, hLast⟩
  · exact (attempts_log hPast hTries hOnce).1
  · have hGated := (attempts_log hPast hTries fun m hm => hOnce m (by simp [hm])).2 accepted rfl
    rw [← List.append_assoc]
    exact (hGated.steps (hLast.keeps ((book_meterAndCache _ _ _ _ _ _).mono Offline.of_book)).1).upTo

/-- As long as the provider reports no error after which the gateway tries again, each call of it
comes immediately after a run of all hooks for this call. -/
theorem complete_gated {left : Action GatewayResult} (h : Exec (complete gateway args) s log left t)
    (hOnce : ∀ m ∈ log, ¬ Retried gateway.platform.unicode m) : GatedUpTo gateway args log := by
  rcases Exec.skip h (keeps_ofExcept (R := Offline) _) with
    hOffline | ⟨messages, now, later, u, rfl, hNow, hLater⟩
  · simpa using (HookGated.nil.steps hOffline).upTo
  have hPast : HookGated gateway args now := by simpa using HookGated.nil.steps hNow
  replace hOnce : ∀ m ∈ later, ¬ Retried gateway.platform.unicode m :=
    fun m hm => hOnce m (by simp [hm])
  dsimp only at hLater
  split at hLater
  · rcases Exec.skip hLater ((book_kvGet _).mono Offline.of_book) with
      hOffline | ⟨cached, looked, rest, v, rfl, hLooked, hRest⟩
    · exact (hPast.steps hOffline).upTo
    · rw [← List.append_assoc]
      cases cached with
      | some payload =>
          exact ((hPast.steps hLooked).steps (hRest.keeps (keeps_ofExcept _)).1).upTo
      | none => exact fresh_log (hPast.steps hLooked) hRest fun m hm => hOnce m (by simp [hm])
  · exact fresh_log hPast hLater hOnce

end Executions

/-! ## The retries -/

section Marks

/-- A call of the provider. -/
def Moment.callsProvider (m : Moment Vocabulary) : Bool :=
  match m.question with
  | some (.provider ..) => true
  | _ => false

/-- A line of the log. -/
def Moment.writesLine (m : Moment Vocabulary) : Bool :=
  match m.happening with
  | .wrote _ => true
  | _ => false

/-- A call of the provider which fails for the moment, as a test. -/
def Moment.retries (u : Unicode) (m : Moment Vocabulary) : Bool :=
  match m.happening with
  | .asked (.provider ..) answer => ProviderAnswer.isTransient u answer
  | _ => false

/-- A gateway whose hook writes a line. -/
def LLMGateway.marking : LLMGateway where
  platform := .plain
  settings := ⟨"cheap".toList, "strong".toList, 5, "a.org".toList, 0, "blobs".toList⟩
  maxRetries := 0
  hooks := [fun _ => emit (.runCompleted ⟨0⟩)]

/-- An outside in which the provider is unavailable at a certain step. -/
def unavailableAt (step : Nat) : Environment Vocabulary where
  answer := fun n => fun
    | .provider .. =>
        if n = step then ProviderAnswer.serviceUnavailableError []
        else ProviderAnswer.response ⟨some "a".toList, none⟩
    | question => (quietOutside fun _ => .grant).answer n question
  verdict _ := .grant

/-- A call of the marking gateway in the first steps. -/
def markedCall (steps unavailable : Nat) : Log Vocabulary × Action GatewayResult × World :=
  simulate (unavailableAt unavailable) steps 0
    (complete .marking { prompt := some "p".toList, useCache := false }) (World.submitted 1)

variable {args : CompleteArgs} {log : Log Vocabulary}

theorem Retried.retries {u : Unicode} {m : Moment Vocabulary} (h : Retried u m) :
    Moment.retries u m = true := by
  obtain ⟨model, messages, kwargs, answer, hAsked, hTransient⟩ := h
  simp only [Moment.retries, hAsked, hTransient]

theorem Offline.calls {m : Moment Vocabulary} (h : Offline m) : Moment.callsProvider m = false := by
  unfold Moment.callsProvider
  split
  · rename_i hAsks
    exact (h _ hAsks).elim
  · rfl

theorem offline_calls (h : ∀ m ∈ log, Offline m) : log.countP Moment.callsProvider = 0 := by
  rw [List.countP_eq_zero]
  intro m hm
  simp [Offline.calls (h m hm)]

/-- A run of the marking hook writes its line and calls nobody. -/
theorem marking_hooks {ctx : GatewayCallContext} {s t : World} {q : Action Unit}
    (h : Exec (runHooks .marking ctx) s log q t) :
    log.countP Moment.callsProvider = 0 ∧
      (q = .done () → log.countP Moment.writesLine = 1) := by
  cases h with
  | refl => exact ⟨rfl, nofun⟩
  | step first rest =>
      cases first with
      | emit =>
          obtain ⟨rfl, -, -⟩ := Exec.of_done rest
          exact ⟨rfl, fun _ => rfl⟩

/-- Under the marking hook a gated log has a line for each call. -/
theorem HookGated.counts (h : HookGated .marking args log) :
    log.countP Moment.callsProvider ≤ log.countP Moment.writesLine := by
  induction h with
  | nil => simp
  | @step log m past hOffline ih =>
      have hNone : [m].countP Moment.callsProvider = 0 := offline_calls (by simpa using hOffline)
      rw [List.countP_append, List.countP_append]
      omega
  | hooks past hRun ih =>
      have hNone := (marking_hooks hRun).1
      rw [List.countP_append, List.countP_append]
      omega
  | @call log now past hCall ih =>
      obtain ⟨ctx, s, t, hooks, pacing, m, rfl, hRun, hPacing, hAsks⟩ := hCall
      obtain ⟨hNone, hOne⟩ := marking_hooks hRun
      have hLine := hOne rfl
      have hOffline := offline_calls hPacing
      have hLast : [m].countP Moment.callsProvider ≤ 1 := List.countP_le_length
      simp only [List.countP_append]
      omega

theorem GatedUpTo.counts (h : GatedUpTo .marking args log) :
    log.countP Moment.callsProvider ≤ log.countP Moment.writesLine := by
  obtain ⟨past, tail, rfl, hPast, hTail⟩ := h
  have hCounts := hPast.counts
  have hNone : tail.countP Moment.callsProvider = 0 := by
    rcases hTail with rfl | ⟨ctx, s, q, t, hRun, -⟩
    · rfl
    · exact (marking_hooks hRun).1
  rw [List.countP_append, List.countP_append]
  omega

/-- A provider which is unavailable once is called twice on one run of the hooks. -/
theorem complete_ungated : ∃ (gateway : LLMGateway) (args : CompleteArgs) (s t : World)
    (log : Log Vocabulary) (left : Action GatewayResult),
    Exec (complete gateway args) s log left t ∧ ¬ GatedUpTo gateway args log := by
  refine ⟨.marking, { prompt := some "p".toList, useCache := false }, World.submitted 1, _, _, _,
    simulate_exec (unavailableAt 3) 6 0 _ _, fun hGated => ?_⟩
  have hCounts := hGated.counts
  revert hCounts
  decide

/-- A provider which answers at once. -/
theorem complete_gated_once :
    GatedUpTo .marking { prompt := some "p".toList, useCache := false } (markedCall 20 0).1 ∧
      (markedCall 20 0).1.countP Moment.callsProvider = 1 := by
  refine ⟨complete_gated (simulate_exec _ _ _ _ _) fun m hm hRetried => ?_, by decide +kernel⟩
  have hNone : (markedCall 20 0).1.all fun m => !Moment.retries Platform.plain.unicode m := by
    decide +kernel
  have hFalse := List.all_eq_true.mp hNone m hm
  have hTrue : Moment.retries Platform.plain.unicode m = true := hRetried.retries
  rw [hTrue] at hFalse
  cases hFalse

end Marks

end Ecrke
