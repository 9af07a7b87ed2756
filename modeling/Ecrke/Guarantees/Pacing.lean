import Ecrke.Durable.Timed
import Ecrke.Guarantees.Hooks
import Ecrke.Services.Collection

/-!
# Pacing

A fetcher waits before a request until the last one on the same connector is old enough, and the
gateway waits before a call of the provider.  Both remember only the requests which were answered.

* `Clock`, `Clock.law` -- clocks which show the time, and pauses which last.
* `fetch_timed` -- one fetch.
* `fetches_spaced` -- the requests of fetches one after the other.
* `tryAgain`, `retryCount` -- the answers of the provider after which it is called again.
* `callWithRateLimitRetry_timed`, `complete_timed` -- one call of the gateway.
* `calls_spaced` -- the provider calls of such calls one after the other.
-/

namespace Ecrke

open Durable

/-! ## Clocks -/

/-- The clocks of the process. -/
inductive Clock where
  /-- `datetime.now(UTC)`. -/
  | wall
  /-- `asyncio.get_event_loop().time()`. -/
  | loop
  deriving DecidableEq

/-- A time in a span. -/
def During (begins time ends : Instant) : Prop := begins ≤ time ∧ time ≤ ends

/-- When a clock is read it shows a time during the reading, and a pause advances it by what it was
asked for at least. -/
def Clock.law (clock : Clock) (begins : Instant) (happening : Happening Vocabulary)
    (ends : Instant) : Prop :=
  match happening with
  | .asked .now time => clock = .wall → During begins time ends
  | .asked .loopTime time => clock = .loop → During begins time ends
  | .asked (.sleep seconds) _ => begins + seconds ≤ ends
  | _ => True

instance During.decidable (begins time ends : Instant) : Decidable (During begins time ends) :=
  inferInstanceAs (Decidable (begins ≤ time ∧ time ≤ ends))

instance (clock : Clock) (begins ends : Instant) :
    (happening : Happening Vocabulary) → Decidable (clock.law begins happening ends)
  | .asked .now time => @instDecidableForall _ _ _ (During.decidable begins time ends)
  | .asked .loopTime time => @instDecidableForall _ _ _ (During.decidable begins time ends)
  | .asked (.sleep seconds) _ => inferInstanceAs (Decidable (begins + seconds ≤ ends))
  | .asked .uuid4 _ | .asked .dbNow _ | .asked .perfCounter _ | .asked (.rowOrder _) _
  | .asked (.provider ..) _ | .asked (.searchBackend ..) _ | .asked (.httpGet _) _
  | .asked (.readFile _) _ | .wrote _ | .looked | .moved | .refused => isTrue trivial

/-- At least a number of seconds apart. -/
def secondsApart (seconds : ℚ) (a b : Instant) : Prop := a + seconds ≤ b

section Apart

variable {seconds : ℚ} {last time begins ends : Instant}

/-- A pause of what is missing is long enough, as the clock was read before it. -/
theorem secondsApart_pause (hTime : time ≤ begins)
    (hPause : begins + (seconds - (time - last)) ≤ ends) : secondsApart seconds last ends := by
  unfold secondsApart
  linarith

/-- Without a pause nothing is missing. -/
theorem secondsApart_old (hTime : time ≤ begins) (hOld : ¬ time - last < seconds) :
    secondsApart seconds last begins := by
  unfold secondsApart
  linarith

theorem secondsApart_earlier (hEarlier : last ≤ time) (h : secondsApart seconds time ends) :
    secondsApart seconds last ends := by
  unfold secondsApart at h ⊢
  linarith

end Apart

/-! ## Fetches -/

/-- A network request. -/
def IsRequest (m : Moment Vocabulary) : Prop :=
  ∃ uri answer, m.happening = .asked (.httpGet uri) answer

/-- A network request which was answered, with whatever status. -/
def IsAnswered (m : Moment Vocabulary) : Prop :=
  ∃ uri, ∃ response : HttpResponse,
    m.happening = .asked (.httpGet uri) (Except.ok response : Except Text HttpResponse)

/-- `self._last_fetch_at.get(connector)` -/
def lastFetch (connector : Text) (w : World) : Option Instant :=
  (w.memory.lastFetchAt.find? fun e => e.1 = connector).map Prod.snd

section Fetches

variable {T : Timing Instant} {settings : Settings} {connector : Text} {s t : World}
  {l : Log Vocabulary}

/-- The contract of a fetch. -/
abbrev Fetching (T : Timing Instant) (settings : Settings) : Contract Vocabulary :=
  .timed T Clock.wall.law (T.Apart IsRequest (fun _ m => IsAnswered m)
    (secondsApart settings.fetchMinIntervalSeconds))

/-- The latest request, if it was answered, is not younger than the time on record. -/
def FetchRecorded (T : Timing Instant) (connector : Text) (w : World) (l : Log Vocabulary) : Prop :=
  Latest IsRequest (fun earlier m => IsAnswered m →
    ∃ time, lastFetch connector w = some time ∧ T.now earlier ≤ time) l

/-- The next request may be made now. -/
def MayFetch (T : Timing Instant) (settings : Settings) (l : Log Vocabulary) : Prop :=
  Latest IsRequest (fun earlier m => IsAnswered m →
    secondsApart settings.fetchMinIntervalSeconds (T.now earlier) (T.now l)) l

theorem not_isRequest {m : Moment Vocabulary} (h : ∀ uri, m.question ≠ some (.httpGet uri)) :
    ¬ IsRequest m := by
  rintro ⟨uri, answer, hAsked⟩
  apply h uri
  rw [Moment.question, hAsked]

theorem lastFetch_record (connector : Text) (time : Instant) (w : World) :
    lastFetch connector { w with memory := { w.memory with
      lastFetchAt := (connector, time) :: w.memory.lastFetchAt.filter fun e => e.1 ≠ connector } } =
      some time := by
  simp [lastFetch]

/-- A step which is no request and which leaves the record alone. -/
theorem FetchRecorded.step {m : Moment Vocabulary} (h : FetchRecorded T connector m.before l)
    (hm : ¬ IsRequest m) (hSame : m.after = m.before) :
    FetchRecorded T connector m.after (l ++ [m]) := by
  rw [hSame]
  exact (latest_other hm).mpr h

/-- A request may be made once the time on record is old enough. -/
theorem FetchRecorded.mayFetch (h : FetchRecorded T connector s l)
    (hOld : ∀ last, lastFetch connector s = some last →
      secondsApart settings.fetchMinIntervalSeconds last (T.now l)) : MayFetch T settings l := by
  refine Latest.mono ?_ h
  intro earlier m _ hRecorded hAnswered
  obtain ⟨last, hLast, hBefore⟩ := hRecorded hAnswered
  exact secondsApart_earlier hBefore (hOld last hLast)

/-- The pause before a request. -/
theorem awaitRateLimit_timed (h : FetchRecorded T connector s l) :
    wp (Fetching T settings)
      (fun _ t l' => FetchRecorded T connector t l' ∧ MayFetch T settings l')
      (awaitRateLimit settings connector) s l := by
  have hClock (time : Instant) : ¬ IsRequest ⟨s, .asked .now time, s⟩ :=
    not_isRequest (by rintro uri ⟨⟩)
  have hRead : ¬ IsRequest ⟨s, .moved, s⟩ := not_isRequest (by rintro uri ⟨⟩)
  refine wp_timed_ask fun (time : Instant) hLaw => ⟨Timing.apart_other (hClock time), ?_⟩
  obtain ⟨-, hTime⟩ : During (T.now l) time (T.later l) := hLaw rfl
  refine wp_timed_act (Timing.apart_other hRead) ?_
  generalize hThere : l ++ [⟨s, .asked .now time, s⟩] ++ [⟨s, .moved, s⟩] = l'
  have hRecorded : FetchRecorded T connector s l' := by
    rw [← hThere]
    exact (h.step (hClock time) rfl).step hRead rfl
  have hPast : time ≤ T.now l' := by
    rw [← hThere]
    exact hTime.trans (T.later_le (by simp))
  split
  case h_1 last hLast =>
    have hFound : lastFetch connector s = some last := hLast
    split
    case isTrue =>
      have hPause : ¬ IsRequest ⟨s, .asked (.sleep (settings.fetchMinIntervalSeconds -
          (time - last))) (), s⟩ := not_isRequest (by rintro uri ⟨⟩)
      refine wp_timed_query fun _ hLaw => ⟨Timing.apart_other hPause, ?_⟩
      have hRested := hRecorded.step hPause rfl
      refine ⟨hRested, hRested.mayFetch ?_⟩
      intro other hOther
      obtain rfl : last = other := by simpa [hFound] using hOther
      have hSlept : T.now l' + (settings.fetchMinIntervalSeconds - (time - last)) ≤ T.later l' := hLaw
      exact secondsApart_pause hPast (hSlept.trans (T.later_le (by simp)))
    case isFalse hOld =>
      refine .done ⟨hRecorded, hRecorded.mayFetch ?_⟩
      intro other hOther
      obtain rfl : last = other := by simpa [hFound] using hOther
      exact secondsApart_old hPast hOld
  case h_2 hLast =>
    refine .done ⟨hRecorded, hRecorded.mayFetch ?_⟩
    intro other hOther
    have hNone : lastFetch connector s = none := hLast
    rw [hNone] at hOther
    cases hOther

theorem mayFetch_apart {m : Moment Vocabulary} (h : MayFetch T settings l) :
    T.Apart IsRequest (fun _ m => IsAnswered m)
      (secondsApart settings.fetchMinIntervalSeconds) l m :=
  fun _ => h

/-- The time of an answer goes on record. -/
theorem recordFetch_timed {α : Type} {Q : Post Vocabulary α} {rest : Action α}
    (hRest : ∀ t l', FetchRecorded T connector t l' → wp (Fetching T settings) Q rest t l') :
    wp (Fetching T settings) Q (now >>= fun time => recordFetch connector time >>= fun _ => rest)
      s l := by
  have hClock (time : Instant) : ¬ IsRequest ⟨s, .asked .now time, s⟩ :=
    not_isRequest (by rintro uri ⟨⟩)
  refine wp_timed_ask fun (time : Instant) hLaw => ⟨Timing.apart_other (hClock time), ?_⟩
  obtain ⟨hTime, -⟩ : During (T.now l) time (T.later l) := hLaw rfl
  have hMoved (t : World) : ¬ IsRequest ⟨s, .moved, t⟩ := not_isRequest (by rintro uri ⟨⟩)
  refine wp_timed_act (Timing.apart_other (hMoved _)) (hRest _ _ ?_)
  rw [FetchRecorded, latest_other (hMoved _), latest_other (hClock time)]
  intro earlier m between hLog _ _ _
  have hBefore : T.now earlier ≤ T.now l := T.now_mono (by simp [hLog])
  exact ⟨time, lastFetch_record connector time s, hBefore.trans hTime⟩

/-- Reading the clock once more changes nothing. -/
theorem fetched_timed {content : Instant → FetchedContent} (h : FetchRecorded T connector s l) :
    wp (Fetching T settings) (fun _ t l' => FetchRecorded T connector t l')
      (now >>= fun fetchedAt => pure (content fetchedAt)) s l := by
  have hClock (time : Instant) : ¬ IsRequest ⟨s, .asked .now time, s⟩ :=
    not_isRequest (by rintro uri ⟨⟩)
  exact wp_timed_ask fun (time : Instant) _ =>
    ⟨Timing.apart_other (hClock time), .done (h.step (hClock time) rfl)⟩

theorem fetchFile_timed {p : Platform} {uri : Text} (h : FetchRecorded T connector s l) :
    wp (Fetching T settings) (fun _ t l' => FetchRecorded T connector t l')
      (fetchFile p uri connector) s l := by
  refine wp_timed_ask fun (found : Except PyError (Option Bytes)) _ => ?_
  have hRead : ¬ IsRequest ⟨s, .asked (.readFile (uri.drop fileScheme.length)) found, s⟩ :=
    not_isRequest (by rintro uri ⟨⟩)
  have hRecorded := h.step hRead rfl
  refine ⟨Timing.apart_other hRead, ?_⟩
  cases found with
  | error error => exact .raise hRecorded
  | ok content =>
      cases content with
      | none => exact .raise hRecorded
      | some content => exact recordFetch_timed fun t l' hDone => fetched_timed hDone

theorem fetchHttp_timed {p : Platform} {uri : Text} (h : MayFetch T settings l) :
    wp (Fetching T settings) (fun _ t l' => FetchRecorded T connector t l')
      (fetchHttp p uri connector) s l := by
  refine wp_timed_ask fun (answer : Except Text HttpResponse) _ => ⟨mayFetch_apart h, ?_⟩
  cases answer with
  | error message =>
      -- The exception passes by the record, so that nothing is known of this request.
      refine .raise ((latest_kind ⟨uri, _, rfl⟩).mpr ?_)
      rintro ⟨uri', response, hAsked⟩
      cases hAsked
  | ok response =>
      -- The status is checked behind the record.
      refine recordFetch_timed fun t l' hDone => ?_
      split
      · exact .raise hDone
      · exact fetched_timed hDone

/-- A fetch waits for its turn, and it puts an answered request on record. -/
theorem fetch_timed {p : Platform} {uri : Text} (h : FetchRecorded T connector s l) :
    wp (Fetching T settings) (fun _ t l' => FetchRecorded T connector t l')
      (fetch p settings uri connector) s l := by
  have hTurn {next : Action FetchedContent}
      (hNext : ∀ t l', FetchRecorded T connector t l' → MayFetch T settings l' →
        wp (Fetching T settings) (fun _ t l' => FetchRecorded T connector t l') next t l') :
      wp (Fetching T settings) (fun _ t l' => FetchRecorded T connector t l')
        (awaitRateLimit settings connector >>= fun _ => next) s l := by
    refine wp_bind _ (awaitRateLimit_timed h) ?_ ?_
    · rintro _ t l' ⟨hRecorded, hMay⟩
      exact hNext t l' hRecorded hMay
    · rintro _ t l' ⟨hRecorded, -⟩
      exact hRecorded
  unfold fetch
  split
  · exact hTurn fun t l' hRecorded _ => fetchFile_timed hRecorded
  · cases Allowlist.check p (Allowlist.fromSettings p.unicode settings) uri with
    | error error => exact .raise h
    | ok _ => exact hTurn fun t l' _ hMay => fetchHttp_timed hMay

end Fetches

/-- Fetches on one connector, one after the other: two network requests without others in between
begin far enough apart, if the first one was answered. -/
theorem fetches_spaced {T : Timing Instant} {p : Platform} {settings : Settings} {connector : Text}
    {s t : World} {log : Log Vocabulary}
    (h : Completed (fun uri => fetch p settings uri connector) s log t)
    (hTimes : T.Fits Clock.wall.law log) :
    T.Spaced IsRequest (fun _ m => IsAnswered m) (secondsApart settings.fetchMinIntervalSeconds)
      log := by
  have hAlong := (h.invariant (C := Fetching T settings) (fun _ => rfl) (FetchRecorded T connector)
    (fun uri s l hRecorded => fetch_timed hRecorded) latest_nil hTimes.granted).1
  exact Timing.spaced_of_along hAlong

/-- Two programs one after the other, the second one from a step on. -/
def twoRuns {α : Type} (env : Environment Vocabulary) (steps : Nat) (first second : Action α) :
    (Log Vocabulary × Action α × World) × (Log Vocabulary × Action α × World) :=
  let now := simulate env steps 0 first (World.submitted 1)
  (now, simulate env 30 steps second now.2.2)

/-- The log of both programs. -/
def twoRunsLog {α : Type} (env : Environment Vocabulary) (steps : Nat) (first second : Action α) :
    Log Vocabulary :=
  (twoRuns env steps first second).1.1 ++ (twoRuns env steps first second).2.1

/-- A program which has raised or returned. -/
def Stopped {α : Type} (left : Action α) : Prop := left.raised.isSome ∨ left.returned.isSome

instance {α : Type} (left : Action α) : Decidable (Stopped left) :=
  inferInstanceAs (Decidable (_ ∨ _))

theorem Stopped.ended {α : Type} {left : Action α} (h : Stopped left) : Ended left := by
  rcases h with hRaised | hReturned
  · obtain ⟨error, hError⟩ := Option.isSome_iff_exists.mp hRaised
    rw [Prog.eq_raise hError]
    exact .raise error
  · obtain ⟨value, hValue⟩ := Option.isSome_iff_exists.mp hReturned
    rw [Prog.eq_done hValue]
    exact .done value

theorem twoRuns_completed {ι : Type*} {α : Type} {job : ι → Action α} {env : Environment Vocabulary}
    {steps : Nat} (i j : ι) (hFirst : Stopped (twoRuns env steps (job i) (job j)).1.2.1)
    (hSecond : Stopped (twoRuns env steps (job i) (job j)).2.2.1) :
    Completed job (World.submitted 1) (twoRunsLog env steps (job i) (job j))
      (twoRuns env steps (job i) (job j)).2.2.2 := by
  have hPast : Completed job (World.submitted 1) ([] ++ (twoRuns env steps (job i) (job j)).1.1)
      (twoRuns env steps (job i) (job j)).1.2.2 :=
    .snoc (.nil _) i (simulate_exec ..) hFirst.ended
  exact hPast.snoc j (simulate_exec ..) hSecond.ended

/-- An outside in which pages are missing and the provider answers, and in which it is four seconds
later from a step on. -/
def laterOutside (step : Nat) : Environment Vocabulary where
  answer := fun n => fun
    | .now => if n < step then (0 : ℚ) else (4 : ℚ)
    | .loopTime => if n < step then (0 : ℚ) else (4 : ℚ)
    | .httpGet _ => (.ok ⟨404, [], []⟩ : Except Text HttpResponse)
    | .provider .. => ProviderAnswer.response ⟨some "a".toList, none⟩
    | question => (quietOutside fun _ => .grant).answer n question
  verdict _ := .grant

/-- One step takes four seconds, and no other one takes any time. -/
def onePause (step : Nat) : Timing Instant where
  begins n := if n ≤ step then 0 else 4
  ends n := if n < step then 0 else 4
  lasts n := by
    split <;> split <;> first | omega | norm_num
  follows n := by
    split <;> split <;> first | omega | norm_num

/-- Settings with one domain and four seconds between requests. -/
def Settings.polite : Settings :=
  ⟨"cheap".toList, "strong".toList, 5, "a.org".toList, 4, "blobs".toList⟩

/-- A fetch from that domain. -/
def politeFetch (uri : Text) : Action FetchedContent :=
  fetch (Served.platform {}) .polite uri "url".toList

/-- For example two fetches of missing pages, with a pause in the second one. -/
theorem fetches_spaced_missing : (onePause 7).Spaced IsRequest (fun _ m => IsAnswered m)
    (secondsApart 4) (twoRunsLog (laterOutside 8) 5 (politeFetch "https://a.org/b".toList)
      (politeFetch "https://a.org/c".toList)) := by
  have hCompleted : Completed politeFetch (World.submitted 1)
      (twoRunsLog (laterOutside 8) 5 (politeFetch "https://a.org/b".toList)
        (politeFetch "https://a.org/c".toList)) _ :=
    twoRuns_completed _ _ (by decide +kernel) (by decide +kernel)
  exact fetches_spaced hCompleted (by decide +kernel)

/-- Steps of which two are of a kind, at one time. -/
theorem not_spaced {kind : Moment Vocabulary → Prop} {test : Moment Vocabulary → Bool}
    (hTest : ∀ m, kind m ↔ test m = true) {log : Log Vocabulary}
    (hLog : log.map test = [false, false, true, false, false, true]) :
    ¬ (onePause 6).Spaced kind (fun _ _ => True) (secondsApart 4) log := by
  intro hSpaced
  simp only [List.map_eq_cons_iff, List.map_eq_nil_iff] at hLog
  obtain ⟨a, _, rfl, -, b, _, rfl, -, c, _, rfl, hc, d, _, rfl, hd, e, _, rfl, he, f, _, rfl, hf,
    rfl⟩ := hLog
  have hNone : ∀ m ∈ [d, e], ¬ kind m := by simp [hTest, hd, he]
  have hApart : (0 : ℚ) + 4 ≤ 0 := hSpaced [a, b] c [d, e] f [] rfl ((hTest c).mpr hc) hNone
    ((hTest f).mpr hf) trivial
  norm_num at hApart

/-- A network request, as a test. -/
def Moment.requests (m : Moment Vocabulary) : Bool :=
  match m.question with
  | some (.httpGet _) => true
  | _ => false

theorem isRequest_iff {m : Moment Vocabulary} : IsRequest m ↔ Moment.requests m = true := by
  unfold Moment.requests
  constructor
  · rintro ⟨uri, answer, hAsked⟩
    rw [Moment.question, hAsked]
  · intro h
    split at h
    case h_1 uri hQuestion =>
      unfold Moment.question at hQuestion
      split at hQuestion
      · cases hQuestion
        exact ⟨uri, _, by assumption⟩
      · cases hQuestion
    case h_2 => cases h

/-- After a request without an answer the next one is made at once. -/
theorem fetches_crowded : ¬ ∀ (T : Timing Instant) (p : Platform) (settings : Settings)
    (connector : Text) (s t : World) (log : Log Vocabulary),
    Completed (fun uri => fetch p settings uri connector) s log t → T.Fits Clock.wall.law log →
      T.Spaced IsRequest (fun _ _ => True) (secondsApart settings.fetchMinIntervalSeconds) log := by
  intro h
  have hCompleted : Completed politeFetch (World.submitted 1)
      (twoRunsLog (quietOutside fun _ => .grant) 3 (politeFetch "https://a.org/b".toList)
        (politeFetch "https://a.org/c".toList)) _ :=
    twoRuns_completed _ _ (by decide +kernel) (by decide +kernel)
  have hSpaced := h (onePause 6) (Served.platform {}) .polite "url".toList _ _ _ hCompleted
    (by decide +kernel)
  exact not_spaced (fun _ => isRequest_iff) (by decide +kernel) hSpaced

/-! ## Calls of the provider -/

/-- Whether the gateway calls the provider again after an answer, when it has done so a number of
times. -/
def tryAgain (u : Unicode) (count : Nat) (answer : ProviderAnswer) : Bool :=
  decide (count < maxRateLimitRetries) && ProviderAnswer.isTransient u answer

/-- How often the gateway has called the provider again, after one more step. -/
def nextRetryCount (u : Unicode) (count : Nat) (m : Moment Vocabulary) : Nat :=
  match m.happening with
  | .asked (.provider ..) answer => if tryAgain u count answer then count + 1 else 0
  | _ => count

/-- How often the gateway has called the provider again since the last call which it has given up. -/
def retryCount (u : Unicode) (l : Log Vocabulary) : Nat := l.foldl (nextRetryCount u) 0

/-- A call of the provider. -/
def IsCall (m : Moment Vocabulary) : Prop := Moment.callsProvider m = true

/-- A call of the provider which is answered with a response or after which it is called again. -/
def CallSettled (u : Unicode) (earlier : Log Vocabulary) (m : Moment Vocabulary) : Prop :=
  ∃ model messages kwargs answer, m.happening = .asked (.provider model messages kwargs) answer ∧
    ((∃ response, answer = ProviderAnswer.response response) ∨
      tryAgain u (retryCount u earlier) answer = true)

/-- A step which is no call of the provider and which leaves the time stamps alone. -/
structure Unstamped (m : Moment Vocabulary) : Prop where
  offline : Offline m
  stamps : m.after.memory.callTimestamps = m.before.memory.callTimestamps

theorem BookEntry.unstamped (m : Moment Vocabulary) (h : BookEntry m) : Unstamped m :=
  ⟨h.asks, by rw [h.memory]⟩

/-- A call of a gateway whose hooks leave the provider and the time stamps alone. -/
structure PacedCall (u : Unicode) where
  gateway : LLMGateway
  args : CompleteArgs
  unicode : gateway.platform.unicode = u
  hooks : ∀ hook ∈ gateway.hooks, ∀ ctx, Keeps Unstamped (hook ctx)

section Calls

variable {T : Timing Instant} {u : Unicode} {s t : World} {l : Log Vocabulary}
  {m : Moment Vocabulary}

/-- The contract of a call. -/
abbrev Calling (T : Timing Instant) (u : Unicode) : Contract Vocabulary :=
  .timed T Clock.loop.law (T.Apart IsCall (CallSettled u) (secondsApart minCallInterval))

/-- The next call of the provider may be made now. -/
def MayCall (T : Timing Instant) (u : Unicode) (l : Log Vocabulary) : Prop :=
  Latest IsCall (fun earlier m => CallSettled u earlier m →
    secondsApart minCallInterval (T.now earlier) (T.now l)) l

/-- The latest call of the provider, if it was settled, is not younger than the last time stamp, or it
is old enough.  No call is about to be made again. -/
structure CallRecorded (T : Timing Instant) (u : Unicode) (w : World) (l : Log Vocabulary) :
    Prop where
  latest : Latest IsCall (fun earlier m => CallSettled u earlier m →
    (∃ time, w.memory.callTimestamps.getLast? = some time ∧ T.now earlier ≤ time) ∨
      secondsApart minCallInterval (T.now earlier) (T.now l)) l
  count : retryCount u l = 0

theorem retryCount_snoc (l : Log Vocabulary) (m : Moment Vocabulary) :
    retryCount u (l ++ [m]) = nextRetryCount u (retryCount u l) m := by
  simp [retryCount]

theorem not_isCall (h : Offline m) : ¬ IsCall m := by
  rw [IsCall, h.calls]
  simp

theorem retryCount_offline (h : Offline m) : retryCount u (l ++ [m]) = retryCount u l := by
  rw [retryCount_snoc, nextRetryCount]
  split
  case h_1 model messages kwargs answer hAsked =>
    have hQuestion : m.question = some (.provider model messages kwargs) := by
      rw [Moment.question, hAsked]
    exact (h _ hQuestion).elim
  case h_2 => rfl

/-- A step which is no call of the provider lets the next one be made. -/
theorem MayCall.step (h : MayCall T u l) (hm : Offline m) : MayCall T u (l ++ [m]) := by
  rw [MayCall, latest_other (not_isCall hm)]
  refine Latest.mono ?_ h
  intro earlier m' _ hApart hSettled
  have hNow : T.now l ≤ T.now (l ++ [m]) := T.now_mono (by simp)
  exact le_trans (hApart hSettled) hNow

/-- Unstamped steps keep the record. -/
theorem CallRecorded.step (h : CallRecorded T u m.before l) (hm : Unstamped m) :
    T.Apart IsCall (CallSettled u) (secondsApart minCallInterval) l m ∧
      CallRecorded T u m.after (l ++ [m]) := by
  refine ⟨Timing.apart_other (not_isCall hm.offline), ?_, ?_⟩
  · rw [latest_other (not_isCall hm.offline), hm.stamps]
    refine Latest.mono ?_ h.latest
    intro earlier m' _ hRecorded hSettled
    have hNow : T.now l ≤ T.now (l ++ [m]) := T.now_mono (by simp)
    exact (hRecorded hSettled).imp_right fun hApart => le_trans hApart hNow
  · rw [retryCount_offline hm.offline, h.count]

/-- A call may be made once the last time stamp is old enough. -/
theorem CallRecorded.mayCall (h : CallRecorded T u s l)
    (hOld : ∀ last, s.memory.callTimestamps.getLast? = some last →
      secondsApart minCallInterval last (T.now l)) : MayCall T u l := by
  refine Latest.mono ?_ h.latest
  intro earlier m _ hRecorded hSettled
  rcases hRecorded hSettled with ⟨last, hLast, hBefore⟩ | hApart
  · exact secondsApart_earlier hBefore (hOld last hLast)
  · exact hApart

/-- Programs of such steps keep the record. -/
theorem unstamped_timed {α : Type} {p : Action α} (hKeeps : Keeps Unstamped p) (h : CallRecorded T u s l) :
    wp (Calling T u) (fun _ t l' => CallRecorded T u t l') p s l :=
  wp_timed_keeps hKeeps (fun _ _ hm hI => hI.step hm) h

theorem offline_ask {question : Query} {answer : Answer question} (h : NoProvider question) :
    Offline ⟨s, .asked question answer, s⟩ := by
  rintro query ⟨⟩
  exact h

theorem apart_offline (h : Offline m) :
    T.Apart IsCall (CallSettled u) (secondsApart minCallInterval) l m :=
  Timing.apart_other (not_isCall h)

section Tries

variable {model : Text} {messages : List Message} {kwargs : List (Text × Json)}
  {answer : ProviderAnswer} {count : Nat}

theorem isCall_ask :
    IsCall ⟨s, .asked (.provider model messages kwargs) answer, s⟩ := rfl

/-- A call which is not settled needs no record. -/
theorem unsettled_recorded (hCount : retryCount u l = count)
    (hNone : ∀ response, answer ≠ .response response) (hLast : tryAgain u count answer = false) :
    CallRecorded T u s (l ++ [⟨s, .asked (.provider model messages kwargs) answer, s⟩]) := by
  constructor
  · refine (latest_kind isCall_ask).mpr ?_
    rintro ⟨_, _, _, answer', hAsked, hSettled⟩
    cases hAsked
    rcases hSettled with ⟨response, hResponse⟩ | hAgain
    · exact absurd hResponse (hNone response)
    · rw [hCount, hLast] at hAgain
      cases hAgain
  · rw [retryCount_snoc, hCount]
    exact if_neg (by rw [hLast]; simp)

/-- What holds after a try: it is on record, or there has been a long pause. -/
def Tried (T : Timing Instant) (u : Unicode) (count : Nat) : Post Vocabulary (Option LLMResponse)
  | .ok none, _, l => MayCall T u l ∧ retryCount u l = count + 1 ∧ count < maxRateLimitRetries
  | .ok (some _), w, l => CallRecorded T u w l
  | .error _, w, l => CallRecorded T u w l

/-- After a failure for the moment there is a pause of ten seconds or more, or no further call. -/
theorem backOff_timed {kind : ErrorClass} {message : Text} {delays : List ℚ}
    (hCount : retryCount u l = count) (hNone : ∀ response, answer ≠ .response response)
    (hAgain : ProviderAnswer.isTransient u answer = true)
    (hDelays : delays.length = maxRateLimitRetries) (hLong : ∀ delay ∈ delays, 10 ≤ delay) :
    wp (Calling T u) (Tried T u count) (backOff kind message delays count) s
      (l ++ [⟨s, .asked (.provider model messages kwargs) answer, s⟩]) := by
  unfold backOff
  simp only [raiseError_bind]
  split
  case isTrue hLast =>
    -- The last answer is raised without a pause and without a time stamp.
    refine .raise (unsettled_recorded hCount hNone ?_)
    rw [tryAgain, decide_eq_false (by omega), Bool.false_and]
  case isFalse hLess =>
    have hBound : count < delays.length := by omega
    rw [List.getElem?_eq_getElem hBound]
    have hPause := hLong _ (List.getElem_mem hBound)
    refine wp_timed_ask fun _ hLaw => ?_
    have hSleep (answer : Answer (.sleep delays[count])) :
        Offline ⟨s, .asked (.sleep delays[count]) answer, s⟩ := offline_ask trivial
    refine ⟨apart_offline (hSleep _), .done ⟨?_, ?_, by omega⟩⟩
    · rw [MayCall, latest_other (not_isCall (hSleep _)), latest_kind isCall_ask]
      intro _
      have hBegun : T.now l ≤ T.now (l ++
          [⟨s, .asked (.provider model messages kwargs) answer, s⟩]) := T.now_mono (by simp)
      refine le_trans ?_ (le_trans hLaw (T.later_le (by simp)))
      unfold minCallInterval
      linarith
    · rw [retryCount_offline (hSleep _), retryCount_snoc, hCount]
      refine if_pos ?_
      rw [tryAgain, hAgain, decide_eq_true (by omega), Bool.and_true]

/-- The time of a response goes on record. -/
theorem response_timed {response : LLMResponse} :
    wp (Calling T u) (Tried T u count)
      (loopTime >>= fun time =>
        modifyMemory (fun m => { m with callTimestamps := m.callTimestamps ++ [time] }) >>= fun _ =>
        loopTime >>= fun time =>
        modifyMemory (fun m => { m with
          callTimestamps := m.callTimestamps.filter fun t => time - 60 < t }) >>= fun _ =>
        pure (some response)) s
      (l ++ [⟨s, .asked (.provider model messages kwargs) (.response response), s⟩]) := by
  have hClock (w : World) (time : Instant) : Offline ⟨w, .asked .loopTime time, w⟩ :=
    offline_ask trivial
  have hMoved (w w' : World) : Offline ⟨w, .moved, w'⟩ := asks_of_none rfl
  refine wp_timed_ask fun (time : Instant) hLaw => ⟨apart_offline (hClock s time), ?_⟩
  obtain ⟨hTime, -⟩ : During _ time _ := hLaw rfl
  refine wp_timed_act (apart_offline (hMoved _ _)) ?_
  refine wp_timed_ask fun (later : Instant) hLaw => ⟨apart_offline (hClock _ later), ?_⟩
  obtain ⟨-, hLater⟩ : During _ later _ := hLaw rfl
  refine wp_timed_act (apart_offline (hMoved _ _)) (.done ⟨?_, ?_⟩)
  · rw [latest_other (not_isCall (hMoved _ _)), latest_other (not_isCall (hClock _ _)),
      latest_other (not_isCall (hMoved _ _)), latest_other (not_isCall (hClock _ _)),
      latest_kind isCall_ask]
    intro _
    have hBegun : T.now l ≤ time := le_trans (T.now_mono (by simp)) hTime
    by_cases hKept : later - 60 < time
    · left
      refine ⟨time, ?_, hBegun⟩
      have hStamps : (s.memory.callTimestamps ++ [time]).filter (fun t => later - 60 < t) =
          s.memory.callTimestamps.filter (fun t => later - 60 < t) ++ [time] := by
        simp [List.filter_append, hKept]
      show ((s.memory.callTimestamps ++ [time]).filter (fun t => later - 60 < t)).getLast? =
        some time
      rw [hStamps, List.getLast?_concat]
    · -- The time stamp is dropped only when it is a minute old.
      right
      refine le_trans ?_ (le_trans hLater (T.later_le (by simp)))
      unfold minCallInterval
      linarith
  · rw [retryCount_offline (hMoved _ _), retryCount_offline (hClock _ _),
      retryCount_offline (hMoved _ _), retryCount_offline (hClock _ _), retryCount_snoc]
    exact if_neg (by simp [tryAgain, ProviderAnswer.isTransient])

/-- One try of a provider call. -/
theorem tryProvider_timed {gateway : LLMGateway} (hUnicode : gateway.platform.unicode = u)
    (hMay : MayCall T u l) (hCount : retryCount u l = count) :
    wp (Calling T u) (Tried T u count) (tryProvider gateway model messages kwargs count) s l := by
  refine wp_timed_ask fun (answer : ProviderAnswer) _ => ⟨fun _ => hMay, ?_⟩
  have hGivenUp {error : PyError} (hNone : ∀ response, answer ≠ .response response)
      (hLast : ProviderAnswer.isTransient u answer = false) :
      wp (Calling T u) (Tried T u count) (.raise error) s
        (l ++ [⟨s, .asked (.provider model messages kwargs) answer, s⟩]) :=
    .raise (unsettled_recorded hCount hNone (by rw [tryAgain, hLast, Bool.and_false]))
  cases answer with
  | response response => exact response_timed
  | rateLimitError message =>
      -- An exhausted quota is raised at once, as other exceptions are.
      show wp _ _ (if _ then _ else _) _ _
      split
      case isTrue hQuota =>
        refine hGivenUp (by simp) ?_
        rw [← hUnicode, ProviderAnswer.isTransient, hQuota]
        rfl
      case isFalse hQuota =>
        refine backOff_timed hCount (by simp) ?_ rfl (by norm_num)
        rw [← hUnicode, ProviderAnswer.isTransient, Bool.not_eq_true']
        simpa using hQuota
  | serviceUnavailableError message => exact backOff_timed hCount (by simp) rfl rfl (by norm_num)
  | apiConnectionError message => exact backOff_timed hCount (by simp) rfl rfl (by norm_num)
  | otherError error => exact hGivenUp (by simp) rfl

/-- The tries of a call.  The items which are left of the loop follow the count. -/
theorem tries_timed {gateway : LLMGateway} (hUnicode : gateway.platform.unicode = u)
    (hMay : MayCall T u l) (hCount : retryCount u l = 0) :
    wp (Calling T u) (fun _ t l' => CallRecorded T u t l')
      (Prog.forElse (tryProvider gateway model messages kwargs)
        (raiseError .attributeError "'NoneType' object has no attribute 'get'".toList)
        (List.range (maxRateLimitRetries + 1))) s l := by
  refine wp_forElse (fun items _ l' => MayCall T u l' ∧ retryCount u l' ≤ maxRateLimitRetries ∧
    items = (List.range (maxRateLimitRetries + 1)).drop (retryCount u l')) ?_ ?_ _ ?_
  · rintro item rest t l' ⟨hMay, hLess, hItems⟩
    have hBound : retryCount u l' < (List.range (maxRateLimitRetries + 1)).length := by
      rw [List.length_range]
      omega
    rw [List.drop_eq_getElem_cons hBound, List.getElem_range] at hItems
    obtain ⟨rfl, rfl⟩ := List.cons.inj hItems
    refine wp_post (tryProvider_timed hUnicode hMay rfl) ?_
    rintro (error | (_ | response)) w l'' hTried
    · exact hTried
    · obtain ⟨hNext, hCount, hMore⟩ := hTried
      exact ⟨hNext, by omega, by rw [hCount]⟩
    · exact hTried
  · -- The count never gets past the last item, so the loop does not run out of them.
    rintro t l' ⟨-, hLess, hItems⟩
    have hLength := congrArg List.length hItems
    simp only [List.length_nil, List.length_drop, List.length_range] at hLength
    omega
  · exact ⟨hMay, by omega, by rw [hCount]; rfl⟩

/-- A provider call waits for its turn, and it puts its response on record. -/
theorem callWithRateLimitRetry_timed {gateway : LLMGateway}
    (hUnicode : gateway.platform.unicode = u) (h : CallRecorded T u s l) :
    wp (Calling T u) (fun _ t l' => CallRecorded T u t l')
      (callWithRateLimitRetry gateway model messages kwargs) s l := by
  have hClock (time : Instant) : Offline ⟨s, .asked .loopTime time, s⟩ := offline_ask trivial
  have hRead : Offline ⟨s, .moved, s⟩ := asks_of_none rfl
  refine wp_timed_ask fun (time : Instant) hLaw => ⟨apart_offline (hClock time), ?_⟩
  obtain ⟨-, hTime⟩ : During (T.now l) time (T.later l) := hLaw rfl
  refine wp_timed_act (apart_offline hRead) ?_
  have hRecorded := ((h.step ⟨hClock time, rfl⟩).2.step (m := ⟨s, .moved, s⟩) ⟨hRead, rfl⟩).2
  have hPast : time ≤ T.now (l ++ [⟨s, .asked .loopTime time, s⟩] ++ [⟨s, .moved, s⟩]) :=
    hTime.trans (T.later_le (by simp))
  generalize l ++ [⟨s, .asked .loopTime time, s⟩] ++ [⟨s, .moved, s⟩] = l' at hRecorded hPast
  split
  case h_1 last hLast =>
    have hFound : s.memory.callTimestamps.getLast? = some last := hLast
    split
    case isTrue =>
      refine wp_timed_ask fun answer hLaw => ?_
      have hSleep : Offline ⟨s, .asked (.sleep (minCallInterval - (time - last))) answer, s⟩ :=
        offline_ask trivial
      have hRested := (hRecorded.step (m := ⟨s, .asked (.sleep _) answer, s⟩) ⟨hSleep, rfl⟩).2
      refine ⟨apart_offline hSleep, tries_timed hUnicode (hRested.mayCall ?_) hRested.count⟩
      intro other hOther
      obtain rfl : last = other := by simpa [hFound] using hOther
      have hSlept : T.now l' + (minCallInterval - (time - last)) ≤ T.later l' := hLaw
      exact secondsApart_pause hPast (hSlept.trans (T.later_le (by simp)))
    case isFalse hOld =>
      refine tries_timed hUnicode (hRecorded.mayCall ?_) hRecorded.count
      intro other hOther
      obtain rfl : last = other := by simpa [hFound] using hOther
      exact secondsApart_old hPast hOld
  case h_2 hLast =>
    have hNone : s.memory.callTimestamps.getLast? = none := hLast
    refine tries_timed hUnicode (hRecorded.mayCall ?_) hRecorded.count
    intro other hOther
    rw [hNone] at hOther
    cases hOther

end Tries

/-- A sequence of programs which keep the record. -/
theorem recorded_bind {α β : Type} {p : Action α} {f : α → Action β}
    (hFirst : wp (Calling T u) (fun _ t l' => CallRecorded T u t l') p s l)
    (hRest : ∀ value t l', CallRecorded T u t l' →
      wp (Calling T u) (fun _ t l' => CallRecorded T u t l') (f value) t l') :
    wp (Calling T u) (fun _ t l' => CallRecorded T u t l') (p.bind f) s l :=
  wp_bind _ hFirst hRest fun _ _ _ h => h

theorem attemptCall_timed (call : PacedCall u) {model : Text} {messages : List Message}
    {cacheKey : Text} {attempt : Nat} (h : CallRecorded T u s l) :
    wp (Calling T u) (fun _ t l' => CallRecorded T u t l')
      (attemptCall call.gateway call.args model messages cacheKey attempt) s l := by
  have hHooks (ctx : GatewayCallContext) : Keeps Unstamped (call.gateway.hooks.forM fun hook => hook ctx) :=
    keeps_forM fun hook hMem => call.hooks hook hMem ctx
  refine recorded_bind (unstamped_timed (hHooks _) h) fun _ t l' hCalled => ?_
  refine recorded_bind (callWithRateLimitRetry_timed call.unicode hCalled) fun response t l' hDone => ?_
  split
  · exact .raise hDone
  · split
    · exact .done hDone
    · split
      · exact .done hDone
      · split
        · exact .done hDone
        · exact .raise hDone

/-- The look-up, the attempts and what follows an accepted one keep the record. -/
theorem complete_timed (call : PacedCall u) (h : CallRecorded T u s l) :
    wp (Calling T u) (fun _ t l' => CallRecorded T u t l') (complete call.gateway call.args) s l := by
  have hExcept {α : Type} {t : World} {l' : Log Vocabulary} (result : Except PyError α)
      (hDone : CallRecorded T u t l') :
      wp (Calling T u) (fun _ t l' => CallRecorded T u t l') (Prog.ofExcept result) t l' :=
    unstamped_timed (keeps_ofExcept (S := Vocabulary) result) hDone
  refine recorded_bind (hExcept _ h) fun messages t l' hBuilt => ?_
  have hFresh (cacheKey prompt : Text) {t : World} {l' : Log Vocabulary}
      (hMissed : CallRecorded T u t l') :
      wp (Calling T u) (fun _ t l' => CallRecorded T u t l') (do
        let accepted ← Prog.forElse (attemptCall call.gateway call.args
          (call.gateway.resolveModel call.args.tier) messages cacheKey)
          (Prog.raise (quarantine call.gateway)) (List.range (call.gateway.maxRetries + 1))
        meterAndCache call.gateway call.args (call.gateway.resolveModel call.args.tier) prompt
          cacheKey accepted) t l' := by
    refine recorded_bind ?_ fun accepted t l' hAccepted => ?_
    · refine wp_forElse (fun _ t l' => CallRecorded T u t l') ?_ (fun t l' hLeft => .raise hLeft) _ hMissed
      intro attempt rest t l' hNext
      refine wp_post (attemptCall_timed call hNext) ?_
      rintro (error | (_ | accepted)) t l' hDone
      · exact hDone
      · exact hDone
      · exact hDone
    · exact unstamped_timed ((entry_meterAndCache ..).mono BookEntry.unstamped) hAccepted
  show wp _ _ (if _ then _ else _) _ _
  split
  · refine recorded_bind (unstamped_timed ((entry_kvGet _).mono BookEntry.unstamped) hBuilt) ?_
    intro cached t l' hLooked
    cases cached with
    | none => exact hFresh _ _ hLooked
    | some payload => exact hExcept _ hLooked
  · exact hFresh _ _ hBuilt

end Calls

/-- Calls of gateways, one after the other: two calls of the provider without others in between begin
at least four seconds apart, if the first one was answered or is made again. -/
theorem calls_spaced {T : Timing Instant} {u : Unicode} {s t : World} {log : Log Vocabulary}
    (h : Completed (fun call : PacedCall u => complete call.gateway call.args) s log t)
    (hTimes : T.Fits Clock.loop.law log) :
    T.Spaced IsCall (CallSettled u) (secondsApart minCallInterval) log := by
  have hAlong := (h.invariant (C := Calling T u) (fun _ => rfl) (CallRecorded T u)
    (fun call s l hRecorded => complete_timed call hRecorded) ⟨latest_nil, rfl⟩ hTimes.granted).1
  exact Timing.spaced_of_along hAlong

/-- A call which makes one attempt. -/
def PacedCall.once : PacedCall Platform.plain.unicode where
  gateway := { platform := .plain, settings := .polite, maxRetries := 0 }
  args := { prompt := some "p".toList, useCache := false }
  unicode := rfl
  hooks := by simp

/-- Any such call. -/
def pacedJob (call : PacedCall Platform.plain.unicode) : Action GatewayResult :=
  complete call.gateway call.args

/-- For example two calls which are answered, with a pause in the second one. -/
theorem calls_spaced_once : (onePause 9).Spaced IsCall (CallSettled Platform.plain.unicode)
    (secondsApart minCallInterval)
    (twoRunsLog (laterOutside 10) 7 (pacedJob .once) (pacedJob .once)) := by
  have hCompleted : Completed pacedJob (World.submitted 1)
      (twoRunsLog (laterOutside 10) 7 (pacedJob .once) (pacedJob .once)) _ :=
    twoRuns_completed _ _ (by decide +kernel) (by decide +kernel)
  exact calls_spaced hCompleted (by decide +kernel)

/-- After a call with another exception the next one is made at once. -/
theorem calls_crowded : ¬ ∀ (T : Timing Instant) (u : Unicode) (s t : World)
    (log : Log Vocabulary),
    Completed (fun call : PacedCall u => complete call.gateway call.args) s log t →
      T.Fits Clock.loop.law log →
        T.Spaced IsCall (fun _ _ => True) (secondsApart minCallInterval) log := by
  intro h
  have hCompleted : Completed pacedJob (World.submitted 1)
      (twoRunsLog (quietOutside fun _ => .grant) 3 (pacedJob .once) (pacedJob .once)) _ :=
    twoRuns_completed _ _ (by decide) (by decide)
  have hSpaced := h (onePause 6) Platform.plain.unicode _ _ _ hCompleted (by decide)
  have hFour : minCallInterval = 4 := by norm_num [minCallInterval]
  rw [hFour] at hSpaced
  exact not_spaced (fun _ => Iff.rfl) (by decide) hSpaced

end Ecrke
