import Ecrke.Durable.Footprints
import Ecrke.Services.LLMGateway

/-!
# The footprint of a model call

Besides the questions to the provider, a call of the gateway keeps books: it changes entries of the
cache, the spend of its run and the memory of the process.

* `Pacing` -- a step which changes the memory of the process only.
* `Bookkeeping` -- a step which keeps books and which does not ask the provider.
* `BookEntry` -- a step of bookkeeping which leaves the memory alone.
* `Resting` -- a step which changes nothing.
* `keeps_kvGet` ... `keeps_meterAndCache` -- the footprints of the programs which keep books.
* `entry_kvGet` ... `entry_meterAndCache` -- each of them keeps books.
* `keeps_complete`, `keeps_completeModel` -- the footprint of a call whose hooks have it too.
-/

namespace Ecrke

open Durable

/-- A question which is no call of the provider. -/
def NoProvider : Query → Prop
  | .provider .. => False
  | _ => True

/-- A step which changes at most the memory, which writes no line, and which does not call the
provider. -/
structure Pacing (m : Moment Vocabulary) : Prop where
  tables : m.after.tables = m.before.tables
  blobs : m.after.blobs = m.before.blobs
  noLine : ∀ event, m.happening ≠ .wrote event
  asks : Asks (S := Vocabulary) NoProvider m

/-- The runs with their status. -/
def standings (t : Tables) : List (Uuid × RunStatus) := t.runs.map fun run => (run.id, run.status)

/-- A step which changes at most runs, none of them in its status, the cache and the memory, which
writes no line, and which does not call the provider. -/
structure Bookkeeping (m : Moment Vocabulary) : Prop where
  tables : ∃ runs kvCache, m.after.tables = { m.before.tables with runs, kvCache }
  standings : standings m.after.tables = standings m.before.tables
  blobs : m.after.blobs = m.before.blobs
  noLine : ∀ event, m.happening ≠ .wrote event
  asks : Asks (S := Vocabulary) NoProvider m

theorem Pacing.book (m : Moment Vocabulary) (h : Pacing m) : Bookkeeping m :=
  ⟨⟨_, _, h.tables⟩, by rw [h.tables], h.blobs, h.noLine, h.asks⟩

/-- A step which keeps books and leaves the memory of the process alone. -/
structure BookEntry (m : Moment Vocabulary) : Prop extends Bookkeeping m where
  memory : m.after.memory = m.before.memory

/-- A step which changes nothing, which writes no line, and which does not call the provider. -/
structure Resting (m : Moment Vocabulary) : Prop extends Pacing m where
  memory : m.after.memory = m.before.memory

theorem Resting.entry (m : Moment Vocabulary) (h : Resting m) : BookEntry m :=
  ⟨Pacing.book m h.toPacing, h.memory⟩

section Books

theorem resting_query {question : Query} (h : NoProvider question) :
    Keeps Resting (Prog.query (S := Vocabulary) question : Action (Answer question)) := by
  refine keeps_query fun answer s => ⟨⟨rfl, rfl, by simp, ?_⟩, rfl⟩
  rintro query ⟨⟩
  exact h

theorem resting_now : Keeps Resting now := resting_query trivial

theorem resting_selectTables {α : Type} (f : Tables → α) : Keeps Resting (selectTables f) :=
  keeps_select (fun _ => ⟨⟨rfl, rfl, by simp, asks_of_none rfl⟩, rfl⟩) fun _ =>
    ⟨⟨rfl, rfl, by simp, asks_of_none rfl⟩, rfl⟩

theorem pace_query {question : Query} (h : NoProvider question) :
    Keeps Pacing (Prog.query (S := Vocabulary) question : Action (Answer question)) :=
  (resting_query h).mono fun _ hm => hm.toPacing

theorem pace_loopTime : Keeps Pacing loopTime := pace_query trivial

theorem pace_sleep (seconds : ℚ) : Keeps Pacing (sleep seconds) := pace_query trivial

theorem pace_modifyMemory (f : Memory → Memory) : Keeps Pacing (modifyMemory f) :=
  keeps_atomically fun _ => ⟨rfl, rfl, by simp, asks_of_none rfl⟩

theorem pace_readMemory {α : Type} (f : Memory → α) : Keeps Pacing (readMemory f) :=
  keeps_atomically fun _ => ⟨rfl, rfl, by simp, asks_of_none rfl⟩

theorem pace_selectTables {α : Type} (f : Tables → α) : Keeps Pacing (selectTables f) :=
  (resting_selectTables f).mono fun _ hm => hm.toPacing

/-- What `tryProvider` does after a response. -/
theorem pace_recordTime {α : Type} (value : α) :
    Keeps Pacing (loopTime >>= fun time =>
      modifyMemory (fun m => { m with callTimestamps := m.callTimestamps ++ [time] }) >>= fun _ =>
      loopTime >>= fun time =>
      modifyMemory (fun m => { m with
        callTimestamps := m.callTimestamps.filter fun t => time - 60 < t }) >>= fun _ =>
      (pure value : Action α)) :=
  keeps_bind (pace_query trivial) fun _ => keeps_bind (pace_modifyMemory _) fun _ =>
    keeps_bind (pace_query trivial) fun _ => keeps_bind (pace_modifyMemory _) fun _ => keeps_done _

theorem pace_backOff (kind : ErrorClass) (message : Text) (delays : List ℚ) (attempt : Nat) :
    Keeps Pacing (backOff kind message delays attempt) := by
  unfold backOff
  simp only [raiseError_bind]
  refine keeps_ite (fun _ => keeps_raise _) (fun _ => ?_)
  split
  · exact keeps_bind (pace_query trivial) fun _ => keeps_done _
  · exact keeps_raise _

theorem book_modifyMemory (f : Memory → Memory) : Keeps Bookkeeping (modifyMemory f) :=
  (pace_modifyMemory f).mono Pacing.book

theorem book_readMemory {α : Type} (f : Memory → α) : Keeps Bookkeeping (readMemory f) :=
  (pace_readMemory f).mono Pacing.book

theorem book_selectTables {α : Type} (f : Tables → α) : Keeps Bookkeeping (selectTables f) :=
  (pace_selectTables f).mono Pacing.book

/-- The footprint of a commit: its refusal, and the effect of its writes. -/
theorem keeps_commitWrites {R : Moment Vocabulary → Prop} {writes : List Write}
    (hRefused : ∀ s, R ⟨s, .refused, s⟩)
    (hMoved : ∀ s t : World, t.tables = s.tables.after writes → t.blobs = s.blobs →
      t.memory = s.memory → R ⟨s, .moved, t⟩) :
    Keeps R (commitWrites writes) := by
  refine keeps_commit (fun w _ t hRun => ?_) fun s => hRefused s
  cases hWrites : w.db.applyAll writes with
  | error error => simp [hWrites] at hRun
  | ok db =>
      simp only [hWrites, Except.ok.injEq] at hRun
      cases hRun
      exact hMoved w _ (Database.applyAll_ok hWrites) rfl rfl

/-- An UPDATE of a run which sets no status. -/
theorem standings_updateRun {t : Tables} {id : Uuid} {changes : RunChanges}
    (h : changes.status = none) :
    standings { t with runs := modifyRow Run.id id changes.apply t.runs } = standings t :=
  map_modifyRow fun run => by simp [RunChanges.apply, h]

theorem entry_commitWrites {writes : List Write}
    (hWrites : ∀ t : Tables, ∃ runs kvCache, t.after writes = { t with runs, kvCache } ∧
      standings { t with runs } = standings t) :
    Keeps BookEntry (commitWrites writes) := by
  have hRefused (s : World) : BookEntry ⟨s, .refused, s⟩ :=
    ⟨⟨⟨_, _, rfl⟩, rfl, rfl, by simp, asks_of_none rfl⟩, rfl⟩
  refine keeps_commitWrites hRefused ?_
  intro s t hTables hBlobs hMemory
  obtain ⟨runs, kvCache, hAfter, hStandings⟩ := hWrites s.tables
  have hAll := hTables.trans hAfter
  exact ⟨⟨⟨runs, kvCache, hAll⟩, by rw [hAll]; exact hStandings, hBlobs, by simp,
    asks_of_none rfl⟩, hMemory⟩

/-! ### The programs which keep books -/

section Programs

variable {R : Moment Vocabulary → Prop} (hRests : ∀ m, Resting m → R m)

include hRests

/-- The footprint of a look-up: the removal of an entry which has expired. -/
theorem keeps_kvGet {key : Text} (hDelete : Keeps R (commitWrites [.deleteKVEntry key])) :
    Keeps R (KVCache.get key) := by
  refine keeps_bind ((resting_selectTables _).mono hRests) fun found => ?_
  cases found with
  | none => exact keeps_done _
  | some found =>
      dsimp only
      split
      · exact keeps_done _
      · refine keeps_bind (resting_now.mono hRests) fun clock =>
          keeps_ite (fun _ => ?_) fun _ => keeps_done _
        exact keeps_bind hDelete fun _ => keeps_done _

theorem keeps_upsert {row : KVEntry} (hInsert : Keeps R (commitWrites [.insertKVEntry row]))
    (hUpdate : Keeps R (commitWrites [.updateKVEntry row])) : Keeps R (KVCache.upsert row) := by
  refine keeps_bind ((resting_selectTables _).mono hRests) fun found => ?_
  cases found with
  | none => exact hInsert
  | some found => exact hUpdate

theorem keeps_kvSet {p : Platform} {key model promptHash : Text} {payload : List (Text × Json)}
    {ttlSeconds : Option Int}
    (hUpsert : ∀ expiresAt, Keeps R (KVCache.upsert ⟨key, model, promptHash, .obj payload, expiresAt⟩)) :
    Keeps R (KVCache.set p key model promptHash payload ttlSeconds) := by
  refine keeps_bind (keeps_ofExcept _) fun _ => ?_
  cases ttlSeconds with
  | none => exact hUpsert none
  | some seconds =>
      exact keeps_bind (resting_now.mono hRests) fun clock =>
        hUpsert (some (clock + seconds))

/-- The footprint of the meter: the UPDATE of a run. -/
theorem keeps_recordCall {p : Platform} {call : MeteredCall}
    (hUpdate : ∀ (run : Run) (cost : Usd),
      Keeps R (commitWrites (run.updates { run with costSpentUsd := run.costSpentUsd + cost }))) :
    Keeps R (recordCall p call) := by
  refine keeps_bind (keeps_ofExcept _) fun cost => ?_
  split
  · exact keeps_done _
  · refine keeps_bind ((resting_selectTables _).mono hRests) fun found => ?_
    cases found with
    | none => exact keeps_raise _
    | some run => exact keeps_bind (hUpdate run cost) fun _ => keeps_done _

omit hRests in
/-- The footprint of what follows an accepted attempt: the meter, and the entry in the cache. -/
theorem keeps_meterAndCache {gateway : LLMGateway} {args : CompleteArgs}
    {model prompt cacheKey : Text} {accepted : Accepted}
    (hMeter : ∀ call, Keeps R (recordCall gateway.platform call))
    (hSet : ∀ promptHash, Keeps R (KVCache.set gateway.platform cacheKey model promptHash
      (payloadOf model accepted.content accepted.data) args.ttlSeconds)) :
    Keeps R (meterAndCache gateway args model prompt cacheKey accepted) := by
  refine keeps_bind (hMeter _) fun cost => ?_
  exact keeps_ite (fun _ => keeps_bind (hSet _) fun _ => keeps_done _) fun _ => keeps_done _

end Programs

theorem entry_kvGet (key : Text) : Keeps BookEntry (KVCache.get key) :=
  keeps_kvGet Resting.entry (entry_commitWrites fun _ => ⟨_, _, rfl, rfl⟩)

theorem entry_kvSet (p : Platform) (key model promptHash : Text) (payload : List (Text × Json))
    (ttlSeconds : Option Int) :
    Keeps BookEntry (KVCache.set p key model promptHash payload ttlSeconds) :=
  keeps_kvSet Resting.entry fun _ =>
    keeps_upsert Resting.entry (entry_commitWrites fun _ => ⟨_, _, rfl, rfl⟩)
      (entry_commitWrites fun _ => ⟨_, _, rfl, rfl⟩)

theorem entry_recordCall (p : Platform) (call : MeteredCall) :
    Keeps BookEntry (recordCall p call) := by
  refine keeps_recordCall Resting.entry fun run cost => entry_commitWrites fun t => ?_
  unfold Run.updates
  dsimp only
  split
  · exact ⟨_, _, rfl, rfl⟩
  · exact ⟨_, _, rfl, standings_updateRun (by simp [Run.changes])⟩

theorem entry_meterAndCache (gateway : LLMGateway) (args : CompleteArgs)
    (model prompt cacheKey : Text) (accepted : Accepted) :
    Keeps BookEntry (meterAndCache gateway args model prompt cacheKey accepted) :=
  keeps_meterAndCache (entry_recordCall _) fun _ => entry_kvSet ..

theorem book_kvGet (key : Text) : Keeps Bookkeeping (KVCache.get key) :=
  (entry_kvGet key).mono fun _ h => h.toBookkeeping

theorem book_kvSet (p : Platform) (key model promptHash : Text) (payload : List (Text × Json))
    (ttlSeconds : Option Int) :
    Keeps Bookkeeping (KVCache.set p key model promptHash payload ttlSeconds) :=
  (entry_kvSet ..).mono fun _ h => h.toBookkeeping

theorem book_meterAndCache (gateway : LLMGateway) (args : CompleteArgs)
    (model prompt cacheKey : Text) (accepted : Accepted) :
    Keeps Bookkeeping (meterAndCache gateway args model prompt cacheKey accepted) :=
  (entry_meterAndCache ..).mono fun _ h => h.toBookkeeping

end Books

/-! ## Calls -/

section Calls

variable {R : Moment Vocabulary → Prop} (hPace : ∀ m, Pacing m → R m)
  (hProvider : ∀ model messages kwargs (answer : ProviderAnswer) (s : World),
    R ⟨s, .asked (.provider model messages kwargs) answer, s⟩)

include hPace hProvider

theorem keeps_tryProvider (gateway : LLMGateway) (model : Text) (messages : List Message)
    (kwargs : List (Text × Json)) (attempt : Nat) :
    Keeps R (tryProvider gateway model messages kwargs attempt) := by
  refine keeps_bind (keeps_query fun answer s => hProvider _ _ _ answer s) fun answer => ?_
  cases (answer : ProviderAnswer) with
  | response response => exact (pace_recordTime _).mono hPace
  | rateLimitError message =>
      exact keeps_ite (fun _ => keeps_raise _) (fun _ => (pace_backOff _ _ _ _).mono hPace)
  | serviceUnavailableError message => exact (pace_backOff _ _ _ _).mono hPace
  | apiConnectionError message => exact (pace_backOff _ _ _ _).mono hPace
  | otherError error => exact keeps_raise _

theorem keeps_callWithRateLimitRetry (gateway : LLMGateway) (model : Text)
    (messages : List Message) (kwargs : List (Text × Json)) :
    Keeps R (callWithRateLimitRetry gateway model messages kwargs) := by
  have hCall : Keeps R (Prog.forElse (tryProvider gateway model messages kwargs)
      (raiseError .attributeError "'NoneType' object has no attribute 'get'".toList)
      (List.range (maxRateLimitRetries + 1))) :=
    keeps_forElse (fun attempt _ => keeps_tryProvider hPace hProvider _ _ _ _ attempt)
      (keeps_raise _)
  refine keeps_bind (pace_loopTime.mono hPace) fun time => ?_
  refine keeps_bind ((pace_readMemory _).mono hPace) fun last => ?_
  cases last with
  | none => exact hCall
  | some last =>
      exact keeps_ite (fun _ => keeps_bind ((pace_sleep _).mono hPace) fun _ => hCall)
        fun _ => hCall

variable {gateway : LLMGateway}
  (hHooks : ∀ hook ∈ gateway.hooks, ∀ ctx, Keeps R (hook ctx))

include hHooks

/-- The footprint of an attempt: its pacing, the provider, and its hooks. -/
theorem keeps_attemptCall (args : CompleteArgs) (model : Text) (messages : List Message)
    (cacheKey : Text) (attempt : Nat) :
    Keeps R (attemptCall gateway args model messages cacheKey attempt) := by
  refine keeps_bind (keeps_forM fun hook hMem => hHooks hook hMem _) fun _ => ?_
  refine keeps_bind (keeps_callWithRateLimitRetry hPace hProvider _ _ _ _) fun response => ?_
  split
  · exact keeps_raise _
  · split
    · exact keeps_done _
    · split
      · exact keeps_done _
      · exact keeps_ite (fun _ => keeps_done _) (fun _ => keeps_raise _)

omit hPace in
/-- The footprint of a call: its books, the provider, and its hooks. -/
theorem keeps_complete (hBook : ∀ m, Bookkeeping m → R m) (args : CompleteArgs) :
    Keeps R (complete gateway args) := by
  refine keeps_bind (keeps_ofExcept _) fun messages => ?_
  have hFresh (cacheKey prompt : Text) : Keeps R (do
      let accepted ← Prog.forElse
        (attemptCall gateway args (gateway.resolveModel args.tier) messages cacheKey)
        (Prog.raise (quarantine gateway)) (List.range (gateway.maxRetries + 1))
      meterAndCache gateway args (gateway.resolveModel args.tier) prompt cacheKey accepted) :=
    keeps_bind (keeps_forElse (fun attempt _ =>
      keeps_attemptCall (fun m hm => hBook m hm.book) hProvider hHooks _ _ _ _ _)
      (keeps_raise _)) fun accepted => (book_meterAndCache _ _ _ _ _ _).mono hBook
  refine keeps_ite (fun _ => keeps_bind ((book_kvGet _).mono hBook) fun cached => ?_)
    (fun _ => hFresh _ _)
  cases cached with
  | none => exact hFresh _ _
  | some payload => exact keeps_ofExcept _

omit hPace in
theorem keeps_completeModel (hBook : ∀ m, Bookkeeping m → R m) (responseModel : ResponseModel)
    (args : CompleteArgs) :
    Keeps R (completeModel gateway responseModel args) := by
  refine keeps_bind (keeps_complete hProvider hHooks hBook _) fun result => ?_
  split
  · split
    · exact keeps_done _
    · exact keeps_raise _
  · exact keeps_raise _

end Calls

end Ecrke
