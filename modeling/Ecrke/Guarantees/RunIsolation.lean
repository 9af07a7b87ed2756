import Ecrke.Guarantees.BlobRedaction
import Ecrke.Pipeline.RunHistory
import Ecrke.Session

/-!
# Collections of one content for several runs

The URL connector looks for a source with the same content hash among the sources of all runs, and
returns it; the key of the table is the hash together with the run.

* `FirstFound` -- the source which the connector finds.
* `collect_isolated_iff` -- when a call returns a source of its own run.
* `collects_isolated` -- the calls of a history.
* `collect_foreign` -- two runs, one content.
-/

namespace Ecrke

open Durable

/-! ## One call -/

/-- A call of the connector. -/
structure CollectCall where
  platform : Platform
  settings : Settings
  args : UrlConnector.CollectArgs

/-- The program of a call. -/
def CollectCall.run (call : CollectCall) : Action Source :=
  UrlConnector.collect call.platform call.settings call.args

/-- The hash of a content which has been fetched. -/
def CollectCall.digest (call : CollectCall) (content : Bytes) : Text :=
  contentHash call.platform (redactBytesForStorage call.platform.unicode content)

/-- The sources with a hash, of all runs. -/
def sourcesWith (digest : Text) (t : Tables) : List Source :=
  t.sources.filter fun s => s.contentHash = digest

/-- What a call does where it has found no source. -/
def CollectCall.store (call : CollectCall) (fetched : FetchedContent) : Action Source := do
  let p := call.platform
  let safeBytes := redactBytesForStorage p.unicode fetched.content
  let (type, text) ← Prog.ofExcept
    (normalizeNamed p (UrlConnector.effectiveType p call.args fetched) safeBytes)
  if containsUnsafeContent p.unicode text then
    UrlConnector.quarantine call.args fetched type (call.digest fetched.content)
  else UrlConnector.storeSafe p call.args fetched type (call.digest fetched.content) safeBytes text

/-- What a call does with the sources it has found. -/
def CollectCall.settle (call : CollectCall) (fetched : FetchedContent) (existing : List Source) :
    Action Source :=
  match existing.head? with
  | some existing => pure existing
  | none => call.store fetched

theorem collect_eq (call : CollectCall) : call.run =
    (fetch call.platform call.settings call.args.uri "url".toList).bind fun fetched =>
      (selectRows (sourcesWith (call.digest fetched.content))).bind (call.settle fetched) := rfl

/-- The source with a hash which the database returns first. -/
def FirstFound (digest : Text) (s : World) (log : Log Vocabulary) (first : Option Source) : Prop :=
  ∃ (u : World) (order : Equiv.Perm (Fin (sourcesWith digest u.tables).length)),
    u.tables = s.tables ∧
      ⟨u, .asked (.rowOrder (sourcesWith digest u.tables).length) order, u⟩ ∈ log ∧
      first = (arrange (sourcesWith digest u.tables) order).head?

/-- A call has returned a source of its run, and there is a source of the run with this hash. -/
def Isolated (runId : Uuid) (digest : Text) (source : Source) (t : World) : Prop :=
  source.runId = runId ∧
    ∃ row ∈ t.tables.sources, row.runId = runId ∧ row.contentHash = digest

section Call

variable {call : CollectCall} {s t : World} {log : Log Vocabulary} {source : Source}

theorem fetch_done {p : Platform} {settings : Settings} {uri connector : Text}
    {fetched : FetchedContent} (h : Exec (fetch p settings uri connector) s log (.done fetched) t) :
    lastFetched log = some fetched.content ∧ t.tables = s.tables := by
  constructor
  · exact ((fetch_storing (f := id) p settings uri connector).exec h).2 fetched rfl fetched rfl
  · exact (h.linked.invariant (fun u : World => u.tables = s.tables)
      (fun m hm hBefore => by
        rw [World.tables, ((h.keeps (quiet_fetch p settings uri connector)).1 m hm).1]
        exact hBefore) rfl).1

/-- What a call adds where it has found nothing: a source of its run with the hash. -/
theorem quarantine_done {fetched : FetchedContent} {type : SourceType} {digest : Text}
    (h : Exec (UrlConnector.quarantine call.args fetched type digest) s log (.done source) t) :
    source.runId = call.args.runId ∧ source.contentHash = digest ∧ source ∈ t.tables.sources := by
  obtain ⟨id, _, _, u, -, -, hRest⟩ := Exec.of_bind_done h
  obtain ⟨_, _, _, v, -, hCommit, hLast⟩ := Exec.of_bind_done hRest
  obtain ⟨-, hDone, rfl⟩ := Exec.of_done hLast
  cases hDone
  refine ⟨rfl, rfl, ?_⟩
  rw [commitWrites_done hCommit]
  exact List.mem_append_right _ (List.mem_singleton.mpr rfl)

theorem storeSafe_done {p : Platform} {fetched : FetchedContent} {type : SourceType} {digest : Text}
    {safeBytes : Bytes} {text : Text}
    (h : Exec (UrlConnector.storeSafe p call.args fetched type digest safeBytes text) s log
      (.done source) t) :
    source.runId = call.args.runId ∧ source.contentHash = digest ∧ source ∈ t.tables.sources := by
  obtain ⟨_, _, _, u, -, -, hRest⟩ := Exec.of_bind_done h
  obtain ⟨id, _, _, v, -, -, hLater⟩ := Exec.of_bind_done hRest
  obtain ⟨rows, _, _, w, -, -, hStore⟩ := Exec.of_bind_done hLater
  obtain ⟨_, _, _, x, -, hCommit, hLast⟩ := Exec.of_bind_done hStore
  obtain ⟨-, hDone, rfl⟩ := Exec.of_done hLast
  cases hDone
  refine ⟨rfl, rfl, ?_⟩
  rw [commitWrites_done hCommit, Tables.after_cons, Tables.after_insertPassages]
  exact List.mem_append_right _ (List.mem_singleton.mpr rfl)

/-- Steps which fetch nothing do not change what has been fetched last. -/
theorem lastFetched_append {now later : Log Vocabulary}
    (h : ∀ m ∈ later, fetchedContent m = none) : lastFetched (now ++ later) = lastFetched now := by
  induction later using List.reverseRecOn with
  | nil => rw [List.append_nil]
  | append_singleton rest m ih =>
      have hRest := ih fun other hOther => h other (List.mem_append_left _ hOther)
      rw [← List.append_assoc, lastFetched, watch_append, fetchMonitor,
        h m (List.mem_append_right _ List.mem_cons_self), Option.none_or]
      exact hRest

/-- A call which has found nothing fetches nothing more. -/
theorem store_unfetched (call : CollectCall) (fetched : FetchedContent) :
    Keeps (fun m => fetchedContent m = none) (call.store fetched) := by
  have hIdle {α : Type} {p : Action α} (h : Keeps Idle p) :
      Keeps (fun m => fetchedContent m = none) p := h.mono fun _ hm => hm.1
  have hPut (ref : Text) (content : Bytes) :
      Keeps (fun m => fetchedContent m = none) (BlobStore.put ref content) := by
    refine keeps_bind (keeps_select (fun _ => rfl) fun _ => rfl) fun known => ?_
    exact keeps_ite (fun _ => keeps_done _) fun _ => keeps_commit (fun _ _ _ _ => rfl) fun _ => rfl
  refine keeps_bind (keeps_ofExcept _) fun found => ?_
  refine keeps_ite (fun _ => ?_) fun _ => ?_
  · exact keeps_bind (hIdle idle_uuid4) fun _ =>
      keeps_bind (hIdle (idle_commitWrites _)) fun _ => keeps_done _
  · refine keeps_bind (hPut _ _) fun _ => keeps_bind (hIdle idle_uuid4) fun id => ?_
    refine keeps_bind (keeps_mapM fun _ _ => keeps_bind (hIdle idle_uuid4) fun _ => keeps_done _) ?_
    exact fun rows => keeps_bind (hIdle (idle_commitWrites _)) fun _ => keeps_done _

theorem store_done {fetched : FetchedContent}
    (h : Exec (call.store fetched) s log (.done source) t) :
    source.runId = call.args.runId ∧ source.contentHash = call.digest fetched.content ∧
      source ∈ t.tables.sources := by
  obtain ⟨found, _, _, u, -, -, hRest⟩ := Exec.of_bind_done h
  dsimp only at hRest
  split at hRest
  · exact quarantine_done hRest
  · exact storeSafe_done hRest

theorem settle_unfetched (call : CollectCall) (fetched : FetchedContent) (rows : List Source) :
    Keeps (fun m => fetchedContent m = none) (call.settle fetched rows) := by
  unfold CollectCall.settle
  split
  · exact keeps_done _
  · exact store_unfetched call fetched

/-- A call returns a source of its run, and leaves one there, exactly if the source which it has found
belongs to the run; it may have found none. -/
theorem collect_isolated_iff (h : Exec call.run s log (.done source) t) :
    ∃ content first, lastFetched log = some content ∧ FirstFound (call.digest content) s log first ∧
      (Isolated call.args.runId (call.digest content) source t ↔
        ∀ row, first = some row → row.runId = call.args.runId) := by
  rw [collect_eq] at h
  obtain ⟨fetched, now, later, u, rfl, hFetch, hRest⟩ := Exec.of_bind_done h
  obtain ⟨hLast, hTables⟩ := fetch_done hFetch
  obtain ⟨rows, found, last, v, rfl, hSelect, hSettle⟩ := Exec.of_bind_done hRest
  obtain ⟨rfl, order, rfl, hAsked⟩ := selectRows_order hSelect
  have hQuiet : ∀ m ∈ found ++ last, fetchedContent m = none := by
    intro m hm
    rcases List.mem_append.mp hm with hFound | hAfter
    · exact ((hSelect.keeps (idle_selectRows _)).1 m hFound).1
    · exact (hSettle.keeps (settle_unfetched call fetched _)).1 m hAfter
  refine ⟨fetched.content, _, (lastFetched_append hQuiet).trans hLast,
    ⟨v, order, hTables, by simp [hAsked], rfl⟩, ?_⟩
  unfold CollectCall.settle at hSettle
  cases hFirst : (arrange (sourcesWith (call.digest fetched.content) v.tables) order).head? with
  | some row =>
      rw [hFirst] at hSettle
      obtain ⟨-, hDone, rfl⟩ := Exec.of_done hSettle
      have hSource := Prog.done.inj hDone
      have hMem := mem_arrange.mp (List.mem_of_mem_head? hFirst)
      obtain ⟨hRow, hHash⟩ := List.mem_filter.mp hMem
      constructor
      · intro hIsolated other hOther
        rw [← Option.some.inj hOther, ← hSource]
        exact hIsolated.1
      · intro hOwn
        have hRun := hOwn row rfl
        exact ⟨hSource ▸ hRun, row, hRow, hRun, by simpa using hHash⟩
  | none =>
      rw [hFirst] at hSettle
      obtain ⟨hRun, hHash, hMem⟩ := store_done hSettle
      constructor
      · intro _ row hNone
        cases hNone
      · intro _
        exact ⟨hRun, source, hMem, hRun, hHash⟩

end Call

/-! ## Histories of calls -/

/-- No source goes away. -/
def SourcesGrow (m : Moment Vocabulary) : Prop := m.before.tables.sources ⊆ m.after.tables.sources

theorem Quiet.sourcesGrow {m : Moment Vocabulary} (h : Quiet m) : SourcesGrow m := by
  unfold SourcesGrow World.tables
  rw [h.1]
  exact List.Subset.refl _

theorem sourcesGrow_commit {writes : List Write}
    (hWrites : ∀ t : Tables, t.sources ⊆ (t.after writes).sources) :
    Keeps SourcesGrow (commitWrites writes) := by
  refine keeps_commitWrites (fun _ => List.Subset.refl _) fun s t hTables _ _ => ?_
  unfold SourcesGrow
  dsimp only
  rw [hTables]
  exact hWrites s.tables

theorem sourcesGrow_put (ref : Text) (content : Bytes) :
    Keeps SourcesGrow (BlobStore.put ref content) := by
  refine keeps_bind (keeps_select (fun _ => List.Subset.refl _) fun _ => List.Subset.refl _)
    fun known => ?_
  exact keeps_ite (fun _ => keeps_done _) fun _ =>
    keeps_commit (fun w _ t hRun => by cases hRun; exact List.Subset.refl _)
      fun _ => List.Subset.refl _

theorem sourcesGrow_store (call : CollectCall) (fetched : FetchedContent) :
    Keeps SourcesGrow (call.store fetched) := by
  have hQuiet {α : Type} {p : Action α} (h : Keeps Quiet p) : Keeps SourcesGrow p :=
    h.mono fun _ hm => hm.sourcesGrow
  refine keeps_bind (hQuiet (quiet_ofExcept _)) fun found => ?_
  refine keeps_ite (fun _ => ?_) fun _ => ?_
  · refine keeps_bind (hQuiet quiet_uuid4) fun _ => keeps_bind (sourcesGrow_commit fun t => ?_)
      fun _ => keeps_done _
    exact List.subset_append_left _ _
  · refine keeps_bind (sourcesGrow_put _ _) fun _ => keeps_bind (hQuiet quiet_uuid4) fun id => ?_
    refine keeps_bind (keeps_mapM fun _ _ => keeps_bind (hQuiet quiet_uuid4) fun _ => keeps_done _)
      fun rows => ?_
    refine keeps_bind (sourcesGrow_commit fun t => ?_) fun _ => keeps_done _
    rw [Tables.after_cons, Tables.after_insertPassages]
    exact List.subset_append_left _ _

/-- A call takes no source away. -/
theorem collect_grows {call : CollectCall} {s t : World} {log : Log Vocabulary}
    {left : Action Source} (h : Exec call.run s log left t) :
    s.tables.sources ⊆ t.tables.sources := by
  have hKeeps : Keeps SourcesGrow call.run := by
    rw [collect_eq]
    refine keeps_bind ((quiet_fetch _ _ _ _).mono fun _ hm => hm.sourcesGrow) fun fetched => ?_
    refine keeps_bind ((quiet_selectRows _).mono fun _ hm => hm.sourcesGrow) fun rows => ?_
    unfold CollectCall.settle
    split
    · exact keeps_done _
    · exact sourcesGrow_store call fetched
  exact (h.linked.invariant (fun u : World => s.tables.sources ⊆ u.tables.sources)
    (fun m hm hBefore => List.Subset.trans hBefore ((h.keeps hKeeps).1 m hm)) (List.Subset.refl _)).1

/-- Calls of the connector one after the other, for any runs.  Each of them may return, raise, or be
cut off. -/
abbrev CollectHistory : World → List (CollectCall × Log Vocabulary) → World → Prop :=
  Calls CollectCall.run fun _ => True

/-- In a history, a call which has returned has returned a source of its run, and has left one there
for good, exactly if the source which it has found belongs to the run; it may have found none. -/
theorem collects_isolated {s t : World} {calls : List (CollectCall × Log Vocabulary)}
    (h : CollectHistory s calls t) :
    ∀ entry ∈ calls, ∃ (u v : World) (left : Action Source),
      Exec entry.1.run u entry.2 left v ∧ v.tables.sources ⊆ t.tables.sources ∧
      ∀ source, left = .done source → ∃ content first, lastFetched entry.2 = some content ∧
        FirstFound (entry.1.digest content) u entry.2 first ∧
        (Isolated entry.1.args.runId (entry.1.digest content) source v ↔
          ∀ row, first = some row → row.runId = entry.1.args.runId) := by
  induction h with
  | nil => simp
  | @snoc t u calls past call hMay log left last ih =>
      intro entry hEntry
      rcases List.mem_append.mp hEntry with hEarlier | hNow
      · obtain ⟨v, w, left, hExec, hKept, hReturned⟩ := ih entry hEarlier
        exact ⟨v, w, left, hExec, List.Subset.trans hKept (collect_grows last), hReturned⟩
      · obtain rfl := List.mem_singleton.mp hNow
        refine ⟨t, u, left, last, List.Subset.refl _, fun source hDone => ?_⟩
        rw [hDone] at last
        exact collect_isolated_iff last

/-! ## Two runs and one content -/

/-- Two runs, and nothing else. -/
def Tables.pair : Tables :=
  { Tables.single (.submitted 1) [] with
    runs := [.submitted 1, { Run.submitted 1 with id := ⟨2⟩ }] }

theorem Tables.pair_valid : Tables.pair.Valid := by
  constructor <;> simp [Tables.pair, Tables.single, Run.submitted, Run.Checks, Keyed, Refers]

/-- The world of the two runs. -/
def World.pair : World where
  db := ⟨.pair, Tables.pair_valid⟩
  blobs := []
  memory := ⟨[], [], ⟨[], [], []⟩⟩

/-- A call for the page which every address shows. -/
def CollectCall.page (runId : Uuid) : CollectCall where
  platform := Served.platform {}
  settings := (Served.services {}).settings
  args := { uri := "https://a.org/b".toList, runId }

/-- A call for the page, from a step on. -/
def pageCall (runId : Uuid) (step : Nat) (s : World) : Log Vocabulary × Action Source × World :=
  simulate (({} : Served).outside fun _ => .grant) 20 step (CollectCall.page runId).run s

/-- The call for the first run, and the call for the second run after it. -/
def firstPage : Log Vocabulary × Action Source × World := pageCall ⟨1⟩ 0 .pair
def secondPage : Log Vocabulary × Action Source × World := pageCall ⟨2⟩ 20 firstPage.2.2

theorem pages_facts :
    firstPage.2.1.returned.map Source.runId = some ⟨1⟩ ∧
    secondPage.2.1.returned.map Source.runId = some ⟨1⟩ ∧
    secondPage.2.2.tables.sources.map Source.runId = [⟨1⟩] := by
  decide +kernel

theorem pages_history : CollectHistory .pair
    [(CollectCall.page ⟨1⟩, firstPage.1), (CollectCall.page ⟨2⟩, secondPage.1)] secondPage.2.2 :=
  .snoc (.snoc .nil (CollectCall.page ⟨1⟩) trivial (simulate_exec _ _ _ _ _)) (CollectCall.page ⟨2⟩) trivial
    (simulate_exec _ _ _ _ _)

/-- The first of the two calls. -/
theorem collects_isolated_pages : ∃ (u v : World) (left : Action Source),
    Exec (CollectCall.page ⟨1⟩).run u firstPage.1 left v ∧
      ∀ source, left = .done source → ∃ content first, lastFetched firstPage.1 = some content ∧
        (Isolated ⟨1⟩ ((CollectCall.page ⟨1⟩).digest content) source v ↔
          ∀ row : Source, first = some row → row.runId = ⟨1⟩) := by
  obtain ⟨u, v, left, hExec, -, hReturned⟩ :=
    collects_isolated pages_history (.page ⟨1⟩, firstPage.1) List.mem_cons_self
  refine ⟨u, v, left, hExec, fun source hDone => ?_⟩
  obtain ⟨content, first, hLast, -, hIff⟩ := hReturned source hDone
  exact ⟨content, first, hLast, hIff⟩

/-- The second call returns the source of the first run, and the second run is left without one. -/
theorem collect_foreign : ∃ (s t u : World) (calls : List (CollectCall × Log Vocabulary))
    (call : CollectCall) (log : Log Vocabulary) (source : Source),
    s.tables.sources = [] ∧ CollectHistory s calls t ∧ Exec call.run t log (.done source) u ∧
      source.runId ≠ call.args.runId ∧
      ∀ row ∈ u.tables.sources, row.runId ≠ call.args.runId := by
  obtain ⟨-, hSecond, hRows⟩ := pages_facts
  obtain ⟨source, hSource, hRun⟩ := Option.map_eq_some_iff.mp hSecond
  have hExec : Exec (CollectCall.page ⟨2⟩).run firstPage.2.2 secondPage.1 secondPage.2.1
      secondPage.2.2 := simulate_exec _ _ _ _ _
  rw [Prog.eq_done hSource] at hExec
  refine ⟨.pair, _, _, [(CollectCall.page ⟨1⟩, firstPage.1)], .page ⟨2⟩, _, source, rfl,
    .snoc .nil (CollectCall.page ⟨1⟩) trivial (simulate_exec _ _ _ _ _), hExec, ?_, ?_⟩
  · rw [hRun]
    decide
  · intro row hRow
    have hMem : row.runId ∈ secondPage.2.2.tables.sources.map Source.runId :=
      List.mem_map_of_mem hRow
    rw [hRows, List.mem_singleton] at hMem
    rw [hMem]
    decide

end Ecrke
