import Ecrke.Durable.Watched
import Ecrke.Pipeline.Ingest
import Ecrke.Services.UrlConnector

/-!
# What is stored of a fetched content

Two ingestions store blobs: the collect stage stores a content as it has been fetched, the URL
connector stores it redacted.

* `lastFetched` -- the content which has been fetched last.
* `StoresFrom` -- the steps of an ingestion which stores a function of what it has fetched.
* `runCollect_stores`, `collect_stores` -- the collect stage and the connector.
* `stored_redacted` -- where the two agree.
-/

namespace Ecrke

open Durable

/-! ## Fetching and storing -/

/-- The content which a step fetches. -/
def fetchedContent (m : Moment Vocabulary) : Option Bytes :=
  match m.happening with
  | .asked (.httpGet _) answer =>
      match (show Except Text HttpResponse from answer) with
      | .ok response => if response.statusCode = 200 then some response.content else none
      | .error _ => none
  | .asked (.readFile _) answer =>
      match (show Except PyError (Option Bytes) from answer) with
      | .ok found => found
      | .error _ => none
  | _ => none

/-- The monitor of the content which has been fetched last. -/
def fetchMonitor (last : Option Bytes) (m : Moment Vocabulary) : Option Bytes :=
  (fetchedContent m).or last

/-- The content which has been fetched last. -/
def lastFetched (log : Log Vocabulary) : Option Bytes := watch fetchMonitor none log

/-- A step stores a blob under a reference which has been free. -/
def Stores (m : Moment Vocabulary) (ref : Text) (stored : Bytes) : Prop :=
  BlobStore.lookup ref m.before.blobs = none ∧ BlobStore.lookup ref m.after.blobs = some stored

/-- What a step stores is a function of the content which has been fetched last. -/
def StoresFrom (f : Bytes → Bytes) (last : Option Bytes) (m : Moment Vocabulary) : Prop :=
  ∀ ref stored, Stores m ref stored → ∃ content, last = some content ∧ stored = f content

/-- A step which neither fetches nor stores. -/
def Idle (m : Moment Vocabulary) : Prop := fetchedContent m = none ∧ BlobsKept m

theorem Idle.storesFrom {m : Moment Vocabulary} (h : Idle m) (f : Bytes → Bytes)
    (last : Option Bytes) : StoresFrom f last m := by
  rintro ref stored ⟨hBefore, hAfter⟩
  rw [h.2, hBefore] at hAfter
  cases hAfter

theorem Idle.note {m : Moment Vocabulary} (h : Idle m) (last : Option Bytes) :
    fetchMonitor last m = last := by
  rw [fetchMonitor, h.1, Option.none_or]

section Footprints

theorem idle_uuid4 : Keeps Idle uuid4 := keeps_query fun _ _ => ⟨rfl, rfl⟩

theorem idle_now : Keeps Idle now := keeps_query fun _ _ => ⟨rfl, rfl⟩

theorem idle_ofExcept {α : Type} (result : Except PyError α) :
    Keeps Idle (Prog.ofExcept result : Action α) :=
  keeps_ofExcept (S := Vocabulary) result

theorem idle_selectTables {α : Type} (f : Tables → α) : Keeps Idle (selectTables f) :=
  keeps_select (fun _ => ⟨rfl, rfl⟩) fun _ => ⟨rfl, rfl⟩

theorem idle_selectRows {ρ : Type} (f : Tables → List ρ) : Keeps Idle (selectRows f) :=
  keeps_bind (idle_selectTables f) fun _ => keeps_bind (keeps_query fun _ _ => ⟨rfl, rfl⟩) fun _ =>
    keeps_done _

theorem unfetched_commitWrites (writes : List Write) :
    Keeps (fun m => fetchedContent m = none) (commitWrites writes) :=
  keeps_commit (fun _ _ _ _ => rfl) fun _ => rfl

theorem idle_commitWrites (writes : List Write) : Keeps Idle (commitWrites writes) :=
  (unfetched_commitWrites writes).both (kept_commitWrites writes)

theorem idle_auditAppend (p : Platform) (entry : AuditEntry) : Keeps Idle (auditAppend p entry) :=
  keeps_bind (idle_ofExcept _) fun _ => keeps_bind idle_uuid4 fun _ =>
    keeps_bind (keeps_query fun _ _ => ⟨rfl, rfl⟩) fun _ => keeps_done _

theorem idle_recordSource (ctx : PipelineContext) (outcome : CollectOutcome) :
    Keeps Idle (recordSource ctx outcome) :=
  keeps_bind idle_uuid4 fun _ => keeps_bind (idle_auditAppend _ _) fun _ => idle_commitWrites _

theorem idle_recordFetch (connector : Text) (time : Instant) :
    Keeps Idle (recordFetch connector time) :=
  keeps_atomically fun _ => ⟨rfl, rfl⟩

theorem idle_awaitRateLimit (settings : Settings) (connector : Text) :
    Keeps Idle (awaitRateLimit settings connector) := by
  refine keeps_bind idle_now fun _ => keeps_bind (keeps_atomically fun _ => ⟨rfl, rfl⟩) fun last =>
    ?_
  cases last with
  | none => exact keeps_done _
  | some last => exact keeps_ite (fun _ => keeps_query fun _ _ => ⟨rfl, rfl⟩) fun _ => keeps_done _

end Footprints

/-! ## Programs under the monitor -/

/-- Started after a content has been fetched last, a program stores functions of what it has
fetched last. -/
abbrev Storing (f : Bytes → Bytes) {α : Type}
    (Q : Except PyError α → World → Option Bytes → Prop) (p : Action α) (s : World)
    (last : Option Bytes) : Prop :=
  Watched (S := Vocabulary) fetchMonitor (StoresFrom f) Q p s last

section Programs

variable {f : Bytes → Bytes} {α β : Type} {s : World} {last : Option Bytes}

/-- An idle program. -/
theorem Storing.idle {p : Action α} (h : Keeps Idle p) :
    Storing f (fun _ _ last' => last' = last) p s last :=
  Watched.of_keeps h (fun _ hm => hm.note last) fun _ hm => hm.storesFrom f last

/-- An idle program in front of others. -/
theorem Storing.idle_bind {p : Action α} {rest : α → Action β}
    {Q : Except PyError β → World → Option Bytes → Prop} (h : Keeps Idle p)
    (hOk : ∀ value t, Storing f Q (rest value) t last)
    (hError : ∀ error t, Q (.error error) t last) : Storing f Q (p.bind rest) s last := by
  refine Watched.bind _ (Storing.idle h) ?_ ?_
  · rintro value t last' rfl
    exact hOk value t
  · rintro error t last' rfl
    exact hError error t

/-- Ask the outside world and go on with the answer. -/
theorem Storing.ask {question : Query} {rest : Answer question → Action β}
    {Q : Except PyError β → World → Option Bytes → Prop}
    (h : ∀ answer : Answer question, Storing f Q (rest answer) s
      (fetchMonitor last ⟨s, .asked question answer, s⟩)) :
    Storing f Q ((Prog.query (S := Vocabulary) question).bind rest) s last := by
  refine Watched.bind (fun r t last' => t = s ∧ ∃ answer, r = .ok answer ∧
    last' = fetchMonitor last ⟨s, .asked question answer, s⟩) (Watched.query fun answer => ?_) ?_ ?_
  · constructor
    · rintro ref stored ⟨hBefore, hAfter⟩
      rw [hBefore] at hAfter
      cases hAfter
    · exact ⟨rfl, answer, rfl, rfl⟩
  · rintro answer t last' ⟨rfl, answer', hAnswer, rfl⟩
    cases hAnswer
    exact h answer
  · rintro error t last' ⟨-, answer, hAnswer, -⟩
    cases hAnswer

/-- What a fetch returns is what has been fetched last. -/
def Returned (r : Except PyError FetchedContent) (_ : World) (last : Option Bytes) : Prop :=
  ∀ fetched, r = .ok fetched → last = some fetched.content

theorem returned_error (error : PyError) (t : World) (last : Option Bytes) :
    Returned (.error error) t last := by
  rintro fetched ⟨⟩

theorem returned_ok {fetched : FetchedContent} {t : World} {last : Option Bytes}
    (h : last = some fetched.content) : Returned (.ok fetched) t last := by
  rintro _ ⟨⟩
  exact h

theorem fetchFile_storing (p : Platform) (uri connector : Text) :
    Storing f Returned (fetchFile p uri connector) s last := by
  refine Storing.ask fun answer => ?_
  cases (answer : Except PyError (Option Bytes)) with
  | error error => exact Watched.raise (returned_error _ _ _)
  | ok found =>
      cases found with
      | none => exact Watched.raise (returned_error _ _ _)
      | some content =>
          show Storing f Returned (now >>= fun time => recordFetch connector time >>= fun _ =>
            now >>= fun fetchedAt => pure
              ⟨uri, content, fileContentType p.unicode (uri.drop fileScheme.length), fetchedAt⟩) s _
          refine Storing.idle_bind idle_now (fun time u => ?_) (fun _ _ => returned_error _ _ _)
          refine Storing.idle_bind (idle_recordFetch _ _) (fun _ u => ?_)
            (fun _ _ => returned_error _ _ _)
          refine Storing.idle_bind idle_now (fun fetchedAt u => ?_)
            (fun _ _ => returned_error _ _ _)
          exact Watched.done (returned_ok rfl)

theorem fetchHttp_storing (p : Platform) (uri connector : Text) :
    Storing f Returned (fetchHttp p uri connector) s last := by
  refine Storing.ask fun answer => ?_
  cases (answer : Except Text HttpResponse) with
  | error message => exact Watched.raise (returned_error _ _ _)
  | ok response =>
      refine Storing.idle_bind idle_now (fun time u => ?_) (fun _ _ => returned_error _ _ _)
      refine Storing.idle_bind (idle_recordFetch _ _) (fun _ u => ?_)
        (fun _ _ => returned_error _ _ _)
      refine Watched.ite (fun _ => Watched.raise (returned_error _ _ _)) fun hStatus => ?_
      refine Storing.idle_bind idle_now (fun fetchedAt u => ?_) (fun _ _ => returned_error _ _ _)
      refine Watched.done (returned_ok ?_)
      have hOk : response.statusCode = 200 := by simpa using hStatus
      show (if response.statusCode = 200 then some response.content else none).or last = _
      rw [if_pos hOk, Option.some_or]

theorem fetch_storing (p : Platform) (settings : Settings) (uri connector : Text) :
    Storing f Returned (fetch p settings uri connector) s last := by
  have hRest (t : World) : Storing f Returned (do
      awaitRateLimit settings connector
      if Text.startsWith fileScheme uri then fetchFile p uri connector
      else fetchHttp p uri connector) t last :=
    Storing.idle_bind (idle_awaitRateLimit _ _)
      (fun _ _ => Watched.ite (fun _ => fetchFile_storing p uri connector)
        fun _ => fetchHttp_storing p uri connector) fun _ _ => returned_error _ _ _
  exact Watched.ite (fun _ => hRest s) fun _ =>
    Storing.idle_bind (idle_ofExcept _) (fun _ t => hRest t) fun _ _ => returned_error _ _ _

/-- A `put` stores what it is given. -/
theorem put_storing {ref : Text} {content stored : Bytes} (hLast : last = some content)
    (hStored : stored = f content) :
    Storing f (fun _ _ last' => last' = last) (BlobStore.put ref stored) s last := by
  have hUnfetched : Keeps (fun m => fetchedContent m = none) (BlobStore.put ref stored) :=
    keeps_bind (keeps_select (fun _ => rfl) fun _ => rfl) fun _ =>
      keeps_ite (fun _ => keeps_done _) fun _ => keeps_commit (fun _ _ _ _ => rfl) fun _ => rfl
  have hAdds : Alone (BlobsAdd fun _ new => new = stored) anyEnd (BlobStore.put ref stored) s :=
    (put_adds rfl).post fun _ _ _ => trivial
  have hFetches : Alone (fun m => fetchedContent m = none) anyEnd (BlobStore.put ref stored) s :=
    Alone.of_keeps (S := Vocabulary) (T := fun _ _ : World => True) (fun _ => trivial)
      (fun _ _ _ _ _ => trivial) (fun _ _ => trivial) hUnfetched (fun _ hm => hm)
      fun _ _ _ => trivial
  have hSteps := hAdds.both hFetches
  refine (Watched.of_alone hSteps ?_ ?_).post fun _ _ _ hr => hr.2
  · rintro m ⟨-, hm⟩
    rw [fetchMonitor, hm, Option.none_or]
  · rintro m ⟨⟨-, hAdd⟩, -⟩ ref' new ⟨hBefore, hAfter⟩
    rcases hAdd ref' new hAfter with hOld | rfl
    · rw [hBefore] at hOld
      cases hOld
    · exact ⟨content, hLast, hStored⟩

end Programs

/-! ## The collect stage -/

section Collect

variable {s : World} {last : Option Bytes}

/-- A program of which only the steps matter. -/
abbrev StoringSteps (f : Bytes → Bytes) {α : Type} (p : Action α) (s : World)
    (last : Option Bytes) : Prop :=
  Storing f (fun _ _ _ => True) p s last

theorem Storing.steps {f : Bytes → Bytes} {α : Type}
    {Q : Except PyError α → World → Option Bytes → Prop} {p : Action α}
    (h : Storing f Q p s last) : StoringSteps f p s last :=
  Watched.post h fun _ _ _ _ => trivial

theorem Storing.seq {f : Bytes → Bytes} {α β : Type} {p : Action α} {rest : α → Action β}
    (h : StoringSteps f p s last) (hRest : ∀ value t last', StoringSteps f (rest value) t last') :
    StoringSteps f (p.bind rest) s last :=
  Watched.bind _ h (fun value t last' _ => hRest value t last') fun _ _ _ _ => trivial

theorem recordSource_storing (f : Bytes → Bytes) (ctx : PipelineContext)
    (outcome : CollectOutcome) {α : Type} (value : α) :
    StoringSteps f (do recordSource ctx outcome; pure value) s last :=
  Storing.idle_bind (idle_recordSource _ _) (fun _ _ => Watched.done trivial) fun _ _ => trivial

theorem storeContent_storing (ctx : PipelineContext) (hash : Text) {content : Bytes}
    (state : Collected) (hLast : last = some content) :
    StoringSteps id (storeContent ctx hash content state) s last := by
  refine Storing.idle_bind idle_uuid4 (fun id t => ?_) fun _ _ => trivial
  dsimp only
  split
  · exact Watched.done trivial
  · exact Storing.seq (put_storing hLast rfl).steps fun _ _ _ => Watched.done trivial

theorem recordContent_storing (ctx : PipelineContext) (uri : Text) {content : FetchedContent}
    (state : Collected) (hLast : last = some content.content) :
    StoringSteps id (recordContent ctx uri content state) s last := by
  refine Watched.ite (fun _ => recordSource_storing id ctx _ _) fun _ => ?_
  refine Storing.seq (storeContent_storing ctx _ state hLast) ?_
  rintro ⟨ref, state'⟩ t last'
  exact recordSource_storing id ctx _ _

theorem collectUri_storing (ctx : PipelineContext) (uri : Text) (state : Collected) :
    StoringSteps id (collectUri ctx uri state) s last := by
  refine Storing.idle_bind (idle_ofExcept _) (fun refused t => ?_) fun _ _ => trivial
  cases refused with
  | some reason => exact recordSource_storing id ctx _ _
  | none =>
      have hFetch : Storing id (fun r _ last' => ∀ content, r = .ok (.ok content) →
          last' = some content.content) (tryFetch ctx uri) t last := by
        refine Watched.tryCatch (fun r _ last' => ∀ content, r = .ok (.ok content) →
          last' = some content.content) ?_ (fun _ _ _ h => h) ?_
        · refine Watched.bind _ (fetch_storing ctx.services.platform ctx.services.settings uri _)
            (fun content t last' hContent => Watched.done ?_) (by simp)
          rintro _ ⟨⟩
          exact hContent content rfl
        · exact fun error t last' _ => Watched.ite (fun _ => Watched.done (by simp)) fun _ =>
            Watched.raise (by simp)
      refine Watched.bind _ hFetch (fun answer u last' hAnswer => ?_) fun _ _ _ _ => trivial
      cases answer with
      | error reason => exact recordSource_storing id ctx _ _
      | ok content => exact recordContent_storing ctx uri state (hAnswer content rfl)

/-- The collect stage stores what it has fetched. -/
theorem runCollect_storing (ctx : PipelineContext) :
    StoringSteps id (runCollect ctx) s last := by
  refine Storing.idle_bind (idle_selectTables _) (fun found t => ?_) fun _ _ => trivial
  refine Storing.idle_bind (idle_ofExcept _) (fun urls u => ?_) fun _ _ => trivial
  refine Storing.idle_bind (idle_selectTables _) (fun existing v => ?_) fun _ _ => trivial
  refine Storing.seq (Watched.foldlM (fun _ _ _ => True) ?_ (fun _ _ _ _ => trivial) urls trivial)
    fun _ _ _ => Watched.done trivial
  intro url state w last _
  refine Watched.post (Q := fun _ _ _ => True) ?_ ?_
  · cases url with
    | str uri =>
        exact Watched.ite (fun _ => Watched.done trivial) fun _ => collectUri_storing ctx uri state
    | _ => exact Watched.raise trivial
  · rintro (_ | _) _ _ _ <;> trivial

end Collect

/-! ## The connector -/

section Connector

variable {s : World} {last : Option Bytes}

/-- The connector stores what it has fetched, redacted. -/
theorem collect_storing (p : Platform) (settings : Settings) (args : UrlConnector.CollectArgs) :
    StoringSteps (redactBytesForStorage p.unicode) (UrlConnector.collect p settings args) s
      last := by
  have hQuarantine (fetched : FetchedContent) (type : SourceType) (digest : Text) :
      Keeps Idle (UrlConnector.quarantine args fetched type digest) :=
    keeps_bind idle_uuid4 fun _ => keeps_bind (idle_commitWrites _) fun _ => keeps_done _
  have hPassages (id : Uuid) (chunks : List Chunk) :
      Keeps Idle (UrlConnector.passages p id chunks) :=
    keeps_mapM fun _ _ => keeps_bind idle_uuid4 fun _ => keeps_done _
  refine Watched.bind _ (fetch_storing p settings args.uri "url".toList)
    (fun fetched t last' hFetched => ?_) fun _ _ _ _ => trivial
  refine Storing.idle_bind (idle_selectRows _) (fun existing u => ?_) fun _ _ => trivial
  dsimp only
  split
  · exact Watched.done trivial
  · refine Storing.idle_bind (idle_ofExcept _) ?_ fun _ _ => trivial
    rintro ⟨type, text⟩ v
    refine Watched.ite (fun _ => (Storing.idle (hQuarantine fetched type _)).steps) fun _ => ?_
    refine Storing.seq (put_storing (hFetched fetched rfl) rfl).steps fun _ w last' => ?_
    refine Storing.idle_bind idle_uuid4 (fun id x => ?_) fun _ _ => trivial
    refine Storing.idle_bind (hPassages id _) (fun rows y => ?_) fun _ _ => trivial
    exact Storing.idle_bind (idle_commitWrites _) (fun _ _ => Watched.done trivial)
      fun _ _ => trivial

end Connector

/-! ## Where the two agree -/

/-- What a step stores after a log is the redacted form of what has been fetched last, and free of
secrets. -/
def StoredRedacted (u : Unicode) (earlier : Log Vocabulary) (stored : Bytes) : Prop :=
  ∃ content, lastFetched earlier = some content ∧ stored = redactBytesForStorage u content ∧
    SecretFreeBytes u stored

/-- What is stored in an execution is a function of what has been fetched last. -/
theorem StoringSteps.stored {f : Bytes → Bytes} {α : Type} {p q : Action α} {s t : World}
    {log : Log Vocabulary} (h : StoringSteps f p s none) (hExec : Exec p s log q t)
    {earlier later : Log Vocabulary} {m : Moment Vocabulary} (hLog : log = earlier ++ m :: later)
    {ref : Text} {stored : Bytes} (hStores : Stores m ref stored) :
    ∃ content, lastFetched earlier = some content ∧ stored = f content :=
  (h.exec hExec).1 earlier m later hLog ref stored hStores

/-- The URL connector stores contents redacted.  The collect stage does so exactly for the contents
which are free of secrets. -/
theorem stored_redacted (p : Platform) :
    (∀ (ctx : PipelineContext) (s t : World) (log : Log Vocabulary) (rest : Action StageResult),
      ctx.services.platform = p → Exec (runCollect ctx) s log rest t →
      ∀ earlier m later, log = earlier ++ m :: later → ∀ ref stored, Stores m ref stored →
        ∃ content, lastFetched earlier = some content ∧
          (StoredRedacted p.unicode earlier stored ↔ SecretFreeBytes p.unicode content)) ∧
    ∀ (settings : Settings) (args : UrlConnector.CollectArgs) (s t : World)
      (log : Log Vocabulary) (rest : Action Source),
      Exec (UrlConnector.collect p settings args) s log rest t →
      ∀ earlier m later, log = earlier ++ m :: later → ∀ ref stored, Stores m ref stored →
        StoredRedacted p.unicode earlier stored := by
  constructor
  · rintro ctx s t log rest - hExec earlier m later hLog ref stored hStores
    obtain ⟨content, hLast, hStored⟩ := (runCollect_storing ctx).stored hExec hLog hStores
    obtain rfl : stored = content := hStored
    refine ⟨stored, hLast, ?_⟩
    constructor
    · rintro ⟨-, -, -, hFree⟩
      exact hFree
    · intro hFree
      exact ⟨stored, hLast, ((redactBytes_eq_self_iff _ _).mpr hFree).symm, hFree⟩
  · intro settings args s t log rest hExec earlier m later hLog ref stored hStores
    obtain ⟨content, hLast, rfl⟩ := (collect_storing p settings args).stored hExec hLog hStores
    exact ⟨content, hLast, rfl, redactBytes_secretFree _ _⟩

/-! ## A page with a secret -/

/-- A run whose pages show a token. -/
def Served.tokenPage : Served where
  page := "token=abc".toList

/-- The collect stage of that run. -/
def Served.tokenCollect : Log Vocabulary × Action StageResult × World :=
  simulate (Served.tokenPage.outside fun _ => .grant) 15 36
    (runCollect ⟨⟨1⟩, Served.tokenPage.services⟩) (Served.tokenPage.runs [22, 14]).2

/-- The eleventh step stores the page, which redaction would have changed. -/
theorem tokenCollect_facts :
    (Served.tokenCollect.1[10]?.map fun m =>
      (BlobStore.lookup (sourceRef ⟨1⟩ ⟨44⟩) m.before.blobs,
        BlobStore.lookup (sourceRef ⟨1⟩ ⟨44⟩) m.after.blobs)) =
        some (none, some (Bytes.encodeUtf8 "token=abc".toList)) ∧
      lastFetched (Served.tokenCollect.1.take 10) =
        some (Bytes.encodeUtf8 "token=abc".toList) ∧
      redactBytesForStorage Served.tokenPage.platform.unicode
        (Bytes.encodeUtf8 "token=abc".toList) = Bytes.encodeUtf8 "[REDACTED]".toList := by
  decide +kernel

/-- A step of the stage which stores the page. -/
theorem tokenCollect_stores :
    ∃ earlier m later, Served.tokenCollect.1 = earlier ++ m :: later ∧
      Stores m (sourceRef ⟨1⟩ ⟨44⟩) (Bytes.encodeUtf8 "token=abc".toList) ∧
      lastFetched earlier = some (Bytes.encodeUtf8 "token=abc".toList) := by
  obtain ⟨hStep, hLast, -⟩ := tokenCollect_facts
  obtain ⟨m, hm, hBlobs⟩ := Option.map_eq_some_iff.mp hStep
  rw [Prod.mk.injEq] at hBlobs
  obtain ⟨hIndex, rfl⟩ := List.getElem?_eq_some_iff.mp hm
  have hSplit : Served.tokenCollect.1 = Served.tokenCollect.1.take 10 ++
      Served.tokenCollect.1[10] :: Served.tokenCollect.1.drop 11 := by
    rw [List.getElem_cons_drop, List.take_append_drop]
  exact ⟨_, _, _, hSplit, hBlobs, hLast⟩

theorem stored_redacted_tokenPage :
    ∃ earlier stored content, lastFetched earlier = some content ∧
      (StoredRedacted Served.tokenPage.platform.unicode earlier stored ↔
        SecretFreeBytes Served.tokenPage.platform.unicode content) := by
  obtain ⟨earlier, m, later, hLog, hStores, -⟩ := tokenCollect_stores
  obtain ⟨content, hBoth⟩ := (stored_redacted Served.tokenPage.platform).1 _ _ _ _ _ rfl
    (simulate_exec _ _ _ _ _) earlier m later hLog _ _ hStores
  exact ⟨earlier, _, content, hBoth⟩

/-- The collect stage stores a page which is not redacted. -/
theorem stored_redacted_fails :
    ∃ (ctx : PipelineContext) (s t : World) (log : Log Vocabulary) (rest : Action StageResult)
      (earlier later : Log Vocabulary) (m : Moment Vocabulary) (ref : Text) (stored : Bytes),
      Exec (runCollect ctx) s log rest t ∧ log = earlier ++ m :: later ∧ Stores m ref stored ∧
        lastFetched earlier = some stored ∧
        Bytes.decodeUtf8 stored = some "token=abc".toList ∧
        ¬ StoredRedacted ctx.services.platform.unicode earlier stored := by
  obtain ⟨earlier, m, later, hLog, hStores, hLast⟩ := tokenCollect_stores
  refine ⟨⟨⟨1⟩, Served.tokenPage.services⟩, _, _, _, _, earlier, later, m, _, _,
    simulate_exec _ _ _ _ _, hLog, hStores, hLast, Bytes.decodeUtf8_encodeUtf8 _, ?_⟩
  rintro ⟨content, hContent, hRedacted, -⟩
  rw [hLast] at hContent
  cases hContent
  have hEqual := hRedacted.trans tokenCollect_facts.2.2
  exact absurd hEqual (by decide)

end Ecrke
