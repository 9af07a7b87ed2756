import Ecrke.Durable.Trusting
import Ecrke.Guarantees.MeteredCalls
import Ecrke.Pipeline.Ingest
import Ecrke.Session

/-!
# The keys of collected sources

A source has a unique key in its run: a hash of the address if nothing was fetched, of the content
if it was flagged as unsafe, and of both if it was stored.  Two addresses may come to the same key.

* `Net`, `Fetches` -- what the outside has under an address, and what a fetch comes to.
* `CollectEnd`, `CollectEnd.keyBytes`, `Ends` -- what collecting an address comes to, and its key.
* `Clash`, `keyBytes_eq` -- when two addresses come to the same key.
* `Collecting`, `collect_apart` -- tasks of the stage one after the other.
-/

namespace Ecrke

open Durable

/-! ## What collecting an address comes to -/

/-- What the outside has: the answers to requests, and local files. -/
structure Net where
  page : Text → Except Text HttpResponse → Prop
  file : Text → Option Bytes → Prop

/-- An answer of the outside is one which it has.  Reading a file may fail with an `OSError`. -/
def Net.Gives (net : Net) (m : Moment Vocabulary) : Prop :=
  match m.happening with
  | .asked (.httpGet uri) answer => net.page uri answer
  | .asked (.readFile path) answer =>
      match (show Except PyError (Option Bytes) from answer) with
      | .ok found => net.file path found
      | .error error => error.kind = .other
  | _ => True

/-- What a fetch comes to: content, or a `FetchError`. -/
inductive Fetches (net : Net) (uri : Text) : Option Bytes → Prop where
  | local_ {found : Option Bytes} (hFile : Text.startsWith fileScheme uri = true)
      (hFound : net.file (uri.drop fileScheme.length) found) : Fetches net uri found
  | unreachable {message : Text} (hFile : Text.startsWith fileScheme uri = false)
      (hPage : net.page uri (.error message)) : Fetches net uri none
  | refused {response : HttpResponse} (hFile : Text.startsWith fileScheme uri = false)
      (hPage : net.page uri (.ok response)) (hStatus : response.statusCode ≠ 200) :
      Fetches net uri none
  | page {response : HttpResponse} (hFile : Text.startsWith fileScheme uri = false)
      (hPage : net.page uri (.ok response)) (hStatus : response.statusCode = 200) :
      Fetches net uri (some response.content)

/-- What collecting an address comes to: nothing is fetched, because it is denied or the fetch fails,
or content which is flagged as unsafe, or content which is stored. -/
inductive CollectEnd where
  | unfetched
  | flagged (content : Bytes)
  | stored (content : Bytes)

namespace CollectEnd

/-- What becomes of the result of a fetch. -/
def ofFetch (p : Platform) : Option Bytes → CollectEnd
  | none => unfetched
  | some content =>
      if isUnsafe p.unicode (decodeContent content) then flagged content else stored content

/-- The bytes whose hash is the key of the source. -/
def keyBytes (p : Platform) (uri : Text) : CollectEnd → Bytes
  | unfetched => Bytes.encodeUtf8 uri
  | flagged content => content
  | stored content => Bytes.encodeUtf8 (contentHash p content ++ ":".toList ++ uri)

end CollectEnd

/-- What collecting an address may come to. -/
inductive Ends (ctx : PipelineContext) (net : Net) (uri : Text) : CollectEnd → Prop where
  | denied {reason : Text} (hAdmit : admitUri ctx uri = .ok (some reason)) :
      Ends ctx net uri .unfetched
  | fetched {found : Option Bytes} (hAdmit : admitUri ctx uri = .ok none)
      (hFetch : Fetches net uri found) : Ends ctx net uri (.ofFetch ctx.services.platform found)

/-- Two addresses come to the same key: two pages with the same content are flagged; or the content
of a flagged page is another address, or what the key of a stored page is made of; or an address is. -/
inductive Clash (p : Platform) : Text → CollectEnd → Text → CollectEnd → Prop where
  | sameContent {uri other : Text} {content : Bytes} :
      Clash p uri (.flagged content) other (.flagged content)
  | contentIsUri {uri other : Text} :
      Clash p uri (.flagged (Bytes.encodeUtf8 other)) other .unfetched
  | contentIsKey {uri other : Text} {content : Bytes} :
      Clash p uri (.flagged (Bytes.encodeUtf8 (contentHash p content ++ ":".toList ++ other))) other
        (.stored content)
  | uriIsKey {other : Text} {content : Bytes} :
      Clash p (contentHash p content ++ ":".toList ++ other) .unfetched other (.stored content)

/-- Behind a hash and a colon an address is read back. -/
theorem hash_colon_inj {p : Platform} (hColon : ∀ content, ':' ∉ p.sha256 content)
    {content content' : Bytes} {uri uri' : Text}
    (h : contentHash p content ++ ":".toList ++ uri = contentHash p content' ++ ":".toList ++ uri') :
    uri = uri' := by
  have hRead (content : Bytes) (uri : Text) :
      ((contentHash p content ++ ":".toList ++ uri).dropWhile (· != ':')).tail = uri := by
    have hHash : ∀ c ∈ contentHash p content, (c != ':') = true := by
      intro c hc
      simp only [bne_iff_ne, ne_eq]
      rintro rfl
      exact hColon content hc
    rw [List.append_assoc, List.dropWhile_append_of_pos hHash]
    rfl
  rw [← hRead content uri, h, hRead]

/-- Different addresses come to the same key just if they clash. -/
theorem keyBytes_eq {p : Platform} (hColon : ∀ content, ':' ∉ p.sha256 content)
    {uri other : Text} (hOther : uri ≠ other) {end_ end' : CollectEnd} :
    end_.keyBytes p uri = end'.keyBytes p other ↔
      Clash p uri end_ other end' ∨ Clash p other end' uri end_ := by
  constructor
  · intro h
    cases end_ with
    | unfetched =>
        cases end' with
        | unfetched => exact absurd (Bytes.encodeUtf8_inj h) hOther
        | flagged content =>
            obtain rfl : Bytes.encodeUtf8 uri = content := h
            exact .inr .contentIsUri
        | stored content =>
            obtain rfl := Bytes.encodeUtf8_inj h
            exact .inl .uriIsKey
    | flagged content =>
        cases end' with
        | unfetched =>
            obtain rfl : content = Bytes.encodeUtf8 other := h
            exact .inl .contentIsUri
        | flagged content' =>
            obtain rfl : content = content' := h
            exact .inl .sameContent
        | stored content' =>
            obtain rfl : content = _ := h
            exact .inl .contentIsKey
    | stored content =>
        cases end' with
        | unfetched =>
            obtain rfl := Bytes.encodeUtf8_inj h.symm
            exact .inr .uriIsKey
        | flagged content' =>
            obtain rfl : _ = content' := h
            exact .inr .contentIsKey
        | stored content' => exact absurd (hash_colon_inj hColon (Bytes.encodeUtf8_inj h)) hOther
  · rintro (hClash | hClash)
    · cases hClash with
      | sameContent => rfl
      | contentIsUri => rfl
      | contentIsKey => rfl
      | uriIsKey => rfl
    · cases hClash with
      | sameContent => rfl
      | contentIsUri => rfl
      | contentIsKey => rfl
      | uriIsKey => rfl

/-! ## The sources of a run -/

/-- The exception for two sources of a run with one key. -/
def sourceCollision : PyError := integrity "uq_sources_run_content_hash"

/-- A source is recorded for one of the addresses, with the key which this comes to. -/
def KeyedSource (ctx : PipelineContext) (net : Net) (uris : List Text) (source : Source) : Prop :=
  source.uri ∈ uris ∧ ∃ end_, Ends ctx net source.uri end_ ∧
    source.contentHash = contentHash ctx.services.platform
      (end_.keyBytes ctx.services.platform source.uri)

/-- The sources of the run are recorded with their keys. -/
def AllKeyed (ctx : PipelineContext) (net : Net) (uris : List Text) (w : World) : Prop :=
  ∀ source ∈ w.tables.sources, source.runId = ctx.runId → KeyedSource ctx net uris source

/-- A step of the stage: at most one source is recorded, with its key. -/
structure KeyedStep (ctx : PipelineContext) (net : Net) (uris : List Text) (m : Moment Vocabulary) :
    Prop where
  checkpoints : m.after.tables.checkpoints = m.before.tables.checkpoints
  sources : m.after.tables.sources = m.before.tables.sources ∨
    ∃ source, KeyedSource ctx net uris source ∧
      m.after.tables.sources = m.before.tables.sources ++ [source]

/-- A result, or an exception other than that for two sources with one key. -/
def NoCollision {α : Type} (Q : α → World → Prop) : Except PyError α → World → Prop
  | .ok value, t => Q value t
  | .error error, _ => error ≠ sourceCollision

/-- What ends an execution which leaves the database as it is. -/
def Unmoved {α : Type} (P : PyError → Prop) (s : World) : Except PyError α → World → Prop :=
  fun r t => t.db = s.db ∧ ∀ error, r = .error error → P error

/-- No exception of a constraint. -/
def NoIntegrity (error : PyError) : Prop := error.kind ≠ .integrityError

theorem NoIntegrity.ne_collision {error : PyError} (h : NoIntegrity error) :
    error ≠ sourceCollision := by
  rintro rfl
  exact h rfl

section Steps

variable {ctx : PipelineContext} {net : Net} {uris : List Text} {s : World} {α β : Type}

theorem KeyedStep.of_quiet (m : Moment Vocabulary) (h : Quiet m) : KeyedStep ctx net uris m := by
  have hTables : m.after.tables = m.before.tables := congrArg Database.tables h.1
  exact ⟨by rw [hTables], .inl (by rw [hTables])⟩

/-- A quiet program, with the exceptions which it may raise. -/
theorem Trusting.quietly {P : PyError → Prop} {program : Action α} (hQuiet : Keeps Quiet program)
    (hRaises : Raises P program) :
    Trusting net.Gives (KeyedStep ctx net uris) (Unmoved P s) program s := by
  have hAlone : Alone Quiet (fun _ t => t.db = s.db) program s :=
    Alone.quiet (fun _ h => h) hQuiet fun _ _ h => h
  exact Trusting.of_alone (hAlone.both (hRaises s)) fun m _ hm => .of_quiet m hm.1

/-- A quiet program which raises nothing, in front of others. -/
theorem Trusting.skip {Q : Except PyError β → World → Prop} {program : Action α}
    {rest : α → Action β} (hQuiet : Keeps Quiet program)
    (hRaises : Raises (fun _ => False) program)
    (hRest : ∀ value t, t.db = s.db →
      Trusting net.Gives (KeyedStep ctx net uris) Q (rest value) t) :
    Trusting net.Gives (KeyedStep ctx net uris) Q (program.bind rest) s :=
  Trusting.bind _ (Trusting.quietly hQuiet hRaises) (fun value t ht => hRest value t ht.1)
    fun error _ ht => (ht.2 error rfl).elim

/-- A quiet program in front of others. -/
theorem Trusting.first {program : Action α} {rest : α → Action β} {Q : β → World → Prop}
    (hQuiet : Keeps Quiet program) (hRaises : Raises NoIntegrity program)
    (hRest : ∀ value t, t.db = s.db →
      Trusting net.Gives (KeyedStep ctx net uris) (NoCollision Q) (rest value) t) :
    Trusting net.Gives (KeyedStep ctx net uris) (NoCollision Q) (program.bind rest) s :=
  Trusting.bind _ (Trusting.quietly hQuiet hRaises) (fun value t ht => hRest value t ht.1)
    fun error _ ht => (ht.2 error rfl).ne_collision

/-! ### Fetching -/

theorem raises_modify {P : PyError → Prop} (f : Memory → Memory) : Raises P (modifyMemory f) :=
  fun _ => Alone.atomically trivial fun _ h => by cases h

theorem raises_awaitRateLimit {P : PyError → Prop} (settings : Settings) (connector : Text) :
    Raises P (awaitRateLimit settings connector) := by
  apply raises_bind (raises_query .now)
  intro time
  apply raises_bind (fun _ => Alone.atomically trivial fun _ h => by cases h)
  intro last
  cases last with
  | none => exact raises_done _
  | some last =>
      dsimp only
      split
      · exact raises_query _
      · exact raises_done _

theorem requireString_error {value : Text} {field : String} {error : PyError}
    (h : requireString value field = .error error) : error.kind = .valueError := by
  unfold requireString at h
  split at h
  · cases h
    rfl
  · split at h
    · cases h
      rfl
    · cases h

theorem optionalString_error {value : Option Text} {field : String} {error : PyError}
    (h : optionalString value field = .error error) : error.kind = .valueError := by
  unfold optionalString at h
  split at h
  · cases h
  · split at h
    · cases h
      rfl
    · split at h
      · cases h
        rfl
      · cases h

/-- An exception of one of two checks in a row. -/
theorem Except.error_of_seq {first second : Except PyError Unit} {error : PyError}
    {P : PyError → Prop} (h : (first >>= fun _ => second) = .error error)
    (hFirst : first = .error error → P error) (hSecond : second = .error error → P error) :
    P error := by
  cases first with
  | error other =>
      cases h
      exact hFirst rfl
  | ok value => exact hSecond h

/-- The audit writer refuses an entry with a `ValueError`. -/
theorem AuditEntry.check_error {entry : AuditEntry} {error : PyError}
    (h : entry.check = .error error) : error.kind = .valueError := by
  refine Except.error_of_seq (P := fun error => error.kind = .valueError) h requireString_error ?_
  intro h
  refine Except.error_of_seq (P := fun error => error.kind = .valueError) h requireString_error ?_
  intro h
  refine Except.error_of_seq (P := fun error => error.kind = .valueError) h optionalString_error ?_
  intro h
  refine Except.error_of_seq (P := fun error => error.kind = .valueError) h optionalString_error ?_
  intro h
  refine Except.error_of_seq (P := fun error => error.kind = .valueError) h optionalString_error ?_
  intro h
  split at h
  · split at h
    · cases h
      rfl
    · cases h
  · cases h

theorem integrity_inj {name other : String} (h : integrity name = integrity other) : name = other :=
  String.toList_inj.mp (congrArg PyError.message h)

/-- No two of the addresses come to one key. -/
def Apart (ctx : PipelineContext) (net : Net) (uris : List Text) : Prop :=
  ∀ uri ∈ uris, ∀ other ∈ uris, uri ≠ other → ∀ end_ end', Ends ctx net uri end_ →
    Ends ctx net other end' → ¬ Clash ctx.services.platform uri end_ other end'

theorem AllKeyed.append {t : World} {row : Source} (hAll : AllKeyed ctx net uris s)
    (hRow : KeyedSource ctx net uris row) (hSources : t.tables.sources = s.tables.sources ++ [row]) :
    AllKeyed ctx net uris t := by
  intro source hSource hRun
  rw [hSources] at hSource
  rcases List.mem_append.mp hSource with hOld | hNew
  · exact hAll source hOld hRun
  · rw [List.mem_singleton.mp hNew]
    exact hRow

end Steps

/-! ## Crashes and resumes -/

section Histories

variable {ctx : PipelineContext} {net : Net} {uris : List Text} {s t : World}
  {tasks : List CollectTask}

end Histories

/-! ## Two pages with one content -/

section Examples

/-- The bytes in hexadecimal digits. -/
def hexText (content : Bytes) : Text := content.flatMap fun byte => Text.hexDigits 2 byte.toNat

/-- A run whose search has found two addresses, on a platform with such a hash. -/
def Served.collecting (served : Served) : PipelineContext where
  runId := ⟨1⟩
  services := { served.services with platform := { served.platform with sha256 := hexText } }

/-- Two addresses. -/
def twoUrls : List Text := ["https://a.org/b".toList, "https://a.org/c".toList]

/-- The run after its search. -/
def World.searched : World :=
  { World.submitted 5 with
    db := ((World.submitted 5).db.applyAll [.insertCheckpoint ⟨⟨7⟩, ⟨1⟩, Stage.search.name,
      some (.obj [("urls".toList, .arr (twoUrls.map Json.str))])⟩]).toOption.getD
        (World.submitted 5).db }

/-- The task of the collect stage. -/
def Served.collect (served : Served) : Log Vocabulary × Action StageResult × World :=
  simulate (served.outside fun _ => .grant) 60 0 (runCollect served.collecting) World.searched

/-- The one page which is served everywhere. -/
def Served.net (served : Served) : Net where
  page := fun _ answer => answer = .ok ⟨200, Bytes.encodeUtf8 served.page, "text/plain".toList⟩
  file := fun _ _ => False

/-- The answers of a simulated task are those of the page. -/
def pageGiven (content : Bytes) (m : Moment Vocabulary) : Bool :=
  match m.happening with
  | .asked (.httpGet _) answer =>
      match (show Except Text HttpResponse from answer) with
      | .ok response => response.statusCode = 200 && response.content = content &&
          response.contentType = "text/plain".toList
      | .error _ => false
  | .asked (.readFile _) _ => false
  | _ => true

theorem Served.gives {served : Served} {m : Moment Vocabulary}
    (h : pageGiven (Bytes.encodeUtf8 served.page) m = true) : served.net.Gives m := by
  obtain ⟨before, happening, after⟩ := m
  cases happening with
  | asked question answer =>
      cases question with
      | httpGet uri =>
          cases hAnswer : (show Except Text HttpResponse from answer) with
          | error message =>
              subst hAnswer
              cases h
          | ok response =>
              subst hAnswer
              obtain ⟨status, content, type⟩ := response
              simp only [pageGiven, Bool.and_eq_true, decide_eq_true_eq] at h
              obtain ⟨⟨rfl, rfl⟩, rfl⟩ := h
              rfl
      | readFile path => cases h
      | _ => trivial
  | _ => trivial

end Examples

end Ecrke
