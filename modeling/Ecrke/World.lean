import Ecrke.Db.Database
import Ecrke.Durable.Interleaving
import Mathlib.Data.List.FinRange

/-!
# The world of the pipeline

What the programs of the service read and change, and what they ask of the outside.

* `Platform` -- third-party libraries and library functions, taken as given.
* `World` -- the database, the blob store and the memory of the process.
* `Query`, `Answer` -- questions to the outside world: fresh identifiers, clocks, the model
  provider, the search backend, the network, and the order in which the database returns rows.
* `Event` -- the log lines which statements about executions refer to.
* `Vocabulary`, `Action` -- the programs over this world.
* `selectRows`, `commitWrites` -- the two kinds of database steps of a session.
-/

namespace Ecrke

open Durable

/-! ## Third parties -/

/-- Token counts which a provider reports. -/
structure Usage where
  promptTokens : Option Int
  completionTokens : Option Int

/-- A response of the model provider.  The content is absent when it has no choices. -/
structure LLMResponse where
  content : Option Text
  usage : Option Usage

/-- What `urlparse` gives. -/
structure ParsedUrl where
  netloc : Text
  hostname : Option Text

/-- Third-party libraries and library functions. -/
structure Platform where
  unicode : Unicode
  /-- `hashlib.sha256(content).hexdigest()`. -/
  sha256 : Bytes → Text
  /-- `json.loads`, nothing where it raises `ValueError`. -/
  jsonLoads : Text → Option Json
  /-- `repr` of a float. -/
  floatRepr : ℚ → Text
  /-- `str` of a decimal. -/
  decimalStr : Usd → Text
  /-- `datetime.isoformat`. -/
  isoformat : Instant → Text
  /-- `json.dumps(model.model_json_schema(), sort_keys=True)`. -/
  schemaJson : ResponseModel → Text
  /-- `model.model_validate`, nothing where it raises `ValidationError`. -/
  validate : (model : ResponseModel) → Json → Option model.Data
  /-- `litellm.completion_cost`, nothing where it is unknown or fails. -/
  completionCost : LLMResponse → (model : Text) → Option Usd
  /-- The length of the `tiktoken` encoding for a model, nothing where the library fails. -/
  tokenCount : (model text : Text) → Option Nat
  /-- `urlparse`, nothing where it raises `ValueError`. -/
  urlparse : Text → Option ParsedUrl
  /-- The texts of the block elements of a page, and the text of the whole page. -/
  htmlBlocks : Bytes → Except PyError (List Text × Text)
  /-- The texts of the pages of a PDF file. -/
  pdfPages : Bytes → Except PyError (List Text)
  /-- The paragraphs of a DOCX file. -/
  docxParagraphs : Bytes → Except PyError (List Text)
  /-- `rtf_to_text`. -/
  rtfToText : Text → Except PyError Text

/-! ## State -/

/-- The instruments of the metrics registry. -/
structure Metrics where
  /-- `ecrke_run_cost_spent_usd`, by run. -/
  runCost : List (Text × Usd)
  /-- The observations of `ecrke_stage_duration_seconds`. -/
  stageDurations : List (Text × ℚ)
  /-- The increments of `ecrke_runs_total`. -/
  runsTotal : List Text

/-- The memory of the process. -/
structure Memory where
  /-- `LLMGateway._call_timestamps`, oldest first. -/
  callTimestamps : List Instant
  /-- `Fetcher._last_fetch_at`, by connector. -/
  lastFetchAt : List (Text × Instant)
  metrics : Metrics

/-- Everything the programs read and change. -/
structure World where
  db : Database
  /-- The blob store: the content of each file. -/
  blobs : List (Text × Bytes)
  memory : Memory

/-- The tables of the database. -/
abbrev World.tables (w : World) : Tables := w.db.tables

/-! ## The outside -/

/-- A message of a conversation. -/
structure Message where
  role : Text
  content : Text

/-- What a call of the provider comes to. -/
inductive ProviderAnswer where
  | response (response : LLMResponse)
  | rateLimitError (message : Text)
  | serviceUnavailableError (message : Text)
  | apiConnectionError (message : Text)
  /-- Any other exception. -/
  | otherError (error : PyError)

/-- A response of a web server. -/
structure HttpResponse where
  statusCode : Nat
  content : Bytes
  contentType : Text

/-- Questions to the outside world. -/
inductive Query where
  /-- `uuid4()`. -/
  | uuid4
  /-- `datetime.now(UTC)`. -/
  | now
  /-- `now()` of the database, which fills the time stamps of new rows. -/
  | dbNow
  /-- `asyncio.get_event_loop().time()`. -/
  | loopTime
  /-- `time.perf_counter()`. -/
  | perfCounter
  /-- `asyncio.sleep(seconds)`. -/
  | sleep (seconds : ℚ)
  /-- The order in which a SELECT without ORDER BY returns its rows. -/
  | rowOrder (count : Nat)
  /-- The model provider. -/
  | provider (model : Text) (messages : List Message) (kwargs : List (Text × Json))
  /-- The search backend. -/
  | searchBackend (query : Json) (limit : Nat)
  /-- A network request. -/
  | httpGet (uri : Text)
  /-- A read of a local file. -/
  | readFile (path : Text)

/-- The answers a question may get. -/
def Answer : Query → Type
  | .uuid4 => Uuid
  | .now => Instant
  | .dbNow => Instant
  | .loopTime => Instant
  | .perfCounter => ℚ
  | .sleep _ => Unit
  | .rowOrder count => Equiv.Perm (Fin count)
  | .provider .. => ProviderAnswer
  | .searchBackend .. => Except PyError (List Text)
  | .httpGet _ => Except Text HttpResponse
  | .readFile _ => Except PyError (Option Bytes)

/-- Log lines. -/
inductive Event where
  | stageStarted (runId : Uuid) (stage : Text)
  | stageCompleted (runId : Uuid) (stage : Text) (ok : Bool) (detail : Option Json)
  | runCompleted (runId : Uuid)
  | runPaused (runId : Uuid) (reason : Text)
  | runFailed (runId : Uuid) (error : Text)
  /-- The call `extractor.extract(passage, run_id)`.  The source writes no line here; the mark is
  for statements about which passages the extractor is called on. -/
  | extractorCalled (runId passageId : Uuid)

/-- The vocabulary of the programs of the service. -/
abbrev Vocabulary : Signature where
  State := World
  Query := Query
  Answer := Answer
  Event := Event
  Err := PyError
  Fault := Text
  ofFault message := ⟨.operationalError, message⟩

/-- A program of the service. -/
abbrev Action (α : Type) := Prog Vocabulary α

/-! ## Primitive actions -/

/-- Raise an exception. -/
def raiseError {α : Type} (kind : ErrorClass) (message : Text) : Action α :=
  .raise ⟨kind, message⟩

@[simp] theorem raiseError_bind {α β : Type} (kind : ErrorClass) (message : Text)
    (f : α → Action β) : (raiseError kind message >>= f) = raiseError kind message := rfl

/-- `uuid4()`. -/
def uuid4 : Action Uuid := Prog.query (S := Vocabulary) .uuid4

/-- `datetime.now(UTC)`. -/
def now : Action Instant := Prog.query (S := Vocabulary) .now

/-- The time stamp which the database gives to new rows. -/
def dbNow : Action Instant := Prog.query (S := Vocabulary) .dbNow

/-- `asyncio.get_event_loop().time()`. -/
def loopTime : Action Instant := Prog.query (S := Vocabulary) .loopTime

/-- `time.perf_counter()`. -/
def perfCounter : Action ℚ := Prog.query (S := Vocabulary) .perfCounter

/-- `await asyncio.sleep(seconds)`. -/
def sleep (seconds : ℚ) : Action Unit := Prog.query (S := Vocabulary) (.sleep seconds)

/-- Write a line to the log. -/
def emit (event : Event) : Action Unit := Prog.log (S := Vocabulary) event

/-- Change the memory of the process. -/
def modifyMemory (f : Memory → Memory) : Action Unit :=
  Prog.atomically (S := Vocabulary) fun (w : World) => ((), { w with memory := f w.memory })

/-- Read the memory of the process. -/
def readMemory {α : Type} (f : Memory → α) : Action α :=
  Prog.atomically (S := Vocabulary) fun (w : World) => (f w.memory, w)

/-- Read the tables in one SELECT. -/
def selectTables {α : Type} (f : Tables → α) : Action α :=
  Prog.select (S := Vocabulary) fun (w : World) => f w.tables

/-- The rows in a given order. -/
def arrange {ρ : Type} (rows : List ρ) (order : Equiv.Perm (Fin rows.length)) : List ρ :=
  List.ofFn fun i => rows.get (order i)

/-- Read rows in one SELECT without ORDER BY. -/
def selectRows {ρ : Type} (f : Tables → List ρ) : Action (List ρ) := do
  let rows ← selectTables f
  let order ← Prog.query (S := Vocabulary) (.rowOrder rows.length)
  pure (arrange rows order)

/-- Commit a session. -/
def commitWrites (writes : List Write) : Action Unit :=
  Prog.commit (S := Vocabulary) fun (w : World) =>
    match w.db.applyAll writes with
    | .ok db => .ok ((), { w with db })
    | .error error => .error error

/-- `await session.get(Run, run_id)`. -/
def getRun (runId : Uuid) : Action (Option Run) :=
  selectTables fun t => findRow Run.id runId t.runs

theorem mem_arrange {ρ : Type} {rows : List ρ} {order : Equiv.Perm (Fin rows.length)} {row : ρ} :
    row ∈ arrange rows order ↔ row ∈ rows := by
  simp only [arrange, List.mem_ofFn]
  constructor
  · rintro ⟨i, rfl⟩
    exact List.get_mem rows _
  · intro h
    obtain ⟨i, rfl⟩ := List.get_of_mem h
    exact ⟨order.symm i, by simp⟩

theorem perm_arrange {ρ : Type} {rows : List ρ} {order : Equiv.Perm (Fin rows.length)} :
    (arrange rows order).Perm rows := by
  have h := Equiv.Perm.ofFn_comp_perm order rows.get
  rwa [List.ofFn_get] at h

end Ecrke
