import Ecrke.Api.Routes
import Ecrke.Api.Schemas
import Ecrke.Pipeline.Checkpoint
import Ecrke.Services.KVCache
import Ecrke.Services.ReportRenderer

/-!
# The endpoints which read

The GET endpoints of the API for a tenant: those of a run, the trace of a statement, and the search
in the knowledge base.  Requests which the framework rejects before it calls an endpoint, and the
namespace of the tenant, which is resolved before that, are left out.

* `ApiPlatform`, `Columns` -- what the API uses beside the platform, and the columns which no stage
  reads or writes.
* `Routes.loadRun` -- `_load_run`, which isolates the tenants.
* `Routes.getRun` ... `Routes.kbSearch` -- the endpoints, under their names.
* `ApiRequest.respond` -- the response to a request, errors included.
-/

namespace Ecrke

open Durable

/-- What the API uses beside the platform. -/
structure ApiPlatform extends Platform where
  /-- `Report.model_validate`, nothing where it raises `ValidationError`. -/
  validateReport : Json → Option Report
  /-- The float next to a decimal. -/
  floatOf : Usd → ℚ

/-- The columns which no stage reads or writes. -/
structure Columns where
  /-- `checkpoints.ts`, by the id of the row. -/
  checkpointTs : Uuid → Instant
  /-- `conclusion_evidence.finding_id`, by the key of the row. -/
  findingId : ConclusionEvidence → Option Uuid

/-- `HTTPException` -/
structure HttpException where
  statusCode : Nat
  detail : Text

/-! ## Response models from rows -/

/-- `_run_to_read` -/
def runToRead (api : ApiPlatform) (run : Run) : RunRead where
  runId := run.id
  tenantId := run.tenantId
  question := redactSecrets api.unicode run.question
  status := run.status.value
  stage := run.stage
  progress := run.progress
  costBudgetUsd := some (api.floatOf run.costBudgetUsd)
  costSpentUsd := api.floatOf run.costSpentUsd
  createdAt := some run.createdAt
  completedAt := run.completedAt

/-- A field of the type `dict[str, Any] | None`. -/
def optionalDict : Option Json → Except PyError (Option JsonFields)
  | none => .ok none
  | some .null => .ok none
  | some (.obj fields) => .ok (some fields)
  | some _ => .error ⟨.valueError, "ValidationError".toList⟩

/-- A checkpoint as a stage. -/
def stageInfo (api : ApiPlatform) (columns : Columns) (row : Checkpoint) :
    Except PyError StageInfo := do
  let summary ← optionalDict (row.state.map (redactJson api.unicode))
  .ok { stage := row.stage, ts := columns.checkpointTs row.id, summary }

/-- A conclusion with its links. -/
def conclusionRead (api : ApiPlatform) (columns : Columns) (conclusion : Conclusion)
    (links : List ConclusionEvidence) : ConclusionRead where
  id := conclusion.id
  text := redactSecrets api.unicode conclusion.text
  confidence := conclusion.confidence
  humanReviewRequired := conclusion.humanReviewRequired
  evidence := links.map fun link =>
    { statementId := link.statementId, findingId := columns.findingId link }

/-- A contradiction with its evidence. -/
def contradictionRead (api : ApiPlatform) (row : Contradiction) :
    Except PyError ContradictionRead := do
  let evidence ← optionalDict (row.evidence.map (redactJson api.unicode))
  .ok
    { id := row.id, statementAId := row.statementAId, statementBId := row.statementBId
      status := row.status.value, evidence, createdAt := some row.createdAt }

/-- A row of the audit trail, its texts redacted. -/
def auditRow (api : ApiPlatform) (row : AuditTrace) : Except PyError AuditRow := do
  let redact := redactSecrets api.unicode
  let evidence ← optionalDict (row.evidence.map (redactJson api.unicode))
  .ok
    { id := row.id, ts := some row.ts, entityType := redact row.entityType
      entityId := row.entityId.map redact, action := redact row.action
      actor := row.actor.map redact, decision := row.decision.map redact
      reason := row.reason.map redact, evidence }

/-- `Report.model_validate` -/
def ApiPlatform.expectReport (api : ApiPlatform) (value : Json) : Except PyError Report :=
  match api.validateReport value with
  | some report => .ok report
  | none => .error ⟨.valueError, "ValidationError".toList⟩

/-- The value of a field, if it is an object. -/
def dictField? (key : Text) (value : Json) : Option Json :=
  match value.get? key with
  | some (.obj fields) => some (.obj fields)
  | _ => none

/-- `_report_from_trace_payload`: the report in the artifact, or the artifact as a report. -/
def reportFromTracePayload (api : ApiPlatform) : Option Json → Except PyError (Option Report)
  | none => .ok none
  | some payload =>
      match dictField? "report".toList payload with
      | some candidate => (api.expectReport candidate).map some
      | none => .ok (api.validateReport payload)

/-- The report in the checkpoint of `conclude`. -/
def reportFromCheckpoint (api : ApiPlatform) (state : Option Json) :
    Except PyError (Option Report) :=
  match state.bind (dictField? "report".toList) with
  | some candidate => (api.expectReport candidate).map some
  | none => .ok none

/-- The markdown of a report, redacted. -/
def reportRead (api : ApiPlatform) (run : Run) (report : Report) : ReportRead where
  runId := run.id
  markdown := redactSecrets api.unicode (renderMarkdown api.isoformat report)

/-- The place of a stage in the pipeline, behind all stages where it is none of them. -/
def stagePlace (stage : Text) : Nat := (stages.map Stage.name).idxOf stage

/-- `rows.sort(key=...)` by the text of a time stamp. -/
def sortByTime {ρ : Type} (api : ApiPlatform) (time : ρ → Instant) (rows : List ρ) : List ρ :=
  rows.mergeSort fun a b => Text.le (api.isoformat (time a)) (api.isoformat (time b))

/-! ## Endpoints of a run -/

/-- `_load_run`: 404 when missing, 403 when not ours. -/
def Routes.loadRun (runId tenantId : Uuid) : Action (Except HttpException Run) := do
  match ← selectTables fun t => findRow Run.id runId t.runs with
  | none => pure (.error ⟨404, "run not found".toList⟩)
  | some run =>
      if run.tenantId ≠ tenantId then
        pure (.error ⟨403, "cross-tenant access denied".toList⟩)
      else pure (.ok run)

/-- An endpoint which starts with `_load_run`. -/
def Routes.withRun (runId tenantId : Uuid) (rest : Run → Action Body) :
    Action (Except HttpException Body) := do
  match ← Routes.loadRun runId tenantId with
  | .error error => pure (.error error)
  | .ok run => .ok <$> rest run

/-- `get_run` -/
def Routes.getRun (api : ApiPlatform) (run : Run) : Action Body :=
  pure (.run (runToRead api run))

/-- `get_stages` -/
def Routes.getStages (api : ApiPlatform) (columns : Columns) (runId : Uuid) : Action Body := do
  let rows ← selectRows fun t => t.checkpoints.filter fun c => c.runId = runId
  let sorted := rows.mergeSort fun a b => stagePlace a.stage ≤ stagePlace b.stage
  .stages <$> Prog.ofExcept (sorted.mapM (stageInfo api columns))

/-- `get_conclusions` -/
def Routes.getConclusions (api : ApiPlatform) (columns : Columns) (runId : Uuid) :
    Action Body := do
  let rows ← selectRows fun t => t.conclusions.filter fun c => c.runId = runId
  let values ← (sortByTime api Conclusion.createdAt rows).mapM fun conclusion => do
    let links ← selectRows fun t =>
      t.conclusionEvidence.filter fun link => link.conclusionId = conclusion.id
    pure (conclusionRead api columns conclusion links)
  pure (.conclusions values)

/-- `get_contradictions` -/
def Routes.getContradictions (api : ApiPlatform) (runId : Uuid) : Action Body := do
  let rows ← selectRows fun t => t.contradictions.filter fun c => c.runId = runId
  .contradictions <$> Prog.ofExcept
    ((sortByTime api Contradiction.createdAt rows).mapM (contradictionRead api))

/-- `get_report`: the artifact, then the checkpoint, then the rows. -/
def Routes.getReport (api : ApiPlatform) (run : Run) : Action Body := do
  let payload ← KVCache.get ("trace:".toList ++ run.id.str)
  match ← Prog.ofExcept (reportFromTracePayload api payload) with
  | some report => pure (.report (reportRead api run report))
  | none =>
      let state ← CheckpointStore.load run.id Stage.conclude.name
      match ← Prog.ofExcept (reportFromCheckpoint api state) with
      | some report => pure (.report (reportRead api run report))
      | none =>
          let report ← reportFromRows api.toPlatform run
          pure (.report (reportRead api run report))

/-- `get_audit` -/
def Routes.getAudit (api : ApiPlatform) (runId : Uuid) : Action Body := do
  let rows ← selectRows fun t => t.auditTrace.filter fun a => a.runId = runId
  let rows ← Prog.ofExcept ((sortByTime api AuditTrace.ts rows).mapM (auditRow api))
  pure (.audit { runId, count := rows.length, rows })

/-! ## Statements -/

/-- The chain from a statement to its source. -/
def traceChain (api : ApiPlatform) (statement : Statement) (passage : Passage) (source : Source) :
    TraceChain where
  statement := { id := statement.id, kind := "statement".toList
                 text := some (redactSecrets api.unicode statement.text) }
  passage := { id := passage.id, kind := "passage".toList
               text := some (redactSecrets api.unicode passage.text) }
  source := { id := source.id, kind := "source".toList
              uri := some (redactSecrets api.unicode source.uri)
              title := source.title.map (redactSecrets api.unicode) }

/-- The part of `get_statement_trace` behind the check of the tenant. -/
def Routes.traceOf (api : ApiPlatform) (statement : Statement) :
    Action (Except HttpException Body) := do
  match ← selectTables fun t => findRow Passage.id statement.passageId t.passages with
  | none => pure (.error ⟨404, "passage not found".toList⟩)
  | some passage =>
      match ← selectTables fun t => findRow Source.id passage.sourceId t.sources with
      | none => pure (.error ⟨404, "source not found".toList⟩)
      | some source => pure (.ok (.trace (traceChain api statement passage source)))

/-- `get_statement_trace` -/
def Routes.getStatementTrace (api : ApiPlatform) (statementId tenantId : Uuid) :
    Action (Except HttpException Body) := do
  match ← selectTables fun t => findRow Statement.id statementId t.statements with
  | none => pure (.error ⟨404, "statement not found".toList⟩)
  | some statement =>
      match ← selectTables fun t => findRow Run.id statement.runId t.runs with
      | none => pure (.error ⟨404, "statement not found".toList⟩)
      | some run =>
          if run.tenantId ≠ tenantId then
            pure (.error ⟨403, "cross-tenant access denied".toList⟩)
          else Routes.traceOf api statement

/-- A statement matches a query: an empty query matches all. -/
def matchesQuery (api : ApiPlatform) (q : Option Text) (statement : Statement) : Bool :=
  let query := Text.lower api.unicode (Text.strip (q.getD []))
  query.isEmpty || Text.occursIn query (Text.lower api.unicode statement.text)

/-- One result of the search. -/
def searchResult (api : ApiPlatform) (passages : List Passage) (sources : List Source)
    (statement : Statement) : KBSearchResult where
  statementId := statement.id
  runId := statement.runId
  text := redactSecrets api.unicode statement.text
  confidence := statement.confidence
  passageText := (findRow Passage.id statement.passageId passages).map fun passage =>
    redactSecrets api.unicode passage.text
  sourceUri := (sourceOf passages sources statement).map fun source =>
    redactSecrets api.unicode source.uri

/-- `kb_search` -/
def Routes.kbSearch (api : ApiPlatform) (tenantId : Uuid) (q : Option Text) : Action Body := do
  let runs ← selectRows fun t => t.runs.filter fun run => run.tenantId = tenantId
  if runs.isEmpty then return .kbSearch []
  let statements ← selectRows fun t => t.statements.filter fun s =>
    runs.any fun run => run.id = s.runId
  let verified := statements.filter fun s => s.status = .verified && matchesQuery api q s
  if verified.isEmpty then return .kbSearch []
  let passages ← selectRows fun t => t.passages.filter fun row =>
    verified.any fun s => s.passageId = row.id
  let sources ← selectRows fun t => t.sources.filter fun row =>
    passages.any fun passage => passage.sourceId = row.id
  pure (.kbSearch (verified.map (searchResult api passages sources)))

/-! ## Requests -/

/-- What a request asks for.  A query has at most 500 characters. -/
inductive Target where
  | run (runId : Uuid)
  | stages (runId : Uuid)
  | conclusions (runId : Uuid)
  | contradictions (runId : Uuid)
  | report (runId : Uuid)
  | audit (runId : Uuid)
  | statementTrace (statementId : Uuid)
  | kbSearch (q : Option {q : Text // q.length ≤ 500})

/-- A request of a tenant. -/
structure ApiRequest where
  url : Text
  tenantId : Uuid
  target : Target

/-- The endpoint which a request is for. -/
def ApiRequest.handle (api : ApiPlatform) (columns : Columns) (request : ApiRequest) :
    Action (Except HttpException Body) :=
  match request.target with
  | .run runId => Routes.withRun runId request.tenantId (Routes.getRun api)
  | .stages runId =>
      Routes.withRun runId request.tenantId fun _ => Routes.getStages api columns runId
  | .conclusions runId =>
      Routes.withRun runId request.tenantId fun _ => Routes.getConclusions api columns runId
  | .contradictions runId =>
      Routes.withRun runId request.tenantId fun _ => Routes.getContradictions api runId
  | .report runId => Routes.withRun runId request.tenantId (Routes.getReport api)
  | .audit runId => Routes.withRun runId request.tenantId fun _ => Routes.getAudit api runId
  | .statementTrace statementId => Routes.getStatementTrace api statementId request.tenantId
  | .kbSearch q => .ok <$> Routes.kbSearch api request.tenantId (q.map Subtype.val)

/-- `_status_title`, for the codes which the endpoints raise. -/
def statusTitle (statusCode : Nat) : Text :=
  match statusCode with
  | 403 => "Forbidden".toList
  | 404 => "Not Found".toList
  | _ => "Error".toList

/-- `_problem_response` -/
def problemResponse (api : ApiPlatform) (request : ApiRequest) (error : HttpException) :
    Response where
  status := error.statusCode
  body := .problem
    { title := statusTitle error.statusCode, status := error.statusCode
      detail := redactSecrets api.unicode error.detail, instanceUrl := request.url }

/-- The response to what an endpoint returns or raises. -/
def ApiRequest.responseOf (api : ApiPlatform) (request : ApiRequest) :
    Except HttpException Body → Response
  | .ok body => ⟨200, body⟩
  | .error error => problemResponse api request error

/-- The response to a request.  An exception which no handler takes is a 500. -/
def ApiRequest.respond (api : ApiPlatform) (columns : Columns) (request : ApiRequest) :
    Action Response :=
  ((request.handle api columns).bind fun result => .done (request.responseOf api result)).tryCatch
    fun _ => .done ⟨500, .internalServerError⟩

end Ecrke
