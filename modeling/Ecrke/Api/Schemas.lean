import Ecrke.Db.Models
import Ecrke.Text.Json

/-!
# Contract models of the API

* `RunRead` ... `AuditExport` -- the response models of the endpoints which read.
* `ErrorDetail` -- the problem details of an error response.
* `Body`, `Response` -- what is sent back.
-/

namespace Ecrke

/-- The fields of a JSON object. -/
abbrev JsonFields := List (Text × Json)

/-- Observable lifecycle of one run. -/
structure RunRead where
  runId : Uuid
  tenantId : Uuid
  question : Text
  status : Text
  stage : Option Text
  progress : ℚ
  costBudgetUsd : Option ℚ
  costSpentUsd : ℚ
  createdAt : Option Instant
  completedAt : Option Instant

/-- One checkpoint as an observable stage. -/
structure StageInfo where
  stage : Text
  ts : Instant
  summary : Option JsonFields

/-- One evidence link of a conclusion. -/
structure EvidenceRef where
  statementId : Uuid
  findingId : Option Uuid

/-- One conclusion with its evidence links. -/
structure ConclusionRead where
  id : Uuid
  text : Text
  confidence : Option Confidence
  humanReviewRequired : Bool
  evidence : List EvidenceRef

/-- One node of the provenance chain. -/
structure TraceNode where
  id : Uuid
  kind : Text
  text : Option Text := none
  uri : Option Text := none
  title : Option Text := none

/-- The provenance chain of a statement. -/
structure TraceChain where
  statement : TraceNode
  passage : TraceNode
  source : TraceNode

/-- One contradiction between two statements. -/
structure ContradictionRead where
  id : Uuid
  statementAId : Uuid
  statementBId : Uuid
  status : Text
  evidence : Option JsonFields
  createdAt : Option Instant

/-- A rendered report. -/
structure ReportRead where
  runId : Uuid
  markdown : Text

/-- One verified statement of the knowledge base of a tenant. -/
structure KBSearchResult where
  statementId : Uuid
  runId : Uuid
  text : Text
  confidence : Option Confidence
  passageText : Option Text
  sourceUri : Option Text

/-- One row of the audit trail. -/
structure AuditRow where
  id : Uuid
  ts : Option Instant
  entityType : Text
  entityId : Option Text
  action : Text
  actor : Option Text
  decision : Option Text
  reason : Option Text
  evidence : Option JsonFields

/-- The audit trail of a run. -/
structure AuditExport where
  runId : Uuid
  count : Nat
  rows : List AuditRow

/-- Problem details of an error response. -/
structure ErrorDetail where
  type : Text := "about:blank".toList
  title : Text
  status : Nat
  detail : Text
  instanceUrl : Text

/-- The body of a response. -/
inductive Body where
  | run (value : RunRead)
  | stages (values : List StageInfo)
  | conclusions (values : List ConclusionRead)
  | trace (value : TraceChain)
  | contradictions (values : List ContradictionRead)
  | report (value : ReportRead)
  | kbSearch (values : List KBSearchResult)
  | audit (value : AuditExport)
  | problem (value : ErrorDetail)
  /-- The fixed text of the server for an exception which no handler takes. -/
  | internalServerError

/-- A response. -/
structure Response where
  status : Nat
  body : Body

end Ecrke
