import Ecrke.Schema

/-!
# The relational provenance core: rows

The tables of the schema, one structure a row.  The values which a check constraint restricts to an
enumeration are enumerations here, and a confidence carries its bounds.  Columns which no modelled
function reads are left out.

* `RunStatus`, `SourceType`, `SourceStatus`, `StatementStatus`, `EvidenceScore`,
  `ContradictionStatus`, `EvidenceTier` -- the enumerations, each with the text it is stored as.
* `Run` ... `KVEntry` -- the rows.
-/

namespace Ecrke

/-- The lifecycle of a run. -/
inductive RunStatus where
  | submitted
  | planning
  | searching
  | collecting
  | storing
  | extracting
  | comparing
  | verifying
  | detecting
  | concluding
  | tracing
  | completed
  | failed
  | paused
  | cancelled
  deriving DecidableEq

/-- The stored text of a run status. -/
def RunStatus.value : RunStatus → Text
  | .submitted => "submitted".toList
  | .planning => "planning".toList
  | .searching => "searching".toList
  | .collecting => "collecting".toList
  | .storing => "storing".toList
  | .extracting => "extracting".toList
  | .comparing => "comparing".toList
  | .verifying => "verifying".toList
  | .detecting => "detecting".toList
  | .concluding => "concluding".toList
  | .tracing => "tracing".toList
  | .completed => "completed".toList
  | .failed => "failed".toList
  | .paused => "paused".toList
  | .cancelled => "cancelled".toList

/-- The kinds of sources. -/
inductive SourceType where
  | web
  | pdf
  | rss
  | docx
  | rtf
  | upload
  | other
  deriving DecidableEq

/-- The stored text of a source type. -/
def SourceType.value : SourceType → Text
  | .web => "web".toList
  | .pdf => "pdf".toList
  | .rss => "rss".toList
  | .docx => "docx".toList
  | .rtf => "rtf".toList
  | .upload => "upload".toList
  | .other => "other".toList

/-- The lifecycle of a source. -/
inductive SourceStatus where
  | pending
  | fetched
  | failed
  | normalized
  | quarantined
  deriving DecidableEq

/-- The lifecycle of a statement. -/
inductive StatementStatus where
  | draft
  | verified
  | quarantined
  deriving DecidableEq

/-- The stored text of a statement status. -/
def StatementStatus.value : StatementStatus → Text
  | .draft => "draft".toList
  | .verified => "verified".toList
  | .quarantined => "quarantined".toList

/-- How much of a statement a passage covers. -/
inductive EvidenceScore where
  | full
  | partial_
  | none
  deriving DecidableEq

/-- The stored text of an evidence score. -/
def EvidenceScore.value : EvidenceScore → Text
  | .full => "full".toList
  | .partial_ => "partial".toList
  | .none => "none".toList

/-- The lifecycle of a contradiction. -/
inductive ContradictionStatus where
  | flagged
  | confirmed
  | rejected
  deriving DecidableEq

/-- The stored text of a contradiction status. -/
def ContradictionStatus.value : ContradictionStatus → Text
  | .flagged => "flagged".toList
  | .confirmed => "confirmed".toList
  | .rejected => "rejected".toList

/-- The tier of a finding. -/
inductive EvidenceTier where
  | t1
  | t2
  | t3
  | t4
  deriving DecidableEq

/-! ## Rows -/

/-- One research run. -/
structure Run where
  id : Uuid
  tenantId : Uuid
  question : Text
  status : RunStatus
  stage : Option Text
  progress : ℚ
  costBudgetUsd : Usd
  costSpentUsd : Usd
  checkpoint : Option Json
  createdAt : Instant
  completedAt : Option Instant

/-- Anything fetched for a run. -/
structure Source where
  id : Uuid
  runId : Uuid
  uri : Text
  title : Option Text
  sourceType : SourceType
  contentHash : Text
  rawRef : Option Text
  allowlistedUri : Bool
  status : SourceStatus

/-- A retrievable unit of a source. -/
structure Passage where
  id : Uuid
  sourceId : Uuid
  seq : Nat
  text : Text
  startChar : Option Nat
  endChar : Option Nat
  hash : Text

/-- A claim extracted from a passage. -/
structure Statement where
  id : Uuid
  passageId : Uuid
  runId : Uuid
  text : Text
  status : StatementStatus
  confidence : Option Confidence

/-- The resolution of a statement to a passage. -/
structure EvidenceLink where
  id : Uuid
  statementId : Uuid
  passageId : Uuid
  runId : Uuid
  score : EvidenceScore
  method : Option Text
  createdAt : Instant

/-- A group of statements. -/
structure Finding where
  id : Uuid
  runId : Uuid
  title : Text
  evidenceTier : EvidenceTier
  domainTags : List Text
  summary : Text

/-- A statement of a finding. -/
structure FindingStatement where
  findingId : Uuid
  statementId : Uuid
  deriving DecidableEq

/-- A conflict between two statements. -/
structure Contradiction where
  id : Uuid
  runId : Uuid
  statementAId : Uuid
  statementBId : Uuid
  status : ContradictionStatus
  evidence : Option Json
  createdAt : Instant
  confirmedAt : Option Instant

/-- A final conclusion. -/
structure Conclusion where
  id : Uuid
  runId : Uuid
  text : Text
  confidence : Option Confidence
  humanReviewRequired : Bool
  createdAt : Instant

/-- A statement which a conclusion cites. -/
structure ConclusionEvidence where
  conclusionId : Uuid
  statementId : Uuid
  deriving DecidableEq

/-- One verdict of the audit trail. -/
structure AuditTrace where
  id : Uuid
  runId : Uuid
  entityType : Text
  entityId : Option Text
  action : Text
  actor : Option Text
  decision : Option Text
  reason : Option Text
  evidence : Option Json
  ts : Instant

/-- A completed stage of a run. -/
structure Checkpoint where
  id : Uuid
  runId : Uuid
  stage : Text
  state : Option Json

/-- An entry of the cache. -/
structure KVEntry where
  key : Text
  model : Text
  promptHash : Text
  payload : Json
  expiresAt : Option Instant

end Ecrke
