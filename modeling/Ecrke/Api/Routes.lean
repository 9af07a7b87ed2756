import Ecrke.Services.Normalizer
import Ecrke.World

/-!
# The report endpoint

The report of a run is served from an artifact, from a checkpoint, or from the rows of the run.

* `Routes.domain` -- `_domain`.
* `evidenceOf`, `conclusionFromRows` -- one conclusion of the report which is made from rows.
* `reportFromRows` -- `_report_from_rows`.
-/

namespace Ecrke

open Durable

/-- `_domain` -/
def Routes.domain (p : Platform) (uri : Text) : Except PyError Text :=
  match p.urlparse uri with
  | none => .error ⟨.valueError, "Invalid URL".toList⟩
  | some parsed => .ok (if parsed.netloc.isEmpty then uri.takeWhile (· != '/') else parsed.netloc)

/-- The source of a statement, among passages and sources. -/
def sourceOf (passages : List Passage) (sources : List Source) (statement : Statement) :
    Option Source :=
  (findRow Passage.id statement.passageId passages).bind fun passage =>
    findRow Source.id passage.sourceId sources

/-- `evidence_scores`: the score of a statement for its passage.  The dictionary holds what the last
link of the query has set, whatever its method. -/
def scoreOf (links : List EvidenceLink) (statement : Statement) : Option EvidenceScore :=
  (links.filter fun l =>
    l.statementId = statement.id && l.passageId = statement.passageId).getLast?.map
      EvidenceLink.score

/-- `source_domain` of a statement: empty where its source has not been found. -/
def Routes.domainFor (p : Platform) (passages : List Passage) (sources : List Source)
    (statement : Statement) : Except PyError Text :=
  match sourceOf passages sources statement with
  | some source => Routes.domain p source.uri
  | none => .ok []

/-- The entry of a statement in the support matrix. -/
def supportEntry (statement : Statement) (score : Option EvidenceScore) : ReportSupportEntry where
  statementId := statement.id.str
  passageId := statement.passageId.str
  supportScore := (score.getD .none).value

/-- The entries of one cited statement: nothing where the statement has not been found. -/
def evidenceOf (p : Platform) (statements : List Statement) (passages : List Passage)
    (sources : List Source) (scores : List EvidenceLink) (link : ConclusionEvidence) :
    Except PyError (Option (ReportSupportEntry × ReportEvidenceStatement)) :=
  match findRow Statement.id link.statementId statements with
  | none => .ok none
  | some statement => do
      let domain ← Routes.domainFor p passages sources statement
      .ok (some (supportEntry statement (scoreOf scores statement),
        { id := statement.id.str, text := redactSecrets p.unicode statement.text
          sourceDomain := domain }))

/-- One conclusion.  The flags of the report which no row holds keep their defaults. -/
def conclusionFromRows (p : Platform) (links : List ConclusionEvidence)
    (statements : List Statement) (passages : List Passage) (sources : List Source)
    (scores : List EvidenceLink) (conclusion : Conclusion) : Except PyError ReportConclusion := do
  let entries ← (links.filter fun link => link.conclusionId = conclusion.id).mapM
    (evidenceOf p statements passages sources scores)
  let entries := entries.filterMap id
  .ok
    { id := conclusion.id.str, text := redactSecrets p.unicode conclusion.text
      confidence := conclusion.confidence, humanReviewRequired := conclusion.humanReviewRequired
      oneSided := false, contradictionWarnings := []
      supportMatrix := entries.map Prod.fst, evidenceStatements := entries.map Prod.snd }

/-- Rows by the keys of others: no query where there are none. -/
def selectBy {κ ρ : Type} (keys : List κ) (f : Tables → List ρ) : Action (List ρ) :=
  if keys.isEmpty then pure [] else selectRows f

/-- `_report_from_rows` -/
def reportFromRows (p : Platform) (run : Run) : Action Report := do
  let topic := redactSecrets p.unicode run.question
  let conclusions ← selectRows fun t => t.conclusions.filter fun c => c.runId = run.id
  if conclusions.isEmpty then
    let generatedAt ← now
    return { runId := run.id.str, topic, generatedAt, conclusions := [] }
  let links ← selectRows fun t => t.conclusionEvidence.filter fun link =>
    conclusions.any fun c => c.id = link.conclusionId
  let statements ← selectBy links fun t => t.statements.filter fun row =>
    links.any fun link => link.statementId = row.id
  let passages ← selectBy statements fun t => t.passages.filter fun row =>
    statements.any fun s => s.passageId = row.id
  let sources ← selectBy passages fun t => t.sources.filter fun row =>
    passages.any fun passage => passage.sourceId = row.id
  let scores ← selectRows fun t => t.evidenceLinks.filter fun l => l.runId = run.id
  let entries ← Prog.ofExcept
    (conclusions.mapM (conclusionFromRows p links statements passages sources scores))
  let generatedAt ← now
  pure { runId := run.id.str, topic, generatedAt, conclusions := entries }

end Ecrke
