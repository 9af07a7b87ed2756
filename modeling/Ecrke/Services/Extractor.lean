import Ecrke.Services.LLMGateway
import Ecrke.Services.Normalizer

/-!
# Statement extraction

The claims of a passage are persisted as draft statements, each with a link to the passage.

* `buildDataBlock` -- the passage as the user message.
* `draftStatements`, `extractLinks` -- the rows of an extraction.
* `extract` -- `Extractor.extract`.
-/

namespace Ecrke

open Durable

/-- `_SYSTEM_INSTRUCTIONS` -/
def extractSystemInstructions : Text :=
  ("You extract atomic factual statements from a research passage. Follow these " ++
    "rules exactly: 1) each statement is one atomic claim directly supported by the " ++
    "passage; 2) preserve the claim's meaning, names, and figures faithfully; 3) add " ++
    "no outside knowledge, interpretation, or speculation; 4) if the passage " ++
    "contains no extractable claims, return an empty statements list; 5) confidence " ++
    "(0.0-1.0) rates how directly the passage supports the statement, or null when " ++
    "you cannot judge it. Extract only from the passage_data block.").toList

/-- The delimited passage block of the user message. -/
def buildDataBlock (passageId : Uuid) (text : Text) : Text :=
  "<passage_data passage_id=\"".toList ++ passageId.str ++ "\">\n".toList ++ text ++
    "\n</passage_data>".toList

/-- One draft statement for each extracted claim. -/
def draftStatements (u : Unicode) (passage : Passage) (runId : Uuid)
    (items : List ExtractedStatement) : Action (List Statement) :=
  items.mapM fun item => do
    let id ← uuid4
    pure
      { id, passageId := passage.id, runId, text := redactSecrets u item.text.val,
        status := .draft, confidence := item.confidence }

/-- One link for each statement. -/
def extractLinks (passage : Passage) (runId : Uuid) (statements : List Statement) :
    Action (List EvidenceLink) :=
  statements.mapM fun statement => do
    let id ← uuid4
    let createdAt ← dbNow
    pure
      { id, statementId := statement.id, passageId := passage.id, runId, score := .none,
        method := some "extract".toList, createdAt }

/-- Extract and persist the draft statements of a passage. -/
def extract (gateway : LLMGateway) (passage : Passage) (runId : Uuid) :
    Action (List Statement) := do
  let u := gateway.platform.unicode
  emit (.extractorCalled runId passage.id)
  let text := redactSecrets u passage.text
  if (Text.strip text).isEmpty then
    raiseError .valueError "cannot extract statements from an empty passage".toList
  let (_, extraction) ← completeModel gateway .statementExtraction
    { tier := .cheap, system := some extractSystemInstructions,
      prompt := some (buildDataBlock passage.id text), runId := some runId, useCache := false }
  let items := (show StatementExtraction from extraction).statements.val
  if items.isEmpty then pure []
  else
    let statements ← draftStatements u passage runId items
    let links ← extractLinks passage runId statements
    -- The flush before the links are added puts the statements first.
    commitWrites (statements.map .insertStatement ++ links.map .insertEvidenceLink)
    pure statements

end Ecrke
