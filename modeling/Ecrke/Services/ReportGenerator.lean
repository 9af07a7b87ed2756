import Ecrke.Services.AuditWriter
import Ecrke.Services.ContradictionDetector
import Ecrke.Services.LLMGateway

/-!
# Report generation

The model proposes conclusions over the verified statements; each proposal which cites at least one
of them becomes a conclusion with its evidence rows and an audit row, all in one transaction.

* `isHighStakes`, `oneSidednessCheck` -- the deterministic checks.
* `buildSynthesisPrompt` -- the system and the user message.
* `latestVerifyScores`, `sourceDomains` -- the lookups of the support matrix.
* `Synthesis`, `Cited`, `conclude` -- one conclusion and its rows.
* `generate` -- `ReportGenerator.generate`.
-/

namespace Ecrke

open Durable

/-- `HIGH_STAKES_KEYWORDS` -/
def highStakesKeywords : List Text :=
  ["clinical trial".toList, "dosage".toList, "patient safety".toList, "fda".toList,
    "diagnosis".toList, "prescription".toList, "drug interaction".toList, "lawsuit".toList,
    "litigation".toList, "regulatory".toList, "compliance".toList, "sanction".toList,
    "liability".toList, "consent order".toList, "securities".toList, "insider trading".toList,
    "merger".toList, "bankruptcy".toList, "fraud".toList, "audit".toList,
    "money laundering".toList, "recall".toList, "workplace safety".toList, "food safety".toList,
    "aviation safety".toList, "nuclear".toList, "explosive".toList, "privacy".toList,
    "data breach".toList, "hipaa".toList, "gdpr".toList,
    "personally identifiable information".toList, "military".toList, "weapon".toList,
    "defense contract".toList]

/-- `_SYNTHESIS_SYSTEM_INSTRUCTIONS` -/
def synthesisSystemInstructions : Text :=
  ("You are a rigorous research synthesizer for an evidence-centric knowledge " ++
    "engine. Synthesize conclusions from the verified statements and confirmed " ++
    "contradictions provided in the user message ONLY. Follow these rules exactly: " ++
    "1) text is a concise, factual prose conclusion (1-2000 characters) supported by " ++
    "the cited statements; 2) statement_ids must be non-empty (1-20 ids), and every " ++
    "id MUST reference a verified statement provided in the user message — never " ++
    "cite a statement that is not provided; 3) never invent facts, numbers, sources, " ++
    "or citations not present in the provided data; 4) confidence in [0.0, 1.0] " ++
    "rates how well the cited statements support the conclusion, or null when it " ++
    "cannot be judged; 5) one_sided=true when the conclusion rests on a single " ++
    "source domain or a single stance, false when it draws on multiple independent " ++
    "sources; 6) high_stakes=true when the conclusion touches medical, legal, " ++
    "regulatory, financial, safety, privacy, or defense matters that warrant human " ++
    "review; 7) output at most 50 conclusions; 8) mention confirmed contradictions " ++
    "in the conclusion text when they are material to the claim. Synthesize ONLY " ++
    "from the provided data.").toList

/-- A text contains a high-stakes keyword. -/
def isHighStakes (u : Unicode) (text : Text) : Bool :=
  highStakesKeywords.any fun keyword => Text.occursIn keyword (Text.casefold u text)

/-- Fewer than two source domains back a conclusion, or the model says so. -/
def oneSidednessCheck (domains : List Text) (llmOneSided : Bool) : Bool :=
  llmOneSided ||
    decide (((domains.filter fun d => !(Text.strip d).isEmpty).dedup).length < 2)

/-- The system instructions and the data block of the synthesis call. -/
def buildSynthesisPrompt (verified : List (Text × Text))
    (contradictions : List (Text × Text × Text)) : Text × Text :=
  let statements := verified.flatMap fun (id, text) =>
    ["<statement id=\"".toList ++ id ++ "\">".toList, text, "</statement>".toList]
  let conflicts := contradictions.flatMap fun (a, b, summary) =>
    ["<contradiction statement_a=\"".toList ++ a ++ "\" statement_b=\"".toList ++ b ++
      "\">".toList, summary, "</contradiction>".toList]
  (synthesisSystemInstructions, Text.join "\n".toList
    (["<verified_statements>".toList] ++ statements ++
      ["</verified_statements>".toList, [], "<confirmed_contradictions>".toList] ++ conflicts ++
      ["</confirmed_contradictions>".toList]))

/-- `_source_domain` -/
def sourceDomain (p : Platform) (uri : Text) : Except PyError Text :=
  match p.urlparse uri with
  | none => .error ⟨.valueError, "Invalid URL".toList⟩
  | some parsed =>
      let host := match parsed.hostname with
        | some hostname => if hostname.isEmpty then parsed.netloc else hostname
        | none => parsed.netloc
      .ok (if host.isEmpty then uri else host)

/-- `_contradiction_summary` -/
def contradictionSummary (p : Platform) (row : Contradiction) : Text :=
  let evidence := row.evidence.getD (.obj [])
  let reason := (evidence.get? "confirm_reason".toList).getD .null
  let summary := if reason.truthy then reason
    else (evidence.get? "flag_reason".toList).getD .null
  if summary.truthy then redactSecrets p.unicode (summary.toText p.unicode p.floatRepr)
  else "confirmed contradiction".toList

/-! ## Lookups -/

/-- The later of two links, the second one when their time stamps agree. -/
def laterLink (current : Option EvidenceLink) (link : EvidenceLink) : Option EvidenceLink :=
  match current with
  | none => some link
  | some current => if current.createdAt ≤ link.createdAt then some link else some current

/-- The score of the latest verify link of a statement among links in the order of the query. -/
def latestVerifyScore (links : List EvidenceLink) (statementId : Uuid) : Option EvidenceScore :=
  ((links.filter fun l => l.statementId = statementId && l.method = some "verify".toList).foldl
    laterLink none).map EvidenceLink.score

/-- `_latest_verify_scores`: the links of the statements. -/
def latestVerifyScores (statements : List Statement) : Action (List EvidenceLink) :=
  selectRows fun t => t.evidenceLinks.filter fun l => statements.any fun s => s.id = l.statementId

/-- The domain of the source of each statement. -/
def domainsOf (p : Platform) (statements : List Statement) (passages : List Passage)
    (sources : List Source) : Except PyError (List (Uuid × Text)) :=
  statements.mapM fun statement => do
    let source := (findRow Passage.id statement.passageId passages).bind fun passage =>
      findRow Source.id passage.sourceId sources
    let domain ← match source with
      | some source => sourceDomain p source.uri
      | none => .ok []
    pure (statement.id, domain)

/-- `_source_domains` -/
def sourceDomains (p : Platform) (statements : List Statement) :
    Action (List (Uuid × Text)) := do
  let passages ← selectRows fun t =>
    t.passages.filter fun row => statements.any fun s => s.passageId = row.id
  let sources ← if passages.isEmpty then pure []
    else selectRows fun t =>
      t.sources.filter fun row => passages.any fun passage => passage.sourceId = row.id
  Prog.ofExcept (domainsOf p statements passages sources)

/-! ## Conclusions -/

/-- What the conclusions of one call are made from. -/
structure Synthesis where
  runId : Uuid
  /-- The verified statements, sorted by identifier. -/
  verified : List Statement
  /-- The confirmed contradictions: both statements and the summary. -/
  contradictions : List (Text × Text × Text)
  links : List EvidenceLink
  domains : List (Uuid × Text)

/-- The verified statement with a given text identifier. -/
def Synthesis.byId (synthesis : Synthesis) (id : Text) : Option Statement :=
  synthesis.verified.find? fun s => s.id.str = id

/-- The domain of a statement. -/
def Synthesis.domain (synthesis : Synthesis) (statement : Statement) : Text :=
  ((synthesis.domains.find? fun entry => entry.1 = statement.id).map Prod.snd).getD []

/-- The verified statements which a draft cites, in its order and with its repetitions. -/
def Synthesis.cited (synthesis : Synthesis) (draft : ConclusionDraft) : List Statement :=
  draft.statementIds.val.filterMap synthesis.byId

/-- The rows of one conclusion and its entry in the report. -/
structure Cited where
  conclusion : Conclusion
  evidence : List ConclusionEvidence
  audit : AuditTrace
  report : ReportConclusion

/-- The audit entry of a conclusion. -/
def conclusionEntry (runId conclusionId : Uuid) (text : Text) (cited : List Statement)
    (oneSided highStakes : Bool) : AuditEntry where
  runId
  entityType := "conclusion".toList
  entityId := some conclusionId.str
  action := "conclude".toList
  actor := some "report_generator".toList
  decision := some "concluded".toList
  reason := some text
  evidence := some (.obj [
    ("statement_ids".toList, .ofTexts (cited.map fun s => s.id.str)),
    ("one_sided".toList, .bool oneSided), ("high_stakes".toList, .bool highStakes)])

/-- One draft: nothing where it cites no verified statement. -/
def conclude (p : Platform) (synthesis : Synthesis) (draft : ConclusionDraft) :
    Action (Option Cited) := do
  let cited := synthesis.cited draft
  if cited.isEmpty then return none
  let text := redactSecrets p.unicode draft.text.val
  let oneSided := oneSidednessCheck (cited.map synthesis.domain) draft.oneSided
  let humanReview := isHighStakes p.unicode text || draft.highStakes
  let citedIds := cited.map fun s => s.id.str
  let warnings := (synthesis.contradictions.filter fun (a, b, _) =>
    citedIds.contains a || citedIds.contains b).map fun (_, _, summary) => summary
  let id ← uuid4
  let createdAt ← dbNow
  let audit ← auditAppend p (conclusionEntry synthesis.runId id text cited oneSided humanReview)
  pure <| some
    { conclusion :=
        { id, runId := synthesis.runId, text, confidence := draft.confidence,
          humanReviewRequired := humanReview, createdAt }
      evidence := cited.map fun s => ⟨id, s.id⟩
      audit
      report :=
        { id := id.str, text, confidence := draft.confidence, humanReviewRequired := humanReview,
          oneSided, contradictionWarnings := warnings,
          supportMatrix := cited.map fun s =>
            ⟨s.id.str, s.passageId.str,
              ((latestVerifyScore synthesis.links s.id).getD .none).value⟩
          evidenceStatements := cited.map fun s =>
            ⟨s.id.str, redactSecrets p.unicode s.text, synthesis.domain s⟩ } }

/-- The writes of a list of conclusions, in the order of the flush. -/
def conclusionWrites (rows : List Cited) : List Write :=
  rows.map (fun row => .insertAuditTrace row.audit) ++
    rows.map (fun row => .insertConclusion row.conclusion) ++
    rows.flatMap fun row => row.evidence.map .insertConclusionEvidence

/-- Generate and persist the conclusions of a run. -/
def generate (gateway : LLMGateway) (runId : Uuid) (topic : Text)
    (verifiedStatements : List Statement) (confirmedContradictions : List Contradiction) :
    Action Report := do
  let p := gateway.platform
  let verified := sortedVerified verifiedStatements
  if verified.isEmpty then
    raiseError .valueError "report generation requires at least one verified statement".toList
  let confirmed := confirmedContradictions.filter fun c => c.status = .confirmed
  let contradictions := confirmed.map fun c =>
    (c.statementAId.str, c.statementBId.str, contradictionSummary p c)
  let (system, dataBlock) := buildSynthesisPrompt
    (verified.map fun s => (s.id.str, redactSecrets p.unicode s.text)) contradictions
  let (_, extraction) ← completeModel gateway .conclusionExtraction
    { tier := .strong, system := some system, prompt := some dataBlock, runId := some runId,
      useCache := false }
  let extraction : ConclusionExtraction := extraction
  let links ← latestVerifyScores verified
  let domains ← sourceDomains p verified
  let rows ← extraction.conclusions.val.mapM
    (conclude p ⟨runId, verified, contradictions, links, domains⟩)
  let rows := rows.filterMap id
  commitWrites (conclusionWrites rows)
  let generatedAt ← now
  pure
    { runId := runId.str, topic := redactSecrets p.unicode topic, generatedAt,
      conclusions := rows.map Cited.report }

end Ecrke
