import Ecrke.Text.Json

/-!
# The schemas of structured outputs

The Pydantic models which the gateway validates against, with their bounds as fields: a value of
`VerificationVerdict` has a reason of 1 to 2000 characters because no other can be built.

* `BoundedText`, `BoundedList`, `Confidence` -- the constraints.
* `ResearchPlan`, `StatementExtraction`, `VerificationVerdict`, `ContradictionFlag`,
  `ConfirmVerdict`, `ConclusionExtraction` -- the models.
* `ResponseModel` -- a `response_model` argument, with `ResponseModel.Data` and
  `ResponseModel.dump`.
* `Report` -- the public report, with `Report.dump`.
-/

namespace Ecrke

/-- A string with a minimal and a maximal length. -/
structure BoundedText (least most : Nat) where
  val : Text
  least_le : least ≤ val.length
  le_most : val.length ≤ most

/-- A list with a minimal and a maximal length. -/
structure BoundedList (α : Type) (least most : Nat) where
  val : List α
  least_le : least ≤ val.length
  le_most : val.length ≤ most

/-- A number between 0 and 1. -/
structure Confidence where
  val : ℚ
  nonneg : 0 ≤ val
  le_one : val ≤ 1
  deriving DecidableEq

/-- Check the length of a string. -/
def BoundedText.check (least most : Nat) (t : Text) : Option (BoundedText least most) :=
  if h : least ≤ t.length ∧ t.length ≤ most then some ⟨t, h.1, h.2⟩ else none

/-- Check the length of a list. -/
def BoundedList.check {α : Type} (least most : Nat) (l : List α) :
    Option (BoundedList α least most) :=
  if h : least ≤ l.length ∧ l.length ≤ most then some ⟨l, h.1, h.2⟩ else none

/-- A list of bounded strings as JSON. -/
def BoundedList.dump {least most a b : Nat} (l : BoundedList (BoundedText a b) least most) : Json :=
  .arr (l.val.map fun t => .str t.val)

/-- An optional confidence as JSON. -/
def Confidence.dump : Option Confidence → Json
  | some c => .float c.val
  | none => .null

/-! ## The research plan -/

/-- The plan artifact of the define stage. -/
structure ResearchPlan where
  topic : BoundedText 1 500
  subQuestions : BoundedList (BoundedText 1 500) 3 20
  hypotheses : BoundedList (BoundedText 1 500) 0 20
  taxonomyHints : BoundedList (BoundedText 1 500) 0 20
  sourceDomainHints : BoundedList (BoundedText 1 500) 0 20

/-- `plan.model_dump(mode="json")`. -/
def ResearchPlan.dump (plan : ResearchPlan) : Json :=
  .obj [("topic".toList, .str plan.topic.val),
    ("sub_questions".toList, plan.subQuestions.dump),
    ("hypotheses".toList, plan.hypotheses.dump),
    ("taxonomy_hints".toList, plan.taxonomyHints.dump),
    ("source_domain_hints".toList, plan.sourceDomainHints.dump)]

/-! ## Extraction -/

/-- One atomic claim extracted from a passage. -/
structure ExtractedStatement where
  text : BoundedText 1 2000
  confidence : Option Confidence

/-- The atomic statements of one passage. -/
structure StatementExtraction where
  statements : BoundedList ExtractedStatement 0 50

/-- `extraction.model_dump(mode="json")`. -/
def StatementExtraction.dump (extraction : StatementExtraction) : Json :=
  .obj [("statements".toList, .arr (extraction.statements.val.map fun item =>
    .obj [("text".toList, .str item.text.val), ("confidence".toList,
      Confidence.dump item.confidence)]))]

/-! ## Verification -/

/-- The label of a verdict. -/
inductive Verdict where
  | supported
  | unsupported
  deriving DecidableEq

/-- The text of a verdict label. -/
def Verdict.value : Verdict → Text
  | .supported => "supported".toList
  | .unsupported => "unsupported".toList

/-- The output of the evidence judge. -/
structure VerificationVerdict where
  supported : Bool
  verdict : Verdict
  reason : BoundedText 1 2000
  confidence : Option Confidence

/-- `verdict.model_dump(mode="json")`. -/
def VerificationVerdict.dump (verdict : VerificationVerdict) : Json :=
  .obj [("supported".toList, .bool verdict.supported),
    ("verdict".toList, .str verdict.verdict.value),
    ("reason".toList, .str verdict.reason.val),
    ("confidence".toList, Confidence.dump verdict.confidence)]

/-! ## Contradictions -/

/-- The label of a flag. -/
inductive FlagLabel where
  | flag
  | noFlag
  deriving DecidableEq

/-- The text of a flag label. -/
def FlagLabel.value : FlagLabel → Text
  | .flag => "flag".toList
  | .noFlag => "no_flag".toList

/-- The output of the flag judge. -/
structure ContradictionFlag where
  contradictory : Bool
  flag : FlagLabel
  reason : BoundedText 1 2000
  confidence : Option Confidence

/-- `flag.model_dump(mode="json")`. -/
def ContradictionFlag.dump (flag : ContradictionFlag) : Json :=
  .obj [("contradictory".toList, .bool flag.contradictory),
    ("flag".toList, .str flag.flag.value),
    ("reason".toList, .str flag.reason.val),
    ("confidence".toList, Confidence.dump flag.confidence)]

/-- The output of the confirm judge. -/
structure ConfirmVerdict where
  contradictory : Bool
  reason : BoundedText 1 2000
  confidence : Option Confidence

/-- `verdict.model_dump(mode="json")`. -/
def ConfirmVerdict.dump (verdict : ConfirmVerdict) : Json :=
  .obj [("contradictory".toList, .bool verdict.contradictory),
    ("reason".toList, .str verdict.reason.val),
    ("confidence".toList, Confidence.dump verdict.confidence)]

/-! ## Conclusions -/

/-- One proposed conclusion. -/
structure ConclusionDraft where
  text : BoundedText 1 2000
  statementIds : BoundedList Text 1 20
  confidence : Option Confidence
  oneSided : Bool
  highStakes : Bool

/-- The set of synthesized conclusions. -/
structure ConclusionExtraction where
  conclusions : BoundedList ConclusionDraft 0 50

/-- `extraction.model_dump(mode="json")`. -/
def ConclusionExtraction.dump (extraction : ConclusionExtraction) : Json :=
  .obj [("conclusions".toList, .arr (extraction.conclusions.val.map fun draft =>
    .obj [("text".toList, .str draft.text.val),
      ("statement_ids".toList, .ofTexts draft.statementIds.val),
      ("confidence".toList, Confidence.dump draft.confidence),
      ("one_sided".toList, .bool draft.oneSided),
      ("high_stakes".toList, .bool draft.highStakes)]))]

/-! ## Response models -/

/-- A `response_model` argument of the gateway. -/
inductive ResponseModel where
  | researchPlan
  | statementExtraction
  | verificationVerdict
  | contradictionFlag
  | confirmVerdict
  | conclusionExtraction
  deriving DecidableEq

namespace ResponseModel

/-- The instances of a response model. -/
def Data : ResponseModel → Type
  | researchPlan => ResearchPlan
  | statementExtraction => StatementExtraction
  | verificationVerdict => VerificationVerdict
  | contradictionFlag => ContradictionFlag
  | confirmVerdict => ConfirmVerdict
  | conclusionExtraction => ConclusionExtraction

/-- `data.model_dump(mode="json")`. -/
def dump : (model : ResponseModel) → model.Data → Json
  | researchPlan, data => ResearchPlan.dump data
  | statementExtraction, data => StatementExtraction.dump data
  | verificationVerdict, data => VerificationVerdict.dump data
  | contradictionFlag, data => ContradictionFlag.dump data
  | confirmVerdict, data => ConfirmVerdict.dump data
  | conclusionExtraction, data => ConclusionExtraction.dump data

end ResponseModel

/-! ## The report -/

/-- One row of the support matrix of a conclusion. -/
structure ReportSupportEntry where
  statementId : Text
  passageId : Text
  supportScore : Text

/-- One statement which a conclusion cites. -/
structure ReportEvidenceStatement where
  id : Text
  text : Text
  sourceDomain : Text

/-- One conclusion of the report. -/
structure ReportConclusion where
  id : Text
  text : Text
  confidence : Option Confidence
  humanReviewRequired : Bool
  oneSided : Bool
  contradictionWarnings : List Text
  supportMatrix : List ReportSupportEntry
  evidenceStatements : List ReportEvidenceStatement

/-- The public report of a run. -/
structure Report where
  runId : Text
  topic : Text
  generatedAt : Instant
  conclusions : List ReportConclusion

/-- One row of the support matrix as JSON. -/
def ReportSupportEntry.dump (entry : ReportSupportEntry) : Json :=
  .obj [("statement_id".toList, .str entry.statementId),
    ("passage_id".toList, .str entry.passageId),
    ("support_score".toList, .str entry.supportScore)]

/-- One cited statement as JSON. -/
def ReportEvidenceStatement.dump (evidence : ReportEvidenceStatement) : Json :=
  .obj [("id".toList, .str evidence.id),
    ("text".toList, .str evidence.text),
    ("source_domain".toList, .str evidence.sourceDomain)]

/-- One conclusion as JSON. -/
def ReportConclusion.dump (conclusion : ReportConclusion) : Json :=
  .obj [("id".toList, .str conclusion.id),
    ("text".toList, .str conclusion.text),
    ("confidence".toList, Confidence.dump conclusion.confidence),
    ("human_review_required".toList, .bool conclusion.humanReviewRequired),
    ("one_sided".toList, .bool conclusion.oneSided),
    ("contradiction_warnings".toList, .ofTexts conclusion.contradictionWarnings),
    ("support_matrix".toList, .arr (conclusion.supportMatrix.map ReportSupportEntry.dump)),
    ("evidence_statements".toList,
      .arr (conclusion.evidenceStatements.map ReportEvidenceStatement.dump))]

/-- `report.model_dump(mode="json")`; `isoformat` renders the time stamp. -/
def Report.dump (isoformat : Instant → Text) (report : Report) : Json :=
  .obj [("run_id".toList, .str report.runId),
    ("topic".toList, .str report.topic),
    ("generated_at".toList, .str (isoformat report.generatedAt)),
    ("conclusions".toList, .arr (report.conclusions.map ReportConclusion.dump))]

end Ecrke
