import Ecrke.World

/-!
# Report rendering

* `renderMarkdown` -- `render_markdown`: the lines of the report, joined by newlines.
-/

namespace Ecrke

/-- The lines of one conclusion; conclusions are numbered from 1. -/
def conclusionLines (index : Nat) (conclusion : ReportConclusion) : List Text :=
  ["### ".toList ++ Text.ofNat index ++ ". ".toList ++ conclusion.text, []] ++
  (match conclusion.confidence with
    | some confidence => ["- Confidence: ".toList ++ Text.ofFixed 2 confidence.val]
    | none => ["- Confidence: unknown".toList]) ++
  (if conclusion.humanReviewRequired then ["- **HUMAN REVIEW REQUIRED**".toList] else []) ++
  (if conclusion.oneSided then ["- One-sidedness: **one-sided**".toList]
    else ["- One-sidedness: balanced".toList]) ++
  (if conclusion.contradictionWarnings.isEmpty then []
    else "- Contradiction warnings:".toList ::
      conclusion.contradictionWarnings.map fun warning => "  - ".toList ++ warning) ++
  (if conclusion.supportMatrix.isEmpty then []
    else ["- Support matrix:".toList, "  | statement_id | passage_id | support_score |".toList,
        "  |---|---|---|".toList] ++
      conclusion.supportMatrix.map fun entry =>
        "  | ".toList ++ entry.statementId ++ " | ".toList ++ entry.passageId ++ " | ".toList ++
          entry.supportScore ++ " |".toList) ++
  (if conclusion.evidenceStatements.isEmpty then []
    else "- Evidence statements:".toList ::
      conclusion.evidenceStatements.map fun evidence =>
        "  - `".toList ++ evidence.id ++ "` (".toList ++ evidence.sourceDomain ++ "): ".toList ++
          evidence.text) ++
  [[]]

/-- The source domains of a report, sorted. -/
def reportDomains (report : Report) : List Text :=
  (((report.conclusions.flatMap ReportConclusion.evidenceStatements).map
    ReportEvidenceStatement.sourceDomain).filter fun d => !d.isEmpty).dedup.mergeSort Text.le

/-- The lines of a report. -/
def reportLines (isoformat : Instant → Text) (report : Report) : List Text :=
  ["# ".toList ++ report.topic, [], "- Run ID: ".toList ++ report.runId,
    "- Generated at: ".toList ++ isoformat report.generatedAt, [], "## Conclusions".toList, []] ++
  (report.conclusions.zipIdx 1).flatMap (fun entry => conclusionLines entry.2 entry.1) ++
  ["## References".toList, []] ++
  (if (reportDomains report).isEmpty then ["- none".toList]
    else (reportDomains report).map fun domain => "- ".toList ++ domain) ++
  [[]]

/-- Render a report as plain markdown. -/
def renderMarkdown (isoformat : Instant → Text) (report : Report) : Text :=
  Text.join "\n".toList (reportLines isoformat report)

end Ecrke
