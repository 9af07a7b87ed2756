import Ecrke.Guarantees.Prompts
import Ecrke.Guarantees.ServedReport

/-!
# The structure of a rendered report

A rendered report is a document of lines.  The texts which are put into it may have line breaks of
their own, and what stands behind such a break is a line of the document.

* `Landmark`, `WellMarked` -- the lines which give the document its structure.
* `Report.inserts`, `Unforged` -- the texts of a report, and those which bring in no such line.
* `Tallies` -- the landmarks among the lines of some parts of the document.
* `reportLines_tallies` -- those of a report: what the renderer writes, and what the texts bring in.
* `renderMarkdown_wellMarked` -- when they are those of the renderer alone.
-/

namespace Ecrke

open Delimiters

/-! ## Landmarks -/

/-- The lines which give a report its structure. -/
inductive Landmark where
  /-- The heading of a conclusion. -/
  | heading
  /-- The heading of the references. -/
  | references
  /-- The badge of a conclusion which a human has to review. -/
  | badge

/-- A line passes for a landmark. -/
def Landmark.test : Landmark → Text → Bool
  | .heading, line => Text.startsWith "### ".toList line
  | .references, line => line == "## References".toList
  | .badge, line => line == "- **HUMAN REVIEW REQUIRED**".toList

/-- How often the renderer writes a landmark for a conclusion. -/
def Landmark.ofConclusion (conclusion : ReportConclusion) : Landmark → Nat
  | .heading => 1
  | .references => 0
  | .badge => conclusion.humanReviewRequired.toNat

/-- How often it writes one among the references: never, but a source domain may make a badge. -/
def Landmark.ofDomain (firstLine : Text) : Landmark → Nat
  | .heading => 0
  | .references => 0
  | .badge => (firstLine == "**HUMAN REVIEW REQUIRED**".toList).toNat

/-- How often a landmark belongs into the document of a report. -/
def Landmark.expected (report : Report) : Landmark → Nat
  | .heading => report.conclusions.length
  | .references => 1
  | .badge => report.conclusions.countP ReportConclusion.humanReviewRequired

/-- A document with the headings, the references and the badges of a report. -/
structure WellMarked (report : Report) (markdown : Text) : Prop where
  headings : (linesOf markdown).countP (Text.startsWith "### ".toList) = report.conclusions.length
  references : (linesOf markdown).count "## References".toList = 1
  badges : (linesOf markdown).count "- **HUMAN REVIEW REQUIRED**".toList =
    report.conclusions.countP ReportConclusion.humanReviewRequired

theorem wellMarked_iff {report : Report} {markdown : Text} : WellMarked report markdown ↔
    ∀ landmark : Landmark,
      (linesOf markdown).countP landmark.test = landmark.expected report := by
  constructor
  · intro h landmark
    cases landmark with
    | heading => exact h.headings
    | references => exact h.references
    | badge => exact h.badges
  · intro h
    exact ⟨h .heading, h .references, h .badge⟩

/-! ## The texts of a report -/

/-- The first line of a text. -/
def firstLine (text : Text) : Text := (linesOf text).headD []

/-- The lines of a text behind its first line break. -/
def laterLines (text : Text) : List Text := (linesOf text).tail

/-- A row of the support matrix behind its first bar. -/
def ReportSupportEntry.row (entry : ReportSupportEntry) : Text :=
  entry.statementId ++ " | ".toList ++ entry.passageId ++ " | ".toList ++ entry.supportScore ++
    " |".toList

/-- A cited statement behind its first quote. -/
def ReportEvidenceStatement.entry (evidence : ReportEvidenceStatement) : Text :=
  evidence.id ++ "` (".toList ++ evidence.sourceDomain ++ "): ".toList ++ evidence.text

/-- The texts of a conclusion, each of which is rendered to the end of its line. -/
def ReportConclusion.inserts (conclusion : ReportConclusion) : List Text :=
  conclusion.text :: conclusion.contradictionWarnings ++
    conclusion.supportMatrix.map ReportSupportEntry.row ++
    conclusion.evidenceStatements.map ReportEvidenceStatement.entry

/-- The texts of a report in front of its references. -/
def Report.inserts (report : Report) : List Text :=
  report.topic :: report.runId :: report.conclusions.flatMap ReportConclusion.inserts

/-- The source domains of the cited statements. -/
def Report.domains (report : Report) : List Text :=
  (report.conclusions.flatMap ReportConclusion.evidenceStatements).map
    ReportEvidenceStatement.sourceDomain

/-- A text which brings no landmark in. -/
def Unforged (text : Text) : Prop :=
  ∀ line ∈ laterLines text, ∀ landmark : Landmark, landmark.test line = false

/-- A report whose texts bring no landmark in, and none of whose domains makes a badge. -/
structure Report.Unforged (report : Report) : Prop where
  inserts : ∀ text ∈ report.inserts, Ecrke.Unforged text
  domains : ∀ domain ∈ report.domains, Ecrke.Unforged domain ∧
    firstLine domain ≠ "**HUMAN REVIEW REQUIRED**".toList

/-- A line, not more, which is no landmark. -/
def isPlain (line : Text) : Bool :=
  !line.contains '\n' && !Landmark.heading.test line && !Landmark.references.test line &&
    !Landmark.badge.test line

theorem linesOf_eq (text : Text) : linesOf text = firstLine text :: laterLines text := by
  obtain ⟨first, rest, hLines⟩ := List.exists_cons_of_ne_nil (List.splitOn_ne_nil '\n' text)
  have hAll : linesOf text = first :: rest := hLines
  rw [firstLine, laterLines, hAll]
  rfl

theorem linesOf_lead {markup : Text} (h : '\n' ∉ markup) (text : Text) :
    linesOf (markup ++ text) = (markup ++ firstLine text) :: laterLines text := by
  have hLines : linesOf (markup ++ text) = (linesOf text).modifyHead (markup ++ ·) :=
    splitOn_append_of_not_mem h text
  rw [hLines, linesOf_eq text]
  rfl

/-! ## Tallies -/

/-- The landmarks among the lines of some parts: some of the renderer's own, and those which the
texts bring in. -/
def Tallies (landmark : Landmark) (parts : List Text) (own : Nat) (inserts : List Text) : Prop :=
  (parts.flatMap linesOf).countP landmark.test =
    own + (inserts.flatMap laterLines).countP landmark.test

namespace Tallies

variable {landmark : Landmark} {parts later inserts others : List Text} {own ownLater : Nat}

theorem nil : Tallies landmark [] 0 [] := rfl

theorem append (h : Tallies landmark parts own inserts)
    (hLater : Tallies landmark later ownLater others) :
    Tallies landmark (parts ++ later) (own + ownLater) (inserts ++ others) := by
  unfold Tallies at h hLater ⊢
  rw [List.flatMap_append, List.countP_append, List.flatMap_append, List.countP_append, h, hLater]
  omega

/-- More parts without landmarks. -/
theorem more (h : Tallies landmark parts own inserts) (hLater : Tallies landmark later 0 others) :
    Tallies landmark (parts ++ later) own (inserts ++ others) := h.append hLater

/-- A line of the renderer alone. -/
theorem line {line : Text} (hBreak : '\n' ∉ line) (hOwn : (landmark.test line).toNat = own) :
    Tallies landmark [line] own [] := by
  unfold Tallies
  rw [List.flatMap_cons, linesOf_of_not_mem hBreak, ← hOwn]
  cases hTest : landmark.test line with
  | false => simp [hTest]
  | true => simp [hTest]

/-- A text behind some markup. -/
theorem lead {markup text : Text} (hBreak : '\n' ∉ markup)
    (hOwn : (landmark.test (markup ++ firstLine text)).toNat = own) :
    Tallies landmark [markup ++ text] own [text] := by
  unfold Tallies
  rw [List.flatMap_cons, linesOf_lead hBreak, List.flatMap_nil, List.append_nil,
    List.countP_cons, List.flatMap_cons, List.flatMap_nil, List.append_nil, ← hOwn, Nat.add_comm]
  congr 1
  cases landmark.test (markup ++ firstLine text) with
  | false => rfl
  | true => rfl

theorem map {α : Type} {items : List α} {partOf insertOf : α → Text} {ownOf : α → Nat}
    (h : ∀ item ∈ items, Tallies landmark [partOf item] (ownOf item) [insertOf item]) :
    Tallies landmark (items.map partOf) (items.map ownOf).sum (items.map insertOf) := by
  induction items with
  | nil => exact nil
  | cons item rest ih =>
      rw [List.map_cons, List.map_cons, List.map_cons, List.sum_cons]
      exact (h item List.mem_cons_self).append (ih fun other hOther => h other (by simp [hOther]))

/-- A table under a heading, which is left out when it has no rows. -/
theorem block {α : Type} {items : List α} {partOf insertOf : α → Text}
    (hHeading : Tallies landmark parts 0 [])
    (h : ∀ item ∈ items, Tallies landmark [partOf item] 0 [insertOf item]) :
    Tallies landmark (if items.isEmpty then [] else parts ++ items.map partOf) 0
      (items.map insertOf) := by
  split
  case isTrue hNone =>
    rw [List.isEmpty_iff.mp hNone]
    exact nil
  case isFalse =>
    have hRows : Tallies landmark (items.map partOf) (items.map fun _ => 0).sum
        (items.map insertOf) := map h
    simpa using hHeading.append hRows

end Tallies

/-! ## The landmarks of a report -/

section Report

variable (landmark : Landmark)

theorem newline_not_mem_ofNat (n : Nat) : '\n' ∉ Text.ofNat n := by
  intro hMem
  have hDigit : '\n'.isDigit = true := Nat.isDigit_of_mem_toDigits (by decide) (by decide) hMem
  cases hDigit

theorem newline_not_mem_ofFixed (digits : Nat) (q : ℚ) : '\n' ∉ Text.ofFixed digits q := by
  intro hMem
  rcases Text.mem_ofFixed hMem with hDigit | hDot
  · cases hDigit
  · cases hDot

/-- The line of a conclusion is its heading. -/
theorem title_tallies (index : Nat) (text : Text) :
    Tallies landmark ["### ".toList ++ Text.ofNat index ++ ". ".toList ++ text]
      (landmark.test ("### ".toList)).toNat [text] := by
  apply Tallies.lead
  · exact newline_not_mem_append (newline_not_mem_append (by decide) (newline_not_mem_ofNat index))
      (by decide)
  · cases landmark <;> rfl

theorem confidence_tallies (confidence : ℚ) :
    Tallies landmark ["- Confidence: ".toList ++ Text.ofFixed 2 confidence] 0 [] := by
  apply Tallies.line
  · exact newline_not_mem_append (by decide) (newline_not_mem_ofFixed 2 confidence)
  · cases landmark <;> rfl

/-- A line of the renderer which is no landmark. -/
theorem same_tallies {line : Text} (h : isPlain line = true) : Tallies landmark [line] 0 [] := by
  unfold isPlain at h
  simp only [Bool.and_eq_true, Bool.not_eq_true', List.contains_eq_mem, decide_eq_false_iff_not]
    at h
  obtain ⟨⟨⟨hBreak, hHeading⟩, hReferences⟩, hBadge⟩ := h
  apply Tallies.line hBreak
  cases landmark with
  | heading => rw [hHeading]; rfl
  | references => rw [hReferences]; rfl
  | badge => rw [hBadge]; rfl

theorem row_tallies (entry : ReportSupportEntry) :
    Tallies landmark ["  | ".toList ++ entry.statementId ++ " | ".toList ++ entry.passageId ++
      " | ".toList ++ entry.supportScore ++ " |".toList] 0 [entry.row] := by
  have hLine : "  | ".toList ++ entry.statementId ++ " | ".toList ++ entry.passageId ++
      " | ".toList ++ entry.supportScore ++ " |".toList = "  | ".toList ++ entry.row := by
    simp [ReportSupportEntry.row]
  rw [hLine]
  exact .lead (by decide) (by cases landmark <;> rfl)

theorem entry_tallies (evidence : ReportEvidenceStatement) :
    Tallies landmark ["  - `".toList ++ evidence.id ++ "` (".toList ++ evidence.sourceDomain ++
      "): ".toList ++ evidence.text] 0 [evidence.entry] := by
  have hLine : "  - `".toList ++ evidence.id ++ "` (".toList ++ evidence.sourceDomain ++
      "): ".toList ++ evidence.text = "  - `".toList ++ evidence.entry := by
    simp [ReportEvidenceStatement.entry]
  rw [hLine]
  exact .lead (by decide) (by cases landmark <;> rfl)

/-- A conclusion has one heading, and a badge if a human has to review it. -/
theorem conclusionLines_tallies (index : Nat) (conclusion : ReportConclusion) :
    Tallies landmark (conclusionLines index conclusion) (landmark.ofConclusion conclusion)
      conclusion.inserts := by
  have hEmpty : Tallies landmark [[]] 0 [] := same_tallies landmark rfl
  have hWarnings : Tallies landmark ["- Contradiction warnings:".toList] 0 [] :=
    same_tallies landmark rfl
  have hSupport : Tallies landmark ["- Support matrix:".toList] 0 [] := same_tallies landmark rfl
  have hNames : Tallies landmark ["  | statement_id | passage_id | support_score |".toList] 0 [] :=
    same_tallies landmark rfl
  have hRule : Tallies landmark ["  |---|---|---|".toList] 0 [] := same_tallies landmark rfl
  have hEvidence : Tallies landmark ["- Evidence statements:".toList] 0 [] :=
    same_tallies landmark rfl
  have hBadge : Tallies landmark
      (if conclusion.humanReviewRequired then ["- **HUMAN REVIEW REQUIRED**".toList] else [])
      (if conclusion.humanReviewRequired then
        (landmark.test "- **HUMAN REVIEW REQUIRED**".toList).toNat else 0) [] := by
    split
    · exact .line (by decide) rfl
    · exact .nil
  have hOwn : (landmark.test "### ".toList).toNat + (if conclusion.humanReviewRequired then
      (landmark.test "- **HUMAN REVIEW REQUIRED**".toList).toNat else 0) =
      landmark.ofConclusion conclusion := by
    unfold Landmark.ofConclusion
    cases conclusion.humanReviewRequired <;> cases landmark <;> rfl
  have hInserts : [conclusion.text] ++ [] ++ [] ++ [] ++ [] ++
      conclusion.contradictionWarnings.map id ++
      conclusion.supportMatrix.map ReportSupportEntry.row ++
      conclusion.evidenceStatements.map ReportEvidenceStatement.entry ++ [] =
      conclusion.inserts := by
    simp [ReportConclusion.inserts]
  rw [← hOwn, ← hInserts]
  unfold conclusionLines
  apply Tallies.more _ hEmpty
  apply Tallies.more
  apply Tallies.more
  apply Tallies.more
  apply Tallies.more
  apply Tallies.append
  apply Tallies.more
  · exact (title_tallies landmark index conclusion.text).more hEmpty
  · split
    · exact confidence_tallies landmark _
    · exact same_tallies landmark rfl
  · exact hBadge
  · split
    · exact same_tallies landmark rfl
    · exact same_tallies landmark rfl
  · exact .block hWarnings fun warning _ => .lead (by decide) (by cases landmark <;> rfl)
  · exact .block (hSupport.more (hNames.more hRule)) fun entry _ => row_tallies landmark entry
  · exact .block hEvidence fun evidence _ => entry_tallies landmark evidence

/-- The landmarks of conclusions, from an index on. -/
theorem conclusions_tally (conclusions : List ReportConclusion) (index : Nat) :
    Tallies landmark
      ((conclusions.zipIdx index).flatMap fun entry => conclusionLines entry.2 entry.1)
      (conclusions.map landmark.ofConclusion).sum
      (conclusions.flatMap ReportConclusion.inserts) := by
  induction conclusions generalizing index with
  | nil => exact .nil
  | cons conclusion rest ih =>
      rw [List.zipIdx_cons, List.flatMap_cons, List.map_cons, List.sum_cons, List.flatMap_cons]
      exact (conclusionLines_tallies landmark index conclusion).append (ih (index + 1))

theorem badges_sum (conclusions : List ReportConclusion) :
    (conclusions.map Landmark.badge.ofConclusion).sum =
      conclusions.countP ReportConclusion.humanReviewRequired := by
  induction conclusions with
  | nil => rfl
  | cons conclusion rest ih =>
      rw [List.map_cons, List.sum_cons, ih, List.countP_cons, Nat.add_comm, Landmark.ofConclusion]
      congr 1
      cases conclusion.humanReviewRequired <;> rfl

/-- What the renderer writes for the conclusions and for the references is what is expected. -/
theorem own_eq_expected (report : Report) :
    0 + (report.conclusions.map landmark.ofConclusion).sum +
      (landmark.test "## References".toList).toNat = landmark.expected report := by
  have hReferences : (landmark.test "## References".toList).toNat =
      landmark.expected { report with conclusions := [] } := by
    cases landmark <;> rfl
  rw [hReferences, Nat.zero_add]
  cases landmark with
  | heading => simp [Landmark.ofConclusion, Landmark.expected]
  | references => simp [Landmark.ofConclusion, Landmark.expected]
  | badge => rw [badges_sum]; rfl

theorem bodyLines_tallies {isoformat : Instant → Text} {report : Report}
    (hIso : '\n' ∉ isoformat report.generatedAt) :
    Tallies landmark (bodyLines isoformat report) (landmark.expected report) report.inserts := by
  have hEmpty : Tallies landmark [[]] 0 [] := same_tallies landmark rfl
  have hTopic : Tallies landmark ["# ".toList ++ report.topic] 0 [report.topic] :=
    .lead (by decide) (by cases landmark <;> rfl)
  have hRunId : Tallies landmark ["- Run ID: ".toList ++ report.runId] 0 [report.runId] :=
    .lead (by decide) (by cases landmark <;> rfl)
  have hGenerated : Tallies landmark ["- Generated at: ".toList ++ isoformat report.generatedAt]
      0 [] :=
    .line (newline_not_mem_append (by decide) hIso) (by cases landmark <;> rfl)
  have hConclusions : Tallies landmark ["## Conclusions".toList] 0 [] := same_tallies landmark rfl
  have hReferences : Tallies landmark ["## References".toList]
      (landmark.test "## References".toList).toNat [] := .line (by decide) rfl
  have hHead := hTopic.more (hEmpty.more (hRunId.more (hGenerated.more
    (hEmpty.more (hConclusions.more hEmpty)))))
  have hBody := (hHead.append (conclusions_tally landmark report.conclusions 1)).append
    (hReferences.more hEmpty)
  have hOwn := own_eq_expected landmark report
  have hInserts : [report.topic] ++ ([] ++ ([report.runId] ++ ([] ++ ([] ++ ([] ++ []))))) ++
      report.conclusions.flatMap ReportConclusion.inserts ++ ([] ++ []) = report.inserts := by
    simp [Report.inserts]
  rw [← hOwn, ← hInserts]
  exact hBody

/-- The references have no landmark but those which the source domains make. -/
theorem referenceLines_tallies (report : Report) :
    Tallies landmark (referenceLines report)
      ((reportDomains report).map fun domain => landmark.ofDomain (firstLine domain)).sum
      (reportDomains report) := by
  unfold referenceLines
  split
  case isTrue hNone =>
    rw [List.isEmpty_iff.mp hNone]
    exact same_tallies landmark rfl
  case isFalse =>
    have hDomain (domain : Text) : Tallies landmark ["- ".toList ++ domain]
        (landmark.ofDomain (firstLine domain)) [domain] :=
      .lead (by decide) (by cases landmark <;> rfl)
    have hAll : Tallies landmark ((reportDomains report).map fun domain => "- ".toList ++ domain)
        ((reportDomains report).map fun domain => landmark.ofDomain (firstLine domain)).sum
        ((reportDomains report).map fun domain => domain) := .map fun domain _ => hDomain domain
    rwa [List.map_id'] at hAll

/-- The landmarks of a rendered report: those which are expected, those which its texts bring in, and
the badges which its domains make. -/
theorem reportLines_tallies {isoformat : Instant → Text} {report : Report}
    (hIso : '\n' ∉ isoformat report.generatedAt) :
    Tallies landmark (reportLines isoformat report)
      (landmark.expected report +
        ((reportDomains report).map fun domain => landmark.ofDomain (firstLine domain)).sum)
      (report.inserts ++ reportDomains report ++ []) :=
  .more ((bodyLines_tallies landmark hIso).append (referenceLines_tallies landmark report))
    (same_tallies landmark rfl)

theorem linesOf_renderMarkdown (isoformat : Instant → Text) (report : Report) :
    linesOf (renderMarkdown isoformat report) =
      (reportLines isoformat report).flatMap linesOf := by
  have hSome : reportLines isoformat report ≠ [] := List.append_ne_nil_of_right_ne_nil _ (by simp)
  exact splitOn_intercalate_flatMap '\n' hSome

/-- The source domains in the references are those which are not empty. -/
theorem mem_reportDomains {report : Report} {domain : Text} :
    domain ∈ reportDomains report ↔ domain ∈ report.domains ∧ domain ≠ [] := by
  rw [reportDomains, List.mem_mergeSort, List.mem_dedup, List.mem_filter]
  simp [Report.domains]

theorem ofDomain_sum {domains : List Text} :
    (∀ landmark : Landmark,
      (domains.map fun domain => landmark.ofDomain (firstLine domain)).sum = 0) ↔
      ∀ domain ∈ domains, firstLine domain ≠ "**HUMAN REVIEW REQUIRED**".toList := by
  have hBadge (line : Text) : Landmark.badge.ofDomain line = 0 ↔
      line ≠ "**HUMAN REVIEW REQUIRED**".toList := by
    simp [Landmark.ofDomain]
  constructor
  · intro h domain hDomain
    have hZero := List.sum_eq_zero_iff_forall_eq_nat.mp (h .badge) _
      (List.mem_map_of_mem hDomain)
    exact (hBadge _).mp hZero
  · intro h landmark
    apply List.sum_eq_zero
    intro n hn
    obtain ⟨domain, hDomain, rfl⟩ := List.mem_map.mp hn
    cases landmark with
    | heading => rfl
    | references => rfl
    | badge => exact (hBadge _).mpr (h domain hDomain)

theorem laterLines_count {texts : List Text} :
    (∀ landmark : Landmark, (texts.flatMap laterLines).countP landmark.test = 0) ↔
      ∀ text ∈ texts, Unforged text := by
  simp only [List.countP_eq_zero, Bool.not_eq_true, List.mem_flatMap]
  constructor
  · intro h text hText line hLine landmark
    exact h landmark line ⟨text, hText, hLine⟩
  · rintro h landmark line ⟨text, hText, hLine⟩
    exact h text hText line hLine landmark

/-- The empty domain, which is left out, would make no difference. -/
theorem unforged_iff {report : Report} : report.Unforged ↔
    (∀ text ∈ report.inserts ++ reportDomains report, Unforged text) ∧
      ∀ domain ∈ reportDomains report, firstLine domain ≠ "**HUMAN REVIEW REQUIRED**".toList := by
  rw [List.forall_mem_append]
  constructor
  · intro h
    have hDomain (domain : Text) (hMem : domain ∈ reportDomains report) :=
      h.domains domain (mem_reportDomains.mp hMem).1
    exact ⟨⟨h.inserts, fun domain hMem => (hDomain domain hMem).1⟩,
      fun domain hMem => (hDomain domain hMem).2⟩
  · rintro ⟨⟨hInserts, hDomains⟩, hBadges⟩
    refine ⟨hInserts, fun domain hMem => ?_⟩
    rcases eq_or_ne domain [] with rfl | hSome
    · have hNone : Unforged [] := by
        intro line hLine
        cases hLine
      exact ⟨hNone, by decide⟩
    · have hThere := mem_reportDomains.mpr ⟨hMem, hSome⟩
      exact ⟨hDomains domain hThere, hBadges domain hThere⟩

end Report

/-- A rendered report has its landmarks, and no others, if and only if its texts bring none in. -/
theorem renderMarkdown_wellMarked {isoformat : Instant → Text} (report : Report)
    (hIso : '\n' ∉ isoformat report.generatedAt) :
    WellMarked report (renderMarkdown isoformat report) ↔ report.Unforged := by
  have hTally (landmark : Landmark) :
      (linesOf (renderMarkdown isoformat report)).countP landmark.test =
        landmark.expected report +
          ((reportDomains report).map fun domain => landmark.ofDomain (firstLine domain)).sum +
          ((report.inserts ++ reportDomains report).flatMap laterLines).countP landmark.test := by
    have hLines := reportLines_tallies landmark hIso
    rw [List.append_nil] at hLines
    rw [linesOf_renderMarkdown]
    exact hLines
  rw [wellMarked_iff, unforged_iff, ← laterLines_count, ← ofDomain_sum]
  constructor
  · intro h
    constructor
    · intro landmark
      have hSame := h landmark
      rw [hTally] at hSame
      omega
    · intro landmark
      have hSame := h landmark
      rw [hTally] at hSame
      omega
  · rintro ⟨hTexts, hDomains⟩ landmark
    rw [hTally, hTexts, hDomains]
    rfl

/-- For example the report on caches. -/
theorem renderMarkdown_wellMarked_caches : '\n' ∉ newYear cacheReport.generatedAt ∧
    WellMarked cacheReport (renderMarkdown newYear cacheReport) ∧ cacheReport.Unforged := by
  have hIso : '\n' ∉ newYear cacheReport.generatedAt := by decide
  have hMarked : WellMarked cacheReport (renderMarkdown newYear cacheReport) :=
    ⟨by decide +kernel, by decide +kernel, by decide +kernel⟩
  exact ⟨hIso, hMarked, (renderMarkdown_wellMarked cacheReport hIso).mp hMarked⟩

/-- A report with a conclusion of two lines, the second of which looks like another conclusion. -/
def forgedReport : Report :=
  ⟨"run-1".toList, "Caches".toList, 0, [{
    id := "c-1".toList
    text := "They help.\n### 2. They do.".toList
    confidence := none
    humanReviewRequired := false
    oneSided := true
    contradictionWarnings := []
    supportMatrix := []
    evidenceStatements := [] }]⟩

/-- Its document has two headings. -/
theorem forgedReport_headings : ¬ ∀ (isoformat : Instant → Text) (report : Report),
    '\n' ∉ isoformat report.generatedAt →
    (∀ conclusion ∈ report.conclusions, 1 ≤ conclusion.text.length ∧
      conclusion.text.length ≤ 2000) →
    WellMarked report (renderMarkdown isoformat report) := by
  intro h
  have hMarked := h newYear forgedReport (by decide) (by decide)
  have hTwo : (linesOf (renderMarkdown newYear forgedReport)).countP
      (Text.startsWith "### ".toList) = 2 := by decide +kernel
  have hOne : (linesOf (renderMarkdown newYear forgedReport)).countP
      (Text.startsWith "### ".toList) = 1 := hMarked.headings
  omega

end Ecrke
