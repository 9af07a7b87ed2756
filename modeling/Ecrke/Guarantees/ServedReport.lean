import Ecrke.Guarantees.Verdicts
import Ecrke.Services.ReportRenderer
import Ecrke.Services.SecretNames

/-!
# Redaction of a rendered report

`get_report` renders a report and redacts the whole document.  Where every field of the report is
redacted already, this is meant to change nothing.

* `Report.rendered` -- the text fields of a report which are rendered.
* `secretFree_lines` -- a document of lines which begin with markup.
* `Renders`, `bodyLines_renders` -- the lines of a report, and the fields in them.
* `renderMarkdown_redacted` -- when redaction leaves the document alone.
-/

namespace Ecrke

open Regex

/-- The text fields of a row of the support matrix. -/
def ReportSupportEntry.fields (entry : ReportSupportEntry) : List Text :=
  [entry.statementId, entry.passageId, entry.supportScore]

/-- The text fields of a cited statement. -/
def ReportEvidenceStatement.fields (evidence : ReportEvidenceStatement) : List Text :=
  [evidence.id, evidence.sourceDomain, evidence.text]

/-- The text fields of a conclusion which are rendered: all but its identifier. -/
def ReportConclusion.rendered (conclusion : ReportConclusion) : List Text :=
  conclusion.text :: conclusion.contradictionWarnings ++
    conclusion.supportMatrix.flatMap ReportSupportEntry.fields ++
    conclusion.evidenceStatements.flatMap ReportEvidenceStatement.fields

/-- The text fields of a report which are rendered. -/
def Report.rendered (report : Report) : List Text :=
  report.topic :: report.runId :: report.conclusions.flatMap ReportConclusion.rendered

/-- The characters of `datetime.isoformat`. -/
def isIsoChar (c : Char) : Bool := c.isDigit || "T:+-.".toList.contains c

/-- Time stamps are made of digits and a few other characters. -/
def IsoTimes (isoformat : Instant → Text) : Prop := ∀ time, ∀ c ∈ isoformat time, isIsoChar c = true

/-! ## Texts without letters of secrets -/

/-- The letters at least one of which every name and every key contains. -/
def isNameLetter (c : Char) : Bool := "sSſkK\u212Az_".toList.contains c

theorem needs_literalIgnoringCase {letters : Char → Prop} {t : Text} {c : Char} (hMem : c ∈ t)
    (hLetter : ∀ d ∈ caseVariants c, letters d) : Needs letters (literalIgnoringCase t) := by
  induction t with
  | nil => simp at hMem
  | cons d rest ih =>
      rcases List.mem_cons.mp hMem with rfl | hRest
      · left
        intro e he
        exact hLetter e (List.contains_iff_mem.mp he)
      · exact .inr (ih hRest)

theorem names_needs (u : Unicode) : ∀ pattern ∈ namePattern u :: keyPatterns u,
    Needs (fun c => isNameLetter c = true) pattern := by
  have hVariants (c : Char) (h : (caseVariants c).all isNameLetter = true) :
      ∀ d ∈ caseVariants c, isNameLetter d = true := List.all_eq_true.mp h
  simp only [keyPatterns, List.forall_mem_cons]
  refine ⟨?_, ?_, ?_, ?_, ?_, by simp⟩
  · right
    left
    refine ⟨?_, ?_, ?_, ?_, ?_⟩
    · exact needs_literalIgnoringCase (c := 's') (by decide) (hVariants _ (by decide))
    · exact needs_literalIgnoringCase (c := 's') (by decide) (hVariants _ (by decide))
    · exact needs_literalIgnoringCase (c := 's') (by decide) (hVariants _ (by decide))
    · exact needs_literalIgnoringCase (c := 'k') (by decide) (hVariants _ (by decide))
    · right
      right
      exact needs_literalIgnoringCase (c := 'k') (by decide) (hVariants _ (by decide))
  · exact .inr (.inl (needs_literal (c := 'k') (by decide) (by decide)))
  · exact .inr (.inl (needs_literal (c := 'z') (by decide) (by decide)))
  · exact .inr (.inr (.inr (.inl (needs_literal (c := '_') (by decide) (by decide)))))
  · exact .inr (.inl (needs_literal (c := 'K') (by decide) (by decide)))

theorem inert_of_letters (u : Unicode) {text : Text} (h : ∀ c ∈ text, isNameLetter c = false) :
    Inert u text := by
  intro pattern hPattern
  apply absent_of_needs (names_needs u pattern hPattern)
  intro c hc hLetter
  rw [h c hc] at hLetter
  cases hLetter

/-- The characters of numbers and of time stamps are no such letters. -/
theorem isNameLetter_iso {c : Char} (h : isIsoChar c = true) : isNameLetter c = false := by
  cases hLetter : isNameLetter c with
  | false => rfl
  | true =>
      have hAll : ("sSſkK\u212Az_".toList).all (fun c => !isIsoChar c) = true := by decide
      have hNot := List.all_eq_true.mp hAll c (List.contains_iff_mem.mp hLetter)
      rw [h] at hNot
      cases hNot

/-- A number or a time stamp behind markup which has no such letters either. -/
theorem inert_marked (u : Unicode) {marks value : Text}
    (hMarks : marks.all (fun c => !isNameLetter c) = true)
    (hValue : ∀ c ∈ value, isIsoChar c = true) : Inert u (marks ++ value) := by
  apply inert_of_letters
  intro c hc
  rcases List.mem_append.mp hc with hMark | hHere
  · have hNot := List.all_eq_true.mp hMarks c hMark
    rwa [Bool.not_eq_true'] at hNot
  · exact isNameLetter_iso (hValue c hHere)

/-! ## Documents of lines -/

section Lines

variable {u : Unicode} {lines : List Text} {line last : Text}

/-- A line which is empty or begins with markup. -/
def MarkupLine (line : Text) : Prop := line = [] ∨ StartsMarkup line

theorem StartsMarkup.append (h : StartsMarkup line) (later : Text) : StartsMarkup (line ++ later) := by
  obtain ⟨c, rest, hFirst, hValue, hColon⟩ := h
  exact ⟨c, rest ++ later, afterBlanks_of_cons hFirst, hValue, hColon⟩

theorem StartsMarkup.newline (h : StartsMarkup line) : StartsMarkup ('\n' :: line) := h

theorem join_line (line next : Text) (more : List Text) :
    Text.join "\n".toList (line :: next :: more) =
      line ++ '\n' :: Text.join "\n".toList (next :: more) := by
  unfold Text.join
  rw [List.intercalate_cons_cons, List.append_assoc]
  rfl

/-- A document of lines is free of secrets if and only if its last line is, and every other one may
stand in front of anything. -/
theorem secretFree_lines (hLines : ∀ line ∈ lines, MarkupLine line) (hLast : StartsMarkup last) :
    (SecretFree u (Text.join "\n".toList (lines ++ [last, []])) ↔
      (∀ line ∈ lines, SelfContained u line) ∧ SecretFree u last) ∧
      StartsMarkup (Text.join "\n".toList (lines ++ [last, []])) := by
  induction lines with
  | nil =>
      have hText : Text.join "\n".toList [last, []] = last ++ ['\n'] := by
        rw [join_line]
        rfl
      rw [List.nil_append, hText, secretFree_newline]
      exact ⟨by simp, hLast.append _⟩
  | cons line rest ih =>
      rw [List.forall_mem_cons] at hLines
      obtain ⟨hFree, hMarkup⟩ := ih hLines.2
      have hText : Text.join "\n".toList (line :: rest ++ [last, []]) =
          line ++ '\n' :: Text.join "\n".toList (rest ++ [last, []]) := by
        cases rest with
        | nil => exact join_line line last [[]]
        | cons next more => exact join_line line next (more ++ [last, []])
      rw [hText]
      constructor
      · rw [secretFree_split rfl hMarkup.newline, hFree, List.forall_mem_cons, ← and_assoc]
        rfl
      · rcases hLines.1 with rfl | hFirst
        · exact hMarkup.newline
        · exact hFirst.append _

end Lines

/-! ## The lines of a report -/

/-- Lines which begin with markup, and which may stand in front of anything if and only if some
fields may. -/
structure Renders (u : Unicode) (lines fields : List Text) : Prop where
  markup : ∀ line ∈ lines, MarkupLine line
  iff : (∀ line ∈ lines, SelfContained u line) ↔ ∀ field ∈ fields, SelfContained u field

namespace Renders

variable {u : Unicode} {lines later fields others : List Text}

theorem nil : Renders u [] [] := ⟨by simp, by simp⟩

theorem append (h : Renders u lines fields) (hLater : Renders u later others) :
    Renders u (lines ++ later) (fields ++ others) := by
  constructor
  · intro line hLine
    exact (List.mem_append.mp hLine).elim (h.markup line) (hLater.markup line)
  · rw [List.forall_mem_append, List.forall_mem_append, h.iff, hLater.iff]

theorem one {line : Text} (hMarkup : MarkupLine line)
    (h : SelfContained u line ↔ ∀ field ∈ fields, SelfContained u field) :
    Renders u [line] fields := by
  constructor
  · simpa using hMarkup
  · simpa using h

theorem flatMap {α : Type} {items : List α} {linesOf fieldsOf : α → List Text}
    (h : ∀ item ∈ items, Renders u (linesOf item) (fieldsOf item)) :
    Renders u (items.flatMap linesOf) (items.flatMap fieldsOf) := by
  induction items with
  | nil => exact nil
  | cons item rest ih =>
      rw [List.flatMap_cons, List.flatMap_cons]
      exact (h item (by simp)).append (ih fun other hOther => h other (by simp [hOther]))

theorem map {α : Type} {items : List α} {lineOf : α → Text} {fieldsOf : α → List Text}
    (h : ∀ item ∈ items, Renders u [lineOf item] (fieldsOf item)) :
    Renders u (items.map lineOf) (items.flatMap fieldsOf) := by
  rw [List.map_eq_flatMap]
  exact flatMap h

/-- A line which is always the same, or has no letters of names. -/
theorem fixed {line : Text} (hMarkup : MarkupLine line) (h : Inert u line) : Renders u [line] [] :=
  one hMarkup (iff_of_true h.selfContained (by simp))

theorem empty : Renders u [[]] [] := fixed (.inl rfl) (inert_of_nowhere rfl)

/-- A field behind some markup. -/
theorem lead {markup field : Text} {c : Char} (hMarkup : StartsMarkup markup)
    (h : Inert u markup) (hc : isSeparator c = true) :
    Renders u [markup ++ c :: field] [field] := by
  apply one (.inr (hMarkup.append _))
  rw [(inert_split h hc).2]
  simp

/-- A line which is always the same, found out by computing. -/
theorem same {line : Text} (hMarkup : StartsMarkup line)
    (h : ((namePattern u :: keyPatterns u).all fun pattern => nowhere pattern line) = true) :
    Renders u [line] [] :=
  fixed (.inr hMarkup) (inert_of_nowhere h)

/-- A table under a heading, which is left out when it has no rows. -/
theorem block {α : Type} {items : List α} {lineOf : α → Text} {fieldsOf : α → List Text}
    (hHeading : Renders u lines []) (h : ∀ item ∈ items, Renders u [lineOf item] (fieldsOf item)) :
    Renders u (if items.isEmpty then [] else lines ++ items.map lineOf)
      (items.flatMap fieldsOf) := by
  split
  case isTrue hNone =>
    rw [List.isEmpty_iff.mp hNone]
    exact nil
  case isFalse => exact hHeading.append (map h)

end Renders

section Report

variable (u : Unicode)

theorem support_renders (entry : ReportSupportEntry) :
    Renders u ["  | ".toList ++ entry.statementId ++ " | ".toList ++ entry.passageId ++
      " | ".toList ++ entry.supportScore ++ " |".toList] entry.fields := by
  have hLine : "  | ".toList ++ entry.statementId ++ " | ".toList ++ entry.passageId ++
      " | ".toList ++ entry.supportScore ++ " |".toList =
      "  |".toList ++ ' ' :: (entry.statementId ++ ' ' :: ("|".toList ++ ' ' :: (entry.passageId ++
        ' ' :: ("|".toList ++ ' ' :: (entry.supportScore ++ ' ' :: "|".toList))))) := by simp
  have hBar : Inert u "|".toList := inert_of_nowhere rfl
  have hStart : Inert u "  |".toList := inert_of_nowhere rfl
  have hMarkup (later : Text) : StartsMarkup (' ' :: ("|".toList ++ later)) :=
    ⟨'|', later, rfl, rfl, rfl⟩
  have hLast : StartsMarkup (' ' :: "|".toList) := ⟨'|', [], rfl, rfl, rfl⟩
  rw [hLine]
  apply Renders.one
  · exact .inr ⟨'|', _, rfl, rfl, rfl⟩
  · rw [(inert_split hStart rfl).2, selfContained_split rfl (hMarkup _),
      (inert_split hBar rfl).2, selfContained_split rfl (hMarkup _), (inert_split hBar rfl).2,
      selfContained_split rfl hLast, and_iff_left hBar.selfContained]
    simp [ReportSupportEntry.fields]

theorem evidence_renders (evidence : ReportEvidenceStatement) :
    Renders u ["  - `".toList ++ evidence.id ++ "` (".toList ++ evidence.sourceDomain ++
      "): ".toList ++ evidence.text] evidence.fields := by
  have hLine : "  - `".toList ++ evidence.id ++ "` (".toList ++ evidence.sourceDomain ++
      "): ".toList ++ evidence.text =
      "  - ".toList ++ '`' :: (evidence.id ++ '`' :: (" ".toList ++ '(' :: (evidence.sourceDomain ++
        ')' :: (":".toList ++ ' ' :: evidence.text)))) := by simp
  have hStart : Inert u "  - ".toList := inert_of_nowhere rfl
  have hSpace : Inert u " ".toList := inert_of_nowhere rfl
  have hColon : Inert u ":".toList := inert_of_nowhere rfl
  have hQuote (later : Text) : StartsMarkup ('`' :: later) := ⟨'`', later, rfl, rfl, rfl⟩
  have hParen (later : Text) : StartsMarkup (')' :: later) := ⟨')', later, rfl, rfl, rfl⟩
  rw [hLine]
  apply Renders.one
  · exact .inr ⟨'-', _, rfl, rfl, rfl⟩
  · rw [(inert_split hStart rfl).2, selfContained_split rfl (hQuote _),
      (inert_split hSpace rfl).2, selfContained_split rfl (hParen _), (inert_split hColon rfl).2]
    simp [ReportEvidenceStatement.fields]

theorem title_renders (index : Nat) (text : Text) :
    Renders u ["### ".toList ++ Text.ofNat index ++ ". ".toList ++ text] [text] := by
  have hLine : "### ".toList ++ Text.ofNat index ++ ". ".toList ++ text =
      ("### ".toList ++ (Text.ofNat index ++ ['.'])) ++ ' ' :: text := by simp
  have hNumber : ∀ c ∈ Text.ofNat index ++ ['.'], isIsoChar c = true := by
    intro c hc
    rcases List.mem_append.mp hc with hDigit | hDot
    · have hDigit : c.isDigit = true := Nat.isDigit_of_mem_toDigits (by decide) (by decide) hDigit
      rw [isIsoChar, hDigit, Bool.true_or]
    · rw [List.mem_singleton.mp hDot]
      rfl
  rw [hLine]
  exact .lead ⟨'#', _, rfl, rfl, rfl⟩ (inert_marked u rfl hNumber) rfl

theorem confidence_renders (confidence : ℚ) :
    Renders u ["- Confidence: ".toList ++ Text.ofFixed 2 confidence] [] := by
  apply Renders.fixed
  · exact .inr ⟨'-', _, rfl, rfl, rfl⟩
  · apply inert_marked u rfl
    intro c hc
    rcases Text.mem_ofFixed hc with hDigit | rfl
    · rw [isIsoChar, hDigit, Bool.true_or]
    · rfl

theorem warning_renders (warning : Text) : Renders u ["  - ".toList ++ warning] [warning] := by
  show Renders u ["  -".toList ++ ' ' :: warning] [warning]
  exact .lead ⟨'-', _, rfl, rfl, rfl⟩ (inert_of_nowhere rfl) rfl

theorem conclusionLines_renders (index : Nat) (conclusion : ReportConclusion) :
    Renders u (conclusionLines index conclusion) conclusion.rendered := by
  -- The confidence and the two flags are rendered too, but they are no fields of text.
  have hFields : conclusion.rendered = [conclusion.text] ++ [] ++ [] ++ [] ++
      conclusion.contradictionWarnings.flatMap (fun warning => [warning]) ++
      conclusion.supportMatrix.flatMap ReportSupportEntry.fields ++
      conclusion.evidenceStatements.flatMap ReportEvidenceStatement.fields ++ [] := by
    simp [ReportConclusion.rendered]
  have hWarnings : Renders u ["- Contradiction warnings:".toList] [] :=
    .same ⟨'-', _, rfl, rfl, rfl⟩ rfl
  have hMatrix : Renders u ["- Support matrix:".toList] [] := .same ⟨'-', _, rfl, rfl, rfl⟩ rfl
  have hNames : Renders u ["  | statement_id | passage_id | support_score |".toList] [] :=
    .same ⟨'|', _, rfl, rfl, rfl⟩ rfl
  have hRule : Renders u ["  |---|---|---|".toList] [] := .same ⟨'|', _, rfl, rfl, rfl⟩ rfl
  have hEvidence : Renders u ["- Evidence statements:".toList] [] :=
    .same ⟨'-', _, rfl, rfl, rfl⟩ rfl
  rw [hFields]
  unfold conclusionLines
  apply Renders.append _ .empty
  apply Renders.append
  apply Renders.append
  apply Renders.append
  apply Renders.append
  apply Renders.append
  apply Renders.append
  · exact (title_renders u index conclusion.text).append .empty
  · split
    · exact confidence_renders u _
    · exact .same ⟨'-', _, rfl, rfl, rfl⟩ rfl
  · split
    · exact .same ⟨'-', _, rfl, rfl, rfl⟩ rfl
    · exact .nil
  · split
    · exact .same ⟨'-', _, rfl, rfl, rfl⟩ rfl
    · exact .same ⟨'-', _, rfl, rfl, rfl⟩ rfl
  · exact .block hWarnings fun warning _ => warning_renders u warning
  · exact .block (hMatrix.append (hNames.append hRule)) fun entry _ => support_renders u entry
  · exact .block hEvidence fun evidence _ => evidence_renders u evidence

theorem conclusions_render (conclusions : List ReportConclusion) (index : Nat) :
    Renders u ((conclusions.zipIdx index).flatMap fun entry => conclusionLines entry.2 entry.1)
      (conclusions.flatMap ReportConclusion.rendered) := by
  induction conclusions generalizing index with
  | nil => exact .nil
  | cons conclusion rest ih =>
      rw [List.zipIdx_cons, List.flatMap_cons, List.flatMap_cons]
      exact (conclusionLines_renders u index conclusion).append (ih (index + 1))

/-- The source domains are fields of the conclusions. -/
theorem mem_rendered_of_mem_domains {report : Report} {domain : Text}
    (h : domain ∈ reportDomains report) : domain ∈ report.rendered := by
  rw [reportDomains, List.mem_mergeSort, List.mem_dedup] at h
  obtain ⟨evidence, hEvidence, rfl⟩ := List.mem_map.mp (List.mem_of_mem_filter h)
  obtain ⟨conclusion, hConclusion, hEvidence⟩ := List.mem_flatMap.mp hEvidence
  have hField : evidence.sourceDomain ∈ evidence.fields := by simp [ReportEvidenceStatement.fields]
  have hConclusionField : evidence.sourceDomain ∈ conclusion.rendered :=
    List.mem_append_right _ (List.mem_flatMap.mpr ⟨evidence, hEvidence, hField⟩)
  exact List.mem_cons_of_mem _ (List.mem_cons_of_mem _
    (List.mem_flatMap.mpr ⟨conclusion, hConclusion, hConclusionField⟩))

/-- The lines in front of the references. -/
def bodyLines (isoformat : Instant → Text) (report : Report) : List Text :=
  ["# ".toList ++ report.topic, [], "- Run ID: ".toList ++ report.runId,
    "- Generated at: ".toList ++ isoformat report.generatedAt, [], "## Conclusions".toList, []] ++
  (report.conclusions.zipIdx 1).flatMap (fun entry => conclusionLines entry.2 entry.1) ++
  ["## References".toList, []]

theorem bodyLines_renders {isoformat : Instant → Text} (hIso : IsoTimes isoformat) (report : Report) :
    Renders u (bodyLines isoformat report) report.rendered := by
  have hTopic : Renders u ["# ".toList ++ report.topic] [report.topic] := by
    show Renders u ["#".toList ++ ' ' :: report.topic] [report.topic]
    exact .lead ⟨'#', _, rfl, rfl, rfl⟩ (inert_of_nowhere rfl) rfl
  have hRunId : Renders u ["- Run ID: ".toList ++ report.runId] [report.runId] := by
    show Renders u ["- Run ID:".toList ++ ' ' :: report.runId] [report.runId]
    exact .lead ⟨'-', _, rfl, rfl, rfl⟩ (inert_of_nowhere rfl) rfl
  have hGenerated : Renders u ["- Generated at: ".toList ++ isoformat report.generatedAt] [] :=
    .fixed (.inr ⟨'-', _, rfl, rfl, rfl⟩) (inert_marked u rfl (hIso report.generatedAt))
  have hConclusions : Renders u ["## Conclusions".toList] [] := .same ⟨'#', _, rfl, rfl, rfl⟩ rfl
  have hReferences : Renders u ["## References".toList] [] := .same ⟨'#', _, rfl, rfl, rfl⟩ rfl
  have hHead := hTopic.append (.append .empty (hRunId.append (hGenerated.append
    (.append .empty (hConclusions.append .empty)))))
  have hBody := (hHead.append (conclusions_render u report.conclusions 1)).append
    (hReferences.append .empty)
  have hFields : report.rendered = [report.topic] ++ ([] ++ ([report.runId] ++ ([] ++ ([] ++
      ([] ++ []))))) ++ report.conclusions.flatMap ReportConclusion.rendered ++ ([] ++ []) := by
    simp [Report.rendered]
  rw [hFields]
  exact hBody

/-- The lines of the references. -/
def referenceLines (report : Report) : List Text :=
  if (reportDomains report).isEmpty then ["- none".toList]
  else (reportDomains report).map fun domain => "- ".toList ++ domain

theorem referenceLines_ne_nil (report : Report) : referenceLines report ≠ [] := by
  unfold referenceLines
  split
  · simp
  case isFalse hSome => simpa using hSome

/-- A reference is as clean as the fields of the report. -/
theorem referenceLines_clean {report : Report} {line : Text} (hLine : line ∈ referenceLines report) :
    StartsMarkup line ∧
      ((∀ field ∈ report.rendered, SecretFree u field) → SecretFree u line) ∧
      ((∀ field ∈ report.rendered, SelfContained u field) → SelfContained u line) := by
  unfold referenceLines at hLine
  split at hLine
  · rw [List.mem_singleton.mp hLine]
    have hNone : SelfContained u "- none".toList := (inert_of_nowhere rfl).selfContained
    exact ⟨⟨'-', _, rfl, rfl, rfl⟩, fun _ => hNone.1, fun _ => hNone⟩
  · obtain ⟨domain, hDomain, rfl⟩ := List.mem_map.mp hLine
    have hField := mem_rendered_of_mem_domains hDomain
    have hDash : Inert u "-".toList := inert_of_nowhere rfl
    have hSplit : (SecretFree u ("-".toList ++ ' ' :: domain) ↔ SecretFree u domain) ∧
        (SelfContained u ("-".toList ++ ' ' :: domain) ↔ SelfContained u domain) :=
      inert_split hDash rfl
    refine ⟨⟨'-', _, rfl, rfl, rfl⟩, ?_, ?_⟩
    · intro hFree
      exact hSplit.1.mpr (hFree domain hField)
    · intro hContained
      exact hSplit.2.mpr (hContained domain hField)

/-- A report with clean fields is free of secrets if and only if no field awaits a value. -/
theorem renderMarkdown_secretFree {isoformat : Instant → Text} (hIso : IsoTimes isoformat)
    {report : Report} (hClean : ∀ field ∈ report.rendered, SecretFree u field) :
    SecretFree u (renderMarkdown isoformat report) ↔
      ∀ field ∈ report.rendered, ¬ OpenSecret u field := by
  obtain ⟨first, last, hReferences⟩ : ∃ first last, referenceLines report = first ++ [last] := by
    rcases List.eq_nil_or_concat (referenceLines report) with hNone | ⟨first, last, hSome⟩
    · exact absurd hNone (referenceLines_ne_nil report)
    · exact ⟨first, last, by rw [hSome, List.concat_eq_append]⟩
  have hLines : reportLines isoformat report =
      bodyLines isoformat report ++ first ++ [last, []] := by
    calc reportLines isoformat report
        = bodyLines isoformat report ++ referenceLines report ++ [[]] := rfl
      _ = _ := by rw [hReferences]; simp
  have hRefer {line : Text} (hLine : line ∈ first ++ [last]) :=
    referenceLines_clean u (hReferences ▸ hLine)
  have hLast := hRefer (List.mem_append_right _ (List.mem_singleton_self last))
  have hFirst (line : Text) (hLine : line ∈ first) := hRefer (List.mem_append_left [last] hLine)
  have hBody := bodyLines_renders u hIso report
  have hMarkup : ∀ line ∈ bodyLines isoformat report ++ first, MarkupLine line := by
    intro line hLine
    rcases List.mem_append.mp hLine with hThere | hThere
    · exact hBody.markup line hThere
    · exact .inr (hFirst line hThere).1
  rw [renderMarkdown, hLines, (secretFree_lines hMarkup hLast.1).1, List.forall_mem_append, hBody.iff]
  constructor
  · rintro ⟨⟨hFields, -⟩, -⟩ field hField
    exact (hFields field hField).2
  · intro hClosed
    have hFields : ∀ field ∈ report.rendered, SelfContained u field :=
      fun field hField => ⟨hClean field hField, hClosed field hField⟩
    exact ⟨⟨hFields, fun line hLine => (hFirst line hLine).2.2 hFields⟩, hLast.2.1 hClean⟩

/-- Redaction leaves a rendered report with redacted fields alone if and only if no field ends
before the value of a secret. -/
theorem renderMarkdown_redacted {isoformat : Instant → Text} (hIso : IsoTimes isoformat)
    (report : Report) (hClean : ∀ field ∈ report.rendered, redactSecrets u field = field) :
    redactSecrets u (renderMarkdown isoformat report) = renderMarkdown isoformat report ↔
      ∀ field ∈ report.rendered, ¬ OpenSecret u field := by
  rw [redactSecrets_eq_self_iff]
  apply renderMarkdown_secretFree u hIso
  intro field hField
  rw [← redactSecrets_eq_self_iff]
  exact hClean field hField

end Report

/-- A time stamp. -/
def newYear : Instant → Text := fun _ => "2024-01-01T00:00:00+00:00".toList

theorem newYear_iso : IsoTimes newYear := fun _ => List.all_eq_true.mp rfl

/-- A report on caches. -/
def cacheReport : Report :=
  ⟨"run-1".toList, "Caches".toList, 0, [{
    id := "c-1".toList
    text := "They help.".toList
    confidence := none
    humanReviewRequired := false
    oneSided := true
    contradictionWarnings := []
    supportMatrix := []
    evidenceStatements := [⟨"s-1".toList, "They do.".toList, "a.org".toList⟩] }]⟩

/-- Its fields have no names of secrets in them. -/
theorem renderMarkdown_redacted_caches :
    redactSecrets Platform.plain.unicode (renderMarkdown newYear cacheReport) =
      renderMarkdown newYear cacheReport := by
  have hAll : cacheReport.rendered.all (fun field =>
      (namePattern Platform.plain.unicode :: keyPatterns Platform.plain.unicode).all (nowhere · field)) = true := rfl
  have hContained (field : Text) (hField : field ∈ cacheReport.rendered) :
      SelfContained Platform.plain.unicode field :=
    (inert_of_nowhere (List.all_eq_true.mp hAll field hField)).selfContained
  apply (renderMarkdown_redacted Platform.plain.unicode newYear_iso cacheReport ?_).mpr
  · intro field hField
    exact (hContained field hField).2
  · intro field hField
    rw [redactSecrets_eq_self_iff]
    exact (hContained field hField).1

/-- A report on forgotten passwords, without conclusions. -/
def passwordReport : Report := ⟨"run-1".toList, "Reset a forgotten password:".toList, 0, []⟩

/-- The next line of the report passes for the password. -/
theorem passwordReport_damaged : ¬ ∀ (u : Unicode) (isoformat : Instant → Text) (report : Report),
    IsoTimes isoformat → (∀ field ∈ report.rendered, redactSecrets u field = field) →
    redactSecrets u (renderMarkdown isoformat report) = renderMarkdown isoformat report := by
  intro h
  have hAll : passwordReport.rendered.all (fun field =>
      (secretPatterns Platform.plain.unicode).all fun entry => nowhere entry.1 field) = true := rfl
  have hFree (field : Text) (hField : field ∈ passwordReport.rendered) :
      SecretFree Platform.plain.unicode field := by
    intro entry hEntry
    have hHere := List.all_eq_true.mp hAll field hField
    exact absent_of_nowhere (List.all_eq_true.mp hHere entry hEntry)
  have hSame := h Platform.plain.unicode newYear passwordReport newYear_iso fun field hField => by
    rw [redactSecrets_eq_self_iff]
    exact hFree field hField
  rw [redactSecrets_eq_self_iff, renderMarkdown_secretFree Platform.plain.unicode newYear_iso hFree] at hSame
  have hStops : (namePattern Platform.plain.unicode).stops
      ⟨"Reset a forgotten ".toList.reverse, "password:".toList⟩ =
      [⟨"Reset a forgotten password".toList.reverse, ":".toList⟩] := rfl
  obtain ⟨taken, hTaken, -, hTakes⟩ := takes_of_mem (hStops ▸ List.mem_singleton_self _)
  refine hSame _ (List.mem_cons_self ..) ⟨":".toList, ⟨_, taken, ?_, hTakes⟩, ':', [], rfl, rfl, rfl⟩
  rw [← hTaken]
  rfl

end Ecrke
