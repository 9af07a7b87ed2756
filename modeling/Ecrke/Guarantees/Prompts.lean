import Ecrke.Services.Extractor
import Ecrke.Services.ReportGenerator
import Ecrke.Services.Verifier
import Ecrke.Text.Delimiters

/-!
# What a data block says

The user messages hold data between delimiters.  A text is put there as it is, so it can hold
delimiters itself.

* `judgeSeparator`, `pairSeparator`, `Separated` -- the blocks of two texts.
* `synthesisBlock`, `ForgesStatement`, `ForgesConflict` -- the block of the synthesis.
* `blocks_determine` -- when a block determines the fields it was built from.
* `blocks_collide` -- different fields with the same block.
-/

namespace Ecrke

open Delimiters

/-! ## Two texts -/

/-- What stands between the two texts of the judge's block. -/
def judgeSeparator : Text := "\n</statement_data>\n\n".toList ++ "<passage_data>\n".toList

/-- What stands between the two texts of the detector's blocks. -/
def pairSeparator : Text := "\n</statement_a_data>\n\n".toList ++ "<statement_b_data>\n".toList

/-- Two texts around a separator which occurs nowhere else, not even partly in a text and partly in
the line break next to it. -/
def Separated (separator a b : Text) : Prop :=
  ¬ separator <:+: a ++ ['\n'] ∧ ¬ separator <:+: ['\n'] ++ b

theorem judgeSeparator_borderless : Borderless judgeSeparator := by
  have hAll : ∀ k < judgeSeparator.length, 2 ≤ k →
      judgeSeparator.drop (judgeSeparator.length - k) ≠ judgeSeparator.take k := by decide
  exact fun k hk hLess => hAll k hLess hk

theorem pairSeparator_borderless : Borderless pairSeparator := by
  have hAll : ∀ k < pairSeparator.length, 2 ≤ k →
      pairSeparator.drop (pairSeparator.length - k) ≠ pairSeparator.take k := by decide
  exact fun k hk hLess => hAll k hLess hk

/-- An enclosed block determines its two texts exactly when they are separated. -/
theorem enclosed_unique_iff {separator : Text} (hBorder : Borderless separator)
    (hLong : 2 ≤ separator.length) (hFirst : separator.take 1 = ['\n'])
    (hLast : separator.drop (separator.length - 1) = ['\n']) (front back a b : Text) :
    (∀ a' b', front ++ (a' ++ separator ++ b') ++ back = front ++ (a ++ separator ++ b) ++ back →
      a' = a ∧ b' = b) ↔ Separated separator a b := by
  have hNonempty : separator ≠ [] := by
    rintro rfl
    simp at hLong
  rw [Separated, ← hFirst, ← infix_dropLast_iff hBorder hLong, hFirst, ← hLast,
    ← infix_tail_iff hBorder hLong, ← split_unique_iff hNonempty]
  simp only [List.append_cancel_left_eq, List.append_cancel_right_eq]

theorem enclosed_assoc (front before after back a b : Text) :
    front ++ a ++ before ++ after ++ b ++ back = front ++ (a ++ (before ++ after) ++ b) ++ back := by
  simp only [List.append_assoc]

theorem judgeBlock_eq (a b : Text) : (buildJudgePrompt a b).2 =
    "<statement_data>\n".toList ++ (a ++ judgeSeparator ++ b) ++ "\n</passage_data>".toList :=
  enclosed_assoc _ _ _ _ a b

theorem pairDataBlock_eq (a b : Text) : pairDataBlock a b =
    "<statement_a_data>\n".toList ++ (a ++ pairSeparator ++ b) ++
      "\n</statement_b_data>".toList :=
  enclosed_assoc _ _ _ _ a b

theorem judgeBlock_unique_iff (a b : Text) :
    (∀ a' b', (buildJudgePrompt a' b').2 = (buildJudgePrompt a b).2 → a' = a ∧ b' = b) ↔
      Separated judgeSeparator a b := by
  simp only [judgeBlock_eq]
  exact enclosed_unique_iff judgeSeparator_borderless (by decide) (by decide) (by decide) _ _ a b

theorem pairBlock_unique_iff (a b : Text) :
    (∀ a' b', pairDataBlock a' b' = pairDataBlock a b → a' = a ∧ b' = b) ↔
      Separated pairSeparator a b := by
  simp only [pairDataBlock_eq]
  exact enclosed_unique_iff pairSeparator_borderless (by decide) (by decide) (by decide) _ _ a b

/-! ## A passage -/

/-- The identifier has a fixed length, so nothing in the passage can be taken for a part of it. -/
theorem buildDataBlock_injective {id id' : Uuid} {text text' : Text}
    (h : buildDataBlock id text = buildDataBlock id' text') : id = id' ∧ text = text' := by
  unfold buildDataBlock at h
  have hBack := List.append_cancel_right h
  rw [List.append_assoc, List.append_assoc, List.append_assoc, List.append_assoc] at hBack
  obtain ⟨hId, hText⟩ := List.append_inj (List.append_cancel_left hBack)
    (by rw [Uuid.length_str, Uuid.length_str])
  exact ⟨Uuid.str_injective hId, List.append_cancel_left hText⟩

/-! ## The synthesis -/

/-- The lines of a text. -/
def linesOf (text : Text) : List Text := text.splitOn '\n'

/-- The opening line of a statement. -/
def statementLine (id : Uuid) : Text := "<statement id=\"".toList ++ id.str ++ "\">".toList

/-- The opening line of a contradiction. -/
def conflictLine (a b : Uuid) : Text :=
  "<contradiction statement_a=\"".toList ++ a.str ++ "\" statement_b=\"".toList ++ b.str ++
    "\">".toList

/-- The data block of the synthesis over statements and contradictions, as `generate` builds it. -/
def synthesisBlock (statements : List (Uuid × Text)) (conflicts : List (Uuid × Uuid × Text)) :
    Text :=
  (buildSynthesisPrompt (statements.map fun e => (e.1.str, e.2))
    (conflicts.map fun e => (e.1.str, e.2.1.str, e.2.2))).2

/-- Lines which start a contradiction. -/
def StartsConflict (lines : List Text) : Prop := ∃ a b rest, lines = conflictLine a b :: rest

/-- Lines which start a statement, or close the statements and start a contradiction. -/
def StartsStatement (lines : List Text) : Prop :=
  (∃ id rest, lines = statementLine id :: rest) ∨
    ∃ rest, StartsConflict rest ∧ lines =
      "</verified_statements>".toList :: [] :: "<confirmed_contradictions>".toList :: rest

/-- A statement closes its own element and goes on as if it were part of the block. -/
def ForgesStatement (text : Text) : Prop :=
  Reopens StartsStatement "</statement>".toList (linesOf text)

/-- A summary closes its own element and goes on as if it were part of the block. -/
def ForgesConflict (text : Text) : Prop :=
  Reopens StartsConflict "</contradiction>".toList (linesOf text)

/-- The lines of the contradictions. -/
def conflictLines (conflicts : List (Uuid × Uuid × Text)) : List Text :=
  render "</contradiction>".toList
    (conflicts.map fun e => (conflictLine e.1 e.2.1, linesOf e.2.2))
    ["</confirmed_contradictions>".toList]

/-- The lines of the statements, in front of a tail. -/
def statementLines (statements : List (Uuid × Text)) (tail : List Text) : List Text :=
  render "</statement>".toList (statements.map fun e => (statementLine e.1, linesOf e.2)) tail

theorem Uuid.newline_not_mem (id : Uuid) : '\n' ∉ id.str := by
  intro h
  rcases Uuid.mem_str h with hHex | hDash
  · revert hHex
    decide
  · revert hDash
    decide

/-- A text without line breaks is one line. -/
theorem linesOf_of_not_mem {text : Text} (h : '\n' ∉ text) : linesOf text = [text] :=
  List.splitOn_eq_singleton h

theorem newline_not_mem_append {a b : Text} (ha : '\n' ∉ a) (hb : '\n' ∉ b) : '\n' ∉ a ++ b := by
  rw [List.mem_append]
  exact not_or.mpr ⟨ha, hb⟩

theorem linesOf_statementLine (id : Uuid) : linesOf (statementLine id) = [statementLine id] := by
  apply linesOf_of_not_mem
  exact newline_not_mem_append (newline_not_mem_append (by decide) id.newline_not_mem) (by decide)

theorem linesOf_conflictLine (a b : Uuid) : linesOf (conflictLine a b) = [conflictLine a b] := by
  apply linesOf_of_not_mem
  exact newline_not_mem_append (newline_not_mem_append (newline_not_mem_append
    (newline_not_mem_append (by decide) a.newline_not_mem) (by decide)) b.newline_not_mem)
    (by decide)

/-- The lines of elements in front of other parts. -/
theorem flatMap_linesOf_elements {ι : Type} {close : Text} (opening body : ι → Text)
    (hOpening : ∀ e, linesOf (opening e) = [opening e]) (hClose : linesOf close = [close])
    (items : List ι) (tail : List Text) :
    (items.flatMap fun e => [opening e, body e, close]).flatMap linesOf ++ tail =
      render close (items.map fun e => (opening e, linesOf (body e))) tail := by
  induction items with
  | nil => rfl
  | cons e rest ih =>
      rw [List.flatMap_cons, List.flatMap_append, List.append_assoc, ih, List.flatMap_cons,
        List.flatMap_cons, List.flatMap_cons, hOpening, hClose, List.map_cons, render]
      simp

/-- The parts of the block as the source joins them. -/
theorem synthesisBlock_parts (statements : List (Uuid × Text))
    (conflicts : List (Uuid × Uuid × Text)) :
    synthesisBlock statements conflicts = ['\n'].intercalate
      ("<verified_statements>".toList ::
        ((statements.flatMap fun e => [statementLine e.1, e.2, "</statement>".toList]) ++
          "</verified_statements>".toList :: [] :: "<confirmed_contradictions>".toList ::
          ((conflicts.flatMap fun e =>
              [conflictLine e.1 e.2.1, e.2.2, "</contradiction>".toList]) ++
            ["</confirmed_contradictions>".toList]))) := by
  rw [synthesisBlock, buildSynthesisPrompt, List.flatMap_map, List.flatMap_map, Text.join]
  rw [List.append_assoc, List.append_assoc, List.append_assoc]
  rfl

theorem synthesisBlock_lines (statements : List (Uuid × Text))
    (conflicts : List (Uuid × Uuid × Text)) :
    linesOf (synthesisBlock statements conflicts) =
      "<verified_statements>".toList :: statementLines statements
        ("</verified_statements>".toList :: [] :: "<confirmed_contradictions>".toList ::
          conflictLines conflicts) := by
  rw [synthesisBlock_parts, linesOf, splitOn_intercalate_flatMap _ (by simp)]
  show List.flatMap linesOf _ = _
  rw [List.flatMap_cons, linesOf_of_not_mem (by decide), List.flatMap_append, List.flatMap_cons,
    List.flatMap_cons, List.flatMap_cons, linesOf_of_not_mem (by decide),
    linesOf_of_not_mem (by decide), linesOf_of_not_mem (by decide), List.flatMap_append,
    List.flatMap_cons, linesOf_of_not_mem (by decide), List.flatMap_nil, List.append_nil,
    flatMap_linesOf_elements (fun e : Uuid × Uuid × Text => conflictLine e.1 e.2.1)
      (fun e => e.2.2) (fun e => linesOf_conflictLine _ _) (linesOf_of_not_mem (by decide)),
    flatMap_linesOf_elements (fun e : Uuid × Text => statementLine e.1)
      (fun e => e.2) (fun e => linesOf_statementLine _) (linesOf_of_not_mem (by decide))]
  rfl

theorem linesOf_injective : Function.Injective linesOf := fun _ _ h => splitOn_injective h

theorem statementLine_injective {id id' : Uuid} (h : statementLine id = statementLine id') :
    id = id' :=
  Uuid.str_injective (List.append_cancel_left (List.append_cancel_right h))

theorem conflictLine_injective {a b a' b' : Uuid} (h : conflictLine a b = conflictLine a' b') :
    a = a' ∧ b = b' := by
  have hBody := List.append_cancel_right h
  rw [List.append_assoc, List.append_assoc, List.append_assoc, List.append_assoc] at hBody
  obtain ⟨hA, hRest⟩ := List.append_inj (List.append_cancel_left hBody)
    (by rw [Uuid.length_str, Uuid.length_str])
  exact ⟨Uuid.str_injective hA, Uuid.str_injective (List.append_cancel_left hRest)⟩

/-- Closing lines and opening lines differ in their second character. -/
theorem closing_ne_opening {line rest rest' : Text} (hLine : line = '<' :: '/' :: rest) {c : Char}
    (hc : c ≠ '/') : line ≠ '<' :: c :: rest' := by
  rintro rfl
  exact hc (List.cons.inj (List.cons.inj hLine).2).1

theorem conflictGrammar : Grammar "</contradiction>".toList
    (fun line => ∃ a b, line = conflictLine a b)
    (fun tail => tail = ["</confirmed_contradictions>".toList]) StartsConflict := by
  refine ⟨?_, ?_, ?_, ?_⟩
  · rintro ⟨a, b, hLine⟩
    exact closing_ne_opening rfl (by decide) hLine
  · rintro line rest hTail ⟨a, b, hLine⟩
    exact closing_ne_opening (List.cons.inj hTail).1 (by decide) hLine
  · rintro _ rest ⟨a, b, rfl⟩
    exact ⟨a, b, rest, rfl⟩
  · intro after rest hTail
    cases after with
    | nil => exact absurd (List.cons.inj hTail).1 (by decide)
    | cons line after => simp at hTail

theorem conflictLines_injective {conflicts conflicts' : List (Uuid × Uuid × Text)}
    (hForge : ∀ e ∈ conflicts, ¬ ForgesConflict e.2.2)
    (hForge' : ∀ e ∈ conflicts', ¬ ForgesConflict e.2.2)
    (h : conflictLines conflicts = conflictLines conflicts') : conflicts = conflicts' := by
  have hElements {conflicts : List (Uuid × Uuid × Text)}
      (hForge : ∀ e ∈ conflicts, ¬ ForgesConflict e.2.2) :
      ∀ e ∈ conflicts.map fun e => (conflictLine e.1 e.2.1, linesOf e.2.2),
        (∃ a b, e.1 = conflictLine a b) ∧
          ¬ Reopens StartsConflict "</contradiction>".toList e.2 := by
    intro e he
    obtain ⟨conflict, hMem, rfl⟩ := List.mem_map.mp he
    exact ⟨⟨_, _, rfl⟩, hForge conflict hMem⟩
  obtain ⟨hSame, -⟩ :=
    Grammar.render_injective conflictGrammar (hElements hForge) (hElements hForge') rfl rfl h
  refine List.map_injective_iff.mpr ?_ hSame
  rintro ⟨a, b, summary⟩ ⟨a', b', summary'⟩ hEq
  obtain ⟨hLine, hText⟩ := Prod.mk.inj hEq
  obtain ⟨hA, hB⟩ := conflictLine_injective hLine
  exact Prod.ext hA (Prod.ext hB (linesOf_injective hText))

/-- What stands between the end of the statements and a line which closes a statement. -/
theorem startsStatement_of_tail {conflicts : List (Uuid × Uuid × Text)} {after rest : List Text}
    (h : "</verified_statements>".toList :: [] :: "<confirmed_contradictions>".toList ::
      conflictLines conflicts = after ++ "</statement>".toList :: rest) :
    StartsStatement after := by
  rcases after with _ | ⟨first, _ | ⟨second, _ | ⟨third, after⟩⟩⟩
  · exact absurd (List.cons.inj h).1 (by decide)
  · exact absurd (List.cons.inj (List.cons.inj h).2).1 (by decide)
  · exact absurd (List.cons.inj (List.cons.inj (List.cons.inj h).2).2).1 (by decide)
  · obtain ⟨hFirst, h⟩ := List.cons.inj h
    obtain ⟨hSecond, h⟩ := List.cons.inj h
    obtain ⟨hThird, h⟩ := List.cons.inj h
    refine .inr ⟨after, ?_, by rw [hFirst, hSecond, hThird]⟩
    cases conflicts with
    | nil =>
        cases after with
        | nil => exact absurd (List.cons.inj h).1 (by decide)
        | cons line after => simp [conflictLines, render] at h
    | cons conflict conflicts =>
        cases after with
        | nil => exact absurd (List.cons.inj h).1.symm (closing_ne_opening rfl (by decide))
        | cons line after => exact ⟨_, _, after, by rw [(List.cons.inj h).1]⟩

theorem statementGrammar : Grammar "</statement>".toList
    (fun line => ∃ id, line = statementLine id)
    (fun tail => ∃ conflicts, tail = "</verified_statements>".toList :: [] ::
      "<confirmed_contradictions>".toList :: conflictLines conflicts) StartsStatement := by
  refine ⟨?_, ?_, ?_, ?_⟩
  · rintro ⟨id, hLine⟩
    exact closing_ne_opening rfl (by decide) hLine
  · rintro line rest ⟨conflicts, hTail⟩ ⟨id, hLine⟩
    exact closing_ne_opening (List.cons.inj hTail).1 (by decide) hLine
  · rintro _ rest ⟨id, rfl⟩
    exact .inl ⟨id, rest, rfl⟩
  · rintro after rest ⟨conflicts, hTail⟩
    exact startsStatement_of_tail hTail.symm

/-- Statements and contradictions none of which forges the block are determined by it. -/
theorem synthesisBlock_injective {statements statements' : List (Uuid × Text)}
    {conflicts conflicts' : List (Uuid × Uuid × Text)}
    (hForge : ∀ e ∈ statements, ¬ ForgesStatement e.2)
    (hForge' : ∀ e ∈ statements', ¬ ForgesStatement e.2)
    (hConflicts : ∀ e ∈ conflicts, ¬ ForgesConflict e.2.2)
    (hConflicts' : ∀ e ∈ conflicts', ¬ ForgesConflict e.2.2)
    (h : synthesisBlock statements conflicts = synthesisBlock statements' conflicts') :
    statements = statements' ∧ conflicts = conflicts' := by
  have hLines := congrArg linesOf h
  rw [synthesisBlock_lines, synthesisBlock_lines] at hLines
  have hElements {statements : List (Uuid × Text)}
      (hForge : ∀ e ∈ statements, ¬ ForgesStatement e.2) :
      ∀ e ∈ statements.map fun e => (statementLine e.1, linesOf e.2),
        (∃ id, e.1 = statementLine id) ∧ ¬ Reopens StartsStatement "</statement>".toList e.2 := by
    intro e he
    obtain ⟨statement, hMem, rfl⟩ := List.mem_map.mp he
    exact ⟨⟨_, rfl⟩, hForge statement hMem⟩
  obtain ⟨hSame, hTail⟩ := Grammar.render_injective statementGrammar (hElements hForge)
    (hElements hForge') ⟨_, rfl⟩ ⟨_, rfl⟩ (List.cons.inj hLines).2
  constructor
  · refine List.map_injective_iff.mpr ?_ hSame
    rintro ⟨id, text⟩ ⟨id', text'⟩ hEq
    obtain ⟨hLine, hText⟩ := Prod.mk.inj hEq
    exact Prod.ext (statementLine_injective hLine) (linesOf_injective hText)
  · exact conflictLines_injective hConflicts hConflicts'
      (List.cons.inj (List.cons.inj (List.cons.inj hTail).2).2).2

/-! ## All blocks -/

/-- The block of a passage determines its fields.  The blocks of two texts determine them exactly
when the texts are separated.  The block of the synthesis determines statements and contradictions
none of which forges it. -/
theorem blocks_determine :
    (∀ id text id' text', buildDataBlock id text = buildDataBlock id' text' →
      id = id' ∧ text = text') ∧
    (∀ a b, (∀ a' b', (buildJudgePrompt a' b').2 = (buildJudgePrompt a b).2 → a' = a ∧ b' = b) ↔
      Separated judgeSeparator a b) ∧
    (∀ a b, (∀ a' b', (buildFlagPrompt a' b').2 = (buildFlagPrompt a b).2 → a' = a ∧ b' = b) ↔
      Separated pairSeparator a b) ∧
    (∀ a b, (∀ a' b', (buildConfirmPrompt a' b').2 = (buildConfirmPrompt a b).2 →
      a' = a ∧ b' = b) ↔ Separated pairSeparator a b) ∧
    ∀ statements statements' conflicts conflicts',
      (∀ e ∈ statements ++ statements', ¬ ForgesStatement e.2) →
      (∀ e ∈ conflicts ++ conflicts', ¬ ForgesConflict e.2.2) →
      synthesisBlock statements conflicts = synthesisBlock statements' conflicts' →
      statements = statements' ∧ conflicts = conflicts' := by
  refine ⟨fun _ _ _ _ => buildDataBlock_injective, judgeBlock_unique_iff, pairBlock_unique_iff,
    pairBlock_unique_iff, ?_⟩
  intro statements statements' conflicts conflicts' hStatements hConflicts h
  exact synthesisBlock_injective (fun e he => hStatements e (List.mem_append_left _ he))
    (fun e he => hStatements e (List.mem_append_right _ he))
    (fun e he => hConflicts e (List.mem_append_left _ he))
    (fun e he => hConflicts e (List.mem_append_right _ he)) h

/-- Blocks of texts without line breaks. -/
theorem blocks_determine_plain :
    synthesisBlock [(⟨1⟩, "a".toList)] [] ≠ synthesisBlock [(⟨1⟩, "b".toList)] [] := by
  have hLine {text : Text} (hText : linesOf text = [text])
      (hClosing : text ≠ "</statement>".toList) : ¬ ForgesStatement text := by
    rintro ⟨before, after, hLines, -⟩
    rw [hText] at hLines
    have hMem : "</statement>".toList ∈ [text] := hLines ▸ by simp
    exact hClosing (List.mem_singleton.mp hMem).symm
  intro h
  obtain ⟨hSame, -⟩ := blocks_determine.2.2.2.2 _ _ _ _ (by
    rintro e he
    rcases List.mem_append.mp he with he | he <;> rw [List.mem_singleton.mp he]
    · exact hLine (linesOf_of_not_mem (by decide)) (by decide)
    · exact hLine (linesOf_of_not_mem (by decide)) (by decide)) (by simp) h
  revert hSame
  decide

/-- A text with delimiters in it can be taken for several fields. -/
theorem blocks_collide :
    (buildJudgePrompt ("x".toList ++ judgeSeparator ++ "y".toList) "z".toList).2 =
        (buildJudgePrompt "x".toList ("y".toList ++ judgeSeparator ++ "z".toList)).2 ∧
      (buildFlagPrompt ("x".toList ++ pairSeparator ++ "y".toList) "z".toList).2 =
        (buildFlagPrompt "x".toList ("y".toList ++ pairSeparator ++ "z".toList)).2 ∧
      (buildConfirmPrompt ("x".toList ++ pairSeparator ++ "y".toList) "z".toList).2 =
        (buildConfirmPrompt "x".toList ("y".toList ++ pairSeparator ++ "z".toList)).2 ∧
      synthesisBlock [(⟨1⟩, "x\n</statement>\n".toList ++ statementLine ⟨2⟩ ++ "\ny".toList)] [] =
        synthesisBlock [(⟨1⟩, "x".toList), (⟨2⟩, "y".toList)] [] ∧
      "x".toList ++ judgeSeparator ++ "y".toList ≠ "x".toList ∧
      "x".toList ++ pairSeparator ++ "y".toList ≠ "x".toList := by
  have hPair : pairDataBlock ("x".toList ++ pairSeparator ++ "y".toList) "z".toList =
      pairDataBlock "x".toList ("y".toList ++ pairSeparator ++ "z".toList) := by
    rw [pairDataBlock_eq, pairDataBlock_eq]
    simp only [List.append_assoc]
  refine ⟨?_, hPair, hPair, by decide +kernel, by decide, by decide⟩
  rw [judgeBlock_eq, judgeBlock_eq]
  simp only [List.append_assoc]

end Ecrke
