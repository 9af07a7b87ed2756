import Ecrke.Pipeline.RunHistory
import Ecrke.Services.LLMGateway
import Ecrke.Text.Grammar

/-!
# Strict and lenient parsing

The last attempt of a call parses the answer of the model leniently: it cuts out what stands between
the first opening brace and the last closing one.

* `parseJsonLenient_braces` -- the lenient parser on a text in braces with other texts around it.
* `parseJsonLenient_extends` -- it finds every object which the strict parser finds.
-/

namespace Ecrke

theorem findIdx?_first {before rest : Text} {c : Char} (h : c ∉ before) :
    (before ++ c :: rest).findIdx? (· == c) = some before.length := by
  have hNone : before.findIdx? (· == c) = none := by
    rw [List.findIdx?_eq_none_iff]
    intro d hd
    rw [beq_eq_false_iff_ne]
    rintro rfl
    exact h hd
  rw [List.findIdx?_append, hNone, List.findIdx?_cons, if_pos (by simp)]
  simp

/-- Braces around a text are found if no opening brace stands before them, and no closing one after. -/
theorem parseJsonLenient_braces (p : Platform) {before inner after : Text}
    (hBefore : '\x7b' ∉ before) (hAfter : '\x7d' ∉ after) :
    parseJsonLenient p (before ++ ('\x7b' :: inner ++ ['\x7d']) ++ after) =
      parseJsonStrict p ('\x7b' :: inner ++ ['\x7d']) := by
  have hStart : (before ++ ('\x7b' :: inner ++ ['\x7d']) ++ after).findIdx? (· == '\x7b') =
      some before.length := by
    have hFirst : before ++ ('\x7b' :: inner ++ ['\x7d']) ++ after =
        before ++ '\x7b' :: (inner ++ '\x7d' :: after) := by simp
    rw [hFirst, findIdx?_first hBefore]
  have hEnd : (before ++ ('\x7b' :: inner ++ ['\x7d']) ++ after).reverse.findIdx? (· == '\x7d') =
      some after.length := by
    have hLast : (before ++ ('\x7b' :: inner ++ ['\x7d']) ++ after).reverse =
        after.reverse ++ '\x7d' :: (inner.reverse ++ '\x7b' :: before.reverse) := by simp
    rw [hLast, findIdx?_first (by simpa using hAfter), List.length_reverse]
  have hLength : (before ++ ('\x7b' :: inner ++ ['\x7d']) ++ after).length - 1 - after.length =
      before.length + (inner.length + 1) := by
    simp only [List.length_append, List.length_cons, List.length_nil]
    omega
  have hCut : ((before ++ ('\x7b' :: inner ++ ['\x7d']) ++ after).drop before.length).take
      (before.length + (inner.length + 1) + 1 - before.length) = '\x7b' :: inner ++ ['\x7d'] := by
    have hSize : before.length + (inner.length + 1) + 1 - before.length =
        ('\x7b' :: inner ++ ['\x7d']).length := by
      simp only [List.length_append, List.length_cons, List.length_nil]
      omega
    rw [hSize, List.append_assoc, List.drop_left, List.take_left]
  unfold parseJsonLenient parseJsonStrict
  simp only [hStart, hEnd, hLength, hCut]
  rw [if_neg (by omega)]

/-- What the strict parser accepts, the lenient one reads alike, and so with any text around it which
has no opening brace before it and no closing brace after it. -/
theorem parseJsonLenient_extends {p : Platform} (hReads : ReadsJson p.jsonLoads) {text : Text}
    {value : Json} (hStrict : parseJsonStrict p text = .ok value) :
    parseJsonLenient p text = .ok value ∧
      ∀ before after : Text, '\x7b' ∉ before → '\x7d' ∉ after →
        parseJsonLenient p (before ++ text ++ after) = .ok value := by
  have hAround (before after : Text) (hBefore : '\x7b' ∉ before) (hAfter : '\x7d' ∉ after) :
      parseJsonLenient p (before ++ text ++ after) = .ok value := by
    cases hLoads : p.jsonLoads text with
    | none =>
        rw [parseJsonStrict, loads, hLoads] at hStrict
        cases hStrict
    | some parsed =>
        rw [parseJsonStrict, loads, hLoads] at hStrict
        have hObject : expectObject parsed = .ok value := hStrict
        cases parsed with
        | obj fields =>
            obtain ⟨gap, inner, gap', rfl, hGap, hGap', hInner⟩ := hReads.object hLoads
            have hOpen : '\x7b' ∉ before ++ gap := by
              rw [List.mem_append, not_or]
              exact ⟨hBefore, fun hMem => absurd (hGap _ hMem) (by decide)⟩
            have hClose : '\x7d' ∉ gap' ++ after := by
              rw [List.mem_append, not_or]
              exact ⟨fun hMem => absurd (hGap' _ hMem) (by decide), hAfter⟩
            calc parseJsonLenient p
                  (before ++ (gap ++ ('\x7b' :: inner ++ ['\x7d']) ++ gap') ++ after)
                = parseJsonLenient p
                    (before ++ gap ++ ('\x7b' :: inner ++ ['\x7d']) ++ (gap' ++ after)) := by
                  simp only [List.append_assoc]
              _ = parseJsonStrict p ('\x7b' :: inner ++ ['\x7d']) :=
                  parseJsonLenient_braces p hOpen hClose
              _ = .ok value := by
                  rw [parseJsonStrict, loads, hInner]
                  exact hObject
        | null => cases hObject
        | bool _ => cases hObject
        | int _ => cases hObject
        | float _ => cases hObject
        | str _ => cases hObject
        | arr _ => cases hObject
  constructor
  · simpa using hAround [] [] (by simp) (by simp)
  · exact hAround

/-- A reader of the empty object. -/
def loadsEmpty (text : Text) : Option Json :=
  if text.filter (fun c => !" \t\n\r".toList.contains c) = ['\x7b', '\x7d'] then some (.obj [])
  else none

theorem loadsEmpty_reads : ReadsJson loadsEmpty := by
  have hGap {t : Text} (h : ∀ c ∈ t, ¬ (!" \t\n\r".toList.contains c) = true) : JsonGap t := by
    intro c hc
    have hSpace := h c hc
    rwa [Bool.not_eq_true', Bool.not_eq_false, List.contains_iff_mem] at hSpace
  constructor
  · intro text value hLoads
    unfold loadsEmpty at hLoads
    split at hLoads
    case isFalse => cases hLoads
    case isTrue hFilter =>
      cases hLoads
      obtain ⟨before, rest, rfl, hBefore, -, hRest⟩ := List.filter_eq_cons_iff.mp hFilter
      obtain ⟨inner, after, rfl, hInner, -, hAfter⟩ := List.filter_eq_cons_iff.mp hRest
      refine ⟨before, '\x7b' :: inner ++ ['\x7d'], after, by simp, hGap hBefore, ?_, ?_⟩
      · exact hGap (List.filter_eq_nil_iff.mp hAfter)
      · exact .noMembers (hGap hInner)
  · intro before text after hBefore hAfter
    have hNone {t : Text} (h : JsonGap t) :
        t.filter (fun c => !" \t\n\r".toList.contains c) = [] := by
      rw [List.filter_eq_nil_iff]
      intro c hc
      rw [Bool.not_eq_true', Bool.not_eq_false, List.contains_iff_mem]
      exact h c hc
    unfold loadsEmpty
    rw [List.filter_append, List.filter_append, hNone hBefore, hNone hAfter, List.nil_append,
      List.append_nil]

/-- For example an empty object in a sentence. -/
theorem parseJsonLenient_extends_empty :
    parseJsonLenient { Platform.plain with jsonLoads := loadsEmpty }
      ("Here it is:".toList ++ " \x7b\x7d ".toList ++ "(nothing)".toList) = .ok (.obj []) := by
  have hStrict : parseJsonStrict { Platform.plain with jsonLoads := loadsEmpty }
      " \x7b\x7d ".toList = .ok (.obj []) := rfl
  exact (parseJsonLenient_extends loadsEmpty_reads hStrict).2 _ _ (by decide) (by decide)

end Ecrke
