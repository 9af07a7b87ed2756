import Ecrke.Text.Lexical
import Mathlib.Data.List.Forall2

/-!
# Compact JSON texts

The text of a JSON value with sorted keys and without blanks determines the value.

* `Json.Proper` -- the values which there are: no two fields of an object have the same key.
* `Json.Same` -- equality of values, as of dictionaries: the order of the keys does not matter.
* `balanced_compact` -- the separator `'|'` stands inside the strings of a compact text only.
* `compact_inj` -- a compact text determines the value and where it ends.
-/

namespace Ecrke

namespace Json

/-! ## Values -/

/-- Induction over a value: over the items of arrays and the fields of objects. -/
theorem induct {P : Json → Prop} (null : P .null) (bool : ∀ value, P (.bool value))
    (int : ∀ value, P (.int value)) (float : ∀ value, P (.float value))
    (str : ∀ value, P (.str value))
    (arr : ∀ items, (∀ item ∈ items, P item) → P (.arr items))
    (obj : ∀ fields : List (Text × Json), (∀ field ∈ fields, P field.2) → P (.obj fields)) :
    ∀ value, P value :=
  @Json.rec P (fun items => ∀ item ∈ items, P item)
    (fun fields => ∀ field ∈ fields, P field.2) (fun field => P field.2)
    null bool int float str arr obj (fun _ h => by cases h)
    (fun _ _ hItem hRest => List.forall_mem_cons.mpr ⟨hItem, hRest⟩) (fun _ h => by cases h)
    (fun _ _ hField hRest => List.forall_mem_cons.mpr ⟨hField, hRest⟩) (fun _ _ hValue => hValue)

mutual

/-- The keys of each object are distinct, and the floats are doubles. -/
def Proper : Json → Prop
  | null => True
  | bool _ => True
  | int _ => True
  | float value => IsDouble value
  | str _ => True
  | arr items => itemsProper items
  | obj fields => (fields.map Prod.fst).Nodup ∧ fieldsProper fields

/-- All items of an array are proper. -/
def itemsProper : List Json → Prop
  | [] => True
  | item :: rest => Proper item ∧ itemsProper rest

/-- All fields of an object are proper. -/
def fieldsProper : List (Text × Json) → Prop
  | [] => True
  | (_, value) :: rest => Proper value ∧ fieldsProper rest

end

mutual

/-- Equality of values: two objects are equal if they have as many fields and the same values for
the same keys. -/
def Same : Json → Json → Prop
  | null, null => True
  | bool a, bool b => a = b
  | int a, int b => a = b
  | float a, float b => a = b
  | str a, str b => a = b
  | arr a, arr b => itemsSame a b
  | obj a, obj b => a.length = b.length ∧ fieldsSame a b
  | _, _ => False

/-- Equality of arrays. -/
def itemsSame : List Json → List Json → Prop
  | [], [] => True
  | a :: as, b :: bs => Same a b ∧ itemsSame as bs
  | _, _ => False

/-- Each field of an object is one of another object. -/
def fieldsSame : List (Text × Json) → List (Text × Json) → Prop
  | [], _ => True
  | (key, value) :: rest, others =>
      (∃ other, field? key others = some other ∧ Same value other) ∧ fieldsSame rest others

end

theorem itemsProper_iff {items : List Json} :
    itemsProper items ↔ ∀ item ∈ items, item.Proper := by
  induction items with
  | nil => simp [itemsProper]
  | cons item rest ih => simp [itemsProper, ih]

theorem fieldsProper_iff {fields : List (Text × Json)} :
    fieldsProper fields ↔ ∀ field ∈ fields, field.2.Proper := by
  induction fields with
  | nil => simp [fieldsProper]
  | cons field rest ih =>
      obtain ⟨key, value⟩ := field
      rw [fieldsProper, ih, List.forall_mem_cons]

theorem itemsSame_of_forall₂ {a b : List Json} (h : List.Forall₂ Same a b) : itemsSame a b := by
  induction h with
  | nil => trivial
  | cons hFirst _ ih => exact ⟨hFirst, ih⟩

theorem fieldsSame_iff {fields others : List (Text × Json)} :
    fieldsSame fields others ↔
      ∀ field ∈ fields, ∃ other, field? field.1 others = some other ∧ Same field.2 other := by
  induction fields with
  | nil => simp [fieldsSame]
  | cons field rest ih =>
      obtain ⟨key, value⟩ := field
      rw [fieldsSame, ih, List.forall_mem_cons]

/-- In an object with distinct keys a field is found under its key. -/
theorem field?_mem {fields : List (Text × Json)} (hKeys : (fields.map Prod.fst).Nodup)
    {field : Text × Json} (h : field ∈ fields) : field? field.1 fields = some field.2 := by
  induction fields with
  | nil => cases h
  | cons first rest ih =>
      obtain ⟨hFresh, hRest⟩ := List.nodup_cons.mp hKeys
      rcases List.mem_cons.mp h with rfl | hLater
      · simp [field?]
      · have hNe : first.1 ≠ field.1 := by
          intro hEq
          apply hFresh
          rw [hEq]
          exact List.mem_map_of_mem hLater
        have hFind := ih hRest hLater
        simp only [field?, List.find?_cons, hNe, decide_false] at hFind ⊢
        exact hFind

/-! ## Texts -/

/-- `json.dumps(value, sort_keys=True, separators=(",", ":"))`. -/
abbrev compact (floatRepr : ℚ → Text) (value : Json) : Text :=
  dumps floatRepr ",".toList ":".toList value

/-- A field of an object. -/
def entryText (floatRepr : ℚ → Text) (field : Text × Json) : Text :=
  quote field.1 ++ ':' :: compact floatRepr field.2

/-- The fields of an object in the order of their keys. -/
def sortFields (fields : List (Text × Json)) : List (Text × Json) :=
  fields.mergeSort fun a b => Text.le a.1 b.1

variable {floatRepr : ℚ → Text}

theorem dumpsItems_eq (itemSep keySep : Text) (items : List Json) :
    dumpsItems floatRepr itemSep keySep items = items.map (dumps floatRepr itemSep keySep) := by
  induction items with
  | nil => rfl
  | cons item rest ih => rw [dumpsItems, ih, List.map_cons]

theorem dumpsFields_eq (itemSep keySep : Text) (fields : List (Text × Json)) :
    dumpsFields floatRepr itemSep keySep fields =
      fields.map fun field => (field.1, dumps floatRepr itemSep keySep field.2) := by
  induction fields with
  | nil => rfl
  | cons field rest ih =>
      obtain ⟨key, value⟩ := field
      rw [dumpsFields, ih, List.map_cons]

theorem compact_arr (items : List Json) :
    compact floatRepr (.arr items) =
      '[' :: (Text.join [','] (items.map (compact floatRepr)) ++ [']']) := by
  show '[' :: (Text.join [','] (dumpsItems floatRepr [','] [':'] items) ++ [']']) = _
  rw [dumpsItems_eq]
  rfl

theorem compact_obj (fields : List (Text × Json)) :
    compact floatRepr (.obj fields) =
      '\x7b' :: (Text.join [','] ((sortFields fields).map (entryText floatRepr)) ++ ['\x7d']) := by
  have hSorted : (dumpsFields floatRepr [','] [':'] fields).mergeSort
      (fun a b => Text.le a.1 b.1) =
      (sortFields fields).map fun field => (field.1, compact floatRepr field.2) := by
    rw [dumpsFields_eq, sortFields]
    apply Eq.symm
    apply List.map_mergeSort
    intro a _ b _
    rfl
  show '\x7b' :: (Text.join [','] (((dumpsFields floatRepr [','] [':'] fields).mergeSort
    fun a b => Text.le a.1 b.1).map fun entry => quote entry.1 ++ [':'] ++ entry.2) ++ ['\x7d']) = _
  rw [hSorted, List.map_map]
  congr 4
  ext field
  simp [entryText]

theorem join_cons (sep first : Text) (rest : List Text) :
    Text.join sep (first :: rest) = first ++ rest.flatMap fun part => sep ++ part := by
  unfold Text.join
  induction rest generalizing first with
  | nil => simp
  | cons second rest ih =>
      rw [List.intercalate_cons_cons, ih, List.flatMap_cons, List.append_assoc, List.append_assoc]

/-! ## Separators -/

theorem balanced_join {parts : List Text} (h : ∀ part ∈ parts, Balanced part) :
    Balanced (Text.join [','] parts) := by
  have hComma : Balanced [','] := rfl
  cases parts with
  | nil => rfl
  | cons first rest =>
      rw [join_cons]
      apply (h first (by simp)).append
      have hRest : ∀ part ∈ rest, Balanced part := fun part hPart => h part (by simp [hPart])
      clear h
      induction rest with
      | nil => rfl
      | cons second rest ih =>
          rw [List.flatMap_cons]
          apply (hComma.append (hRest second (by simp))).append
          exact ih fun part hPart => hRest part (by simp [hPart])

/-- In a compact text the separator `'|'` stands inside strings only. -/
theorem balanced_compact (hFloats : FloatTexts floatRepr) {value : Json} (hProper : value.Proper) :
    Balanced (compact floatRepr value) := by
  induction value using induct with
  | null => rfl
  | bool value =>
      cases value with
      | true => rfl
      | false => rfl
  | int value => exact balanced_plain fun c hc => plain_number (ofInt_number hc)
  | float value => exact balanced_plain fun c hc => plain_number (hFloats.chars value hProper c hc)
  | str value => exact balanced_quote value
  | arr items ih =>
      have hItems := itemsProper_iff.mp hProper
      rw [compact_arr]
      have hOpen : Balanced ['['] := rfl
      have hClose : Balanced [']'] := rfl
      apply hOpen.append
      apply Balanced.append _ hClose
      apply balanced_join
      intro part hPart
      obtain ⟨item, hItem, rfl⟩ := List.mem_map.mp hPart
      exact ih item hItem (hItems item hItem)
  | obj fields ih =>
      have hFields := fieldsProper_iff.mp hProper.2
      rw [compact_obj]
      have hOpen : Balanced ['{'] := rfl
      have hClose : Balanced ['}'] := rfl
      have hColon : Balanced [':'] := rfl
      apply hOpen.append
      apply Balanced.append _ hClose
      apply balanced_join
      intro part hPart
      obtain ⟨field, hField, rfl⟩ := List.mem_map.mp hPart
      have hMem : field ∈ fields := List.mem_mergeSort.mp hField
      exact (balanced_quote field.1).append (hColon.append (ih field hMem (hFields field hMem)))

/-! ## Lists -/

section Lists

variable {α : Type} {text : α → Text} {R : α → α → Prop} {close : Char} {xs ys : List α}
  {s t : Text}

/-- Further elements, each behind a comma. -/
def further (text : α → Text) (rest : List α) : Text := rest.flatMap fun x => ',' :: text x

theorem ends_further (hClose : close = ']' ∨ close = '}') (rest : List α) (s : Text) :
    Ends (further text rest ++ close :: s) := by
  intro c later h
  cases rest with
  | nil =>
      obtain rfl := (List.cons.inj h).1
      exact .inr hClose
  | cons x rest => exact .inl (List.cons.inj h).1.symm

theorem further_inj (hClose : close = ']' ∨ close = '}')
    (hRead : ∀ x ∈ xs, ∀ y ∈ ys, ∀ s t, Ends s → Ends t → text x ++ s = text y ++ t → R x y ∧ s = t)
    (h : further text xs ++ close :: s = further text ys ++ close :: t) :
    List.Forall₂ R xs ys ∧ s = t := by
  have hComma : close ≠ ',' := by
    rcases hClose with rfl | rfl
    · decide
    · decide
  induction xs generalizing ys with
  | nil =>
      cases ys with
      | nil => exact ⟨.nil, (List.cons.inj h).2⟩
      | cons y ys => exact absurd (List.cons.inj h).1 hComma
  | cons x xs ih =>
      cases ys with
      | nil => exact absurd (List.cons.inj h).1.symm hComma
      | cons y ys =>
          have hBehind : text x ++ (further text xs ++ close :: s) =
              text y ++ (further text ys ++ close :: t) := by
            simpa [further] using h
          obtain ⟨hFirst, hRest⟩ := hRead x (by simp) y (by simp) _ _ (ends_further hClose xs s)
            (ends_further hClose ys t) hBehind
          have hLater := ih (fun x hx y hy => hRead x (by simp [hx]) y (by simp [hy])) hRest
          exact ⟨.cons hFirst hLater.1, hLater.2⟩

/-- A list between brackets determines its elements and where it ends. -/
theorem joined_inj (hClose : close = ']' ∨ close = '}')
    (hHead : ∀ x s t, (x ∈ xs ∨ x ∈ ys) → text x ++ s ≠ close :: t)
    (hRead : ∀ x ∈ xs, ∀ y ∈ ys, ∀ s t, Ends s → Ends t → text x ++ s = text y ++ t → R x y ∧ s = t)
    (h : Text.join [','] (xs.map text) ++ close :: s = Text.join [','] (ys.map text) ++ close :: t) :
    List.Forall₂ R xs ys ∧ s = t := by
  have hCons (first : α) (rest : List α) (u : Text) :
      Text.join [','] ((first :: rest).map text) ++ close :: u =
        text first ++ (further text rest ++ close :: u) := by
    rw [List.map_cons, join_cons, List.append_assoc, List.flatMap_map]
    rfl
  cases xs with
  | nil =>
      cases ys with
      | nil => exact ⟨.nil, (List.cons.inj h).2⟩
      | cons y ys =>
          rw [hCons] at h
          exact absurd h.symm (hHead y _ _ (by simp))
  | cons x xs =>
      cases ys with
      | nil =>
          rw [hCons] at h
          exact absurd h (hHead x _ _ (by simp))
      | cons y ys =>
          rw [hCons, hCons] at h
          obtain ⟨hFirst, hRest⟩ := hRead x (by simp) y (by simp) _ _ (ends_further hClose xs s)
            (ends_further hClose ys t) h
          have hLater := further_inj hClose
            (fun x hx y hy => hRead x (by simp [hx]) y (by simp [hy])) hRest
          exact ⟨.cons hFirst hLater.1, hLater.2⟩

end Lists

/-! ## Kinds -/

/-- The kinds of values which the first character tells apart. -/
inductive Kind where
  | null
  | bool
  | number
  | str
  | arr
  | obj

/-- The kind of a value. -/
def kind : Json → Kind
  | null => .null
  | bool _ => .bool
  | int _ => .number
  | float _ => .number
  | str _ => .str
  | arr _ => .arr
  | obj _ => .obj

/-- The kind of the value which begins with a character. -/
def kindOf (c : Char) : Option Kind :=
  if c = 'n' then some .null
  else if c = 't' ∨ c = 'f' then some .bool
  else if c = '"' then some .str
  else if c = '[' then some .arr
  else if c = '{' then some .obj
  else if isNumberChar c then some .number
  else none

theorem kindOf_number {c : Char} (h : isNumberChar c = true) : kindOf c = some .number := by
  have hNe {d : Char} (hd : isNumberChar d = false) : c ≠ d := by
    intro hEq
    rw [hEq, hd] at h
    cases h
  have hN := hNe (d := 'n') rfl
  have hT := hNe (d := 't') rfl
  have hF := hNe (d := 'f') rfl
  have hQuote := hNe (d := '"') rfl
  have hBracket := hNe (d := '[') rfl
  have hBrace := hNe (d := '{') rfl
  simp [kindOf, hN, hT, hF, hQuote, hBracket, hBrace, h]

theorem ofInt_ne_nil (n : Int) : Text.ofInt n ≠ [] := by
  cases n with
  | ofNat n => exact Nat.toDigits_ne_nil
  | negSucc n => exact List.cons_ne_nil _ _

/-- The first character of a text tells the kind of the value. -/
theorem compact_head (hFloats : FloatTexts floatRepr) {value : Json} (hProper : value.Proper) :
    ∃ c rest, compact floatRepr value = c :: rest ∧ kindOf c = some value.kind := by
  have hNumber {t : Text} (hNil : t ≠ []) (hChars : ∀ c ∈ t, isNumberChar c = true) :
      ∃ c rest, t = c :: rest ∧ kindOf c = some .number := by
    obtain ⟨c, rest, rfl⟩ := List.exists_cons_of_ne_nil hNil
    exact ⟨c, rest, rfl, kindOf_number (hChars c (by simp))⟩
  cases value with
  | null => exact ⟨_, _, rfl, rfl⟩
  | bool value =>
      cases value with
      | true => exact ⟨_, _, rfl, rfl⟩
      | false => exact ⟨_, _, rfl, rfl⟩
  | int value => exact hNumber (ofInt_ne_nil value) fun c hc => ofInt_number hc
  | float value =>
      have hNil : floatRepr value ≠ [] := by
        intro hNone
        have hFraction := hFloats.fraction value hProper
        simp [hNone] at hFraction
      exact hNumber hNil (hFloats.chars value hProper)
  | str value => exact ⟨_, _, rfl, rfl⟩
  | arr items => exact ⟨_, _, compact_arr items, rfl⟩
  | obj fields => exact ⟨_, _, compact_obj fields, rfl⟩

theorem kind_eq (hFloats : FloatTexts floatRepr) {a b : Json} (ha : a.Proper) (hb : b.Proper)
    {s t : Text} (h : compact floatRepr a ++ s = compact floatRepr b ++ t) : a.kind = b.kind := by
  obtain ⟨c, restA, hA, hKindA⟩ := compact_head hFloats ha
  obtain ⟨d, restB, hB, hKindB⟩ := compact_head hFloats hb
  rw [hA, hB] at h
  obtain rfl := (List.cons.inj h).1
  rw [hKindA] at hKindB
  exact Option.some.inj hKindB

theorem compact_not_bracket (hFloats : FloatTexts floatRepr) {a : Json} (ha : a.Proper)
    (s t : Text) : compact floatRepr a ++ s ≠ ']' :: t := by
  intro h
  obtain ⟨c, rest, hA, hKind⟩ := compact_head hFloats ha
  rw [hA] at h
  obtain rfl := (List.cons.inj h).1
  cases hKind

/-! ## Values from texts -/

theorem forall₂_left {α : Type} {R : α → α → Prop} {xs ys : List α} (h : List.Forall₂ R xs ys)
    {x : α} (hx : x ∈ xs) : ∃ y ∈ ys, R x y := by
  induction h with
  | nil => cases hx
  | cons hFirst _ ih =>
      rcases List.mem_cons.mp hx with rfl | hLater
      · exact ⟨_, List.mem_cons_self, hFirst⟩
      · obtain ⟨y, hy, hR⟩ := ih hLater
        exact ⟨y, List.mem_cons_of_mem _ hy, hR⟩

/-- Objects of which the sorted fields are the same. -/
theorem same_of_sorted {a b : List (Text × Json)} (hKeys : (b.map Prod.fst).Nodup)
    (h : List.Forall₂ (fun x y : Text × Json => x.1 = y.1 ∧ Same x.2 y.2) (sortFields a)
      (sortFields b)) : Same (.obj a) (.obj b) := by
  constructor
  · have hLength := h.length_eq
    simpa [sortFields] using hLength
  · apply fieldsSame_iff.mpr
    intro field hField
    have hSorted : field ∈ sortFields a := List.mem_mergeSort.mpr hField
    obtain ⟨other, hOther, hKey, hSame⟩ := forall₂_left h hSorted
    have hMem : other ∈ b := List.mem_mergeSort.mp hOther
    rw [hKey]
    exact ⟨other.2, field?_mem hKeys hMem, hSame⟩

/-- A compact text determines the value and where it ends. -/
theorem compact_inj (hFloats : FloatTexts floatRepr) {a b : Json} (ha : a.Proper) (hb : b.Proper)
    {s t : Text} (hs : Ends s) (ht : Ends t)
    (h : compact floatRepr a ++ s = compact floatRepr b ++ t) : Same a b ∧ s = t := by
  induction a using induct generalizing b s t with
  | null =>
      have hKind := kind_eq hFloats ha hb h
      cases b with
      | null => exact ⟨trivial, List.append_cancel_left h⟩
      | _ => cases hKind
  | bool a =>
      have hKind := kind_eq hFloats ha hb h
      cases b with
      | bool b =>
          cases a with
          | true =>
              cases b with
              | true => exact ⟨rfl, List.append_cancel_left h⟩
              | false => exact absurd (List.cons.inj h).1 (by decide)
          | false =>
              cases b with
              | true => exact absurd (List.cons.inj h).1 (by decide)
              | false => exact ⟨rfl, List.append_cancel_left h⟩
      | _ => cases hKind
  | int a =>
      have hKind := kind_eq hFloats ha hb h
      have hA : ∀ c ∈ Text.ofInt a, isNumberChar c = true := fun c hc => ofInt_number hc
      cases b with
      | int b =>
          obtain ⟨hText, hRest⟩ := number_inj hA (fun c hc => ofInt_number hc) hs ht h
          exact ⟨ofInt_inj hText, hRest⟩
      | float b =>
          obtain ⟨hText, -⟩ := number_inj hA (hFloats.chars b hb) hs ht h
          exact absurd hText (ofInt_ne_float hFloats hb a)
      | _ => cases hKind
  | float a =>
      have hKind := kind_eq hFloats ha hb h
      cases b with
      | int b =>
          obtain ⟨hText, -⟩ := number_inj (hFloats.chars a ha) (fun c hc => ofInt_number hc) hs ht h
          exact absurd hText.symm (ofInt_ne_float hFloats ha b)
      | float b =>
          obtain ⟨hText, hRest⟩ := number_inj (hFloats.chars a ha) (hFloats.chars b hb) hs ht h
          exact ⟨hFloats.inj a b ha hb hText, hRest⟩
      | _ => cases hKind
  | str a =>
      have hKind := kind_eq hFloats ha hb h
      cases b with
      | str b => exact quote_inj h
      | _ => cases hKind
  | arr items ih =>
      have hKind := kind_eq hFloats ha hb h
      cases b with
      | arr others =>
          have hItems := itemsProper_iff.mp ha
          have hOthers := itemsProper_iff.mp hb
          rw [compact_arr, compact_arr] at h
          have hInside : Text.join [','] (items.map (compact floatRepr)) ++ ']' :: s =
              Text.join [','] (others.map (compact floatRepr)) ++ ']' :: t := by simpa using h
          have hJoined := joined_inj (R := Same) (.inl rfl) (fun x s t hx => by
              rcases hx with hx | hx
              · exact compact_not_bracket hFloats (hItems x hx) s t
              · exact compact_not_bracket hFloats (hOthers x hx) s t)
            (fun x hx y hy s t hs ht hText => ih x hx (hItems x hx) (hOthers y hy) hs ht hText)
            hInside
          exact ⟨itemsSame_of_forall₂ hJoined.1, hJoined.2⟩
      | _ => cases hKind
  | obj fields ih =>
      have hKind := kind_eq hFloats ha hb h
      cases b with
      | obj others =>
          have hFields := fieldsProper_iff.mp ha.2
          have hOthers := fieldsProper_iff.mp hb.2
          rw [compact_obj, compact_obj] at h
          have hInside :
              Text.join [','] ((sortFields fields).map (entryText floatRepr)) ++ '}' :: s =
              Text.join [','] ((sortFields others).map (entryText floatRepr)) ++ '}' :: t := by
            simpa using h
          have hRead : ∀ x ∈ sortFields fields, ∀ y ∈ sortFields others, ∀ s t, Ends s → Ends t →
              entryText floatRepr x ++ s = entryText floatRepr y ++ t →
                (x.1 = y.1 ∧ Same x.2 y.2) ∧ s = t := by
            intro x hx y hy s t hs ht hText
            have hX : x ∈ fields := List.mem_mergeSort.mp hx
            have hY : y ∈ others := List.mem_mergeSort.mp hy
            have hSplit : quote x.1 ++ (':' :: (compact floatRepr x.2 ++ s)) =
                quote y.1 ++ (':' :: (compact floatRepr y.2 ++ t)) := by
              simpa [entryText] using hText
            obtain ⟨hKey, hBehind⟩ := quote_inj hSplit
            have hValue := ih x hX (hFields x hX) (hOthers y hY) hs ht (List.cons.inj hBehind).2
            exact ⟨⟨hKey, hValue.1⟩, hValue.2⟩
          have hJoined := joined_inj (.inr rfl) (fun x s t _ hEq => by
              exact absurd (List.cons.inj hEq).1 (by decide)) hRead hInside
          exact ⟨same_of_sorted hb.1 hJoined.1, hJoined.2⟩
      | _ => cases hKind

end Json

end Ecrke
