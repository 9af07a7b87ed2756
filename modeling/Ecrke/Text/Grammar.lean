import Ecrke.Text.Compact

/-!
# The grammar of JSON

* `JsonText` -- the texts of JSON values.
* `ReadsJson` -- a reader of such texts, with whitespace around them.
* `ReadsJson.object` -- where the text of an object begins and ends.
-/

namespace Ecrke

/-- A gap of JSON whitespace. -/
def JsonGap (t : Text) : Prop := ∀ c ∈ t, c ∈ " \t\n\r".toList

/-- At least one digit. -/
def DigitsText (t : Text) : Prop := t ≠ [] ∧ ∀ c ∈ t, c.isDigit = true

/-- A number: a whole part without leading zeros, a fraction and an exponent. -/
inductive NumberText : Text → Prop
  | zero : NumberText ['0']
  | whole {d : Char} {digits : Text} (hFirst : d ≠ '0') (hDigits : DigitsText (d :: digits)) :
      NumberText (d :: digits)
  | negative {t : Text} (hWhole : NumberText t) (hUnsigned : ∀ c ∈ t, c.isDigit = true) :
      NumberText ('-' :: t)
  | fraction {t digits : Text} (hWhole : NumberText t) (hDigits : DigitsText digits)
      (hPlain : ∀ c ∈ t, c ∉ ".eE".toList) : NumberText (t ++ '.' :: digits)
  | exponent {t sign digits : Text} {e : Char} (hNumber : NumberText t) (hMark : e ∈ "eE".toList)
      (hSign : sign ∈ [[], ['+'], ['-']]) (hDigits : DigitsText digits)
      (hPlain : ∀ c ∈ t, c ∉ "eE".toList) : NumberText (t ++ e :: (sign ++ digits))

/-- What stands between the quotes of a string. -/
inductive StringText : Text → Prop
  | nil : StringText []
  | plain {c : Char} {rest : Text} (hPrints : 0x20 ≤ c.toNat) (hFree : c ∉ "\"\\".toList)
      (hRest : StringText rest) : StringText (c :: rest)
  | escape {c : Char} {rest : Text} (hMark : c ∈ "\"\\/bfnrt".toList) (hRest : StringText rest) :
      StringText ('\\' :: c :: rest)
  | unicode {digits rest : Text} (hFour : digits.length = 4)
      (hHex : ∀ c ∈ digits, c ∈ "0123456789abcdefABCDEF".toList) (hRest : StringText rest) :
      StringText ('\\' :: 'u' :: digits ++ rest)

/-- The parts of the grammar: values, and the insides of arrays and objects. -/
inductive JsonPart where
  | value (kind : Json.Kind)
  | items
  | members

/-- The texts of JSON, with three constants which the standard leaves out and Python reads. -/
inductive JsonText : JsonPart → Text → Prop
  | constant {t : Text} (hName : t ∈ ["NaN".toList, "Infinity".toList, "-Infinity".toList]) :
      JsonText (.value .number) t
  | null : JsonText (.value .null) "null".toList
  | bool (value : Bool) :
      JsonText (.value .bool) (if value then "true".toList else "false".toList)
  | number {t : Text} (hNumber : NumberText t) : JsonText (.value .number) t
  | string {t : Text} (hString : StringText t) : JsonText (.value .str) ('"' :: t ++ ['"'])
  | noItems {gap : Text} (hGap : JsonGap gap) : JsonText (.value .arr) ('[' :: gap ++ [']'])
  | array {items : Text} (hItems : JsonText .items items) :
      JsonText (.value .arr) ('[' :: items ++ [']'])
  | noMembers {gap : Text} (hGap : JsonGap gap) :
      JsonText (.value .obj) ('\x7b' :: gap ++ ['\x7d'])
  | object {members : Text} (hMembers : JsonText .members members) :
      JsonText (.value .obj) ('\x7b' :: members ++ ['\x7d'])
  | item {before text after : Text} {kind : Json.Kind} (hBefore : JsonGap before)
      (hValue : JsonText (.value kind) text) (hAfter : JsonGap after) :
      JsonText .items (before ++ text ++ after)
  | member {before key middle before' text after : Text} {kind : Json.Kind}
      (hBefore : JsonGap before) (hKey : StringText key) (hMiddle : JsonGap middle)
      (hBefore' : JsonGap before') (hValue : JsonText (.value kind) text) (hAfter : JsonGap after) :
      JsonText .members
        (before ++ '"' :: key ++ '"' :: middle ++ ':' :: before' ++ text ++ after)
  | items {first rest : Text} (hFirst : JsonText .items first) (hRest : JsonText .items rest) :
      JsonText .items (first ++ ',' :: rest)
  | members {first rest : Text} (hFirst : JsonText .members first)
      (hRest : JsonText .members rest) : JsonText .members (first ++ ',' :: rest)

/-- The text of an object is in braces. -/
theorem JsonText.braces {text : Text} (h : JsonText (.value .obj) text) :
    ∃ inner, text = '\x7b' :: inner ++ ['\x7d'] := by
  cases h with
  | noMembers hGap => exact ⟨_, rfl⟩
  | object hMembers => exact ⟨_, rfl⟩

/-- A reader which accepts nothing but JSON, and which ignores whitespace around it. -/
structure ReadsJson (loads : Text → Option Json) : Prop where
  document {text : Text} {value : Json} (hLoads : loads text = some value) :
    ∃ before core after, text = before ++ core ++ after ∧ JsonGap before ∧ JsonGap after ∧
      JsonText (.value value.kind) core
  around {before text after : Text} (hBefore : JsonGap before) (hAfter : JsonGap after) :
    loads (before ++ text ++ after) = loads text

/-- An object is read from a text in braces, with whitespace around it. -/
theorem ReadsJson.object {loads : Text → Option Json} (h : ReadsJson loads) {text : Text}
    {fields : List (Text × Json)} (hLoads : loads text = some (.obj fields)) :
    ∃ before inner after, text = before ++ ('\x7b' :: inner ++ ['\x7d']) ++ after ∧
      JsonGap before ∧ JsonGap after ∧
      loads ('\x7b' :: inner ++ ['\x7d']) = some (.obj fields) := by
  obtain ⟨before, core, after, rfl, hBefore, hAfter, hText⟩ := h.document hLoads
  obtain ⟨inner, rfl⟩ := hText.braces
  refine ⟨before, inner, after, rfl, hBefore, hAfter, ?_⟩
  rw [← h.around hBefore hAfter]
  exact hLoads

end Ecrke
