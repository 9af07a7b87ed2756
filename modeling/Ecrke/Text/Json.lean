import Ecrke.Text.Python

/-!
# JSON values

JSON as the program builds, stores and reads it, with `json.dumps` and with the few operations of
the language which it applies to values of unknown type.

* `Json.get?`, `Json.truthy`, `Json.iter` -- `value.get(key)`, `bool(value)` and
  `for item in value`.
* `Json.strings`, `Json.keys` -- the strings and the keys anywhere in a value.
* `Json.str` -- `str(value)`.
* `Json.dumps` -- `json.dumps(value, sort_keys=True)` with chosen separators.
-/

namespace Ecrke

/-- A JSON value.  The fields of an object are in the order of their insertion. -/
inductive Json where
  | null
  | bool (value : Bool)
  | int (value : Int)
  | float (value : ℚ)
  | str (value : Text)
  | arr (items : List Json)
  | obj (fields : List (Text × Json))

namespace Json

/-- The value of a field of an object. -/
def field? (key : Text) (fields : List (Text × Json)) : Option Json :=
  (fields.find? fun entry => entry.1 = key).map Prod.snd

/-- `value.get(key)`, nothing for a value which is not an object. -/
def get? (key : Text) : Json → Option Json
  | obj fields => field? key fields
  | _ => none

/-- An optional string. -/
def ofText? : Option Text → Json
  | some t => str t
  | none => null

/-- An optional number. -/
def ofFloat? : Option ℚ → Json
  | some q => float q
  | none => null

/-- A list of strings. -/
def ofTexts (texts : List Text) : Json := arr (texts.map str)

/-- `bool(value)`. -/
def truthy : Json → Bool
  | null => false
  | bool value => value
  | int value => value != 0
  | float value => value != 0
  | str value => !value.isEmpty
  | arr items => !items.isEmpty
  | obj fields => !fields.isEmpty

/-- `for item in value`, nothing for a value which cannot be iterated over. -/
def iter : Json → Option (List Json)
  | str value => some (value.map fun c => str [c])
  | arr items => some items
  | obj fields => some (fields.map fun entry => str entry.1)
  | _ => none

mutual

/-- The strings which are values, at any depth. -/
def strings : Json → List Text
  | null => []
  | bool _ => []
  | int _ => []
  | float _ => []
  | str value => [value]
  | arr items => itemsStrings items
  | obj fields => fieldsStrings fields

/-- The strings in the items of an array. -/
def itemsStrings : List Json → List Text
  | [] => []
  | item :: rest => strings item ++ itemsStrings rest

/-- The strings in the fields of an object. -/
def fieldsStrings : List (Text × Json) → List Text
  | [] => []
  | (_, value) :: rest => strings value ++ fieldsStrings rest

end

mutual

/-- The keys of the objects, at any depth. -/
def keys : Json → List Text
  | null => []
  | bool _ => []
  | int _ => []
  | float _ => []
  | str _ => []
  | arr items => itemsKeys items
  | obj fields => fieldsKeys fields

/-- The keys in the items of an array. -/
def itemsKeys : List Json → List Text
  | [] => []
  | item :: rest => keys item ++ itemsKeys rest

/-- The keys of an object and of its fields. -/
def fieldsKeys : List (Text × Json) → List Text
  | [] => []
  | (key, value) :: rest => key :: (keys value ++ fieldsKeys rest)

end

theorem mem_itemsKeys {key : Text} {items : List Json} :
    key ∈ itemsKeys items ↔ ∃ item ∈ items, key ∈ item.keys := by
  induction items with
  | nil => simp [itemsKeys]
  | cons item rest ih => simp [itemsKeys, ih]

theorem mem_fieldsKeys {key : Text} {fields : List (Text × Json)} :
    key ∈ fieldsKeys fields ↔ ∃ field ∈ fields, key = field.1 ∨ key ∈ field.2.keys := by
  induction fields with
  | nil => simp [fieldsKeys]
  | cons field rest ih => simp [fieldsKeys, ih, or_assoc]

theorem keys_ofTexts (texts : List Text) : (ofTexts texts).keys = [] := by
  show itemsKeys (texts.map str) = []
  induction texts with
  | nil => rfl
  | cons text rest ih =>
      rw [List.map_cons, itemsKeys, ih]
      rfl

mutual

/-- `repr(value)`. -/
def repr (u : Unicode) (floatRepr : ℚ → Text) : Json → Text
  | null => "None".toList
  | bool value => (if value then "True" else "False").toList
  | int value => Text.ofInt value
  | float value => floatRepr value
  | str value => Text.repr u value
  | arr items => "[".toList ++ Text.join ", ".toList (reprItems u floatRepr items) ++ "]".toList
  | obj fields =>
      "\x7b".toList ++ Text.join ", ".toList (reprFields u floatRepr fields) ++ "\x7d".toList

/-- The items of a list. -/
def reprItems (u : Unicode) (floatRepr : ℚ → Text) : List Json → List Text
  | [] => []
  | item :: rest => repr u floatRepr item :: reprItems u floatRepr rest

/-- The entries of a dictionary. -/
def reprFields (u : Unicode) (floatRepr : ℚ → Text) : List (Text × Json) → List Text
  | [] => []
  | (key, value) :: rest =>
      (Text.repr u key ++ ": ".toList ++ repr u floatRepr value) :: reprFields u floatRepr rest

end

/-- `str(value)`. -/
def toText (u : Unicode) (floatRepr : ℚ → Text) : Json → Text
  | str value => value
  | value => repr u floatRepr value

/-- A 16-bit unit inside a JSON string. -/
def escapeUnit (unit : Nat) : Text := "\\u".toList ++ Text.hexDigits 4 unit

/-- A character inside a JSON string; everything outside ASCII is escaped. -/
def escapeChar (c : Char) : Text :=
  if c = '"' then "\\\"".toList
  else if c = '\\' then "\\\\".toList
  else if c = '\n' then "\\n".toList
  else if c = '\r' then "\\r".toList
  else if c = '\t' then "\\t".toList
  else if c.toNat = 8 then "\\b".toList
  else if c.toNat = 12 then "\\f".toList
  else if 32 ≤ c.toNat ∧ c.toNat < 127 then [c]
  else if c.toNat < 0x10000 then escapeUnit c.toNat
  else
    escapeUnit (0xD800 + (c.toNat - 0x10000) / 0x400) ++
      escapeUnit (0xDC00 + (c.toNat - 0x10000) % 0x400)

/-- A string as JSON. -/
def quote (t : Text) : Text := "\"".toList ++ t.flatMap escapeChar ++ "\"".toList

mutual

/-- `json.dumps(value, sort_keys=True, separators=(itemSep, keySep))`. -/
def dumps (floatRepr : ℚ → Text) (itemSep keySep : Text) : Json → Text
  | null => "null".toList
  | bool value => (if value then "true" else "false").toList
  | int value => Text.ofInt value
  | float value => floatRepr value
  | str value => quote value
  | arr items =>
      "[".toList ++ Text.join itemSep (dumpsItems floatRepr itemSep keySep items) ++ "]".toList
  | obj fields =>
      let entries := (dumpsFields floatRepr itemSep keySep fields).mergeSort
        fun a b => Text.le a.1 b.1
      "\x7b".toList ++
        Text.join itemSep (entries.map fun entry => quote entry.1 ++ keySep ++ entry.2) ++
        "\x7d".toList

/-- The items of an array. -/
def dumpsItems (floatRepr : ℚ → Text) (itemSep keySep : Text) : List Json → List Text
  | [] => []
  | item :: rest =>
      dumps floatRepr itemSep keySep item :: dumpsItems floatRepr itemSep keySep rest

/-- The fields of an object, in the order of their insertion. -/
def dumpsFields (floatRepr : ℚ → Text) (itemSep keySep : Text) :
    List (Text × Json) → List (Text × Text)
  | [] => []
  | (key, value) :: rest =>
      (key, dumps floatRepr itemSep keySep value) :: dumpsFields floatRepr itemSep keySep rest

end

end Json

end Ecrke
