import Ecrke.Services.AuditWriter
import Ecrke.Services.Redaction
import Ecrke.Text.Replacement

/-!
# Redaction of JSON values

`redactJson` redacts the strings which are values, at any depth, and leaves the keys of objects as
they are.  So a redacted value is free of secrets if its keys are, and the keys which the program
writes are too plain to match a pattern.

* `strings_redactJson`, `keys_redactJson` -- the strings and the keys of a redacted value.
* `Json.Clean` -- no secret in a string or in a key.
* `PlainName`, `PlainName.secretFree` -- names which match no secret pattern.
* `redactJson_clean` -- a redacted value with plain keys is clean.
-/

namespace Ecrke

open Regex

section Structure

variable (u : Unicode)

mutual

/-- The strings of a redacted value are the redacted strings. -/
theorem strings_redactJson (value : Json) :
    (redactJson u value).strings = value.strings.map (redactSecrets u) := by
  cases value with
  | arr items => exact strings_redactItems items
  | obj fields => exact strings_redactFields fields
  | _ => rfl

theorem strings_redactItems (items : List Json) :
    Json.itemsStrings (redactItems u items) = (Json.itemsStrings items).map (redactSecrets u) := by
  cases items with
  | nil => rfl
  | cons item rest =>
      rw [redactItems, Json.itemsStrings, Json.itemsStrings, List.map_append,
        strings_redactJson item, strings_redactItems rest]

theorem strings_redactFields (fields : List (Text × Json)) :
    Json.fieldsStrings (redactFields u fields) =
      (Json.fieldsStrings fields).map (redactSecrets u) := by
  cases fields with
  | nil => rfl
  | cons field rest =>
      obtain ⟨key, value⟩ := field
      rw [redactFields, Json.fieldsStrings, Json.fieldsStrings, List.map_append,
        strings_redactJson value, strings_redactFields rest]

end

mutual

/-- Redaction leaves the keys alone. -/
theorem keys_redactJson (value : Json) : (redactJson u value).keys = value.keys := by
  cases value with
  | arr items => exact keys_redactItems items
  | obj fields => exact keys_redactFields fields
  | _ => rfl

theorem keys_redactItems (items : List Json) :
    Json.itemsKeys (redactItems u items) = Json.itemsKeys items := by
  cases items with
  | nil => rfl
  | cons item rest =>
      rw [redactItems, Json.itemsKeys, Json.itemsKeys, keys_redactJson item, keys_redactItems rest]

theorem keys_redactFields (fields : List (Text × Json)) :
    Json.fieldsKeys (redactFields u fields) = Json.fieldsKeys fields := by
  cases fields with
  | nil => rfl
  | cons field rest =>
      obtain ⟨key, value⟩ := field
      rw [redactFields, Json.fieldsKeys, Json.fieldsKeys, keys_redactJson value,
        keys_redactFields rest]

end

end Structure

/-- No secret pattern matches in a string of the value or in a key of one of its objects. -/
structure Json.Clean (u : Unicode) (value : Json) : Prop where
  strings : ∀ text ∈ value.strings, SecretFree u text
  keys : ∀ key ∈ value.keys, SecretFree u key

theorem redactJson_strings (u : Unicode) (value : Json) :
    ∀ text ∈ (redactJson u value).strings, SecretFree u text := by
  intro text hText
  rw [strings_redactJson] at hText
  obtain ⟨before, -, rfl⟩ := List.mem_map.mp hText
  exact redactSecrets_secretFree u before

/-! ## Plain names -/

/-- The letters one of which is in every secret but for those of one kind. -/
def isNameBreak (c : Char) : Bool := "-A:=".toList.contains c

/-- A short name without these letters, as the program uses for the keys of objects. -/
structure PlainName (name : Text) : Prop where
  short : name.length < 24
  letters : ∀ c ∈ name, ¬ isNameBreak c

/-- All the names are plain. -/
def plainNames (names : List Text) : Bool :=
  names.all fun name => name.length < 24 && name.all fun c => !isNameBreak c

theorem plainNames_mem {names : List Text} (h : plainNames names = true) :
    ∀ name ∈ names, PlainName name := by
  intro name hName
  have hBoth := List.all_eq_true.mp h name hName
  simp only [Bool.and_eq_true, decide_eq_true_eq, List.all_eq_true, Bool.not_eq_true'] at hBoth
  exact ⟨hBoth.1, fun c hc => by simp [hBoth.2 c hc]⟩

theorem PlainName.secretFree {u : Unicode} {name : Text} (h : PlainName name) :
    SecretFree u name := by
  have hLiteral (literalText : Text) (c : Char) (hMem : c ∈ literalText) (hBreak : isNameBreak c)
      {patterns : List (Regex Char)} (hIn : literal literalText ∈ patterns) :
      Absent (sequence patterns) name :=
    .of_needs (needs_sequence hIn (needs_literal hMem hBreak)) h.letters
  unfold SecretFree secretPatterns
  simp only [List.forall_mem_cons, List.not_mem_nil, false_imp_iff, implies_true, and_true]
  refine ⟨?_, ?_, ?_, ?_, ?_⟩
  · exact hLiteral "sk-".toList '-' (by decide) (by decide) (by simp)
  · exact hLiteral "AIza".toList 'A' (by decide) (by decide) (by simp)
  · have hShortest : (gitHubPattern u).shortest = 24 := rfl
    exact .of_short (hShortest ▸ h.short)
  · exact hLiteral "AKIA".toList 'A' (by decide) (by decide) (by simp)
  · refine .of_needs (needs_sequence (p := .one fun c => c == ':' || c == '=') (by simp) ?_)
      h.letters
    intro c hc
    simp only [Bool.or_eq_true, beq_iff_eq] at hc
    rcases hc with rfl | rfl <;> decide

/-- The keys of the objects in a value are plain. -/
def Json.PlainKeys (value : Json) : Prop := ∀ key ∈ value.keys, PlainName key

theorem plainKeys_obj {fields : List (Text × Json)} :
    (Json.obj fields).PlainKeys ↔ ∀ field ∈ fields, PlainName field.1 ∧ field.2.PlainKeys := by
  show (∀ key ∈ Json.fieldsKeys fields, PlainName key) ↔ _
  constructor
  · intro h field hField
    exact ⟨h _ (Json.mem_fieldsKeys.mpr ⟨field, hField, .inl rfl⟩),
      fun key hKey => h _ (Json.mem_fieldsKeys.mpr ⟨field, hField, .inr hKey⟩)⟩
  · intro h key hKey
    obtain ⟨field, hField, rfl | hInside⟩ := Json.mem_fieldsKeys.mp hKey
    · exact (h field hField).1
    · exact (h field hField).2 key hInside

theorem plainKeys_arr {items : List Json} :
    (Json.arr items).PlainKeys ↔ ∀ item ∈ items, item.PlainKeys := by
  show (∀ key ∈ Json.itemsKeys items, PlainName key) ↔ _
  constructor
  · exact fun h item hItem key hKey => h key (Json.mem_itemsKeys.mpr ⟨item, hItem, hKey⟩)
  · intro h key hKey
    obtain ⟨item, hItem, hInside⟩ := Json.mem_itemsKeys.mp hKey
    exact h item hItem key hInside

/-- A value without objects has plain keys. -/
theorem plainKeys_of_keys {value : Json} (h : value.keys = []) : value.PlainKeys := by
  intro key hKey
  rw [h] at hKey
  cases hKey

@[simp] theorem plainKeys_null : Json.null.PlainKeys := plainKeys_of_keys rfl

@[simp] theorem plainKeys_bool (value : Bool) : (Json.bool value).PlainKeys := plainKeys_of_keys rfl

@[simp] theorem plainKeys_int (value : Int) : (Json.int value).PlainKeys := plainKeys_of_keys rfl

@[simp] theorem plainKeys_float (value : ℚ) : (Json.float value).PlainKeys := plainKeys_of_keys rfl

@[simp] theorem plainKeys_str (value : Text) : (Json.str value).PlainKeys := plainKeys_of_keys rfl

@[simp] theorem plainKeys_ofTexts (texts : List Text) : (Json.ofTexts texts).PlainKeys :=
  plainKeys_of_keys (Json.keys_ofTexts texts)

/-- An object whose own keys are plain, with plain keys in its fields. -/
theorem plainKeys_named {fields : List (Text × Json)}
    (hNames : plainNames (fields.map Prod.fst) = true)
    (hFields : ∀ value ∈ fields.map Prod.snd, value.PlainKeys) : (Json.obj fields).PlainKeys :=
  plainKeys_obj.mpr fun field hField =>
    ⟨plainNames_mem hNames field.1 (List.mem_map_of_mem hField),
      hFields field.2 (List.mem_map_of_mem hField)⟩

/-- A redacted value with plain keys is clean. -/
theorem redactJson_clean {u : Unicode} {value : Json} (h : value.PlainKeys) :
    (redactJson u value).Clean u := by
  refine ⟨redactJson_strings u value, fun key hKey => ?_⟩
  rw [keys_redactJson] at hKey
  exact (h key hKey).secretFree

/-- The evidence of an audit row is clean. -/
def AuditTrace.Clean (u : Unicode) (audit : AuditTrace) : Prop :=
  ∀ evidence, audit.evidence = some evidence → evidence.Clean u

theorem AuditEntry.row_clean {u : Unicode} {entry : AuditEntry} {id : Uuid} {ts : Instant}
    (h : ∀ evidence, entry.evidence = some evidence → evidence.PlainKeys) :
    (entry.row u id ts).Clean u := by
  intro evidence hEvidence
  obtain ⟨before, hBefore, rfl⟩ := Option.map_eq_some_iff.mp hEvidence
  exact redactJson_clean (h before hBefore)

end Ecrke
