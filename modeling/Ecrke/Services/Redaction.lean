import Ecrke.Services.Normalizer
import Ecrke.Text.Substitution
import Ecrke.Text.Utf8

/-!
# Redaction is complete

The replacements of `redactSecrets` stand in brackets, in which no secret can start and into which
none can reach.  So after the five substitutions no secret pattern matches any more.

* `SecretFree` -- no secret pattern matches a part of a text.
* `redactSecrets_secretFree` -- a redacted text is free of secrets.
* `redactSecrets_eq_self_iff` -- redaction leaves alone exactly the texts which are.
* `redactBytesForStorage`, `redactBytes_eq_self_iff` -- the same for the bytes of a text.
-/

namespace Ecrke

open Regex

/-- No secret pattern matches a part of a text. -/
def SecretFree (u : Unicode) (text : Text) : Prop :=
  ∀ entry ∈ secretPatterns u, Absent entry.1 text

/-- The letters with which the secrets start. -/
def startsSecret (c : Char) : Bool := "sAgpPStTaſ".toList.contains c

/-! ## Parts of the patterns -/

theorem literal_blind (t : Text) : Blind (literal t) := by
  induction t with
  | nil => exact trivial
  | cons c rest ih => exact ⟨ih, .inl trivial⟩

theorem literal_bounded (isWord : Char → Bool) (t : Text) : Bounded isWord (literal t) := by
  induction t with
  | nil => exact trivial
  | cons c rest ih => exact ⟨trivial, ih⟩

theorem literal_rejects {c : Char} {t : Text} (h : c ∉ t) : Rejects c (literal t) := by
  induction t with
  | nil => exact trivial
  | cons d rest ih =>
      have hHead : (c == d) = false := by
        rw [beq_eq_false_iff_ne]
        rintro rfl
        exact h (List.mem_cons_self ..)
      exact ⟨hHead, ih fun hRest => h (List.mem_cons_of_mem _ hRest)⟩

theorem literalIgnoringCase_blind (t : Text) : Blind (literalIgnoringCase t) := by
  induction t with
  | nil => exact trivial
  | cons c rest ih => exact ⟨ih, .inl trivial⟩

theorem literalIgnoringCase_bounded (isWord : Char → Bool) (t : Text) :
    Bounded isWord (literalIgnoringCase t) := by
  induction t with
  | nil => exact trivial
  | cons c rest ih => exact ⟨trivial, ih⟩

theorem literalIgnoringCase_rejects {c : Char} {t : Text}
    (h : t.all fun d => !(caseVariants d).contains c) : Rejects c (literalIgnoringCase t) := by
  induction t with
  | nil => exact trivial
  | cons d rest ih =>
      rw [List.all_cons, Bool.and_eq_true] at h
      have hHead : (caseVariants d).contains c = false := by simpa using h.1
      exact ⟨hHead, ih h.2⟩

/-- The last pattern of a sequence may be matched by itself. -/
theorem stops_sequence_snoc {patterns : List (Regex Char)} (hSome : patterns ≠ [])
    (last : Regex Char) (at_ : Cursor Char) :
    (sequence (patterns ++ [last])).stops at_ = (Regex.seq (sequence patterns) last).stops at_ := by
  induction patterns generalizing at_ with
  | nil => exact absurd rfl hSome
  | cons first rest ih =>
      cases rest with
      | nil => rfl
      | cons second rest =>
          have hRest (at_ : Cursor Char) := ih (by simp) at_
          show (first.stops at_).flatMap (sequence (second :: rest ++ [last])).stops = _
          rw [funext hRest]
          exact List.flatMap_assoc.symm

/-! ## Keys -/

/-- A pattern for a key, between two boundaries. -/
theorem fenced_key (u : Unicode) (inner : List (Regex Char)) (hSome : inner ≠ [])
    (hBounded : Bounded u.isWord (sequence inner)) (hBlind : Blind (sequence inner))
    (hConsumes : Consumes (sequence inner)) (hRejects : Rejects '[' (sequence inner))
    (hOpens : Opens startsSecret (sequence inner)) :
    Fenced u.isWord startsSecret '['
      (sequence (.boundary u.isWord :: inner ++ [.boundary u.isWord]))
      (.seq (.boundary u.isWord) (sequence inner)) (.boundary u.isWord) := by
  have hSplit (at_ : Cursor Char) :
      (sequence (.boundary u.isWord :: inner ++ [.boundary u.isWord])).stops at_ =
        (Regex.seq (.seq (.boundary u.isWord) (sequence inner)) (.boundary u.isWord)).stops at_ := by
    rw [stops_sequence_snoc (by simp)]
    cases inner with
    | nil => exact absurd rfl hSome
    | cons first rest => rfl
  constructor
  case split => exact hSplit
  case bounded => exact ⟨rfl, hBounded⟩
  case blind => exact ⟨hBlind, .inr hConsumes⟩
  case rejects => exact ⟨trivial, hRejects⟩
  case opens =>
    intro behind taken ahead hTakes
    obtain ⟨one, two, rfl, hBoundary, hInner⟩ := takes_seq.mp hTakes
    obtain ⟨rfl, hNear⟩ := takes_boundary.mp hBoundary
    obtain ⟨letter, rest, rfl, hStarts⟩ := hInner.opens hOpens
    exact ⟨letter, rest, rfl, hStarts, hNear⟩
  case near =>
    intro behind behind' ahead ahead' hBehind hAhead hStops
    rw [boundary_ne_nil] at hStops ⊢
    unfold nearWord at hStops ⊢
    rwa [← hBehind, ← hAhead]
  case past =>
    intro behind later letter rest _ hNear _
    exact boundary_ne_nil.mpr hNear
  case ends =>
    intro at_ stop letter rest hHead hAhead _ hWord
    have hStop := List.mem_of_mem_head? hHead
    rw [hSplit] at hStop
    obtain ⟨middle, -, hStop⟩ := List.mem_flatMap.mp hStop
    obtain ⟨taken, -, hBehind, hTakes⟩ := takes_of_mem hStop
    obtain ⟨rfl, hNear⟩ := takes_boundary.mp hTakes
    rw [List.reverse_nil, List.nil_append] at hBehind
    have hLetter : nearWord u.isWord stop.ahead = true := by
      rw [hAhead]
      exact hWord
    rw [hLetter, ← hBehind] at hNear
    simpa using hNear

/-- A pattern of the list, with a body and a tail. -/
def FencedSecret (u : Unicode) (pattern : Regex Char) : Prop :=
  ∃ body tail, Fenced u.isWord startsSecret '[' pattern body tail

theorem openAiPattern_fenced (u : Unicode) : FencedSecret u (openAiPattern u) := by
  refine ⟨_, _, fenced_key u [literal "sk-".toList, .many isKeyChar 16 none] (by simp)
    ?_ ?_ ?_ ?_ ?_⟩
  · exact ⟨literal_bounded _ _, trivial⟩
  · exact ⟨trivial, .inl (literal_blind _)⟩
  · exact .inl (.inl trivial)
  · exact ⟨literal_rejects (by decide), rfl⟩
  · intro letter hLetter
    rw [eq_of_beq hLetter]
    decide

theorem googlePattern_fenced (u : Unicode) : FencedSecret u (googlePattern u) := by
  refine ⟨_, _, fenced_key u [literal "AIza".toList, .many isKeyChar 20 none] (by simp)
    ?_ ?_ ?_ ?_ ?_⟩
  · exact ⟨literal_bounded _ _, trivial⟩
  · exact ⟨trivial, .inl (literal_blind _)⟩
  · exact .inl (.inl trivial)
  · exact ⟨literal_rejects (by decide), rfl⟩
  · intro letter hLetter
    rw [eq_of_beq hLetter]
    decide

theorem gitHubPattern_fenced (u : Unicode) : FencedSecret u (gitHubPattern u) := by
  refine ⟨_, _, fenced_key u [literal "gh".toList, .one fun c => "pousr".toList.contains c,
    literal "_".toList, .many isAsciiAlphanum 20 none] (by simp) ?_ ?_ ?_ ?_ ?_⟩
  · exact ⟨literal_bounded _ _, trivial, literal_bounded _ _, trivial⟩
  · exact ⟨⟨⟨trivial, .inl (literal_blind _)⟩, .inl trivial⟩, .inl (literal_blind _)⟩
  · exact .inl (.inl trivial)
  · exact ⟨literal_rejects (by decide), rfl, literal_rejects (by decide), rfl⟩
  · intro letter hLetter
    rw [eq_of_beq hLetter]
    decide

theorem awsPattern_fenced (u : Unicode) : FencedSecret u (awsPattern u) := by
  refine ⟨_, _, fenced_key u [literal "AKIA".toList,
    .many (fun c => c.isDigit || c.isUpper) 16 (some 16)] (by simp) ?_ ?_ ?_ ?_ ?_⟩
  · exact ⟨literal_bounded _ _, trivial⟩
  · exact ⟨trivial, .inl (literal_blind _)⟩
  · exact .inl (.inl trivial)
  · exact ⟨literal_rejects (by decide), rfl⟩
  · intro letter hLetter
    rw [eq_of_beq hLetter]
    decide

/-! ## Passwords -/

/-- The class `[^\s,;]`. -/
def isValueChar (c : Char) : Bool := !(Text.isSpace c || c == ',' || c == ';')

/-- The names of secrets. -/
def secretName : Regex Char :=
  anyOf (literalIgnoringCase "password".toList)
    [literalIgnoringCase "passwd".toList, literalIgnoringCase "secret".toList,
      literalIgnoringCase "token".toList,
      sequence [literalIgnoringCase "api".toList,
        .many (fun c => c == '_' || c == '-') 0 (some 1), literalIgnoringCase "key".toList]]

/-- What is between the name of a secret and its value, the name included. -/
def passwordInner (u : Unicode) : List (Regex Char) :=
  [secretName, .boundary u.isWord, .many Text.isSpace 0 none, .one fun c => c == ':' || c == '=',
    .many Text.isSpace 0 none]

theorem secretName_bounded (isWord : Char → Bool) : Bounded isWord secretName :=
  ⟨literalIgnoringCase_bounded _ _, literalIgnoringCase_bounded _ _,
    literalIgnoringCase_bounded _ _, literalIgnoringCase_bounded _ _,
    literalIgnoringCase_bounded _ _, trivial, literalIgnoringCase_bounded _ _⟩

theorem secretName_rejects : Rejects '[' secretName :=
  ⟨literalIgnoringCase_rejects (by decide), literalIgnoringCase_rejects (by decide),
    literalIgnoringCase_rejects (by decide), literalIgnoringCase_rejects (by decide),
    literalIgnoringCase_rejects (by decide), rfl, literalIgnoringCase_rejects (by decide)⟩

theorem secretName_opens : Opens startsSecret secretName := by
  have hLetter (c : Char) (hAll : (caseVariants c).all startsSecret) (d : Char)
      (hd : (caseVariants c).contains d = true) : startsSecret d = true :=
    List.all_eq_true.mp hAll d (List.contains_iff_mem.mp hd)
  exact ⟨hLetter 'p' (by decide), hLetter 'p' (by decide), hLetter 's' (by decide),
    hLetter 't' (by decide), hLetter 'a' (by decide)⟩

theorem startsSecret_value {c : Char} (h : startsSecret c) : isValueChar c := by
  have hAll : "sAgpPStTaſ".toList.all isValueChar := by decide
  exact List.all_eq_true.mp hAll c (List.contains_iff_mem.mp h)

theorem passwordPattern_fenced (u : Unicode) : FencedSecret u (passwordPattern u) := by
  have hSplit (at_ : Cursor Char) : (passwordPattern u).stops at_ =
      (Regex.seq (.seq (.boundary u.isWord) (sequence (passwordInner u)))
        (.many isValueChar 1 none)).stops at_ := by
    show (sequence ((.boundary u.isWord :: passwordInner u) ++ [.many isValueChar 1 none])).stops
      at_ = _
    rw [stops_sequence_snoc (by simp)]
    rfl
  refine ⟨_, _, hSplit, ?_, ?_, ?_, ?_, ?_, ?_, ?_⟩
  · exact ⟨rfl, secretName_bounded _, rfl, trivial, trivial, trivial⟩
  · -- The body ends with a colon or an equals sign, after which it may take blanks.
    exact ⟨⟨⟨⟨⟨trivial, .inl trivial⟩, .inl trivial⟩, .inr (.inr (.inl trivial))⟩,
      .inr (.inr (.inr (.inl trivial)))⟩, .inr (.inr (.inr (.inr (.inl trivial))))⟩
  · exact ⟨trivial, secretName_rejects, trivial, rfl, rfl, rfl⟩
  · intro behind taken ahead hTakes
    obtain ⟨one, two, rfl, hBoundary, hInner⟩ := takes_seq.mp hTakes
    obtain ⟨rfl, hNear⟩ := takes_boundary.mp hBoundary
    have hOpens : Opens startsSecret (sequence (passwordInner u)) := secretName_opens
    obtain ⟨letter, rest, rfl, hStarts⟩ := hInner.opens hOpens
    exact ⟨letter, rest, rfl, hStarts, hNear⟩
  · intro behind behind' ahead ahead' _ hAhead hStops
    rw [many_one_ne_nil] at hStops ⊢
    rwa [← hAhead]
  · intro behind later letter rest hStarts _ _
    exact many_one_ne_nil.mpr (startsSecret_value hStarts)
  · intro at_ stop letter rest hHead hAhead hStarts _
    -- The value takes every letter it can, so no secret starts where it stops.
    rw [hSplit, stops, List.head?_flatMap] at hHead
    obtain ⟨middle, -, hMiddle⟩ := List.exists_of_findSome?_eq_some hHead
    have hGreedy : isValueChar letter = false := manyFrom_greedy hMiddle hAhead
    rw [startsSecret_value hStarts] at hGreedy
    exact absurd hGreedy (by decide)

/-! ## The replacements -/

/-- Two letters of ASCII which both belong to words, or both do not. -/
def sameKind (c d : Char) : Bool :=
  Unicode.isAscii c && Unicode.isAscii d &&
    ((c.isAlphanum || c == '_') == (d.isAlphanum || d == '_'))

theorem isWord_eq_of_sameKind (u : Unicode) {c d : Char} (h : sameKind c d) :
    u.isWord c = u.isWord d := by
  simp only [sameKind, Bool.and_eq_true, beq_iff_eq] at h
  obtain ⟨⟨hc, hd⟩, hKind⟩ := h
  rw [Unicode.isWord, Unicode.isWord, if_pos hc, if_pos hd, hKind]

/-- In a replacement a start letter always follows a letter of its own kind. -/
theorem fence_of_sameKind (u : Unicode) {rest : Text}
    (hCloses : nearWord u.isWord ('[' :: rest).reverse = false)
    (hChain : ('[' :: rest).IsChain fun c d => startsSecret d → sameKind c d) :
    Fence u.isWord startsSecret '[' ('[' :: rest) :=
  Fence.of_isChain rfl hCloses
    (hChain.imp fun _ _ hKind hStarts => isWord_eq_of_sameKind u (hKind hStarts))

theorem secretPatterns_fenced (u : Unicode) :
    AllFenced u.isWord startsSecret '[' (secretPatterns u) := by
  have hKey : Fence u.isWord startsSecret '[' "[REDACTED_API_KEY]".toList :=
    fence_of_sameKind u rfl (by decide)
  have hPassword : Fence u.isWord startsSecret '[' "[REDACTED]".toList :=
    fence_of_sameKind u rfl (by decide)
  unfold AllFenced secretPatterns
  simp only [List.forall_mem_cons]
  exact ⟨⟨hKey, openAiPattern_fenced u⟩, ⟨hKey, googlePattern_fenced u⟩,
    ⟨hKey, gitHubPattern_fenced u⟩, ⟨hKey, awsPattern_fenced u⟩,
    ⟨hPassword, passwordPattern_fenced u⟩, by simp⟩

/-! ## Completeness -/

/-- A redacted text is free of secrets. -/
theorem redactSecrets_secretFree (u : Unicode) (text : Text) :
    SecretFree u (redactSecrets u text) :=
  absent_foldl (secretPatterns_fenced u) text

theorem SecretFree.redactSecrets_eq {u : Unicode} {text : Text} (h : SecretFree u text) :
    redactSecrets u text = text := by
  have hFold (patterns : List (Regex Char × Text))
      (hAll : ∀ entry ∈ patterns, Absent entry.1 text) :
      patterns.foldl (fun text entry => entry.1.sub entry.2 text) text = text := by
    induction patterns with
    | nil => rfl
    | cons entry rest ih =>
        rw [List.foldl_cons, (hAll entry (by simp)).sub_eq]
        exact ih fun other hOther => hAll other (List.mem_cons_of_mem _ hOther)
  exact hFold _ h

/-- Redaction leaves a text alone if and only if it is free of secrets. -/
theorem redactSecrets_eq_self_iff (u : Unicode) (text : Text) :
    redactSecrets u text = text ↔ SecretFree u text := by
  constructor
  · intro h
    rw [← h]
    exact redactSecrets_secretFree u text
  · exact SecretFree.redactSecrets_eq

/-! ## Bytes -/

/-- Redact the bytes of a text; other bytes pass. -/
def redactBytesForStorage (u : Unicode) (content : Bytes) : Bytes :=
  match Bytes.decodeUtf8 content with
  | none => content
  | some decoded => Bytes.encodeUtf8 (redactSecrets u decoded)

/-- Bytes which are no text, or the bytes of a text free of secrets. -/
def SecretFreeBytes (u : Unicode) (content : Bytes) : Prop :=
  ∀ text, Bytes.decodeUtf8 content = some text → SecretFree u text

/-- Redacted bytes are free of secrets. -/
theorem redactBytes_secretFree (u : Unicode) (content : Bytes) :
    SecretFreeBytes u (redactBytesForStorage u content) := by
  intro text hText
  cases hDecode : Bytes.decodeUtf8 content with
  | none =>
      rw [redactBytesForStorage, hDecode] at hText
      dsimp only at hText
      rw [hDecode] at hText
      cases hText
  | some decoded =>
      rw [redactBytesForStorage, hDecode] at hText
      dsimp only at hText
      rw [Bytes.decodeUtf8_encodeUtf8] at hText
      cases hText
      exact redactSecrets_secretFree u decoded

/-- Redaction leaves bytes alone if and only if they are free of secrets. -/
theorem redactBytes_eq_self_iff (u : Unicode) (content : Bytes) :
    redactBytesForStorage u content = content ↔ SecretFreeBytes u content := by
  constructor
  · intro h
    rw [← h]
    exact redactBytes_secretFree u content
  · intro h
    cases hDecode : Bytes.decodeUtf8 content with
    | none => rw [redactBytesForStorage, hDecode]
    | some decoded =>
        rw [redactBytesForStorage, hDecode]
        show Bytes.encodeUtf8 (redactSecrets u decoded) = content
        rw [(h decoded hDecode).redactSecrets_eq]
        exact Bytes.encodeUtf8_of_decodeUtf8 hDecode

end Ecrke
