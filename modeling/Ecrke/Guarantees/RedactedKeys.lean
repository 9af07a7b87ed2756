import Ecrke.Services.Redaction
import Ecrke.Text.Replacement

/-!
# What redaction leaves behind

After redaction no secret pattern matches any more.  A key of the first kind survives only where it
stands next to a letter of a word, of any script, since the pattern asks for word boundaries.

* `redaction_complete` -- no match is left, and redacting again changes nothing.
* `OpenAiKey` -- the keys in question.
* `foldl_sub_origin` -- a piece which survives several substitutions.
* `key_redacted` -- a key between letters of no word does not survive.
-/

namespace Ecrke

open Regex

/-- After redaction none of the secret patterns matches anywhere, and redacting again changes
nothing. -/
theorem redaction_complete (u : Unicode) (text : Text) :
    (∀ entry ∈ secretPatterns u, Absent entry.1 (redactSecrets u text)) ∧
      redactSecrets u (redactSecrets u text) = redactSecrets u text := by
  have hFree := redactSecrets_secretFree u text
  exact ⟨hFree, hFree.redactSecrets_eq⟩

/-! ## Keys -/

/-- `sk-` and at least 16 characters of `[A-Za-z0-9_-]`, with an ASCII letter or digit at the end. -/
structure OpenAiKey (key : Text) : Prop where
  split : ∃ body last, key = "sk-".toList ++ (body ++ [last]) ∧ 16 ≤ (body ++ [last]).length ∧
    (∀ c ∈ body ++ [last], isKeyChar c) ∧ isAsciiAlphanum last

section Keys

variable {u : Unicode} {key behind ahead : Text}

theorem takes_literal (t : Text) : Takes (literal t) behind t ahead := by
  induction t generalizing behind with
  | nil => exact takes_empty.mpr rfl
  | cons c rest ih =>
      apply takes_seq.mpr
      exact ⟨[c], rest, rfl, takes_one.mpr ⟨c, rfl, by simp⟩, ih⟩

theorem isWord_of_asciiAlphanum {c : Char} (h : isAsciiAlphanum c) : u.isWord c = true := by
  have hCase : c.isAlphanum = true := h
  have hAscii : Unicode.isAscii c = true := by
    delta Char.isAlphanum Char.isAlpha Char.isUpper Char.isLower Char.isDigit at hCase
    simp only [Bool.or_eq_true, Bool.and_eq_true, decide_eq_true_eq, UInt32.le_iff_toNat_le] at hCase
    have hSmall : c.toNat < 128 := by
      have hVal : c.val.toNat = c.toNat := rfl
      simp at hCase
      omega
    simpa [Unicode.isAscii] using hSmall
  simp [Unicode.isWord, hAscii, hCase]

/-- Between letters which belong to no word a key is a match. -/
theorem OpenAiKey.takes (h : OpenAiKey key) (hBehind : nearWord u.isWord behind = false)
    (hAhead : nearWord u.isWord ahead = false) : Takes (openAiPattern u) behind key ahead := by
  obtain ⟨body, last, rfl, hLength, hChars, hLast⟩ := h.split
  have hStart : nearWord u.isWord ("sk-".toList ++ (body ++ [last]) ++ ahead) = true := rfl
  have hEnd : nearWord u.isWord ((body ++ [last]).reverse ++ ("sk-".toList.reverse ++ behind)) =
      true := by
    rw [List.reverse_append, List.reverse_singleton]
    exact isWord_of_asciiAlphanum hLast
  apply takes_seq.mpr
  refine ⟨[], "sk-".toList ++ (body ++ [last]), rfl, ?_, ?_⟩
  · exact takes_boundary.mpr ⟨rfl, by rw [hBehind, hStart]; simp⟩
  apply takes_seq.mpr
  refine ⟨"sk-".toList, body ++ [last], rfl, takes_literal _, ?_⟩
  apply takes_seq.mpr
  refine ⟨body ++ [last], [], by simp, takes_many.mpr ⟨hChars, hLength, by simp⟩, ?_⟩
  exact takes_boundary.mpr ⟨rfl, by rw [hAhead]; simpa using hEnd⟩

theorem OpenAiKey.head (h : OpenAiKey key) : ∃ rest, key = 's' :: rest := by
  obtain ⟨body, last, rfl, -⟩ := h.split
  exact ⟨"k-".toList ++ (body ++ [last]), rfl⟩

/-- No bracket is part of a key. -/
theorem OpenAiKey.unfenced (h : OpenAiKey key) : '[' ∉ key := by
  obtain ⟨body, last, rfl, -, hChars, -⟩ := h.split
  intro hMem
  rcases List.mem_append.mp hMem with hFront | hBody
  · exact absurd hFront (by decide)
  · exact absurd (hChars '[' hBody) (by decide)

end Keys

/-! ## What survives -/

/-- A piece which several substitutions leave has been in the text from the beginning. -/
theorem foldl_sub_origin {isWord starts : Char → Bool} {fence first : Char} {piece : Text}
    {patterns : List (Regex Char × Text)} (h : AllFenced isWord starts fence patterns)
    (hFirst : ∀ entry ∈ patterns, first ∉ entry.2) (hFence : fence ∉ first :: piece) {text : Text}
    (hLeft : (first :: piece) <:+: patterns.foldl (fun text entry => entry.1.sub entry.2 text) text) :
    (first :: piece) <:+: text := by
  induction patterns generalizing text with
  | nil => exact hLeft
  | cons entry rest ih =>
      obtain ⟨hReplacement, body, tail, hFenced⟩ := h entry (by simp)
      have hRest : AllFenced isWord starts fence rest :=
        fun other hOther => h other (List.mem_cons_of_mem _ hOther)
      obtain ⟨earlier, later, hSub⟩ :=
        ih hRest (fun other hOther => hFirst other (List.mem_cons_of_mem _ hOther)) hLeft
      rw [List.append_assoc] at hSub
      obtain ⟨taken, back, rfl, -⟩ :=
        hFenced.piece_origin hReplacement.opens (hFirst entry (by simp)) hFence hSub.symm
      exact ⟨taken, back, by rw [List.append_assoc]⟩

/-- A key does not survive redaction, if nowhere in the text one of its neighbours belongs to a
word. -/
theorem key_redacted (u : Unicode) {key text : Text} (hKey : OpenAiKey key)
    (hNeighbours : ∀ before after, text = before ++ (key ++ after) →
      nearWord u.isWord before.reverse = false ∧ nearWord u.isWord after = false) :
    ¬ key <:+: redactSecrets u text := by
  intro hLeft
  obtain ⟨rest, hHead⟩ := hKey.head
  have hFence : '[' ∉ 's' :: rest := hHead ▸ hKey.unfenced
  have hFenced := secretPatterns_fenced u
  -- The four later substitutions have left the key where the first one has.
  have hLater : AllFenced u.isWord startsSecret '[' ((secretPatterns u).drop 1) :=
    fun entry hMem => hFenced entry (List.mem_of_mem_drop hMem)
  have hNoFirst : ∀ entry ∈ (secretPatterns u).drop 1, 's' ∉ entry.2 := by
    simp only [secretPatterns, List.drop_succ_cons, List.drop_zero, List.forall_mem_cons]
    decide
  have hFirstSub : key <:+: (openAiPattern u).sub "[REDACTED_API_KEY]".toList text := by
    rw [hHead]
    exact foldl_sub_origin hLater hNoFirst hFence (hHead ▸ hLeft)
  -- There the pattern of these keys does not match, but it does.
  obtain ⟨hReplacement, body, tail, hOpenAi⟩ :=
    hFenced (openAiPattern u, "[REDACTED_API_KEY]".toList) (by simp [secretPatterns])
  obtain ⟨earlier, later, hSub⟩ := hFirstSub
  rw [List.append_assoc, hHead] at hSub
  obtain ⟨before, after, hText, hPassed⟩ :=
    hOpenAi.piece_origin hReplacement.opens
      (show 's' ∉ "[REDACTED_API_KEY]".toList by decide) hFence hSub.symm
  rw [← hHead] at hText hPassed
  obtain ⟨hBefore, hAfter⟩ := hNeighbours before after hText
  exact (hKey.takes hBefore hAfter).ne_nil hPassed

/-! ## One key in two texts -/

/-- Tables in which one letter outside ASCII belongs to words. -/
def Unicode.accented : Unicode := ⟨fun c => c == 'é', fun _ => true, fun c => [c], fun c => [c]⟩

/-- The shortest key of one letter. -/
def shortKey : Text := "sk-aaaaaaaaaaaaaaaa".toList

theorem shortKey_key : OpenAiKey shortKey := by
  refine ⟨⟨List.replicate 15 'a', 'a', rfl, by decide, fun c hc => ?_, rfl⟩⟩
  obtain rfl : c = 'a' := List.eq_of_mem_replicate (n := 16) hc
  rfl

/-- Wherever the key stands in the text, its neighbours belong to no word. -/
def keyApart (u : Unicode) (text : Text) : Bool :=
  (List.range (text.length + 1)).all fun n => !shortKey.isPrefixOf (text.drop n) ||
    (nearWord u.isWord (text.take n).reverse == false &&
      nearWord u.isWord ((text.drop n).drop shortKey.length) == false)

theorem neighbours_of_keyApart {u : Unicode} {text : Text} (h : keyApart u text = true)
    {before after : Text} (hText : text = before ++ (shortKey ++ after)) :
    nearWord u.isWord before.reverse = false ∧ nearWord u.isWord after = false := by
  have hInside : before.length < text.length + 1 := by
    rw [hText, List.length_append]
    omega
  have hPlace := List.all_eq_true.mp h before.length (List.mem_range.mpr hInside)
  rw [hText, List.take_left, List.drop_left, List.drop_left] at hPlace
  have hPrefix : shortKey.isPrefixOf (shortKey ++ after) = true := by
    rw [List.isPrefixOf_iff_prefix]
    exact List.prefix_append _ _
  simpa [hPrefix] using hPlace

/-- A key in quotation marks is redacted. -/
theorem key_redacted_quoted :
    ¬ shortKey <:+: redactSecrets .accented ("'".toList ++ (shortKey ++ "'".toList)) := by
  refine key_redacted .accented shortKey_key fun before after hText => ?_
  refine neighbours_of_keyApart ?_ hText
  decide

/-- The characters next to a key are not characters of keys. -/
def Loose (before after : Text) : Prop :=
  (∀ c, before.getLast? = some c → ¬ isKeyChar c) ∧ ∀ c, after.head? = some c → ¬ isKeyChar c

/-- A key survives with a letter of another script behind it, and so does a key which stands in the
text a second time with a letter before it. -/
theorem key_survives : ∃ (u : Unicode) (key : Text), OpenAiKey key ∧
    (∃ after, Loose [] after ∧ key <:+: redactSecrets u ([] ++ (key ++ after))) ∧
      ∃ before, Loose before [] ∧ key <:+: redactSecrets u (before ++ (key ++ [])) := by
  have hAccent : redactSecrets .accented (shortKey ++ "é".toList) = shortKey ++ "é".toList := by
    decide
  have hTwice : redactSecrets .accented ('x' :: (shortKey ++ ' ' :: shortKey)) =
      'x' :: (shortKey ++ " [REDACTED_API_KEY]".toList) := by
    decide
  refine ⟨.accented, shortKey, shortKey_key, ⟨"é".toList, ⟨by simp, ?_⟩, ?_⟩,
    'x' :: (shortKey ++ [' ']), ⟨?_, by simp⟩, ?_⟩
  · intro c hc
    obtain rfl : 'é' = c := by simpa using hc
    decide
  · rw [List.nil_append, hAccent]
    exact List.infix_append [] _ _
  · intro c hc
    obtain rfl : ' ' = c := by simpa [List.getLast?_cons] using hc
    decide
  · have hText : 'x' :: (shortKey ++ [' ']) ++ (shortKey ++ []) =
        'x' :: (shortKey ++ ' ' :: shortKey) := by simp
    rw [hText, hTwice]
    exact List.infix_append ['x'] _ _

end Ecrke
