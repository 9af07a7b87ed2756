import Ecrke.Text.Regex
import Ecrke.World

/-!
# Normalization, chunking, hashing and redaction

* `redactSecrets` -- replace secret-looking substrings; `redactSecrets_eq_self`, a text without the
  letters which every secret pattern needs is left alone.
* `redactJson` -- the same inside a JSON value.
* `collapseWhitespace`, `normalize` -- raw bytes of a source to clean, redacted text.
* `chunkPassages` -- split a text at paragraph breaks into retrieval units.
* `classifySource`, `contentHash` -- source types and digests.
-/

namespace Ecrke

/-! ## Secret patterns -/

/-- The pattern of a literal text. -/
def literal (t : Text) : Regex Char :=
  t.foldr (fun c rest => .seq (.one (· == c)) rest) .empty

/-- The characters which match a lower-case ASCII letter when case is ignored. -/
def caseVariants (c : Char) : Text :=
  [c, c.toUpper] ++
    if c = 's' then ['ſ'] else if c = 'k' then ['\u212A'] else if c = 'i' then ['İ', 'ı'] else []

/-- The pattern of a literal text in lower case when case is ignored. -/
def literalIgnoringCase (t : Text) : Regex Char :=
  t.foldr (fun c rest => .seq (.one fun d => (caseVariants c).contains d) rest) .empty

/-- One of two patterns or more. -/
def anyOf : Regex Char → List (Regex Char) → Regex Char
  | first, [] => first
  | first, second :: rest => .alt first (anyOf second rest)

/-- Several patterns one after the other. -/
def sequence : List (Regex Char) → Regex Char
  | [] => .empty
  | [last] => last
  | first :: rest => .seq first (sequence rest)

/-- The class `[A-Za-z0-9]`. -/
def isAsciiAlphanum (c : Char) : Bool := c.isAlphanum

/-- The class `[A-Za-z0-9_-]`. -/
def isKeyChar (c : Char) : Bool := isAsciiAlphanum c || c == '_' || c == '-'

/-- `\bsk-[A-Za-z0-9_-]{16,}\b` -/
def openAiPattern (u : Unicode) : Regex Char :=
  sequence [.boundary u.isWord, literal "sk-".toList, .many isKeyChar 16 none,
    .boundary u.isWord]

/-- `\bAIza[0-9A-Za-z_-]{20,}\b` -/
def googlePattern (u : Unicode) : Regex Char :=
  sequence [.boundary u.isWord, literal "AIza".toList, .many isKeyChar 20 none,
    .boundary u.isWord]

/-- `\bgh[pousr]_[0-9A-Za-z]{20,}\b` -/
def gitHubPattern (u : Unicode) : Regex Char :=
  sequence [.boundary u.isWord, literal "gh".toList,
    .one fun c => "pousr".toList.contains c, literal "_".toList,
    .many isAsciiAlphanum 20 none, .boundary u.isWord]

/-- `\bAKIA[0-9A-Z]{16}\b` -/
def awsPattern (u : Unicode) : Regex Char :=
  sequence [.boundary u.isWord, literal "AKIA".toList,
    .many (fun c => c.isDigit || c.isUpper) 16 (some 16), .boundary u.isWord]

/-- `(?i)\b(password|passwd|secret|token|api[_-]?key)\b\s*[:=]\s*[^\s,;]+` -/
def passwordPattern (u : Unicode) : Regex Char :=
  sequence [.boundary u.isWord,
    anyOf (literalIgnoringCase "password".toList)
      [literalIgnoringCase "passwd".toList, literalIgnoringCase "secret".toList,
        literalIgnoringCase "token".toList,
        sequence [literalIgnoringCase "api".toList,
          .many (fun c => c == '_' || c == '-') 0 (some 1), literalIgnoringCase "key".toList]],
    .boundary u.isWord, .many Text.isSpace 0 none, .one fun c => c == ':' || c == '=',
    .many Text.isSpace 0 none, .many (fun c => !(Text.isSpace c || c == ',' || c == ';')) 1 none]

/-- `_SECRET_PATTERNS` -/
def secretPatterns (u : Unicode) : List (Regex Char × Text) :=
  [(openAiPattern u, "[REDACTED_API_KEY]".toList),
    (googlePattern u, "[REDACTED_API_KEY]".toList),
    (gitHubPattern u, "[REDACTED_API_KEY]".toList),
    (awsPattern u, "[REDACTED_API_KEY]".toList),
    (passwordPattern u, "[REDACTED]".toList)]

/-- Replace secret-looking substrings. -/
def redactSecrets (u : Unicode) (text : Text) : Text :=
  (secretPatterns u).foldl (fun text entry => entry.1.sub entry.2 text) text

mutual

/-- Redact every string inside a JSON value.  The keys of objects stay as they are. -/
def redactJson (u : Unicode) : Json → Json
  | .str value => .str (redactSecrets u value)
  | .arr items => .arr (redactItems u items)
  | .obj fields => .obj (redactFields u fields)
  | .null => .null
  | .bool value => .bool value
  | .int value => .int value
  | .float value => .float value

/-- Redact the items of an array. -/
def redactItems (u : Unicode) : List Json → List Json
  | [] => []
  | item :: rest => redactJson u item :: redactItems u rest

/-- Redact the fields of an object. -/
def redactFields (u : Unicode) : List (Text × Json) → List (Text × Json)
  | [] => []
  | (key, value) :: rest => (key, redactJson u value) :: redactFields u rest

end

/-! ## Texts which redaction leaves alone -/

theorem needs_literal {letters : Char → Prop} {t : Text} {c : Char} (hMem : c ∈ t)
    (hLetter : letters c) : Regex.Needs letters (literal t) := by
  induction t with
  | nil => simp at hMem
  | cons d rest ih =>
      rcases List.mem_cons.mp hMem with rfl | hRest
      · exact .inl fun d hd => by simpa [eq_of_beq hd] using hLetter
      · exact .inr (ih hRest)

theorem needs_sequence {letters : Char → Prop} {patterns : List (Regex Char)}
    {p : Regex Char} (hMem : p ∈ patterns) (h : Regex.Needs letters p) :
    Regex.Needs letters (sequence patterns) := by
  induction patterns with
  | nil => simp at hMem
  | cons first rest ih =>
      cases rest with
      | nil =>
          rw [← List.mem_singleton.mp hMem]
          exact h
      | cons second rest =>
          rcases List.mem_cons.mp hMem with rfl | hRest
          · exact .inl h
          · exact .inr (ih hRest)

/-- The letters at least one of which every secret contains. -/
def isSecretLetter (c : Char) : Prop :=
  c = 'k' ∨ c = 'z' ∨ c = '_' ∨ c = 'K' ∨ c = ':' ∨ c = '='

instance (c : Char) : Decidable (isSecretLetter c) :=
  inferInstanceAs (Decidable (_ ∨ _ ∨ _ ∨ _ ∨ _ ∨ _))

/-- Every secret has one of the letters, if there is one in each pattern among them. -/
theorem secretPatterns_needs_letters (u : Unicode) {letters : Char → Prop} (hOpenAi : letters 'k')
    (hGoogle : letters 'z') (hGitHub : letters '_' ∨ letters 'g') (hAws : letters 'K')
    (hColon : letters ':') (hEquals : letters '=') :
    ∀ entry ∈ secretPatterns u, Regex.Needs letters entry.1 := by
  have hPlace (t : Text) (patterns : List (Regex Char)) (c : Char) (hc : c ∈ t)
      (hLetter : letters c) (hMem : literal t ∈ patterns) :
      Regex.Needs letters (sequence patterns) :=
    needs_sequence hMem (needs_literal hc hLetter)
  simp only [secretPatterns, List.forall_mem_cons]
  refine ⟨?_, ?_, ?_, ?_, ?_, by simp⟩
  · exact hPlace "sk-".toList _ 'k' (by decide) hOpenAi (by simp)
  · exact hPlace "AIza".toList _ 'z' (by decide) hGoogle (by simp)
  · rcases hGitHub with hLetter | hLetter
    · exact hPlace "_".toList _ '_' (by decide) hLetter (by simp)
    · exact hPlace "gh".toList _ 'g' (by decide) hLetter (by simp)
  · exact hPlace "AKIA".toList _ 'K' (by decide) hAws (by simp)
  · -- A password is set with a colon or an equals sign.
    refine needs_sequence (p := .one fun c => c == ':' || c == '=') (by simp) ?_
    intro c hc
    simp only [Bool.or_eq_true, beq_iff_eq] at hc
    rcases hc with rfl | rfl
    · exact hColon
    · exact hEquals

theorem secretPatterns_needs (u : Unicode) :
    ∀ entry ∈ secretPatterns u, Regex.Needs isSecretLetter entry.1 :=
  secretPatterns_needs_letters u (by decide) (by decide) (.inl (by decide)) (by decide) (by decide)
    (by decide)

/-- A text without any of these letters. -/
def Secretless (text : Text) : Prop := ∀ c ∈ text, ¬ isSecretLetter c

instance (text : Text) : Decidable (Secretless text) := List.decidableBAll _ text

theorem Secretless.append {first second : Text} (hFirst : Secretless first)
    (hSecond : Secretless second) : Secretless (first ++ second) :=
  fun c hc => (List.mem_append.mp hc).elim (hFirst c) (hSecond c)

theorem Secretless.uuid (id : Uuid) : Secretless id.str := by
  intro c hc
  have hHex : Secretless Text.hexAlphabet := by decide
  rcases Uuid.mem_str hc with hIn | rfl
  · exact hHex c hIn
  · decide

/-- A text without secret letters is left alone. -/
theorem redactSecrets_eq_self (u : Unicode) {text : Text} (h : Secretless text) :
    redactSecrets u text = text := by
  have hFold : ∀ patterns : List (Regex Char × Text),
      (∀ entry ∈ patterns, Regex.Needs isSecretLetter entry.1) →
      patterns.foldl (fun text entry => entry.1.sub entry.2 text) text = text := by
    intro patterns hNeeds
    induction patterns with
    | nil => rfl
    | cons entry rest ih =>
        rw [List.foldl_cons, Regex.sub_eq_self (hNeeds entry (by simp)) entry.2 h]
        exact ih fun other hOther => hNeeds other (by simp [hOther])
  exact hFold _ (secretPatterns_needs u)

theorem redactSecrets_uuid (u : Unicode) (id : Uuid) : redactSecrets u id.str = id.str :=
  redactSecrets_eq_self u (.uuid id)

/-! ## Whitespace -/

/-- Collapse runs of whitespace and cap newlines at paragraph breaks. -/
def collapseWhitespace (text : Text) : Text :=
  let text := (Regex.many (fun c => " \t\r\x0c\x0b".toList.contains c) 1 none).sub " ".toList text
  let text := (Regex.many (· == '\n') 3 none).sub "\n\n".toList text
  let text := (sequence [.many (· == ' ') 0 none, .one (· == '\n'), .many (· == ' ') 0 none]).sub
    "\n".toList text
  Text.strip text

/-- `_normalize_html` -/
def normalizeHtml (p : Platform) (content : Bytes) : Except PyError Text := do
  let (elements, page) ← p.htmlBlocks content
  let blocks := (elements.map collapseWhitespace).filter fun text => !text.isEmpty
  let whole := collapseWhitespace page
  let blocks := if blocks.isEmpty && !whole.isEmpty then [whole] else blocks
  pure (Text.join "\n\n".toList blocks)

/-- `_normalize_pdf` -/
def normalizePdf (p : Platform) (content : Bytes) : Except PyError Text := do
  let pages ← p.pdfPages content
  pure (collapseWhitespace (Text.join "\n\n".toList pages))

/-- `_normalize_docx` -/
def normalizeDocx (p : Platform) (content : Bytes) : Except PyError Text := do
  let paragraphs ← p.docxParagraphs content
  pure (collapseWhitespace (Text.join "\n\n".toList paragraphs))

/-- `_normalize_rtf` -/
def normalizeRtf (p : Platform) (content : Bytes) : Except PyError Text :=
  let ascii := (content.filter fun b => b.toNat < 128).map fun b => Char.ofNat b.toNat
  match p.rtfToText ascii with
  | .ok text => .ok (collapseWhitespace text)
  | .error error => .error ⟨.valueError, "could not parse RTF content: ".toList ++ error.message⟩

/-- Normalize raw source bytes to clean, redacted text. -/
def normalize (p : Platform) (sourceType : SourceType) (content : Bytes) : Except PyError Text := do
  let text ← match sourceType with
    | .web => normalizeHtml p content
    | .pdf => normalizePdf p content
    | .docx => normalizeDocx p content
    | .rtf => normalizeRtf p content
    | unsupported => .error ⟨.valueError, "unsupported source_type ".toList ++
        Text.repr p.unicode unsupported.value ++ " (supported: docx, pdf, rtf, web)".toList⟩
  pure (redactSecrets p.unicode text)

/-! ## Chunks -/

/-- One retrieval unit, a substring of the normalized text. -/
structure Chunk where
  text : Text
  startChar : Nat
  endChar : Nat

/-- `text[start:end_]` -/
def slice (text : Text) (start end_ : Nat) : Text := (text.drop start).take (end_ - start)

/-- The ends of the paragraph separators; `position` is where the rest of the text begins. -/
def separatorEnds : (position : Nat) → Text → List Nat
  | position, '\n' :: '\n' :: rest => (position + 2) :: separatorEnds (position + 2) rest
  | position, _ :: rest => separatorEnds (position + 1) rest
  | _, [] => []

/-- The spans between consecutive ends. -/
def spansFrom (length : Nat) : (cursor : Nat) → List Nat → List (Nat × Nat)
  | cursor, [] => if cursor < length then [(cursor, length)] else []
  | cursor, end_ :: rest => (cursor, end_) :: spansFrom length end_ rest

/-- Contiguous spans which cover the text, split at paragraph breaks. -/
def paragraphSpans (text : Text) : List (Nat × Nat) :=
  spansFrom text.length 0 (separatorEnds 0 text)

/-- `_spans_length` -/
def spansLength (spans : List (Nat × Nat)) : Nat :=
  (spans.map fun span => span.2 - span.1).sum

/-- `_flush_spans` -/
def flushSpans (spans : List (Nat × Nat)) (text : Text) : Chunk :=
  let start := (spans.head?.map Prod.fst).getD 0
  let end_ := (spans.getLast?.map Prod.snd).getD 0
  ⟨slice text start end_, start, end_⟩

/-- `text.rfind(" ", low, high)` -/
def rfindSpace (text : Text) (low high : Nat) : Option Nat :=
  (List.range high).reverse.find? fun i => decide (low ≤ i) && (text[i]? == some ' ')

/-- Split an oversized paragraph at word boundaries; `fuel` bounds the pieces. -/
def hardSplit (text : Text) (end_ maxChars : Nat) : (fuel cursor : Nat) → List Chunk
  | 0, cursor => [⟨slice text cursor end_, cursor, end_⟩]
  | fuel + 1, cursor =>
      if maxChars < end_ - cursor then
        let candidate := cursor + maxChars
        let boundary := (rfindSpace text (cursor + 1) (candidate + 1)).getD candidate
        ⟨slice text cursor boundary, cursor, boundary⟩ ::
          hardSplit text end_ maxChars fuel boundary
      else [⟨slice text cursor end_, cursor, end_⟩]

/-- The chunks so far and the spans which wait for more. -/
structure Chunking where
  chunks : List Chunk
  current : List (Nat × Nat)

/-- Close the chunk which is being built, if there is one. -/
def Chunking.flush (text : Text) (state : Chunking) : Chunking :=
  if state.current.isEmpty then state
  else ⟨state.chunks ++ [flushSpans state.current text], []⟩

/-- Take one paragraph. -/
def Chunking.addSpan (text : Text) (minChars : Int) (maxChars : Nat) (state : Chunking)
    (span : Nat × Nat) : Chunking :=
  let paragraphLength := span.2 - span.1
  if maxChars < paragraphLength then
    let state := state.flush text
    { state with chunks := state.chunks ++
        hardSplit text span.2 maxChars (paragraphLength + 1) span.1 }
  else
    let state :=
      if maxChars < spansLength state.current + paragraphLength then state.flush text else state
    let state := { state with current := state.current ++ [span] }
    if minChars ≤ spansLength state.current then state.flush text else state

/-- `_CHUNK_MIN_CHARS` -/
def chunkMinChars : Nat := 500

/-- `_CHUNK_MAX_CHARS` -/
def chunkMaxChars : Nat := 1200

/-- Split normalized text into paragraph-aware chunks.  A limit below zero is like zero. -/
def chunkPassages (text : Text) (minChars : Int := chunkMinChars)
    (maxChars : Nat := chunkMaxChars) : List Chunk :=
  (((paragraphSpans text).foldl (Chunking.addSpan text minChars maxChars) ⟨[], []⟩).flush
    text).chunks

/-! ## Source types and digests -/

/-- `_CONTENT_TYPE_MAP` -/
def contentTypeMap : List (Text × SourceType) :=
  [("text/html".toList, .web), ("text/plain".toList, .web), ("application/xhtml".toList, .web),
    ("application/rss+xml".toList, .web), ("application/xml".toList, .web),
    ("application/pdf".toList, .pdf), ("application/rtf".toList, .rtf), ("text/rtf".toList, .rtf),
    ("application/vnd.openxmlformats-officedocument.wordprocessingml.document".toList, .docx)]

/-- Map a content type, or else the suffix of the URI, to a source type. -/
def classifySource (u : Unicode) (contentType uri : Text) : SourceType :=
  let lowered := Text.lower u contentType
  match contentTypeMap.find? fun entry => Text.occursIn entry.1 lowered with
  | some entry => entry.2
  | none =>
      let path := Text.lower u (Text.beforeLast '#' (Text.beforeFirst '?' uri))
      if Text.endsWith ".pdf".toList path then .pdf
      else if Text.endsWith ".docx".toList path then .docx
      else if Text.endsWith ".rtf".toList path then .rtf
      else .web

/-- The digest of a content. -/
def contentHash (p : Platform) (content : Bytes) : Text := p.sha256 content

end Ecrke
