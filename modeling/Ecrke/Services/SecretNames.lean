import Ecrke.Services.Redaction
import Ecrke.Text.Splitting
import Ecrke.Text.Strip

/-!
# Names of secrets

The last secret pattern matches the name of a secret, a colon or an equals sign, and a value, with
whitespace in between.  A text which ends before the value is clean, but the text which follows it in
a document may then pass for the value.

* `namePattern`, `NamesSecret` -- the names of secrets in a text, with what follows them.
* `Armed`, `Awaiting` -- what follows a name has a value, or ends before it.
* `secretFree_iff` -- when a text is free of secrets.
* `OpenSecret`, `SelfContained` -- texts which end before a value, and clean texts which do not.
* `selfContained_split` -- a document is self-contained if and only if its parts are.
-/

namespace Ecrke

open Regex

/-- `\b(password|passwd|secret|token|api[_-]?key)\b` -/
def namePattern (u : Unicode) : Regex Char :=
  sequence [.boundary u.isWord, secretName, .boundary u.isWord]

/-- The patterns of keys. -/
def keyPatterns (u : Unicode) : List (Regex Char) :=
  [openAiPattern u, googlePattern u, gitHubPattern u, awsPattern u]

/-- The name of a secret stands in a text in front of the rest. -/
def NamesSecret (u : Unicode) (text rest : Text) : Prop := Matched (namePattern u) text rest

/-- The class `[:=]`. -/
def isColon (c : Char) : Bool := c == ':' || c == '='

/-- What is left of a text behind the whitespace at its beginning. -/
def afterBlanks (t : Text) : Text := t.dropWhile Text.isSpace

/-- What follows a name begins with `\s*[:=]\s*[^\s,;]`. -/
def Armed (rest : Text) : Prop :=
  ∃ c later d more, afterBlanks rest = c :: later ∧ isColon c = true ∧
    afterBlanks later = d :: more ∧ isValueChar d = true

/-- What follows a name is `\s*[:=]\s*`. -/
def Awaiting (rest : Text) : Prop :=
  ∃ c later, afterBlanks rest = c :: later ∧ isColon c = true ∧ afterBlanks later = []

/-- A text which ends before the value of a secret. -/
def OpenSecret (u : Unicode) (text : Text) : Prop := ∃ rest, NamesSecret u text rest ∧ Awaiting rest

/-! ## Passwords -/

theorem isColon_space {c : Char} (h : isColon c = true) : Text.isSpace c = false := by
  rw [isColon, Bool.or_eq_true, beq_iff_eq, beq_iff_eq] at h
  rcases h with rfl | rfl
  · decide
  · decide

theorem isValueChar_space {c : Char} (h : isValueChar c = true) : Text.isSpace c = false := by
  unfold isValueChar at h
  cases hSpace : Text.isSpace c with
  | false => rfl
  | true =>
      rw [hSpace] at h
      simp at h

theorem afterBlanks_append {front rest : Text} (hFront : ∀ c ∈ front, Text.isSpace c = true)
    {c : Char} (hc : Text.isSpace c = false) : afterBlanks (front ++ c :: rest) = c :: rest := by
  rw [afterBlanks, List.dropWhile_append_of_pos hFront, List.dropWhile_cons, if_neg (by simp [hc])]

/-- The part of the pattern behind the name. -/
def valuePattern : Regex Char :=
  sequence [.many Text.isSpace 0 none, .one isColon, .many Text.isSpace 0 none,
    .many isValueChar 1 none]

theorem takes_value {behind taken ahead : Text} (h : Takes valuePattern behind taken ahead) :
    Armed (taken ++ ahead) := by
  obtain ⟨front, taken', rfl, hFront, hRest⟩ := takes_seq.mp h
  obtain ⟨colon, taken'', rfl, hColon, hRest⟩ := takes_seq.mp hRest
  obtain ⟨middle, value, rfl, hMiddle, hValue⟩ := takes_seq.mp hRest
  obtain ⟨c, rfl, hc⟩ := takes_one.mp hColon
  obtain ⟨hAll, hSome, -⟩ := takes_many.mp hValue
  cases value with
  | nil => simp at hSome
  | cons d more =>
      have hd := hAll d (List.mem_cons_self ..)
      refine ⟨c, middle ++ (d :: (more ++ ahead)), d, more ++ ahead, ?_, hc, ?_, hd⟩
      · rw [List.append_assoc, List.singleton_append, List.cons_append,
          afterBlanks_append (takes_many.mp hFront).1 (isColon_space hc), List.append_assoc]
        rfl
      · exact afterBlanks_append (takes_many.mp hMiddle).1 (isValueChar_space hd)

theorem exists_takes_value {rest : Text} (behind : Text) (h : Armed rest) :
    ∃ taken ahead, rest = taken ++ ahead ∧ Takes valuePattern behind taken ahead := by
  obtain ⟨c, later, d, more, hFirst, hc, hSecond, hd⟩ := h
  have hSpaces (t : Text) : ∀ e ∈ t.takeWhile Text.isSpace, Text.isSpace e = true :=
    fun e he => List.mem_takeWhile_imp he
  have hSplit (t : Text) : t.takeWhile Text.isSpace ++ afterBlanks t = t :=
    List.takeWhile_append_dropWhile
  refine ⟨rest.takeWhile Text.isSpace ++ ([c] ++ (later.takeWhile Text.isSpace ++ [d])), more,
    ?_, ?_⟩
  · have hRest := hSplit rest
    have hLater := hSplit later
    rw [hFirst] at hRest
    rw [hSecond] at hLater
    calc rest = rest.takeWhile Text.isSpace ++ c :: (later.takeWhile Text.isSpace ++ d :: more) := by
          rw [hLater, hRest]
      _ = _ := by simp
  · refine takes_seq.mpr ⟨_, _, rfl, takes_many.mpr ⟨hSpaces rest, Nat.zero_le _, by simp⟩, ?_⟩
    refine takes_seq.mpr ⟨_, _, rfl, takes_one.mpr ⟨c, rfl, hc⟩, ?_⟩
    refine takes_seq.mpr ⟨_, _, rfl, takes_many.mpr ⟨hSpaces later, Nat.zero_le _, by simp⟩, ?_⟩
    refine takes_many.mpr ⟨?_, le_rfl, by simp⟩
    intro e he
    rw [List.mem_singleton.mp he]
    exact hd

/-- No password is in a text if and only if no name in it is followed by a value. -/
theorem passwordPattern_absent (u : Unicode) (text : Text) :
    Absent (passwordPattern u) text ↔ ∀ rest, NamesSecret u text rest → ¬ Armed rest := by
  have hPattern : passwordPattern u =
      .seq (.boundary u.isWord) (.seq secretName (.seq (.boundary u.isWord) valuePattern)) := rfl
  rw [absent_iff, hPattern]
  constructor
  · rintro h rest ⟨before, name, rfl, hName⟩ hArmed
    obtain ⟨taken, ahead, rfl, hValue⟩ := exists_takes_value (name.reverse ++ before.reverse) hArmed
    obtain ⟨one, name', rfl, hOne, hName⟩ := takes_seq.mp hName
    obtain ⟨two, three, rfl, hTwo, hThree⟩ := takes_seq.mp hName
    refine h ahead ⟨before, one ++ (two ++ (three ++ taken)), by simp, ?_⟩
    rw [List.append_assoc] at hOne
    refine takes_seq.mpr ⟨one, two ++ (three ++ taken), rfl, ?_, ?_⟩
    · simpa using hOne
    refine takes_seq.mpr ⟨two, three ++ taken, rfl, by simpa using hTwo, ?_⟩
    refine takes_seq.mpr ⟨three, taken, rfl, hThree, ?_⟩
    simpa using hValue
  · rintro h ahead ⟨before, taken, rfl, hTakes⟩
    obtain ⟨one, taken', rfl, hOne, hRest⟩ := takes_seq.mp hTakes
    obtain ⟨two, taken'', rfl, hTwo, hRest⟩ := takes_seq.mp hRest
    obtain ⟨three, value, rfl, hThree, hValue⟩ := takes_seq.mp hRest
    refine h (value ++ ahead) ⟨before, one ++ (two ++ three), by simp, ?_⟩ (takes_value hValue)
    refine takes_seq.mpr ⟨one, two ++ three, rfl, by simpa using hOne, ?_⟩
    exact takes_seq.mpr ⟨two, three, rfl, by simpa using hTwo, hThree⟩

/-- A text is free of secrets if and only if it has no key, and no name with a value. -/
theorem secretFree_iff (u : Unicode) (text : Text) : SecretFree u text ↔
    (∀ pattern ∈ keyPatterns u, Absent pattern text) ∧
      ∀ rest, NamesSecret u text rest → ¬ Armed rest := by
  rw [← passwordPattern_absent]
  simp only [SecretFree, secretPatterns, keyPatterns, List.forall_mem_cons]
  constructor
  · rintro ⟨h1, h2, h3, h4, h5, -⟩
    exact ⟨⟨h1, h2, h3, h4, by simp⟩, h5⟩
  · rintro ⟨⟨h1, h2, h3, h4, -⟩, h5⟩
    exact ⟨h1, h2, h3, h4, h5, by simp⟩

/-! ## Documents -/

/-- The characters at which the parts of a document meet. -/
def isSeparator (c : Char) : Bool := "\n `()|".toList.contains c

/-- A text whose first character behind whitespace may begin a value, and is no colon. -/
def StartsMarkup (t : Text) : Prop :=
  ∃ c rest, afterBlanks t = c :: rest ∧ isValueChar c = true ∧ isColon c = false

/-- A clean text which may stand in front of any other one. -/
def SelfContained (u : Unicode) (text : Text) : Prop := SecretFree u text ∧ ¬ OpenSecret u text

/-- A text without names and keys. -/
def Inert (u : Unicode) (text : Text) : Prop :=
  ∀ pattern ∈ namePattern u :: keyPatterns u, Absent pattern text

theorem isSeparator_cases {c : Char} (h : isSeparator c = true) :
    c = '\n' ∨ c = ' ' ∨ c = '`' ∨ c = '(' ∨ c = ')' ∨ c = '|' := by
  have hMem : c ∈ "\n `()|".toList := List.contains_iff_mem.mp h
  simpa using hMem

section Patterns

variable {u : Unicode} {c : Char}

theorem separator_word (h : isSeparator c = true) : u.isWord c = false := by
  rcases isSeparator_cases h with rfl | rfl | rfl | rfl | rfl | rfl <;> rfl

theorem namePattern_rejects (h : isSeparator c = true) : Rejects c (namePattern u) := by
  have hName : Rejects c secretName := by
    rcases isSeparator_cases h with rfl | rfl | rfl | rfl | rfl | rfl <;>
      exact ⟨literalIgnoringCase_rejects (by decide), literalIgnoringCase_rejects (by decide),
        literalIgnoringCase_rejects (by decide), literalIgnoringCase_rejects (by decide),
        literalIgnoringCase_rejects (by decide), rfl, literalIgnoringCase_rejects (by decide)⟩
  exact ⟨trivial, hName, trivial⟩

theorem namePattern_bounded : Bounded u.isWord (namePattern u) := ⟨rfl, secretName_bounded _, rfl⟩

theorem namePattern_consumes : Consumes (namePattern u) :=
  .inr (.inl ⟨.inl trivial, .inl trivial, .inl trivial, .inl trivial, .inl (.inl trivial)⟩)

/-- A key pattern sees no further than a separator. -/
structure KeyLike (u : Unicode) (pattern : Regex Char) : Prop where
  bounded : Bounded u.isWord pattern
  consumes : Consumes pattern
  rejects : ∀ c, isSeparator c = true → Rejects c pattern

theorem keyPatterns_keyLike (u : Unicode) : ∀ pattern ∈ keyPatterns u, KeyLike u pattern := by
  have hChar {c : Char} (h : isSeparator c = true) : isKeyChar c = false := by
    rcases isSeparator_cases h with rfl | rfl | rfl | rfl | rfl | rfl <;> rfl
  have hLiteral {c : Char} (h : isSeparator c = true) (t : Text)
      (hLetters : t.all fun d => !isSeparator d) : Rejects c (literal t) := by
    apply literal_rejects
    intro hMem
    have hNot := List.all_eq_true.mp hLetters c hMem
    rw [h] at hNot
    cases hNot
  simp only [keyPatterns, List.forall_mem_cons]
  refine ⟨?_, ?_, ?_, ?_, by simp⟩
  · constructor
    · exact ⟨rfl, literal_bounded _ _, trivial, rfl⟩
    · exact .inr (.inl (.inl trivial))
    · intro c h
      exact ⟨trivial, hLiteral h _ (by decide), hChar h, trivial⟩
  · constructor
    · exact ⟨rfl, literal_bounded _ _, trivial, rfl⟩
    · exact .inr (.inl (.inl trivial))
    · intro c h
      exact ⟨trivial, hLiteral h _ (by decide), hChar h, trivial⟩
  · constructor
    · exact ⟨rfl, literal_bounded _ _, trivial, literal_bounded _ _, trivial, rfl⟩
    · exact .inr (.inl (.inl trivial))
    · intro c h
      refine ⟨trivial, hLiteral h _ (by decide), ?_, hLiteral h _ (by decide), ?_, trivial⟩
      · rcases isSeparator_cases h with rfl | rfl | rfl | rfl | rfl | rfl <;> rfl
      · rcases isSeparator_cases h with rfl | rfl | rfl | rfl | rfl | rfl <;> rfl
  · constructor
    · exact ⟨rfl, literal_bounded _ _, trivial, rfl⟩
    · exact .inr (.inl (.inl trivial))
    · intro c h
      refine ⟨trivial, hLiteral h _ (by decide), ?_, trivial⟩
      rcases isSeparator_cases h with rfl | rfl | rfl | rfl | rfl | rfl <;> rfl

end Patterns

section Parts

variable {u : Unicode} {c : Char} {text later rest : Text}

/-- The names in a document are those in its parts. -/
theorem namesSecret_split (hc : isSeparator c = true) :
    NamesSecret u (text ++ c :: later) rest ↔
      (∃ back, NamesSecret u text back ∧ rest = back ++ c :: later) ∨ NamesSecret u later rest :=
  matched_split namePattern_bounded namePattern_consumes (namePattern_rejects hc) (separator_word hc)

theorem keys_split (hc : isSeparator c = true) :
    (∀ pattern ∈ keyPatterns u, Absent pattern (text ++ c :: later)) ↔
      (∀ pattern ∈ keyPatterns u, Absent pattern text) ∧
        ∀ pattern ∈ keyPatterns u, Absent pattern later := by
  have hOne (pattern : Regex Char) (hKey : KeyLike u pattern) :
      Absent pattern (text ++ c :: later) ↔ Absent pattern text ∧ Absent pattern later := by
    simp only [absent_iff, matched_split hKey.bounded hKey.consumes (hKey.rejects c hc)
      (separator_word hc), not_or, forall_and]
    constructor
    · rintro ⟨hText, hLater⟩
      refine ⟨?_, hLater⟩
      intro back hBack
      exact hText _ ⟨back, hBack, rfl⟩
    · rintro ⟨hText, hLater⟩
      refine ⟨?_, hLater⟩
      rintro _ ⟨back, hBack, -⟩
      exact hText back hBack
  constructor
  · intro h
    constructor
    · intro pattern hPattern
      exact ((hOne pattern (keyPatterns_keyLike u pattern hPattern)).mp (h pattern hPattern)).1
    · intro pattern hPattern
      exact ((hOne pattern (keyPatterns_keyLike u pattern hPattern)).mp (h pattern hPattern)).2
  · rintro ⟨hText, hLater⟩ pattern hPattern
    exact (hOne pattern (keyPatterns_keyLike u pattern hPattern)).mpr
      ⟨hText pattern hPattern, hLater pattern hPattern⟩

theorem afterBlanks_of_nil {front back : Text} (h : afterBlanks front = []) :
    afterBlanks (front ++ back) = afterBlanks back :=
  List.dropWhile_append_of_pos (List.dropWhile_eq_nil_iff.mp h)

theorem afterBlanks_of_cons {front back more : Text} {d : Char} (h : afterBlanks front = d :: more) :
    afterBlanks (front ++ back) = d :: (more ++ back) := by
  have hSplit : front.takeWhile Text.isSpace ++ afterBlanks front = front :=
    List.takeWhile_append_dropWhile
  have hInk : Text.isSpace d = false := by
    apply Text.dropWhile_first (p := Text.isSpace) (t := front)
    rw [show front.dropWhile Text.isSpace = d :: more from h]
    rfl
  rw [← hSplit, h, List.append_assoc, List.cons_append]
  exact afterBlanks_append (fun e he => List.mem_takeWhile_imp he) hInk

/-- What comes next is taken for the value if it is awaited. -/
theorem armed_append (hMarkup : StartsMarkup later) : Armed (rest ++ later) ↔ Armed rest ∨ Awaiting rest := by
  obtain ⟨mark, more, hMark, hValue, hColon⟩ := hMarkup
  cases hFirst : afterBlanks rest with
  | nil =>
      have hNext : afterBlanks (rest ++ later) = mark :: more := by
        rw [afterBlanks_of_nil hFirst, hMark]
      simp [Armed, Awaiting, hFirst, hNext, hColon]
  | cons d front =>
      have hNext : afterBlanks (rest ++ later) = d :: (front ++ later) := afterBlanks_of_cons hFirst
      cases hSecond : afterBlanks front with
      | nil =>
          have hThen : afterBlanks (front ++ later) = mark :: more := by
            rw [afterBlanks_of_nil hSecond, hMark]
          simp [Armed, Awaiting, hFirst, hNext, hSecond, hThen, hValue]
      | cons e back =>
          have hThen : afterBlanks (front ++ later) = e :: (back ++ later) :=
            afterBlanks_of_cons hSecond
          simp [Armed, Awaiting, hFirst, hNext, hSecond, hThen]

/-- And nothing is awaited any more. -/
theorem not_awaiting (hMarkup : StartsMarkup later) : ¬ Awaiting (rest ++ later) := by
  obtain ⟨mark, more, hMark, -, hColon⟩ := hMarkup
  rintro ⟨d, front, hFirst, hd, hNone⟩
  cases hRest : afterBlanks rest with
  | nil =>
      rw [afterBlanks_of_nil hRest, hMark] at hFirst
      obtain ⟨rfl, -⟩ := List.cons.inj hFirst
      rw [hColon] at hd
      cases hd
  | cons e back =>
      rw [afterBlanks_of_cons hRest] at hFirst
      obtain ⟨-, rfl⟩ := List.cons.inj hFirst
      cases hBack : afterBlanks back with
      | nil =>
          rw [afterBlanks_of_nil hBack, hMark] at hNone
          cases hNone
      | cons f end_ =>
          rw [afterBlanks_of_cons hBack] at hNone
          cases hNone

/-- A document is free of secrets if and only if its parts are, and none but the last awaits a value. -/
theorem secretFree_split (hc : isSeparator c = true) (hMarkup : StartsMarkup (c :: later)) :
    SecretFree u (text ++ c :: later) ↔
      (SecretFree u text ∧ ¬ OpenSecret u text) ∧ SecretFree u later := by
  have hNames : (∀ rest, NamesSecret u (text ++ c :: later) rest → ¬ Armed rest) ↔
      (∀ back, NamesSecret u text back → ¬ Armed back ∧ ¬ Awaiting back) ∧
        ∀ rest, NamesSecret u later rest → ¬ Armed rest := by
    constructor
    · intro h
      constructor
      · intro back hBack
        have hNot := h (back ++ c :: later) ((namesSecret_split hc).mpr (.inl ⟨back, hBack, rfl⟩))
        rwa [armed_append hMarkup, not_or] at hNot
      · intro rest hRest
        exact h rest ((namesSecret_split hc).mpr (.inr hRest))
    · rintro ⟨hText, hLater⟩ rest hRest
      rcases (namesSecret_split hc).mp hRest with ⟨back, hBack, rfl⟩ | hThere
      · rw [armed_append hMarkup, not_or]
        exact hText back hBack
      · exact hLater rest hThere
  have hOpen : ¬ OpenSecret u text ↔ ∀ back, NamesSecret u text back → ¬ Awaiting back := by
    simp [OpenSecret]
  rw [secretFree_iff, secretFree_iff, secretFree_iff, keys_split hc, hNames, hOpen]
  simp only [imp_and, forall_and]
  tauto

theorem openSecret_split (hc : isSeparator c = true) (hMarkup : StartsMarkup (c :: later)) :
    OpenSecret u (text ++ c :: later) ↔ OpenSecret u later := by
  constructor
  · rintro ⟨rest, hRest, hAwaits⟩
    rcases (namesSecret_split hc).mp hRest with ⟨back, -, rfl⟩ | hThere
    · exact absurd hAwaits (not_awaiting hMarkup)
    · exact ⟨rest, hThere, hAwaits⟩
  · rintro ⟨rest, hRest, hAwaits⟩
    exact ⟨rest, (namesSecret_split hc).mpr (.inr hRest), hAwaits⟩

theorem selfContained_split (hc : isSeparator c = true) (hMarkup : StartsMarkup (c :: later)) :
    SelfContained u (text ++ c :: later) ↔ SelfContained u text ∧ SelfContained u later := by
  rw [SelfContained, SelfContained, SelfContained, secretFree_split hc hMarkup,
    openSecret_split hc hMarkup, and_assoc]

/-- A text without names and keys may stand in front of anything. -/
theorem inert_split (hText : Inert u text) (hc : isSeparator c = true) :
    (SecretFree u (text ++ c :: later) ↔ SecretFree u later) ∧
      (SelfContained u (text ++ c :: later) ↔ SelfContained u later) := by
  have hNameless (rest : Text) : ¬ NamesSecret u text rest :=
    absent_iff.mp (hText _ (List.mem_cons_self ..)) rest
  have hKeys : ∀ pattern ∈ keyPatterns u, Absent pattern text :=
    fun pattern hPattern => hText pattern (List.mem_cons_of_mem _ hPattern)
  have hNames (rest : Text) : NamesSecret u (text ++ c :: later) rest ↔ NamesSecret u later rest := by
    rw [namesSecret_split hc]
    simp [hNameless]
  have hFree : SecretFree u (text ++ c :: later) ↔ SecretFree u later := by
    rw [secretFree_iff, secretFree_iff, keys_split hc]
    simp only [hNames, and_iff_right hKeys]
  refine ⟨hFree, ?_⟩
  rw [SelfContained, SelfContained, hFree]
  simp only [OpenSecret, hNames]

theorem Inert.selfContained (h : Inert u text) : SelfContained u text := by
  have hNameless (rest : Text) : ¬ NamesSecret u text rest :=
    absent_iff.mp (h _ (List.mem_cons_self ..)) rest
  constructor
  · rw [secretFree_iff]
    refine ⟨fun pattern hPattern => h pattern (List.mem_cons_of_mem _ hPattern), ?_⟩
    intro rest hRest
    exact absurd hRest (hNameless rest)
  · rintro ⟨rest, hRest, -⟩
    exact hNameless rest hRest

theorem inert_of_nowhere
    (h : ((namePattern u :: keyPatterns u).all fun pattern => nowhere pattern text) = true) :
    Inert u text :=
  fun pattern hPattern => absent_of_nowhere (List.all_eq_true.mp h pattern hPattern)

/-- A line break at the end is no value. -/
theorem armed_newline : Armed (rest ++ ['\n']) ↔ Armed rest := by
  have hNone : afterBlanks ['\n'] = [] := rfl
  cases hFirst : afterBlanks rest with
  | nil =>
      have hNext : afterBlanks (rest ++ ['\n']) = [] := by rw [afterBlanks_of_nil hFirst, hNone]
      simp [Armed, hFirst, hNext]
  | cons d front =>
      have hNext : afterBlanks (rest ++ ['\n']) = d :: (front ++ ['\n']) :=
        afterBlanks_of_cons hFirst
      cases hSecond : afterBlanks front with
      | nil =>
          have hThen : afterBlanks (front ++ ['\n']) = [] := by
            rw [afterBlanks_of_nil hSecond, hNone]
          simp [Armed, hFirst, hNext, hSecond, hThen]
      | cons e back =>
          have hThen : afterBlanks (front ++ ['\n']) = e :: (back ++ ['\n']) :=
            afterBlanks_of_cons hSecond
          simp [Armed, hFirst, hNext, hSecond, hThen]

theorem secretFree_newline : SecretFree u (text ++ ['\n']) ↔ SecretFree u text := by
  have hBreak : isSeparator '\n' = true := rfl
  have hEmpty : Inert u [] := inert_of_nowhere rfl
  have hKeys : ∀ pattern ∈ keyPatterns u, Absent pattern [] :=
    fun pattern hPattern => hEmpty pattern (List.mem_cons_of_mem _ hPattern)
  have hNameless (rest : Text) : ¬ NamesSecret u [] rest :=
    absent_iff.mp (hEmpty _ (List.mem_cons_self ..)) rest
  rw [secretFree_iff, secretFree_iff, keys_split hBreak, and_iff_left hKeys]
  apply and_congr_right'
  constructor
  · intro h back hBack
    rw [← armed_newline]
    exact h _ ((namesSecret_split hBreak).mpr (.inl ⟨back, hBack, rfl⟩))
  · intro h rest hRest
    rcases (namesSecret_split hBreak).mp hRest with ⟨back, hBack, rfl⟩ | hThere
    · rw [armed_newline]
      exact h back hBack
    · exact absurd hThere (hNameless rest)

end Parts

end Ecrke
