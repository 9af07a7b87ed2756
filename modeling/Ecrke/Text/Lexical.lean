import Ecrke.Text.Json

/-!
# The lexical elements of JSON texts

Strings and numbers in a JSON text determine their values and where they end, and a text without
blanks can be recognised behind a separator which is escaped nowhere.

* `quote_inj` -- a quoted string determines the string and where it ends.
* `scan`, `Balanced` -- whether a place of a text is inside a string; the separator `'|'` stands
  inside strings only.
* `separated_inj` -- two balanced texts which end the same text behind a separator are the same.
* `number_inj`, `ofInt_inj`, `FloatTexts` -- numbers.
-/

namespace Ecrke

namespace Json

/-! ## Escapes -/

/-- What a short escape stands for. -/
def unescaped (c : Char) : Char :=
  if c = 'n' then '\n'
  else if c = 'r' then '\r'
  else if c = 't' then '\t'
  else if c = 'b' then Char.ofNat 8
  else if c = 'f' then Char.ofNat 12
  else c

/-- The 16-bit units of a character. -/
def units (c : Char) : List Nat :=
  if c.toNat < 0x10000 then [c.toNat]
  else [0xD800 + (c.toNat - 0x10000) / 0x400, 0xDC00 + (c.toNat - 0x10000) % 0x400]

theorem char_lt (c : Char) : c.toNat < 0xD800 ∨ 0xDFFF < c.toNat ∧ c.toNat < 0x110000 := by
  have hValid := c.valid
  simp only [UInt32.isValidChar, Nat.isValidChar] at hValid
  unfold Char.toNat
  omega

theorem units_short {c : Char} (h : c.toNat < 0x10000) : units c = [c.toNat] := if_pos h

theorem units_long {c : Char} (h : 0x10000 ≤ c.toNat) :
    units c = [0xD800 + (c.toNat - 0x10000) / 0x400, 0xDC00 + (c.toNat - 0x10000) % 0x400] :=
  if_neg (Nat.not_lt.mpr h)

/-- A character is escaped by a backslash and one more character, stands for itself, or is written
as its units. -/
theorem escapeChar_cases (c : Char) :
    (∃ short, escapeChar c = ['\\', short] ∧ short ≠ 'u' ∧ unescaped short = c) ∨
      (escapeChar c = [c] ∧ c ≠ '"' ∧ c ≠ '\\') ∨ escapeChar c = (units c).flatMap escapeUnit := by
  have hSame {n : Nat} (hNat : c.toNat = n) : Char.ofNat n = c := by
    rw [← hNat, Char.ofNat_toNat]
  unfold escapeChar
  split
  · rename_i hQuote
    exact .inl ⟨'"', rfl, by decide, hQuote.symm⟩
  rename_i hQuote
  split
  · rename_i hSlash
    exact .inl ⟨'\\', rfl, by decide, hSlash.symm⟩
  rename_i hSlash
  split
  · rename_i hLine
    exact .inl ⟨'n', rfl, by decide, hLine.symm⟩
  split
  · rename_i hReturn
    exact .inl ⟨'r', rfl, by decide, hReturn.symm⟩
  split
  · rename_i hTab
    exact .inl ⟨'t', rfl, by decide, hTab.symm⟩
  split
  · rename_i hBack
    exact .inl ⟨'b', rfl, by decide, hSame hBack⟩
  split
  · rename_i hFeed
    exact .inl ⟨'f', rfl, by decide, hSame hFeed⟩
  split
  · exact .inr (.inl ⟨rfl, hQuote, hSlash⟩)
  right
  right
  unfold units
  split
  · simp
  · simp

theorem escapeUnit_eq (unit : Nat) : escapeUnit unit = '\\' :: 'u' :: Text.hexDigits 4 unit := rfl

theorem units_ne_nil (c : Char) : ∃ unit rest, units c = unit :: rest := by
  unfold units
  split
  · exact ⟨_, _, rfl⟩
  · exact ⟨_, _, rfl⟩

theorem flatMap_units (c : Char) : ∃ rest, (units c).flatMap escapeUnit = '\\' :: 'u' :: rest := by
  obtain ⟨unit, rest, hUnits⟩ := units_ne_nil c
  rw [hUnits, List.flatMap_cons, escapeUnit_eq]
  exact ⟨_, rfl⟩

theorem escapeUnit_inj {m n : Nat} (hm : m < 16 ^ 4) (hn : n < 16 ^ 4) {x y : Text}
    (h : escapeUnit m ++ x = escapeUnit n ++ y) : m = n ∧ x = y := by
  have hLength : (escapeUnit m).length = (escapeUnit n).length := by
    simp [escapeUnit_eq, Text.length_hexDigits]
  obtain ⟨hFront, hRest⟩ := List.append_inj h hLength
  rw [escapeUnit_eq, escapeUnit_eq] at hFront
  have hDigits := (List.cons.inj (List.cons.inj hFront).2).2
  exact ⟨Text.hexDigits_injective hm hn hDigits, hRest⟩

/-- The units of a character determine it and where they end: a surrogate is no character. -/
theorem flatMap_units_inj {c d : Char} {x y : Text}
    (h : (units c).flatMap escapeUnit ++ x = (units d).flatMap escapeUnit ++ y) :
    c = d ∧ x = y := by
  have hC := char_lt c
  have hD := char_lt d
  rcases Nat.lt_or_ge c.toNat 0x10000 with hShortC | hLongC
  · rcases Nat.lt_or_ge d.toNat 0x10000 with hShortD | hLongD
    · rw [units_short hShortC, units_short hShortD] at h
      simp only [List.flatMap_cons, List.flatMap_nil, List.append_nil] at h
      obtain ⟨hUnit, hRest⟩ := escapeUnit_inj (by omega) (by omega) h
      exact ⟨Char.toNat_inj.mp hUnit, hRest⟩
    · -- The unit of the first character would be a high surrogate.
      rw [units_short hShortC, units_long hLongD] at h
      simp only [List.flatMap_cons, List.flatMap_nil, List.append_nil, List.append_assoc] at h
      obtain ⟨hUnit, -⟩ := escapeUnit_inj (by omega) (by omega) h
      omega
  · rcases Nat.lt_or_ge d.toNat 0x10000 with hShortD | hLongD
    · rw [units_long hLongC, units_short hShortD] at h
      simp only [List.flatMap_cons, List.flatMap_nil, List.append_nil, List.append_assoc] at h
      obtain ⟨hUnit, -⟩ := escapeUnit_inj (by omega) (by omega) h
      omega
    · rw [units_long hLongC, units_long hLongD] at h
      simp only [List.flatMap_cons, List.flatMap_nil, List.append_nil, List.append_assoc] at h
      obtain ⟨hHigh, hLater⟩ := escapeUnit_inj (by omega) (by omega) h
      obtain ⟨hLow, hRest⟩ := escapeUnit_inj (by omega) (by omega) hLater
      refine ⟨Char.toNat_inj.mp ?_, hRest⟩
      omega

/-- An escape determines its character and where it ends. -/
theorem escapeChar_inj {c d : Char} {x y : Text} (h : escapeChar c ++ x = escapeChar d ++ y) :
    c = d ∧ x = y := by
  obtain ⟨restC, hUnitsC⟩ := flatMap_units c
  obtain ⟨restD, hUnitsD⟩ := flatMap_units d
  rcases escapeChar_cases c with ⟨short, hC, hNoUnit, hShort⟩ | ⟨hC, -, hPlain⟩ | hC
  · rcases escapeChar_cases d with ⟨other, hD, -, hOther⟩ | ⟨hD, -, hPlain⟩ | hD
    · rw [hC, hD] at h
      simp only [List.cons_append, List.nil_append, List.cons.injEq, true_and] at h
      obtain ⟨rfl, hRest⟩ := h
      exact ⟨hShort.symm.trans hOther, hRest⟩
    · rw [hC, hD] at h
      exact absurd (List.cons.inj h).1.symm hPlain
    · rw [hC, hD, hUnitsD] at h
      exact absurd (List.cons.inj (List.cons.inj h).2).1 hNoUnit
  · rcases escapeChar_cases d with ⟨other, hD, -, hOther⟩ | ⟨hD, -, -⟩ | hD
    · rw [hC, hD] at h
      exact absurd (List.cons.inj h).1 hPlain
    · rw [hC, hD] at h
      exact List.cons.inj h
    · rw [hC, hD, hUnitsD] at h
      exact absurd (List.cons.inj h).1 hPlain
  · rcases escapeChar_cases d with ⟨other, hD, hNoUnit, -⟩ | ⟨hD, -, hPlain⟩ | hD
    · rw [hC, hD, hUnitsC] at h
      exact absurd (List.cons.inj (List.cons.inj h).2).1.symm hNoUnit
    · rw [hC, hD, hUnitsC] at h
      exact absurd (List.cons.inj h).1.symm hPlain
    · rw [hC, hD] at h
      exact flatMap_units_inj h

/-- An escape does not begin with a quotation mark. -/
theorem escapeChar_head (c : Char) (x y : Text) : escapeChar c ++ x ≠ '"' :: y := by
  intro h
  obtain ⟨rest, hUnits⟩ := flatMap_units c
  rcases escapeChar_cases c with ⟨short, hC, -⟩ | ⟨hC, hQuote, -⟩ | hC
  · rw [hC] at h
    exact absurd (List.cons.inj h).1 (by decide)
  · rw [hC] at h
    exact hQuote (List.cons.inj h).1
  · rw [hC, hUnits] at h
    exact absurd (List.cons.inj h).1 (by decide)

theorem escaped_inj {s t x y : Text}
    (h : s.flatMap escapeChar ++ '"' :: x = t.flatMap escapeChar ++ '"' :: y) : s = t ∧ x = y := by
  induction s generalizing t with
  | nil =>
      cases t with
      | nil => exact ⟨rfl, (List.cons.inj h).2⟩
      | cons d t =>
          rw [List.flatMap_cons, List.append_assoc] at h
          exact absurd h.symm (escapeChar_head d _ _)
  | cons c s ih =>
      cases t with
      | nil =>
          rw [List.flatMap_cons, List.append_assoc] at h
          exact absurd h (escapeChar_head c _ _)
      | cons d t =>
          rw [List.flatMap_cons, List.flatMap_cons, List.append_assoc, List.append_assoc] at h
          obtain ⟨rfl, hLater⟩ := escapeChar_inj h
          obtain ⟨rfl, hRest⟩ := ih hLater
          exact ⟨rfl, hRest⟩

theorem quote_eq (t : Text) : quote t = '"' :: (t.flatMap escapeChar ++ ['"']) := rfl

/-- A quoted string determines the string and where it ends. -/
theorem quote_inj {s t x y : Text} (h : quote s ++ x = quote t ++ y) : s = t ∧ x = y := by
  have hInside : s.flatMap escapeChar ++ '"' :: x = t.flatMap escapeChar ++ '"' :: y := by
    simpa [quote_eq] using h
  exact escaped_inj hInside

/-! ## Inside and outside of strings -/

/-- A place of a text: outside of a string, inside one, or behind a backslash. -/
inductive Place where
  | outside
  | inside
  | escape

/-- The place behind a character, nothing where the character cannot stand. -/
def Place.next (place : Place) (c : Char) : Option Place :=
  match place with
  | .outside => if c = '"' then some .inside else if c = '\\' ∨ c = '|' then none else some .outside
  | .inside => if c = '"' then some .outside else if c = '\\' then some .escape else some .inside
  | .escape => some .inside

/-- The place behind a text. -/
def scan (place : Place) : Text → Option Place
  | [] => some place
  | c :: rest => (place.next c).bind fun after => scan after rest

/-- The text begins and ends outside of strings, and the separator stands inside them only. -/
def Balanced (t : Text) : Prop := scan .outside t = some .outside

theorem scan_append (place : Place) (s t : Text) :
    scan place (s ++ t) = (scan place s).bind fun after => scan after t := by
  induction s generalizing place with
  | nil => rfl
  | cons c s ih =>
      rw [List.cons_append, scan, scan]
      cases place.next c with
      | none => rfl
      | some after => exact ih after

theorem Balanced.append {s t : Text} (hs : Balanced s) (ht : Balanced t) : Balanced (s ++ t) := by
  unfold Balanced at *
  rw [scan_append, hs]
  exact ht

/-- A character which stands for itself outside of strings. -/
def Plain (c : Char) : Prop := c ≠ '"' ∧ c ≠ '\\' ∧ c ≠ '|'

theorem balanced_plain {t : Text} (h : ∀ c ∈ t, Plain c) : Balanced t := by
  unfold Balanced
  induction t with
  | nil => rfl
  | cons c t ih =>
      obtain ⟨hQuote, hSlash, hBar⟩ := h c (by simp)
      have hNext : Place.outside.next c = some .outside := by
        simp [Place.next, hQuote, hSlash, hBar]
      rw [scan, hNext]
      exact ih fun d hd => h d (by simp [hd])

theorem scan_inside {t : Text} (h : ∀ c ∈ t, c ≠ '"' ∧ c ≠ '\\') :
    scan .inside t = some .inside := by
  induction t with
  | nil => rfl
  | cons c t ih =>
      obtain ⟨hQuote, hSlash⟩ := h c (by simp)
      have hNext : Place.inside.next c = some .inside := by simp [Place.next, hQuote, hSlash]
      rw [scan, hNext]
      exact ih fun d hd => h d (by simp [hd])

theorem scan_escapeUnit (unit : Nat) : scan .inside (escapeUnit unit) = some .inside := by
  show scan .inside (Text.hexDigits 4 unit) = some .inside
  apply scan_inside
  intro c hc
  have hAlphabet : Text.hexAlphabet.all (fun digit => digit != '"' && digit != '\\') = true := rfl
  simpa using List.all_eq_true.mp hAlphabet c (Text.hexDigits_subset 4 unit hc)

/-- An escape is read inside a string. -/
theorem scan_escapeChar (c : Char) : scan .inside (escapeChar c) = some .inside := by
  rcases escapeChar_cases c with ⟨short, hC, -⟩ | ⟨hC, hQuote, hSlash⟩ | hC
  · rw [hC]
    rfl
  · rw [hC]
    exact scan_inside (by simp [hQuote, hSlash])
  · rw [hC]
    induction units c with
    | nil => rfl
    | cons unit rest ih =>
        rw [List.flatMap_cons, scan_append, scan_escapeUnit]
        exact ih

theorem scan_escaped (t : Text) : scan .inside (t.flatMap escapeChar) = some .inside := by
  induction t with
  | nil => rfl
  | cons c t ih =>
      rw [List.flatMap_cons, scan_append, scan_escapeChar]
      exact ih

theorem balanced_quote (t : Text) : Balanced (quote t) := by
  show scan .inside (t.flatMap escapeChar ++ ['"']) = some .outside
  rw [scan_append, scan_escaped]
  rfl

/-- One of two readers is inside a string and the other one outside. -/
def Opposite : Place → Place → Prop
  | .outside, .inside => True
  | .inside, .outside => True
  | _, _ => False

theorem Opposite.next {a b a' b' : Place} {c : Char} (h : Opposite a b) (ha : a.next c = some a')
    (hb : b.next c = some b') : Opposite a' b' := by
  have hStep {x y : Place} (hx : Place.outside.next c = some x) (hy : Place.inside.next c = some y) :
      x = .inside ∧ y = .outside ∨ x = .outside ∧ y = .inside := by
    unfold Place.next at hx hy
    by_cases hQuote : c = '"'
    · left
      simp_all
    · by_cases hSlash : c = '\\'
      · simp_all
      · right
        simp_all
  cases a with
  | outside =>
      cases b with
      | inside =>
          rcases hStep ha hb with ⟨rfl, rfl⟩ | ⟨rfl, rfl⟩
          · trivial
          · trivial
      | outside => cases h
      | escape => cases h
  | inside =>
      cases b with
      | outside =>
          rcases hStep hb ha with ⟨rfl, rfl⟩ | ⟨rfl, rfl⟩
          · trivial
          · trivial
      | inside => cases h
      | escape => cases h
  | escape => cases h

/-- Readers who disagree about where the strings are go on to do so. -/
theorem Opposite.scan {a b a' b' : Place} {t : Text} (h : Opposite a b)
    (ha : scan a t = some a') (hb : scan b t = some b') : Opposite a' b' := by
  induction t generalizing a b with
  | nil =>
      obtain rfl := Option.some.inj ha
      obtain rfl := Option.some.inj hb
      exact h
  | cons c t ih =>
      obtain ⟨a₁, hFirstA, hRestA⟩ := Option.bind_eq_some_iff.mp ha
      obtain ⟨b₁, hFirstB, hRestB⟩ := Option.bind_eq_some_iff.mp hb
      exact ih (h.next hFirstA hFirstB) hRestA hRestB

/-- Two texts up to the first separator. -/
theorem first_separator {c : Char} {a b s t : Text} (ha : c ∉ a) (hb : c ∉ b)
    (h : a ++ c :: s = b ++ c :: t) : a = b ∧ s = t := by
  rcases List.append_eq_append_iff.mp h with ⟨d, rfl, hRest⟩ | ⟨d, rfl, hRest⟩
  · cases d with
    | nil => exact ⟨by simp, (List.cons.inj hRest).2⟩
    | cons e d =>
        obtain rfl := (List.cons.inj hRest).1
        simp at hb
  · cases d with
    | nil => exact ⟨by simp, (List.cons.inj hRest).2.symm⟩
    | cons e d =>
        obtain rfl := (List.cons.inj hRest).1
        simp at ha

/-- A balanced text does not contain another one behind a separator. -/
theorem Balanced.not_behind {r t : Text} (ht : Balanced t) : ¬ Balanced (r ++ '|' :: t) := by
  intro h
  unfold Balanced at h
  rw [scan_append] at h
  obtain ⟨place, -, hRest⟩ := Option.bind_eq_some_iff.mp h
  obtain ⟨after, hNext, hLast⟩ := Option.bind_eq_some_iff.mp hRest
  -- The separator stands inside a string, so the text behind it is read from there.
  have hInside : after = .inside := by
    cases place with
    | outside => simp [Place.next] at hNext
    | inside => simpa [Place.next] using hNext.symm
    | escape => simpa [Place.next] using hNext.symm
  subst hInside
  have hOpposite : Opposite .outside .inside := trivial
  exact hOpposite.scan ht hLast

/-- Two balanced texts which end the same text behind a separator are the same. -/
theorem separated_inj {a b s t : Text} (hs : Balanced s) (ht : Balanced t)
    (h : a ++ '|' :: s = b ++ '|' :: t) : a = b ∧ s = t := by
  rcases List.append_eq_append_iff.mp h with ⟨c, rfl, hRest⟩ | ⟨c, rfl, hRest⟩
  · cases c with
    | nil => exact ⟨by simp, (List.cons.inj hRest).2⟩
    | cons d c =>
        rw [List.cons_append] at hRest
        obtain ⟨rfl, hText⟩ := List.cons.inj hRest
        rw [hText] at hs
        exact absurd hs ht.not_behind
  · cases c with
    | nil => exact ⟨by simp, (List.cons.inj hRest).2.symm⟩
    | cons d c =>
        rw [List.cons_append] at hRest
        obtain ⟨rfl, hText⟩ := List.cons.inj hRest
        rw [hText] at ht
        exact absurd ht hs.not_behind

/-! ## Numbers -/

/-- A character of a number. -/
def isNumberChar (c : Char) : Bool :=
  c.isDigit || c == '+' || c == '-' || c == '.' || c == 'e'

/-- A finite number in double precision. -/
def IsDouble (q : ℚ) : Prop :=
  ∃ m e : ℤ, |m| < 2 ^ 53 ∧ -1074 ≤ e ∧ e ≤ 971 ∧ q = m * 2 ^ e

/-- `repr` of a float: it is read back as the same number, and it is not the text of an integer. -/
structure FloatTexts (floatRepr : ℚ → Text) : Prop where
  chars : ∀ q, IsDouble q → ∀ c ∈ floatRepr q, isNumberChar c = true
  fraction : ∀ q, IsDouble q → '.' ∈ floatRepr q ∨ 'e' ∈ floatRepr q
  inj : ∀ q r, IsDouble q → IsDouble r → floatRepr q = floatRepr r → q = r

/-- What may follow a value. -/
def Ends (t : Text) : Prop := ∀ c rest, t = c :: rest → c = ',' ∨ c = ']' ∨ c = '}'

theorem Ends.not_number {c : Char} {t : Text} (h : Ends (c :: t)) : isNumberChar c = false := by
  rcases h c t rfl with rfl | rfl | rfl
  · decide
  · decide
  · decide

/-- A number ends where something else begins. -/
theorem number_inj {s t x y : Text} (hs : ∀ c ∈ s, isNumberChar c = true)
    (ht : ∀ c ∈ t, isNumberChar c = true) (hx : Ends x) (hy : Ends y) (h : s ++ x = t ++ y) :
    s = t ∧ x = y := by
  induction s generalizing t with
  | nil =>
      cases t with
      | nil => exact ⟨rfl, h⟩
      | cons d t =>
          rw [List.nil_append] at h
          rw [h] at hx
          have hNumber := ht d (by simp)
          rw [Ends.not_number hx] at hNumber
          cases hNumber
  | cons c s ih =>
      cases t with
      | nil =>
          rw [List.nil_append] at h
          rw [← h] at hy
          have hNumber := hs c (by simp)
          rw [Ends.not_number hy] at hNumber
          cases hNumber
      | cons d t =>
          obtain ⟨rfl, hRest⟩ := List.cons.inj h
          have hLater := ih (fun e he => hs e (by simp [he])) (fun e he => ht e (by simp [he])) hRest
          exact ⟨by rw [hLater.1], hLater.2⟩

theorem isDigit_ofNat {n : Nat} {c : Char} (h : c ∈ Text.ofNat n) : c.isDigit = true :=
  Nat.isDigit_of_mem_toDigits (by omega) (by omega) h

theorem ofNat_inj {m n : Nat} (h : Text.ofNat m = Text.ofNat n) : m = n := by
  have hValue := congrArg (fun t => Nat.ofDigitChars 10 t 0) h
  simpa only [Text.ofNat, Nat.ofDigitChars_ten_toDigits] using hValue

theorem ofInt_chars {n : Int} {c : Char} (h : c ∈ Text.ofInt n) : c.isDigit = true ∨ c = '-' := by
  cases n with
  | ofNat n => exact .inl (isDigit_ofNat h)
  | negSucc n =>
      rcases List.mem_cons.mp h with rfl | hDigits
      · exact .inr rfl
      · exact .inl (isDigit_ofNat hDigits)

theorem minus_ofNat (n : Nat) : '-' ∉ Text.ofNat n := by
  intro h
  have hDigit := isDigit_ofNat h
  revert hDigit
  decide

theorem ofInt_inj {m n : Int} (h : Text.ofInt m = Text.ofInt n) : m = n := by
  cases m with
  | ofNat m =>
      cases n with
      | ofNat n => rw [ofNat_inj h]
      | negSucc n =>
          have hMinus : '-' ∈ Text.ofNat m := by
            rw [show Text.ofNat m = _ from h]
            exact List.mem_cons_self
          exact absurd hMinus (minus_ofNat m)
  | negSucc m =>
      cases n with
      | ofNat n =>
          have hMinus : '-' ∈ Text.ofNat n := by
            rw [← show _ = Text.ofNat n from h]
            exact List.mem_cons_self
          exact absurd hMinus (minus_ofNat n)
      | negSucc n =>
          have hSame := ofNat_inj (List.cons.inj h).2
          rw [Nat.succ.inj hSame]

theorem ofInt_number {n : Int} {c : Char} (h : c ∈ Text.ofInt n) : isNumberChar c = true := by
  rcases ofInt_chars h with hDigit | rfl
  · simp [isNumberChar, hDigit]
  · rfl

/-- The text of an integer is not that of a float. -/
theorem ofInt_ne_float {floatRepr : ℚ → Text} (hFloats : FloatTexts floatRepr) {q : ℚ}
    (hq : IsDouble q) (n : Int) : Text.ofInt n ≠ floatRepr q := by
  intro h
  have hPoint {c : Char} (hc : c = '.' ∨ c = 'e') : c ∉ Text.ofInt n := by
    intro hIn
    rcases hc with rfl | rfl
    · rcases ofInt_chars hIn with hDigit | hMinus
      · revert hDigit
        decide
      · revert hMinus
        decide
    · rcases ofInt_chars hIn with hDigit | hMinus
      · revert hDigit
        decide
      · revert hMinus
        decide
  rcases hFloats.fraction q hq with hDot | hExponent
  · rw [← h] at hDot
    exact hPoint (.inl rfl) hDot
  · rw [← h] at hExponent
    exact hPoint (.inr rfl) hExponent

theorem plain_number {c : Char} (h : isNumberChar c = true) : Plain c := by
  refine ⟨?_, ?_, ?_⟩
  · rintro rfl
    revert h
    decide
  · rintro rfl
    revert h
    decide
  · rintro rfl
    revert h
    decide

end Json

end Ecrke
