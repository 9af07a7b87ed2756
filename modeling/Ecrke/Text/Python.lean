import Mathlib.Data.Rat.Floor
import Mathlib.Data.List.Basic
import Mathlib.Data.List.Sort
import Mathlib.Tactic.Linarith

/-!
# Strings, bytes, identifiers and exceptions

What the program uses of its language: strings as lists of code points with the string methods it
calls, byte strings with the three encodings it decodes, `uuid.UUID` with its text form, and the
exceptions it raises and catches.

* `Unicode` -- the character tables outside ASCII, which the other definitions take as given.
* `Text`, `Bytes` -- strings and byte strings with their methods.
* `Uuid`, `Uuid.str` -- identifiers, and `Uuid.str_injective`, that their texts identify them.
-/

namespace Ecrke

/-- A string: its code points. -/
abbrev Text := List Char

instance : LawfulBEq Text := inferInstanceAs (LawfulBEq (List Char))

/-- A byte string. -/
abbrev Bytes := List UInt8

/-- A point in time, in seconds. -/
abbrev Instant := ℚ

/-- An amount of US dollars. -/
abbrev Usd := ℚ

/-- The character tables outside ASCII. -/
structure Unicode where
  /-- `str.isalnum`. -/
  alnum : Char → Bool
  /-- `str.isprintable`. -/
  printable : Char → Bool
  /-- `str.lower`. -/
  lower : Char → Text
  /-- `str.casefold`. -/
  casefold : Char → Text

namespace Unicode

/-- The ASCII range. -/
def isAscii (c : Char) : Bool := c.toNat < 128

/-- The class `\w`. -/
def isWord (u : Unicode) (c : Char) : Bool :=
  if isAscii c then c.isAlphanum || c == '_' else u.alnum c

/-- One character of `str.lower`. -/
def lowerChar (u : Unicode) (c : Char) : Text := if isAscii c then [c.toLower] else u.lower c

/-- One character of `str.casefold`. -/
def casefoldChar (u : Unicode) (c : Char) : Text :=
  if isAscii c then [c.toLower] else u.casefold c

/-- `str.isprintable` for one character. -/
def isPrintable (u : Unicode) (c : Char) : Bool :=
  if isAscii c then 32 ≤ c.toNat && c.toNat < 127 else u.printable c

end Unicode

namespace Text

/-- `str.isspace` for one character, which is also the class `\s`. -/
def isSpace (c : Char) : Bool :=
  (9 ≤ c.toNat && c.toNat ≤ 13) || (28 ≤ c.toNat && c.toNat ≤ 32) ||
  [0x85, 0xA0, 0x1680, 0x2028, 0x2029, 0x202F, 0x205F, 0x3000].contains c.toNat ||
  (0x2000 ≤ c.toNat && c.toNat ≤ 0x200A)

/-- `str.strip`. -/
def strip (t : Text) : Text :=
  ((t.dropWhile isSpace).reverse.dropWhile isSpace).reverse

/-- `str.lower`. -/
def lower (u : Unicode) (t : Text) : Text := t.flatMap u.lowerChar

/-- `str.casefold`. -/
def casefold (u : Unicode) (t : Text) : Text := t.flatMap u.casefoldChar

/-- `t.startswith(start)`. -/
def startsWith (start t : Text) : Bool := start.isPrefixOf t

/-- `t.endswith(end_)`. -/
def endsWith (end_ t : Text) : Bool := end_.isSuffixOf t

/-- `needle in t`. -/
def occursIn (needle t : Text) : Bool := t.tails.any fun rest => needle.isPrefixOf rest

/-- `t.split(c, 1)[0]`. -/
def beforeFirst (c : Char) (t : Text) : Text := t.takeWhile (· ≠ c)

/-- `t.rsplit(c, 1)[0]`. -/
def beforeLast (c : Char) (t : Text) : Text :=
  if t.contains c then ((t.reverse.dropWhile (· ≠ c)).drop 1).reverse else t

/-- `sep.join(parts)`. -/
def join (sep : Text) (parts : List Text) : Text := sep.intercalate parts

/-- The order of strings: by code points. -/
def le (a b : Text) : Bool := a = b || a.lex b fun x y => x.toNat < y.toNat

/-- A natural number in decimal. -/
def ofNat (n : Nat) : Text := Nat.toDigits 10 n

/-- An integer in decimal. -/
def ofInt : Int → Text
  | .ofNat n => ofNat n
  | .negSucc n => '-' :: ofNat (n + 1)

/-- The hexadecimal digits. -/
def hexAlphabet : Text := "0123456789abcdef".toList

/-- A digit of a hexadecimal number. -/
def hexDigit (n : Nat) : Char := hexAlphabet.getD n '0'

/-- The last `count` hexadecimal digits of a number. -/
def hexDigits : (count : Nat) → Nat → Text
  | 0, _ => []
  | count + 1, n => hexDigits count (n / 16) ++ [hexDigit (n % 16)]

/-- A number of at least zero with a fixed number of decimals, halves to even: `f"{q:.2f}"`. -/
def ofFixed (digits : Nat) (q : ℚ) : Text :=
  let scaled := q * 10 ^ digits
  let down := ⌊scaled⌋.toNat
  let rest := scaled - down
  let whole := if rest < 1 / 2 ∨ (rest = 1 / 2 ∧ down % 2 = 0) then down else down + 1
  let decimals := ofNat (whole % 10 ^ digits)
  ofNat (whole / 10 ^ digits) ++ ".".toList ++
    List.replicate (digits - decimals.length) '0' ++ decimals

/-- `repr` of a character inside quotes. -/
def reprChar (u : Unicode) (quote c : Char) : Text :=
  if c = quote ∨ c = '\\' then ['\\', c]
  else if c = '\n' then "\\n".toList
  else if c = '\r' then "\\r".toList
  else if c = '\t' then "\\t".toList
  else if u.isPrintable c then [c]
  else if c.toNat < 0x100 then "\\x".toList ++ hexDigits 2 c.toNat
  else if c.toNat < 0x10000 then "\\u".toList ++ hexDigits 4 c.toNat
  else "\\U".toList ++ hexDigits 8 c.toNat

/-- `repr` of a string. -/
def repr (u : Unicode) (t : Text) : Text :=
  let quote := if t.contains '\'' && !t.contains '"' then '"' else '\''
  [quote] ++ t.flatMap (reprChar u quote) ++ [quote]

end Text

/-! ## Bytes -/

namespace Bytes

/-- A character in UTF-8. -/
def encodeChar (c : Char) : Bytes :=
  let n := c.toNat
  if n < 0x80 then [.ofNat n]
  else if n < 0x800 then [.ofNat (0xC0 + n / 0x40), .ofNat (0x80 + n % 0x40)]
  else if n < 0x10000 then
    [.ofNat (0xE0 + n / 0x1000), .ofNat (0x80 + n / 0x40 % 0x40), .ofNat (0x80 + n % 0x40)]
  else
    [.ofNat (0xF0 + n / 0x40000), .ofNat (0x80 + n / 0x1000 % 0x40),
      .ofNat (0x80 + n / 0x40 % 0x40), .ofNat (0x80 + n % 0x40)]

/-- `t.encode("utf-8")`. -/
def encodeUtf8 (t : Text) : Bytes := t.flatMap encodeChar

/-- The six bits which a continuation byte carries. -/
def continuation (b : UInt8) : Option Nat :=
  if 0x80 ≤ b.toNat ∧ b.toNat < 0xC0 then some (b.toNat - 0x80) else none

/-- A code point which needs `least` at the least to be encoded in so many bytes. -/
def scalar (least n : Nat) : Option Char :=
  if least ≤ n ∧ n.isValidChar then some (Char.ofNat n) else none

/-- `content.decode("utf-8")`, nothing where it raises `UnicodeDecodeError`. -/
def decodeUtf8 : Bytes → Option Text
  | [] => some []
  | b₀ :: rest =>
      if b₀.toNat < 0x80 then (Char.ofNat b₀.toNat :: ·) <$> decodeUtf8 rest
      else match rest with
      | [] => none
      | b₁ :: rest =>
          if b₀.toNat < 0xE0 then do
            let n₁ ← continuation b₁
            let c ← if 0xC2 ≤ b₀.toNat then scalar 0x80 ((b₀.toNat - 0xC0) * 0x40 + n₁) else none
            (c :: ·) <$> decodeUtf8 rest
          else match rest with
          | [] => none
          | b₂ :: rest =>
              if b₀.toNat < 0xF0 then do
                let n₁ ← continuation b₁
                let n₂ ← continuation b₂
                let c ← scalar 0x800 ((b₀.toNat - 0xE0) * 0x1000 + n₁ * 0x40 + n₂)
                (c :: ·) <$> decodeUtf8 rest
              else match rest with
              | [] => none
              | b₃ :: rest => do
                  let n₁ ← continuation b₁
                  let n₂ ← continuation b₂
                  let n₃ ← continuation b₃
                  let c ← scalar 0x10000
                    ((b₀.toNat - 0xF0) * 0x40000 + n₁ * 0x1000 + n₂ * 0x40 + n₃)
                  (c :: ·) <$> decodeUtf8 rest

/-- The code points of 16-bit units; a surrogate stands only in a pair. -/
def decodeUnits : List Nat → Option Text
  | [] => some []
  | unit :: rest =>
      if unit < 0xD800 ∨ 0xE000 ≤ unit then (Char.ofNat unit :: ·) <$> decodeUnits rest
      else match rest with
      | [] => none
      | low :: rest =>
          if unit < 0xDC00 ∧ 0xDC00 ≤ low ∧ low < 0xE000 then
            (Char.ofNat (0x10000 + (unit - 0xD800) * 0x400 + (low - 0xDC00)) :: ·) <$>
              decodeUnits rest
          else none

/-- The 16-bit units of a byte string. -/
def units (littleEndian : Bool) : Bytes → Option (List Nat)
  | [] => some []
  | [_] => none
  | a :: b :: rest =>
      let unit := if littleEndian then a.toNat + 256 * b.toNat else 256 * a.toNat + b.toNat
      (unit :: ·) <$> units littleEndian rest

/-- `content.decode("utf-16")`: the byte order mark decides, little endian without one. -/
def decodeUtf16 (content : Bytes) : Option Text :=
  match content with
  | 0xFF :: 0xFE :: rest => (units true rest).bind decodeUnits
  | 0xFE :: 0xFF :: rest => (units false rest).bind decodeUnits
  | _ => (units true content).bind decodeUnits

/-- `content.decode("latin-1")`. -/
def decodeLatin1 (content : Bytes) : Text := content.map fun b => Char.ofNat b.toNat

end Bytes

/-! ## Exceptions -/

/-- The exception classes which the program raises, catches or lets pass. -/
inductive ErrorClass where
  | valueError
  | typeError
  | keyError
  | indexError
  | attributeError
  | runtimeError
  | arithmeticError
  | circuitBreakerError
  | circuitBreakerOpenError
  | quarantineError
  | modelTierError
  | negativeCostError
  | runNotFoundError
  | fetchError
  | allowlistDeniedError
  | searchProviderError
  | blobNotFoundError
  | rateLimitError
  | serviceUnavailableError
  | apiConnectionError
  /-- A constraint of the database. -/
  | integrityError
  /-- A value which a column cannot hold. -/
  | dataError
  /-- An update of a row which is gone. -/
  | staleDataError
  /-- Any other failure of the database. -/
  | operationalError
  /-- Any exception of a third party. -/
  | other
  deriving DecidableEq

/-- An exception: its class and `str(exc)`. -/
structure PyError where
  kind : ErrorClass
  message : Text

/-- The classes which `except (ValueError, KeyError, TypeError)` catches. -/
def PyError.isValidation (error : PyError) : Bool :=
  [.valueError, .keyError, .typeError, .negativeCostError, .modelTierError, .searchProviderError,
    .blobNotFoundError].contains error.kind

/-! ## Identifiers -/

/-- `uuid.UUID`. -/
structure Uuid where
  bits : BitVec 128
  deriving DecidableEq

namespace Uuid

/-- `a <= b` on identifiers. -/
def le (a b : Uuid) : Bool := a.bits.toNat ≤ b.bits.toNat

/-- `str(id)`: 32 hexadecimal digits in five groups. -/
def str (id : Uuid) : Text :=
  let hex := Text.hexDigits 32 id.bits.toNat
  hex.take 8 ++ '-' :: ((hex.drop 8).take 4 ++ '-' :: ((hex.drop 12).take 4 ++
    '-' :: ((hex.drop 16).take 4 ++ '-' :: hex.drop 20)))

end Uuid

theorem Text.length_hexDigits (count n : Nat) : (Text.hexDigits count n).length = count := by
  induction count generalizing n with
  | zero => rfl
  | succ count ih => simp [Text.hexDigits, ih]

theorem Text.hexDigit_injective {a b : Nat} (ha : a < 16) (hb : b < 16)
    (h : Text.hexDigit a = Text.hexDigit b) : a = b := by
  have hAll : ∀ a < 16, ∀ b < 16, Text.hexDigit a = Text.hexDigit b → a = b := by decide
  exact hAll a ha b hb h

theorem Text.hexDigits_injective {count a b : Nat} (ha : a < 16 ^ count) (hb : b < 16 ^ count)
    (h : Text.hexDigits count a = Text.hexDigits count b) : a = b := by
  induction count generalizing a b with
  | zero => omega
  | succ count ih =>
      obtain ⟨hFront, hLast⟩ := List.append_inj h (by simp [Text.length_hexDigits])
      have hDigit : a % 16 = b % 16 :=
        Text.hexDigit_injective (by omega) (by omega) (List.singleton_injective hLast)
      have hRest : a / 16 = b / 16 := ih (by omega) (by omega) hFront
      omega

theorem Text.hexDigit_mem (n : Nat) : Text.hexDigit n ∈ Text.hexAlphabet := by
  have hAll : ∀ n < 16, Text.hexDigit n ∈ Text.hexAlphabet := by decide
  rcases Nat.lt_or_ge n 16 with h | h
  · exact hAll n h
  · rw [Text.hexDigit, List.getD_eq_getElem?_getD, List.getElem?_eq_none h]
    decide

theorem Text.hexDigits_subset (count n : Nat) : Text.hexDigits count n ⊆ Text.hexAlphabet := by
  induction count generalizing n with
  | zero => exact List.nil_subset _
  | succ count ih =>
      rw [Text.hexDigits, List.append_subset]
      exact ⟨ih _, by simpa using Text.hexDigit_mem _⟩

theorem Uuid.length_str (id : Uuid) : id.str.length = 36 := by
  simp [Uuid.str, Text.length_hexDigits]

/-- Different identifiers have different texts. -/
theorem Uuid.str_injective {a b : Uuid} (h : a.str = b.str) : a = b := by
  have hLength (n : Nat) : (Text.hexDigits 32 n).length = 32 := Text.length_hexDigits 32 n
  simp only [Uuid.str] at h
  -- The five groups have fixed lengths, so they agree one by one.
  obtain ⟨h₁, h⟩ := List.append_inj h (by simp [hLength])
  obtain ⟨h₂, h⟩ := List.append_inj (List.cons.inj h).2 (by simp [hLength])
  obtain ⟨h₃, h⟩ := List.append_inj (List.cons.inj h).2 (by simp [hLength])
  obtain ⟨h₄, h⟩ := List.append_inj (List.cons.inj h).2 (by simp [hLength])
  have h₅ := (List.cons.inj h).2
  have hSplit (hex : Text) : hex = hex.take 8 ++ ((hex.drop 8).take 4 ++ ((hex.drop 12).take 4 ++
      ((hex.drop 16).take 4 ++ hex.drop 20))) := by
    conv_lhs => rw [← List.take_append_drop 8 hex, ← List.take_append_drop 4 (hex.drop 8),
      List.drop_drop, ← List.take_append_drop 4 (hex.drop (8 + 4)), List.drop_drop,
      ← List.take_append_drop 4 (hex.drop (8 + 4 + 4)), List.drop_drop]
  have hHex : Text.hexDigits 32 a.bits.toNat = Text.hexDigits 32 b.bits.toNat := by
    rw [hSplit (Text.hexDigits 32 a.bits.toNat), h₁, h₂, h₃, h₄, h₅, ← hSplit]
  have hBound (bits : BitVec 128) : bits.toNat < 16 ^ 32 := by
    have := bits.isLt
    norm_num at this ⊢
    exact this
  have hBits := BitVec.eq_of_toNat_eq
    (Text.hexDigits_injective (hBound a.bits) (hBound b.bits) hHex)
  cases a
  cases b
  simpa using hBits

/-- An identifier is written in hexadecimal digits and dashes. -/
theorem Uuid.mem_str {id : Uuid} {c : Char} (h : c ∈ id.str) :
    c ∈ Text.hexAlphabet ∨ c = '-' := by
  have hHex : ∀ c ∈ Text.hexDigits 32 id.bits.toNat, c ∈ Text.hexAlphabet :=
    fun c hc => Text.hexDigits_subset 32 _ hc
  simp only [Uuid.str, List.mem_append, List.mem_cons] at h
  rcases h with h | h | h | h | h | h | h | h | h
  · exact .inl (hHex c (List.mem_of_mem_take h))
  · exact .inr h
  · exact .inl (hHex c (List.mem_of_mem_drop (List.mem_of_mem_take h)))
  · exact .inr h
  · exact .inl (hHex c (List.mem_of_mem_drop (List.mem_of_mem_take h)))
  · exact .inr h
  · exact .inl (hHex c (List.mem_of_mem_drop (List.mem_of_mem_take h)))
  · exact .inr h
  · exact .inl (hHex c (List.mem_of_mem_drop h))

end Ecrke
