import Ecrke.Text.Python

/-!
# UTF-8 there and back

* `decodeUtf8_encodeUtf8` -- a text is decoded from its encoding.
* `encodeUtf8_of_decodeUtf8` -- bytes which can be decoded are the encoding of what they decode to.
* `encodeUtf8_inj` -- different texts have different encodings.
-/

namespace Ecrke

namespace Bytes

theorem toNat_ofNat {n : Nat} (h : n < 256) : (UInt8.ofNat n).toNat = n := by
  rw [UInt8.toNat_ofNat']
  omega

theorem byte_eq {b : UInt8} {n : Nat} (h : b.toNat = n) : UInt8.ofNat n = b := by
  apply UInt8.toNat_inj.mp
  have hByte := b.toNat_lt
  rw [toNat_ofNat (by omega), h]

theorem continuation_ofNat {n : Nat} (h : n < 64) :
    continuation (.ofNat (0x80 + n)) = some n := by
  unfold continuation
  rw [toNat_ofNat (by omega), if_pos (by omega), Nat.add_sub_cancel_left]

theorem continuation_some {b : UInt8} {n : Nat} (h : continuation b = some n) :
    b.toNat = 0x80 + n ∧ n < 64 := by
  unfold continuation at h
  by_cases hRange : 0x80 ≤ b.toNat ∧ b.toNat < 0xC0
  · rw [if_pos hRange] at h
    have hValue := Option.some.inj h
    omega
  · rw [if_neg hRange] at h
    exact absurd h (by simp)

theorem toNat_bound (c : Char) : c.toNat < 0x110000 := by
  have hValid : c.toNat.isValidChar := c.valid
  unfold Nat.isValidChar at hValid
  omega

theorem scalar_toNat {least : Nat} {c : Char} (h : least ≤ c.toNat) :
    scalar least c.toNat = some c := by
  have hValid : c.toNat.isValidChar := c.valid
  unfold scalar
  rw [if_pos ⟨h, hValid⟩, Char.ofNat_toNat]

theorem scalar_some {least n : Nat} {c : Char} (h : scalar least n = some c) :
    least ≤ n ∧ c.toNat = n := by
  unfold scalar at h
  by_cases hBoth : least ≤ n ∧ n.isValidChar
  · rw [if_pos hBoth] at h
    constructor
    · exact hBoth.1
    · rw [← Option.some.inj h]
      unfold Char.ofNat
      rw [dif_pos hBoth.2]
      rfl
  · rw [if_neg hBoth] at h
    exact absurd h (by simp)

theorem bind_of_some {α β : Type} {found : Option α} {value : α} (h : found = some value)
    (f : α → Option β) : (found >>= f) = f value := by
  rw [h]
  rfl

/-! ## How many bytes a character has -/

section Lengths

variable {b₀ b₁ b₂ b₃ : UInt8} {rest : Bytes}

theorem decodeUtf8_one (h : b₀.toNat < 0x80) :
    decodeUtf8 (b₀ :: rest) = (Char.ofNat b₀.toNat :: ·) <$> decodeUtf8 rest := by
  -- The inner matches are stuck on `rest`, so the definition does not unfold by itself.
  delta decodeUtf8
  exact if_pos h

theorem decodeUtf8_two (h₁ : ¬ b₀.toNat < 0x80) (h₂ : b₀.toNat < 0xE0) :
    decodeUtf8 (b₀ :: b₁ :: rest) = (do
      let n₁ ← continuation b₁
      let c ← if 0xC2 ≤ b₀.toNat then scalar 0x80 ((b₀.toNat - 0xC0) * 0x40 + n₁) else none
      (c :: ·) <$> decodeUtf8 rest) := by
  delta decodeUtf8
  exact (if_neg h₁).trans (if_pos h₂)

theorem decodeUtf8_three (h₁ : ¬ b₀.toNat < 0x80) (h₂ : ¬ b₀.toNat < 0xE0)
    (h₃ : b₀.toNat < 0xF0) :
    decodeUtf8 (b₀ :: b₁ :: b₂ :: rest) = (do
      let n₁ ← continuation b₁
      let n₂ ← continuation b₂
      let c ← scalar 0x800 ((b₀.toNat - 0xE0) * 0x1000 + n₁ * 0x40 + n₂)
      (c :: ·) <$> decodeUtf8 rest) := by
  delta decodeUtf8
  exact (if_neg h₁).trans ((if_neg h₂).trans (if_pos h₃))

theorem decodeUtf8_four (h₁ : ¬ b₀.toNat < 0x80) (h₂ : ¬ b₀.toNat < 0xE0)
    (h₃ : ¬ b₀.toNat < 0xF0) :
    decodeUtf8 (b₀ :: b₁ :: b₂ :: b₃ :: rest) = (do
      let n₁ ← continuation b₁
      let n₂ ← continuation b₂
      let n₃ ← continuation b₃
      let c ← scalar 0x10000
        ((b₀.toNat - 0xF0) * 0x40000 + n₁ * 0x1000 + n₂ * 0x40 + n₃)
      (c :: ·) <$> decodeUtf8 rest) := by
  delta decodeUtf8
  exact (if_neg h₁).trans ((if_neg h₂).trans (if_neg h₃))

/-- Four bytes which stand for a character. -/
theorem decodeUtf8_four_eq {n₁ n₂ n₃ : Nat} {c : Char} (h₁ : ¬ b₀.toNat < 0x80)
    (h₂ : ¬ b₀.toNat < 0xE0) (h₃ : ¬ b₀.toNat < 0xF0) (hN₁ : continuation b₁ = some n₁)
    (hN₂ : continuation b₂ = some n₂) (hN₃ : continuation b₃ = some n₃)
    (hScalar : scalar 0x10000
      ((b₀.toNat - 0xF0) * 0x40000 + n₁ * 0x1000 + n₂ * 0x40 + n₃) = some c) :
    decodeUtf8 (b₀ :: b₁ :: b₂ :: b₃ :: rest) = (c :: ·) <$> decodeUtf8 rest := by
  rw [decodeUtf8_four h₁ h₂ h₃, bind_of_some hN₁, bind_of_some hN₂, bind_of_some hN₃,
    bind_of_some hScalar]

end Lengths

/-! ## There and back -/

/-- The digits of a number in base 64, the first of which may be any number. -/
theorem digits_sum (n : Nat) :
    n / 0x40000 * 0x40000 + n / 0x1000 % 0x40 * 0x1000 + n / 0x40 % 0x40 * 0x40 + n % 0x40 =
      n := by
  have hSecond : n / 0x1000 = n / 0x40 / 0x40 := (Nat.div_div_eq_div_mul n 0x40 0x40).symm
  have hThird : n / 0x40000 = n / 0x40 / 0x40 / 0x40 := by
    rw [Nat.div_div_eq_div_mul, Nat.div_div_eq_div_mul]
  have hLow := Nat.div_add_mod n 0x40
  have hMiddle := Nat.div_add_mod (n / 0x40) 0x40
  have hHigh := Nat.div_add_mod (n / 0x40 / 0x40) 0x40
  rw [hThird, hSecond]
  generalize n / 0x40 / 0x40 % 0x40 = high at *
  generalize n / 0x40 / 0x40 / 0x40 = rest at *
  generalize n / 0x40 / 0x40 = middle at *
  generalize n / 0x40 % 0x40 = second at *
  generalize n / 0x40 = first at *
  generalize n % 0x40 = low at *
  omega

/-- The first character is decoded from its encoding. -/
theorem decodeUtf8_encodeChar (c : Char) (rest : Bytes) :
    decodeUtf8 (encodeChar c ++ rest) = (c :: ·) <$> decodeUtf8 rest := by
  have hMost := toNat_bound c
  unfold encodeChar
  dsimp only
  by_cases hOne : c.toNat < 0x80
  · have hByte : (UInt8.ofNat c.toNat).toNat = c.toNat := toNat_ofNat (by omega)
    rw [if_pos hOne, List.singleton_append, decodeUtf8_one (by omega), hByte, Char.ofNat_toNat]
  rw [if_neg hOne]
  by_cases hTwo : c.toNat < 0x800
  · have hByte : (UInt8.ofNat (0xC0 + c.toNat / 0x40)).toNat = 0xC0 + c.toNat / 0x40 :=
      toNat_ofNat (by omega)
    have hSum : (0xC0 + c.toNat / 0x40 - 0xC0) * 0x40 + c.toNat % 0x40 = c.toNat := by omega
    rw [if_pos hTwo, List.cons_append, List.singleton_append]
    rw [decodeUtf8_two (by omega) (by omega), continuation_ofNat (by omega), hByte]
    dsimp only [Option.bind_eq_bind, Option.bind_some]
    rw [if_pos (by omega), hSum, scalar_toNat (by omega)]
    rfl
  rw [if_neg hTwo]
  by_cases hThree : c.toNat < 0x10000
  · have hByte : (UInt8.ofNat (0xE0 + c.toNat / 0x1000)).toNat = 0xE0 + c.toNat / 0x1000 :=
      toNat_ofNat (by omega)
    have hSum : (0xE0 + c.toNat / 0x1000 - 0xE0) * 0x1000 + c.toNat / 0x40 % 0x40 * 0x40 +
        c.toNat % 0x40 = c.toNat := by omega
    rw [if_pos hThree, List.cons_append, List.cons_append, List.singleton_append]
    rw [decodeUtf8_three (by omega) (by omega) (by omega), continuation_ofNat (by omega),
      continuation_ofNat (by omega), hByte]
    dsimp only [Option.bind_eq_bind, Option.bind_some]
    rw [hSum, scalar_toNat (by omega)]
    rfl
  · have hByte : (UInt8.ofNat (0xF0 + c.toNat / 0x40000)).toNat = 0xF0 + c.toNat / 0x40000 :=
      toNat_ofNat (by omega)
    have hSum : (0xF0 + c.toNat / 0x40000 - 0xF0) * 0x40000 + c.toNat / 0x1000 % 0x40 * 0x1000 +
        c.toNat / 0x40 % 0x40 * 0x40 + c.toNat % 0x40 = c.toNat := by
      rw [Nat.add_sub_cancel_left]
      exact digits_sum c.toNat
    have hScalar : scalar 0x10000
        ((0xF0 + c.toNat / 0x40000 - 0xF0) * 0x40000 + c.toNat / 0x1000 % 0x40 * 0x1000 +
          c.toNat / 0x40 % 0x40 * 0x40 + c.toNat % 0x40) = some c := by
      rw [hSum, scalar_toNat (by omega)]
    rw [if_neg hThree, List.cons_append, List.cons_append, List.cons_append, List.singleton_append]
    exact decodeUtf8_four_eq (by omega) (by omega) (by omega) (continuation_ofNat (by omega))
      (continuation_ofNat (by omega)) (continuation_ofNat (by omega)) (by rw [hByte, hScalar])

/-- A text is decoded from its encoding. -/
theorem decodeUtf8_encodeUtf8 (t : Text) : decodeUtf8 (encodeUtf8 t) = some t := by
  induction t with
  | nil => rfl
  | cons c rest ih =>
      show decodeUtf8 (encodeChar c ++ encodeUtf8 rest) = _
      rw [decodeUtf8_encodeChar, ih]
      rfl

theorem toNat_ofNat_ascii {n : Nat} (h : n < 0x80) : (Char.ofNat n).toNat = n := by
  have hValid : n.isValidChar := .inl (by omega)
  unfold Char.ofNat
  rw [dif_pos hValid]
  rfl

/-- Bytes which can be decoded are none, or start with the encoding of the first character. -/
theorem decodeUtf8_cases {content : Bytes} {t : Text} (h : decodeUtf8 content = some t) :
    (content = [] ∧ t = []) ∨ ∃ c rest t', content = encodeChar c ++ rest ∧ t = c :: t' ∧
      decodeUtf8 rest = some t' := by
  cases content with
  | nil => exact .inl ⟨rfl, (Option.some.inj h).symm⟩
  | cons b₀ rest =>
      right
      by_cases hOne : b₀.toNat < 0x80
      · rw [decodeUtf8_one hOne] at h
        obtain ⟨t', hRest, rfl⟩ := Option.map_eq_some_iff.mp h
        refine ⟨_, rest, t', ?_, rfl, hRest⟩
        unfold encodeChar
        dsimp only
        rw [toNat_ofNat_ascii hOne, if_pos hOne, byte_eq rfl]
        rfl
      cases rest with
      | nil =>
          rw [decodeUtf8.eq_def] at h
          simp [hOne] at h
      | cons b₁ rest =>
          by_cases hTwo : b₀.toNat < 0xE0
          · rw [decodeUtf8_two hOne hTwo] at h
            obtain ⟨n₁, hN₁, h⟩ := Option.bind_eq_some_iff.mp h
            dsimp only at h
            by_cases hLeast : 0xC2 ≤ b₀.toNat
            · rw [if_pos hLeast] at h
              obtain ⟨c, hScalar, h⟩ := Option.bind_eq_some_iff.mp h
              obtain ⟨t', hRest, rfl⟩ := Option.map_eq_some_iff.mp h
              obtain ⟨hMin, hC⟩ := scalar_some hScalar
              obtain ⟨hB₁, hRange₁⟩ := continuation_some hN₁
              refine ⟨c, rest, t', ?_, rfl, hRest⟩
              unfold encodeChar
              dsimp only
              rw [if_neg (by omega), if_pos (by omega), byte_eq (b := b₀) (by omega),
                byte_eq (b := b₁) (by omega)]
              rfl
            · rw [if_neg hLeast] at h
              exact absurd h (by simp)
          · cases rest with
            | nil =>
                rw [decodeUtf8.eq_def] at h
                simp [hOne, hTwo] at h
            | cons b₂ rest =>
                by_cases hThree : b₀.toNat < 0xF0
                · rw [decodeUtf8_three hOne hTwo hThree] at h
                  obtain ⟨n₁, hN₁, h⟩ := Option.bind_eq_some_iff.mp h
                  obtain ⟨n₂, hN₂, h⟩ := Option.bind_eq_some_iff.mp h
                  obtain ⟨c, hScalar, h⟩ := Option.bind_eq_some_iff.mp h
                  obtain ⟨t', hRest, rfl⟩ := Option.map_eq_some_iff.mp h
                  obtain ⟨hMin, hC⟩ := scalar_some hScalar
                  obtain ⟨hB₁, hRange₁⟩ := continuation_some hN₁
                  obtain ⟨hB₂, hRange₂⟩ := continuation_some hN₂
                  refine ⟨c, rest, t', ?_, rfl, hRest⟩
                  unfold encodeChar
                  dsimp only
                  rw [if_neg (by omega), if_neg (by omega), if_pos (by omega),
                    byte_eq (b := b₀) (by omega), byte_eq (b := b₁) (by omega),
                    byte_eq (b := b₂) (by omega)]
                  rfl
                · cases rest with
                  | nil =>
                      rw [decodeUtf8.eq_def] at h
                      simp [hOne, hTwo, hThree] at h
                  | cons b₃ rest =>
                      rw [decodeUtf8_four hOne hTwo hThree] at h
                      obtain ⟨n₁, hN₁, h⟩ := Option.bind_eq_some_iff.mp h
                      obtain ⟨n₂, hN₂, h⟩ := Option.bind_eq_some_iff.mp h
                      obtain ⟨n₃, hN₃, h⟩ := Option.bind_eq_some_iff.mp h
                      obtain ⟨c, hScalar, h⟩ := Option.bind_eq_some_iff.mp h
                      obtain ⟨t', hRest, rfl⟩ := Option.map_eq_some_iff.mp h
                      obtain ⟨hMin, hC⟩ := scalar_some hScalar
                      obtain ⟨hB₁, hRange₁⟩ := continuation_some hN₁
                      obtain ⟨hB₂, hRange₂⟩ := continuation_some hN₂
                      obtain ⟨hB₃, hRange₃⟩ := continuation_some hN₃
                      refine ⟨c, rest, t', ?_, rfl, hRest⟩
                      unfold encodeChar
                      dsimp only
                      rw [if_neg (by omega), if_neg (by omega), if_neg (by omega),
                        byte_eq (b := b₀) (by omega), byte_eq (b := b₁) (by omega),
                        byte_eq (b := b₂) (by omega), byte_eq (b := b₃) (by omega)]
                      rfl

/-- Bytes which can be decoded are the encoding of what they decode to. -/
theorem encodeUtf8_of_decodeUtf8 {content : Bytes} {t : Text}
    (h : decodeUtf8 content = some t) : encodeUtf8 t = content := by
  induction t generalizing content with
  | nil =>
      rcases decodeUtf8_cases h with ⟨rfl, -⟩ | ⟨c, rest, t', -, hText, -⟩
      · rfl
      · cases hText
  | cons c t ih =>
      rcases decodeUtf8_cases h with ⟨-, hText⟩ | ⟨c', rest, t', rfl, hText, hRest⟩
      · cases hText
      · cases hText
        show encodeChar c ++ encodeUtf8 t = _
        rw [ih hRest]

/-- Different texts have different encodings. -/
theorem encodeUtf8_inj {t t' : Text} (h : encodeUtf8 t = encodeUtf8 t') : t = t' := by
  have hDecoded := congrArg decodeUtf8 h
  rw [decodeUtf8_encodeUtf8, decodeUtf8_encodeUtf8] at hDecoded
  exact Option.some.inj hDecoded

end Bytes

end Ecrke
