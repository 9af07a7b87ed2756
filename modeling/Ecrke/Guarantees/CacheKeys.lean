import Ecrke.Pipeline.RunHistory
import Ecrke.Text.Compact
import Ecrke.Text.Utf8

/-!
# The keys of the cache

A cache key is the digest of the model, the prompt and the inputs, joined by a separator which may
occur in each of them but the model.

* `buildKey_inj` -- calls with the same key have the same model, prompt and inputs.
-/

namespace Ecrke

/-- Calls with the same key have the same model, prompt and inputs: the text of the inputs has no
separator outside of its strings, so the last separator of the joined text which has not been
escaped is the one in front of it. -/
theorem buildKey_inj {p : Platform} (hHash : Function.Injective p.sha256)
    (hFloats : Json.FloatTexts p.floatRepr) {model model' prompt prompt' : Text}
    {inputs inputs' : List (Text × Json)} (hModel : '|' ∉ model) (hModel' : '|' ∉ model')
    (hInputs : (Json.obj inputs).Proper) (hInputs' : (Json.obj inputs').Proper)
    (h : buildKey p model prompt inputs = buildKey p model' prompt' inputs') :
    model = model' ∧ prompt = prompt' ∧ Json.Same (.obj inputs) (.obj inputs') := by
  have hText := Bytes.encodeUtf8_inj (hHash h)
  have hJoined : model ++ '|' :: (prompt ++ '|' :: Json.compact p.floatRepr (.obj inputs)) =
      model' ++ '|' :: (prompt' ++ '|' :: Json.compact p.floatRepr (.obj inputs')) := by
    simpa [canonicalJson, Json.compact] using hText
  obtain ⟨hSameModel, hRest⟩ := Json.first_separator hModel hModel' hJoined
  obtain ⟨hSamePrompt, hSameInputs⟩ := Json.separated_inj (Json.balanced_compact hFloats hInputs)
    (Json.balanced_compact hFloats hInputs') hRest
  have hEnds : Json.Ends [] := fun _ _ hNil => by cases hNil
  have hValues := Json.compact_inj hFloats hInputs hInputs' hEnds hEnds
    (congrArg (· ++ []) hSameInputs)
  exact ⟨hSameModel, hSamePrompt, hValues.1⟩

/-! ## A digest which keeps everything -/

/-- A text of a float: its numerator and its denominator. -/
def fractionText (q : ℚ) : Text := Text.ofInt q.num ++ 'e' :: Text.ofNat q.den

theorem fractionText_floats : Json.FloatTexts fractionText := by
  have hExponent : Json.isNumberChar 'e' = true := rfl
  constructor
  · intro q _ c hc
    rcases List.mem_append.mp hc with hNum | hDen
    · exact Json.ofInt_number hNum
    · rcases List.mem_cons.mp hDen with rfl | hDigits
      · exact hExponent
      · have hDigit := Json.isDigit_ofNat hDigits
        simp [Json.isNumberChar, hDigit]
  · intro q _
    right
    simp [fractionText]
  · intro q r _ _ h
    have hNoExponent (n : Int) : 'e' ∉ Text.ofInt n := by
      intro hIn
      rcases Json.ofInt_chars hIn with hDigit | hMinus
      · revert hDigit
        decide
      · revert hMinus
        decide
    obtain ⟨hNum, hDen⟩ := Json.first_separator (hNoExponent q.num) (hNoExponent r.num) h
    exact Rat.ext (Json.ofInt_inj hNum) (Json.ofNat_inj hDen)

/-- A platform on which the digest of a text is the text. -/
def Platform.digesting : Platform :=
  { Platform.plain with sha256 := plainText, floatRepr := fractionText }

theorem plainText_injective : Function.Injective plainText := by
  apply List.map_injective_iff.mpr
  intro a b h
  have hChar (byte : UInt8) : (Char.ofNat byte.toNat).toNat = byte.toNat := by
    have hLt := byte.toNat_lt
    have hValid : byte.toNat.isValidChar := by
      simp only [Nat.isValidChar]
      omega
    rw [Char.ofNat, dif_pos hValid]
    rfl
  have hNat := congrArg Char.toNat h
  rw [hChar, hChar] at hNat
  exact UInt8.toNat_inj.mp hNat

/-- A prompt which ends in the text of an object, and inputs of which a string does. -/
theorem buildKey_inj_behind :
    buildKey .digesting "m".toList "a|{}".toList [] ≠
      buildKey .digesting "m".toList "a".toList [("q".toList, .str "|{}".toList)] := by
  intro hSame
  have hNone : (Json.obj []).Proper := ⟨List.nodup_nil, trivial⟩
  have hOne : (Json.obj [("q".toList, .str "|{}".toList)]).Proper :=
    ⟨List.nodup_singleton _, trivial, trivial⟩
  have hModel : '|' ∉ "m".toList := by decide
  have hSamePrompt := (buildKey_inj plainText_injective fractionText_floats hModel hModel hNone hOne
    hSame).2.1
  exact absurd hSamePrompt (by decide)

end Ecrke
