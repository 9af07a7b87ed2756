import Ecrke.World
import Mathlib.Data.List.Dedup

/-!
# The lexical support matrix

How much of the vocabulary of a statement its passage covers.

* `tokens` -- the words of a text.
* `scoreSupport` -- the score and the ratio of a statement against a passage.
-/

namespace Ecrke

/-- `FULL_THRESHOLD` -/
def fullThreshold : ℚ := 1 / 2

/-- `PARTIAL_THRESHOLD` -/
def partialThreshold : ℚ := 1 / 4

/-- The class `[a-z0-9]`. -/
def isTokenChar (c : Char) : Bool := c.isLower || c.isDigit

/-- The set of words of a text, casefolded; punctuation and hyphens separate. -/
def tokens (u : Unicode) (text : Text) : List Text :=
  (((Text.casefold u text).splitOnP fun c => !isTokenChar c).filter fun t => !t.isEmpty).dedup

/-- How much of a statement a passage covers. -/
def scoreSupport (u : Unicode) (statementText passageText : Text) :
    Except PyError (EvidenceScore × ℚ) := do
  if (Text.strip statementText).isEmpty then
    .error ⟨.valueError, "statement text must be non-empty".toList⟩
  let statementTokens := tokens u statementText
  if statementTokens.isEmpty then
    .error ⟨.valueError, "statement text must contain at least one word".toList⟩
  if (Text.strip passageText).isEmpty then return (.none, 0)
  let passageTokens := tokens u passageText
  let shared := statementTokens.filter fun t => passageTokens.contains t
  let ratio : ℚ := shared.length / statementTokens.length
  if fullThreshold ≤ ratio then return (.full, ratio)
  if partialThreshold ≤ ratio then return (.partial_, ratio)
  return (.none, ratio)

end Ecrke
