/-!
# Letter case of ASCII

Tokens, header names and log levels are compared without regard to the case of the letters `a` to
`z`. Every other character stands for itself, so a dotless or a full-width letter is not equal to
the ASCII letter it resembles.
-/

namespace OrderRelay

/-- The text with `A` to `Z` made small. -/
def lowerAscii (s : String) : String := String.ofList (s.toList.map Char.toLower)

/-- Equality up to the case of ASCII letters. -/
def sameAscii (s t : String) : Bool := s.toList.map Char.toLower == t.toList.map Char.toLower

/-- A comparison sees the letters only through `lowerAscii`. -/
theorem sameAscii_eq_true_iff {s t : String} : sameAscii s t = true ↔ lowerAscii s = lowerAscii t := by
  simp only [sameAscii, lowerAscii, beq_iff_eq]
  exact ⟨fun h => by rw [h], fun h => by simpa using congrArg String.toList h⟩

end OrderRelay
