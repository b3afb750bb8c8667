import OrderRelay.Text.Hex

/-!
# Random ids

An id of version 4 is 32 hexadecimal digits in five groups, all of them random but the one that tells
the version and two bits of the one that tells the variant.

* `Uuid.version4`: the id that a random number makes.
* `Uuid.isVersion4`: whether characters are such an id.
-/

namespace OrderRelay.Uuid

/-- The last digits of a number in base sixteen, so many of them. -/
def lastDigits : Nat → Nat → List Char
  | 0, _ => []
  | width + 1, n => lastDigits width (n / 16) ++ [Hex.digit (n % 16)]

/-- The id that a random number makes; it takes up 32 digits in base sixteen. -/
def version4 (random : Nat) : String :=
  let group (behind width : Nat) : List Char := lastDigits width (random / Nat.pow 16 behind)
  let variant := Hex.digit (8 + random / Nat.pow 16 15 % 4)
  String.ofList <|
    group 24 8 ++ '-' :: group 20 4 ++ '-' :: '4' :: group 16 3
      ++ '-' :: variant :: group 12 3 ++ '-' :: group 0 12

/-- Whether a character may stand at a place of an id. -/
def fits (c : Char) (place : Nat) : Bool :=
  if place = 8 ∨ place = 13 ∨ place = 18 ∨ place = 23 then c == '-'
  else if place = 14 then c == '4'
  else if place = 19 then c == '8' || c == '9' || c == 'a' || c == 'b'
  else c.isDigit || ('a' ≤ c && c ≤ 'f')

/-- Whether characters are an id of version 4. -/
def isVersion4 (cs : List Char) : Bool := cs.length == 36 && cs.zipIdx.all fun (c, i) => fits c i

end OrderRelay.Uuid
