import OrderRelay.Number.Digits
import OrderRelay.Number.Double

/-!
# Decimal numbers as doubles

A decimal number in a document or on a command line becomes the double that is nearest to it, in one
rounding.

* `Double.nearest`: the double nearest to `m * 10 ^ k`.
* `Double.ofText?`: the double that a text writes; digits may be missing on one side of the point.
-/

namespace OrderRelay

namespace Double

/-- Greater than every other number. -/
def infinity : Double := ⟨UInt64.ofNat infinityBits⟩

/-- The quiet value that is not a number. -/
def nan : Double := ⟨0x7FF8000000000000⟩

/-- The same double with a sign in front. -/
def signed (d : Double) (negative : Bool) : Double := if negative then d.neg else d

/-- The double nearest to `m * 10 ^ k`, where `m` has so many digits. -/
def nearest (m digits : Nat) (k : Int) : Double :=
  if m = 0 || digits + k < -400 then .zero
  else if 400 < digits + k then infinity
  else ofRatio (m * Nat.pow 10 k.toNat) (Nat.pow 10 (-k).toNat)

/-- A sign that may be left out, and the characters after it. -/
def takeSign : List Char → Bool × List Char
  | '-' :: cs => (true, cs)
  | '+' :: cs => (false, cs)
  | cs => (false, cs)

/-- The digits at the front, and the characters after them. -/
def takeDigits (cs : List Char) : Digits × List Char :=
  match cs with
  | [] => ([], [])
  | c :: rest =>
    match Digits.ofChar? c with
    | none => ([], cs)
    | some d =>
      let (ds, rest) := takeDigits rest
      (d :: ds, rest)

/-- An exponent, which must be all that is left. -/
def exponentOf? : List Char → Option Int
  | [] => some 0
  | c :: cs =>
    if c = 'e' ∨ c = 'E' then
      match takeSign cs with
      | (down, cs) =>
        match takeDigits cs with
        | ([], _) => none
        | (ds, []) => some (if down then -(Digits.value ds : Int) else Digits.value ds)
        | (_, _ :: _) => none
    else none

/-- A number without its sign. -/
def unsignedOf? (cs : List Char) : Option Double :=
  let word := cs.map Char.toLower
  if word = "inf".toList ∨ word = "infinity".toList then some infinity
  else if word = "nan".toList then some nan
  else
    match takeDigits cs with
    | (whole, rest) =>
      let (fraction, rest) := match rest with
        | '.' :: rest => takeDigits rest
        | rest => ([], rest)
      if whole.isEmpty && fraction.isEmpty then none
      else
        (exponentOf? rest).map fun k =>
          let ds := (whole ++ fraction).dropWhile (·.val == 0)
          nearest (Digits.value ds) ds.length (k - fraction.length)

/-- The double that a text writes. -/
def ofText? (s : String) : Option Double :=
  match takeSign s.toList with
  | (negative, cs) => (unsignedOf? cs).map (·.signed negative)

example : ofText? "-1.5" = some ⟨0xBFF8000000000000⟩ := by decide +kernel
example : ofText? "." = none := by decide +kernel
example : ofText? "1e400" = some infinity := by decide +kernel

end Double

/-- The whole number that a text writes, if it lies between two bounds. -/
def intOfText? (low high : Int) (s : String) : Option Int :=
  match Double.takeSign s.toList with
  | (negative, cs) =>
    if cs.isEmpty then none
    else
      (cs.mapM Digits.ofChar?).bind fun ds =>
        let n : Int := if negative then -(Digits.value ds : Int) else Digits.value ds
        if low ≤ n && n ≤ high then some n else none

end OrderRelay
