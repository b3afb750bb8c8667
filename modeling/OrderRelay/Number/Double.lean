/-!
# Double-precision numbers

A price is an IEEE 754 double, kept as its 64 bits so that every one of them is told apart, the two
zeros and the payloads of the values that are not a number included. The few operations that
reading a decimal needs are done exactly in natural numbers and rounded once.

* `significand`, `exponent`: a finite magnitude as `m * 2 ^ q`.
* `ofRatio`: the double nearest to a ratio of natural numbers, ties to even.
* `mul`, `div`: product and quotient of finite magnitudes, rounded as the standard rounds them.
-/

namespace OrderRelay

/-- A 64-bit binary floating-point number. -/
structure Double where
  /-- Sign, eleven bits of exponent, fifty-two bits of fraction. -/
  bits : UInt64
  deriving DecidableEq, Inhabited, Repr

namespace Double

/-- The positive zero. -/
def zero : Double := ⟨0⟩

/-- The value of the sign bit. -/
def signBit : Nat := 0x8000000000000000

/-- The value of the bit above the fraction, which every normal significand has set. -/
def hiddenBit : Nat := 0x10000000000000

/-- Whether the sign bit is set. -/
def isNegative (d : Double) : Bool := signBit ≤ d.bits.toNat

/-- The bits without the sign. -/
def magnitude (d : Double) : Nat := d.bits.toNat % signBit

/-- The bits of positive infinity; every larger magnitude is not a number. -/
def infinityBits : Nat := 2047 * hiddenBit

/-- Neither an infinity nor a value that is not a number. -/
def isFinite (d : Double) : Bool := d.magnitude < infinityBits

/-- One of the two zeros. -/
def isZero (d : Double) : Bool := d.magnitude == 0

/-- Not a number. -/
def isNan (d : Double) : Bool := infinityBits < d.magnitude

/-- One of the two infinities. -/
def isInfinite (d : Double) : Bool := d.magnitude == infinityBits

/-- The other sign. -/
def neg (d : Double) : Double := ⟨UInt64.ofNat (if d.isNegative then d.magnitude else d.magnitude + signBit)⟩

/-- The whole number `m` in the magnitude `m * 2 ^ q` of a finite number. -/
def significand (d : Double) : Nat :=
  let e := d.magnitude / hiddenBit
  if e = 0 then d.magnitude else d.magnitude % hiddenBit + hiddenBit

/-- The power `q` in the magnitude `m * 2 ^ q` of a finite number. -/
def exponent (d : Double) : Int :=
  let e : Nat := d.magnitude / hiddenBit
  if e = 0 then -1074 else Int.ofNat e - 1075

/-- A quotient rounded to the nearest whole number, ties to even. -/
def roundDiv (num den : Nat) : Nat :=
  let q := num / den
  let r := num % den
  if 2 * r < den then q
  else if den < 2 * r then q + 1
  else q + q % 2

/-- `n * 2 ^ k` over one, or `n` over `2 ^ -k`: a scaling that keeps to natural numbers. -/
def shiftUp (n : Nat) (k : Int) : Nat := n * Nat.pow 2 k.toNat

/-- The exponent of the largest power of two that is not above `num / den`. -/
def floorLog2 (num den : Nat) : Int :=
  let k : Int := (num.log2 : Int) - den.log2
  if shiftUp den k ≤ shiftUp num (-k) then k else k - 1

/-- The double nearest to `num / den`, ties to even; a ratio above the largest finite number gives
infinity. The denominator must not be zero. -/
def ofRatio (num den : Nat) : Double :=
  if num = 0 then zero
  else
    let q := max (floorLog2 num den - 52) (-1074)
    let m := roundDiv (shiftUp num (-q)) (shiftUp den q)
    -- A carry out of the fraction raises the exponent by itself.
    let bits := (q + 1074).toNat * hiddenBit + m
    ⟨UInt64.ofNat (min bits infinityBits)⟩

/-- The double nearest to a natural number. -/
def ofNat (n : Nat) : Double := ofRatio n 1

/-- The double nearest to a whole number. -/
def ofInt (n : Int) : Double := if n < 0 then (ofNat n.natAbs).neg else ofNat n.natAbs

/-- The product of two finite numbers without their signs. -/
def mul (a b : Double) : Double :=
  let m := a.significand * b.significand
  let q := a.exponent + b.exponent
  ofRatio (shiftUp m q) (shiftUp 1 (-q))

/-- The quotient of two finite numbers without their signs; the second must not be zero. -/
def div (a b : Double) : Double :=
  let q := a.exponent - b.exponent
  ofRatio (shiftUp a.significand q) (shiftUp b.significand (-q))

/-- The double nearest to a power of ten. -/
def pow10 (k : Nat) : Double := ofNat (Nat.pow 10 k)

/-- The largest power of ten that is finite. -/
def maxPow10 : Nat := 308

/-- Divides so many times by the largest power of ten, or until nothing is left. -/
def divideOut : Nat → Double → Double
  | 0, f => f
  | n + 1, f => if f.isZero then f else divideOut n (div f (pow10 maxPow10))

/-- Divides by a power of ten, in steps that stay finite. -/
def scaleDown (f : Double) (k : Nat) : Double :=
  let steps := (k - 1) / maxPow10
  div (divideOut steps f) (pow10 (k - maxPow10 * steps))

/-- A decimal `m * 10 ^ k` without sign, `none` if it is too large. The significand is rounded
first and the power applied to it afterwards, so the result may be one place off the nearest
double where either rounding was inexact. -/
def ofDecimal? (m : Nat) (k : Int) : Option Double :=
  let f := ofNat m
  if k < 0 then some (scaleDown f k.natAbs)
  else if k.toNat ≤ maxPow10 then
    let d := mul f (pow10 k.toNat)
    if d.isInfinite then none else some d
  else if f.isZero then some f
  else none

example : ofDecimal? 15025 (-2) = some ⟨0x4062C80000000000⟩ := by decide +kernel
example : ofDecimal? 1 309 = none := by decide +kernel
example : ofDecimal? 5 (-324) = some ⟨1⟩ := by decide +kernel

end Double

end OrderRelay
