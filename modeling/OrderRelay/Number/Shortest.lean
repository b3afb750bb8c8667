import OrderRelay.Number.Double

/-!
# The shortest decimal

Among the decimals that read back as a given double, the one with the fewest digits is written, and
of several with that many digits the one nearest to the double.

* `shortest`: its digits as a whole number and the power of ten they are multiplied by.
-/

namespace OrderRelay

/-- A decimal `digits * 10 ^ scale`. -/
structure Decimal where
  digits : Nat
  scale : Int
  deriving DecidableEq, Repr

namespace Shortest

/-- The reals that round to a double: `low / den` to `high / den` around `mid / den`. -/
structure Interval where
  low : Nat
  mid : Nat
  high : Nat
  den : Nat
  /-- Whether the ends themselves round to the double. -/
  closed : Bool

/-- The interval of a positive finite double. It reaches half way to each neighbour, and the lower
neighbour of a power of two is only half as far away. -/
def interval (d : Double) : Interval :=
  let m := d.significand
  let q := d.exponent - 2
  let below := if m = Double.hiddenBit ∧ d.exponent ≠ -1074 then 1 else 2
  { low := Double.shiftUp (4 * m - below) q
    mid := Double.shiftUp (4 * m) q
    high := Double.shiftUp (4 * m + 2) q
    den := Double.shiftUp 1 (-q)
    closed := m % 2 == 0 }

/-- Whether `c * 10 ^ k` lies in the interval. -/
def Interval.holds (i : Interval) (c : Nat) (k : Int) : Bool :=
  let x := c * Nat.pow 10 k.toNat * i.den
  let unit := Nat.pow 10 (-k).toNat
  if i.closed then i.low * unit ≤ x && x ≤ i.high * unit
  else i.low * unit < x && x < i.high * unit

/-- The power of ten just above `mid / den`. -/
def Interval.point (i : Interval) : Int :=
  let whole := i.mid / i.den
  if 0 < whole then (Nat.toDigits 10 whole).length
  else -(go 400 i.mid 0 : Nat)
where
  /-- Counts the zeros after the point: how often ten can be multiplied in without reaching one. -/
  go : Nat → Nat → Nat → Nat
    | 0, _, n => n
    | fuel + 1, x, n => if i.den ≤ x * 10 then n else go fuel (x * 10) (n + 1)

/-- The better of the two `n`-digit neighbours of the middle, if one lies in the interval. -/
def Interval.near? (i : Interval) (point : Int) (n : Nat) : Option Decimal :=
  let k := point - n
  let num := i.mid * Nat.pow 10 (-k).toNat
  let den := i.den * Nat.pow 10 k.toNat
  let c := num / den
  let r := num % den
  let lowFits := i.holds c k
  let highFits := i.holds (c + 1) k
  if lowFits && highFits then
    some ⟨if 2 * r < den || (2 * r == den && c % 2 == 0) then c else c + 1, k⟩
  else if lowFits then some ⟨c, k⟩
  else if highFits then some ⟨c + 1, k⟩
  else none

/-- Takes the first number of digits, from `n` on, for which a neighbour fits. -/
def Interval.search (i : Interval) (point : Int) : Nat → Nat → Decimal
  | 0, n => ⟨i.mid / i.den, n⟩
  | fuel + 1, n =>
    match i.near? point n with
    | some d => d
    | none => i.search point fuel (n + 1)

end Shortest

/-- Drops the zeros at the end of the digits, at most so many. -/
def Decimal.trim : Nat → Decimal → Decimal
  | 0, d => d
  | n + 1, d => if d.digits % 10 = 0 then Decimal.trim n ⟨d.digits / 10, d.scale + 1⟩ else d

/-- The shortest decimal that reads back as a positive finite double. -/
def Double.shortest (d : Double) : Decimal :=
  let i := Shortest.interval d
  -- Seventeen digits always suffice.
  (i.search i.point 17 1).trim 17

example : Double.shortest ⟨0x4062C80000000000⟩ = ⟨15025, -2⟩ := by decide +kernel
example : Double.shortest ⟨1⟩ = ⟨5, -324⟩ := by decide +kernel
example : Double.shortest ⟨0x7FEFFFFFFFFFFFFF⟩ = ⟨17976931348623157, 292⟩ := by decide +kernel

end OrderRelay
