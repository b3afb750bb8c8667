import OrderRelay.Number.Literal
import OrderRelay.Number.Shortest

/-!
# Writing a double

The digits of a double are its shortest decimal; where the point and the exponent go is a decision
of the text they stand in. A layout says which numbers are written without an exponent.

* `Layout.wire`: the layout of numbers in JSON: an exponent from `1e+16` up and below `1e-5`.
* `Layout.plain`: never an exponent.
* `Double.literal`: a finite double as it is written; a whole number keeps one zero after its point.
-/

namespace OrderRelay

/-- Which decimals are written without an exponent. -/
structure Layout where
  /-- The least number of digits before the point, negative for zeros after it; unlimited if absent. -/
  least : Option Int
  /-- The greatest number of digits before the point; unlimited if absent. -/
  greatest : Option Int

namespace Layout

/-- Numbers from `0.00001` up to sixteen digits before the point are written out. -/
def wire : Layout := ⟨some (-4), some 16⟩

/-- Every number is written out. -/
def plain : Layout := ⟨none, none⟩

/-- Whether a decimal with so many digits before its point is written out. -/
def writesOut (l : Layout) (point : Int) : Bool :=
  (l.least.all (· ≤ point)) && (l.greatest.all (point ≤ ·))

end Layout

namespace Double

/-- So many zeros. -/
def zeros (n : Int) : Digits := List.replicate n.toNat (Digits.last 0)

/-- Digits with the point after the first `point` of them. -/
def writtenOut (ds : Digits) (point : Int) : Literal :=
  if point ≤ 0 then ⟨false, zeros 1, some (zeros (-point) ++ ds), none⟩
  else
    let whole := ds.take point.toNat ++ zeros (point - ds.length)
    let rest := ds.drop point.toNat
    ⟨false, whole, some (if rest.isEmpty then zeros 1 else rest), none⟩

/-- Digits with the point after the first and an exponent. -/
def withExponent (ds : Digits) (point : Int) : Literal :=
  let tail := ds.drop 1
  ⟨false, ds.take 1, if tail.isEmpty then none else some tail,
    some ⟨decide (point - 1 < 0), Digits.ofNat (point - 1).natAbs⟩⟩

/-- A finite double as it is written. -/
def literal (l : Layout) (d : Double) : Literal :=
  let magnitude : Literal :=
    if d.isZero then ⟨false, zeros 1, some (zeros 1), none⟩
    else
      let decimal := d.shortest
      let ds := Digits.ofNat decimal.digits
      let point := ds.length + decimal.scale
      if l.writesOut point then writtenOut ds point else withExponent ds point
  { magnitude with negative := d.isNegative }

/-- The text of any double. -/
def render (l : Layout) (d : Double) : String :=
  if d.isNan then "NaN"
  else if d.isInfinite then (if d.isNegative then "-inf" else "inf")
  else (d.literal l).text

example : render .wire ⟨0x4062C80000000000⟩ = "150.25" := by decide +kernel
example : render .wire ⟨0x4341C37937E08000⟩ = "1e+16" := by decide +kernel
example : render .wire ⟨0x430C6BF526340000⟩ = "1000000000000000.0" := by decide +kernel
example : render .wire ⟨0x8000000000000000⟩ = "-0.0" := by decide +kernel
example : render .wire ⟨0x3EE4F8B588E368F1⟩ = "0.00001" := by decide +kernel
example : render .wire ⟨0x3E7AD7F29ABCAF48⟩ = "1e-7" := by decide +kernel
example : render .plain ⟨0x4341C37937E08000⟩ = "10000000000000000.0" := by decide +kernel

end Double

end OrderRelay
