import OrderRelay.Number.Digits
import OrderRelay.Number.Double

/-!
# Number literals

A number as it is written: a sign, digits, and perhaps a fraction and an exponent. What a literal is
worth depends on how it is written, since `5` is a whole number and `5.0` is not.

* `Literal.text`: the characters of a literal.
* `Literal.number`: what it is worth. Whole numbers are exact within 64 bits. All else becomes a
  double: the digits are gathered into a 64-bit whole number as long as they fit, and the power of
  ten is applied to that.
-/

namespace OrderRelay

/-- The power of ten that a literal is multiplied by. -/
structure Exponent where
  negative : Bool
  digits : Digits
  deriving DecidableEq, Repr

/-- A number as it is written. -/
structure Literal where
  negative : Bool
  whole : Digits
  fraction : Option Digits
  exponent : Option Exponent
  deriving DecidableEq, Repr

/-- What a literal is worth. -/
inductive Number where
  /-- A whole number from `-2 ^ 63` up to `2 ^ 64 - 1`. -/
  | whole (n : Int)
  | double (d : Double)
  deriving DecidableEq, Repr

namespace Literal

/-- The literal of a whole number. -/
def ofInt (n : Int) : Literal := ⟨decide (n < 0), Digits.ofNat n.natAbs, none, none⟩

/-- The characters of a literal; the exponent carries its sign. -/
def text (l : Literal) : String :=
  String.ofList <|
    (if l.negative then ['-'] else []) ++ l.whole.chars
      ++ (match l.fraction with
        | some ds => '.' :: ds.chars
        | none => [])
      ++ (match l.exponent with
        | some e => 'e' :: (if e.negative then '-' else '+') :: e.digits.chars
        | none => [])

/-- The first number that is too large for 64 bits. -/
def limit64 : Nat := 0x10000000000000000

/-- The largest magnitude of a negative 64-bit number. -/
def limit63 : Nat := 0x8000000000000000

/-- The largest exponent that is told apart from all larger ones. -/
def maxExponent : Nat := 0x7FFFFFFF

/-- Appends digits to a number as long as it fits into 64 bits; also gives the digits left over. -/
def gather (m : Nat) : Digits → Nat × Digits
  | [] => (m, [])
  | d :: ds => if 10 * m + d.val < limit64 then gather (10 * m + d.val) ds else (m, d :: ds)

/-- The value of an exponent, or how many of its digits follow the one that made it too large. -/
def powerFrom (n : Nat) : Digits → Except Nat Nat
  | [] => .ok n
  | d :: ds => if 10 * n + d.val ≤ maxExponent then powerFrom (10 * n + d.val) ds else .error ds.length

/-- A double with the sign of the literal. -/
def signed (l : Literal) (d : Double) : Double := if l.negative then d.neg else d

/-- What a literal with a fraction, an exponent or too many digits is worth. The error says how many
characters of the literal follow the place where its range was left. -/
def double (l : Literal) : Except Nat Double :=
  let (m, lost) := gather 0 l.whole
  let (m, k) : Nat × Int :=
    match l.fraction with
    | none => (m, lost.length)
    | some ds =>
      let (m, left) := gather m ds
      (m, (lost.length : Int) - (ds.length - left.length : Nat))
  let scaled (k : Int) : Except Nat Double :=
    match Double.ofDecimal? m k with
    | some d => .ok (l.signed d)
    | none => .error 0
  match l.exponent with
  | none => scaled k
  | some e =>
    match powerFrom 0 e.digits with
    | .ok n => scaled (if e.negative then k - n else k + n)
    | .error left => if m = 0 || e.negative then .ok (l.signed .zero) else .error left

/-- Whether the literal is written as a whole number. -/
def isWhole (l : Literal) : Bool := l.fraction.isNone && l.exponent.isNone

/-- What a literal is worth. A whole number below the range of 64 bits, and the negative zero, are
doubles. The error is that of `double`. -/
def number (l : Literal) : Except Nat Number :=
  let (n, lost) := gather 0 l.whole
  let exact := l.isWhole && lost.isEmpty
  if exact && !l.negative then .ok (.whole n)
  else if exact && 0 < n && n ≤ limit63 then .ok (.whole (-(n : Int)))
  else l.double.map .double

example : (number ⟨true, [0], none, none⟩).toOption = some (.double ⟨0x8000000000000000⟩) := by
  decide +kernel
example : (number ⟨false, [1, 5, 0], some [2, 5], none⟩).toOption
    = some (.double ⟨0x4062C80000000000⟩) := by decide +kernel
example : (number ⟨false, [1], none, some ⟨false, [4, 0, 0]⟩⟩).toOption = none := by decide +kernel
example : (ofInt (-7)).text = "-7" := by decide

end Literal

end OrderRelay
