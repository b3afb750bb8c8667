/-!
# Decimal digits

A run of decimal digits, most significant first. Leading zeros are kept, so a run is a text and not
yet a number.

* `value`: the number a run stands for.
* `ofNat`: the run of a number, without leading zeros.
* `ofText?`: the run that a text consists of.
-/

namespace OrderRelay

/-- A run of decimal digits. -/
abbrev Digits := List (Fin 10)

namespace Digits

/-- The last digit of a number. -/
def last (n : Nat) : Fin 10 := Fin.ofNat 10 n

/-- The number that a run of digits stands for. -/
def value (ds : Digits) : Nat := ds.foldl (fun n d => 10 * n + d.val) 0

/-- Writes a number in front of the digits `acc`, in at most so many steps. -/
def ofNatOnto : Nat → Nat → Digits → Digits
  | 0, _, acc => acc
  | fuel + 1, n, acc =>
    let acc := last n :: acc
    if n < 10 then acc else ofNatOnto fuel (n / 10) acc

/-- The digits of a number. -/
def ofNat (n : Nat) : Digits := ofNatOnto (n + 1) n []

/-- The characters of a run of digits. -/
def chars (ds : Digits) : List Char := ds.map fun d => Nat.digitChar d.val

/-- The digit that a character shows. -/
def ofChar? (c : Char) : Option (Fin 10) :=
  if '0' ≤ c ∧ c ≤ '9' then some (last (c.toNat - '0'.toNat)) else none

/-- The digit that an octet shows. -/
def ofOctet? (b : UInt8) : Option (Fin 10) :=
  if 0x30 ≤ b ∧ b ≤ 0x39 then some (last (b.toNat - 0x30)) else none

/-- The digits of which a text consists; the empty text has none. -/
def ofText? (s : String) : Option Digits :=
  match s.toList with
  | [] => none
  | cs => cs.mapM ofChar?

/-- The digits of which a text consists after a plus sign that may be left out. -/
def ofSignedText? (s : String) : Option Digits :=
  match s.toList with
  | '+' :: cs => if cs.isEmpty then none else cs.mapM ofChar?
  | _ => ofText? s

theorem foldl_ofNatOnto (fuel n : Nat) (acc : Digits) (h : n < fuel) :
    (ofNatOnto fuel n acc).foldl (fun n d => 10 * n + d.val) 0
      = acc.foldl (fun n d => 10 * n + d.val) n := by
  induction fuel generalizing n acc with
  | zero => omega
  | succ fuel ih =>
    have hlast : (last n).val = n % 10 := rfl
    simp only [ofNatOnto]
    split
    · simp only [List.foldl_cons, hlast]
      congr 1
      omega
    · rw [ih _ _ (by omega)]
      simp only [List.foldl_cons, hlast]
      congr 1
      omega

/-- The digits of a number stand for it. -/
theorem value_ofNat (n : Nat) : value (ofNat n) = n := by
  rw [value, ofNat, foldl_ofNatOnto _ _ _ (by omega)]
  rfl

example : ofNat 50051 = [5, 0, 0, 5, 1] := by decide
example : ofNat 0 = [0] := by decide
example : value [0, 4, 2] = 42 := by decide

end Digits

/-- A natural number in decimal. -/
def natText (n : Nat) : String := String.ofList (Digits.ofNat n).chars

/-- A whole number in decimal, with a minus sign if it is negative. -/
def intText (n : Int) : String := if n < 0 then "-" ++ natText n.natAbs else natText n.natAbs

end OrderRelay
