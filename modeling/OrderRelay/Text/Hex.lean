import OrderRelay.Text.Utf8

/-!
# Hexadecimal

Octets as pairs of small hexadecimal digits, the form in which payloads are shown.

* `encode`: the digits of a sequence of octets.
* `decode?`: the octets of a sequence of digits; an odd digit or a character that is no digit is
  refused.
* `decode?_encode`: reading takes back what writing gave.
-/

namespace OrderRelay.Hex

/-- The value of a hexadecimal digit of either case. -/
def digit? (c : Char) : Option Nat :=
  if '0' ≤ c ∧ c ≤ '9' then some (c.toNat - '0'.toNat)
  else if 'a' ≤ c ∧ c ≤ 'f' then some (c.toNat - 'a'.toNat + 10)
  else if 'A' ≤ c ∧ c ≤ 'F' then some (c.toNat - 'A'.toNat + 10)
  else none

/-- The small digit of a value below sixteen. -/
def digit (n : Nat) : Char := Nat.digitChar n

/-- The two digits of each octet. -/
def encode (bs : Bytes) : String :=
  String.ofList (bs.flatMap fun b => [digit (b.toNat / 16), digit (b.toNat % 16)])

/-- The octet of each two digits. -/
def decode? (s : String) : Option Bytes := go s.toList []
where
  /-- Reads pairs; `acc` holds the octets so far, last first. -/
  go : List Char → Bytes → Option Bytes
    | [], acc => some acc.reverse
    | [_], _ => none
    | a :: b :: rest, acc =>
      match digit? a, digit? b with
      | some x, some y => go rest (UInt8.ofNat (16 * x + y) :: acc)
      | _, _ => none

theorem digit?_digit : ∀ n, n < 16 → digit? (digit n) = some n := by decide

theorem go_digits (b : UInt8) (rest : List Char) (acc : Bytes) :
    decode?.go (digit (b.toNat / 16) :: digit (b.toNat % 16) :: rest) acc
      = decode?.go rest (b :: acc) := by
  have hb := b.toNat_lt
  rw [decode?.go, digit?_digit _ (by omega), digit?_digit _ (by omega)]
  simp only
  rw [Nat.div_add_mod, UInt8.ofNat_toNat]

theorem decode?_encode (bs : Bytes) : decode? (encode bs) = some bs := by
  have h : ∀ acc : Bytes, decode?.go
      (bs.flatMap fun b => [digit (b.toNat / 16), digit (b.toNat % 16)]) acc
        = some (acc.reverse ++ bs) := by
    induction bs with
    | nil => intro acc; simp [decode?.go]
    | cons b bs ih =>
      intro acc
      rw [List.flatMap_cons, List.cons_append, List.cons_append, List.nil_append, go_digits, ih]
      simp
  simp [decode?, encode, h]

end OrderRelay.Hex
