import OrderRelay.Text.Utf8

/-!
# Variable-length numbers

A number below `2 ^ 64` is written in groups of seven bits, lowest first, one octet each; the high
bit of an octet says that another one follows.

* `encode`: the shortest octets of a number.
* `length`: how many they are.
* `decode?`: the number at the front and the octets after it. Ten octets are the most, and the tenth
  holds a single bit; longer spellings of a small number are read too.
* `decode?_encode`: reading takes back what writing gave.
-/

namespace OrderRelay.Varint

/-- The octets of a number. -/
def encode (n : Nat) : Bytes :=
  if n < 128 then [UInt8.ofNat n] else UInt8.ofNat (n % 128 + 128) :: encode (n / 128)
termination_by n
decreasing_by omega

/-- How many octets a number takes. -/
def length (n : Nat) : Nat := if n < 128 then 1 else 1 + length (n / 128)
termination_by n
decreasing_by omega

/-- The number whose first octet is at the front, if it takes at most so many octets. -/
def decodeWithin : Nat → Bytes → Option (Nat × Bytes)
  | 0, _ => none
  | _ + 1, [] => none
  | n + 1, b :: rest =>
    if b < 128 then
      if n = 0 ∧ 2 ≤ b then none else some (b.toNat, rest)
    else
      match decodeWithin n rest with
      | some (high, rest) => some (b.toNat - 128 + 128 * high, rest)
      | none => none

/-- The number at the front and the octets after it. -/
def decode? (bs : Bytes) : Option (Nat × Bytes) := decodeWithin 10 bs

theorem length_lt_of_decodeWithin {n v : Nat} {bs rest : Bytes}
    (h : decodeWithin n bs = some (v, rest)) : rest.length < bs.length := by
  induction n generalizing bs v rest with
  | zero => simp [decodeWithin] at h
  | succ n ih =>
    cases bs with
    | nil => simp [decodeWithin] at h
    | cons b bs =>
      simp only [decodeWithin] at h
      split at h
      · split at h
        · simp at h
        · simp only [Option.some.injEq, Prod.mk.injEq] at h
          simp [h.2]
      · split at h
        · rename_i high rest' hd
          simp only [Option.some.injEq, Prod.mk.injEq] at h
          have := ih hd
          rw [← h.2, List.length_cons]
          omega
        · simp at h

theorem length_lt_of_decode? {v : Nat} {bs rest : Bytes} (h : decode? bs = some (v, rest)) :
    rest.length < bs.length := length_lt_of_decodeWithin h

theorem length_encode (n : Nat) : (encode n).length = length n := by
  fun_induction encode n with
  | case1 n h => rw [length, if_pos h]; rfl
  | case2 n h ih => rw [length, if_neg h, List.length_cons, ih]; omega

theorem decodeWithin_encode (k n : Nat) (rest : Bytes) (h : n < 2 * Nat.pow 128 k) :
    decodeWithin (k + 1) (encode n ++ rest) = some (n, rest) := by
  induction k generalizing n with
  | zero =>
    have hn : n = 0 ∨ n = 1 := by
      simp only [Nat.pow] at h
      omega
    rcases hn with rfl | rfl <;> rw [encode, if_pos (by omega)] <;> rfl
  | succ k ih =>
    have hk : Nat.pow 128 (k + 1) = Nat.pow 128 k * 128 := rfl
    rw [encode]
    split
    · have hlt : UInt8.ofNat n < 128 := by
        rw [UInt8.lt_iff_toNat_lt, UInt8.toNat_ofNat']
        change n % 256 < 128
        omega
      rw [List.cons_append, decodeWithin, if_pos hlt, if_neg (by omega), UInt8.toNat_ofNat',
        Nat.mod_eq_of_lt (by omega)]
      rfl
    · have hge : ¬UInt8.ofNat (n % 128 + 128) < 128 := by
        rw [UInt8.lt_iff_toNat_lt, UInt8.toNat_ofNat']
        change ¬(n % 128 + 128) % 256 < 128
        omega
      rw [List.cons_append, decodeWithin, if_neg hge, ih _ (by omega), UInt8.toNat_ofNat',
        Nat.mod_eq_of_lt (by omega), Nat.add_sub_cancel]
      simp only [Nat.mod_add_div]

/-- A number of 64 bits is read back from its octets, whatever comes after them. -/
theorem decode?_encode {n : Nat} (h : n < 18446744073709551616) (rest : Bytes) :
    decode? (encode n ++ rest) = some (n, rest) := decodeWithin_encode 9 n rest h

end OrderRelay.Varint
