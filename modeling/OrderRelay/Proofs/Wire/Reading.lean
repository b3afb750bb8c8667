import Mathlib.Tactic.Ring
import OrderRelay.Wire.Field

/-!
# Keys and payloads are read back

What is written for a key or a payload is read back whatever octets come after it.

* `readKey_encodeKey`, `readDelimited_encode`: reading takes back what writing gave.
* `lt_of_readVarint`, `length_lt_of_readDelimited`: a number that is read has 64 bits,
  and so has the length of a payload.
* `Varint.length_key`: the form of a payload does not make its key longer.
-/

namespace OrderRelay

open Wire

/-! ## Variable-length numbers -/

namespace Varint

/-- The form of a payload does not make a key longer. -/
theorem length_key (number : ℕ) {code : ℕ} (h : code < 8) :
    length (8 * number + code) = length (8 * number) := by
  by_cases hsmall : 8 * number < 128
  · rw [length, if_pos (by omega), length, if_pos hsmall]
  · have hdiv : (8 * number + code) / 128 = 8 * number / 128 := by omega
    rw [length, if_neg (by omega), hdiv]
    conv_rhs => rw [length, if_neg hsmall]

theorem lt_of_decodeWithin {k v : ℕ} {bs rest : Bytes}
    (h : decodeWithin (k + 1) bs = some (v, rest)) : v < 2 * 128 ^ k := by
  induction k generalizing bs v rest with
  | zero =>
    cases bs with
    | nil => cases h
    | cons b bs =>
      simp only [decodeWithin] at h
      split at h
      · split at h
        · cases h
        · rename_i hb
          cases h
          have hbit : ¬2 ≤ b := fun h2 => hb ⟨trivial, h2⟩
          rw [UInt8.le_iff_toNat_le] at hbit
          change ¬2 ≤ b.toNat at hbit
          omega
      · cases h
  | succ k ih =>
    cases bs with
    | nil => cases h
    | cons b bs =>
      have hpow : 128 ^ (k + 1) = 128 * 128 ^ k := by ring
      have hpos : 0 < 128 ^ k := Nat.pow_pos (by decide)
      have hb := b.toNat_lt
      rw [decodeWithin] at h
      split at h
      · split at h
        · cases h
        · rename_i hsmall _
          cases h
          rw [UInt8.lt_iff_toNat_lt] at hsmall
          change b.toNat < 128 at hsmall
          omega
      · split at h
        · rename_i hd
          cases h
          have := ih hd
          omega
        · cases h

/-- A number that has been read has 64 bits. -/
theorem lt_of_decode? {v : ℕ} {bs rest : Bytes} (h : decode? bs = some (v, rest)) : v < 2 ^ 64 :=
  lt_of_decodeWithin h

/-- How many octets a number takes, by its size. -/
theorem length_le_of_lt {k n : ℕ} (h : n < 128 ^ (k + 1)) : length n ≤ k + 1 := by
  induction k generalizing n with
  | zero => rw [length, if_pos (by omega)]
  | succ k ih =>
    rw [length]
    split
    · omega
    · have hquotient : n / 128 < 128 ^ (k + 1) := by
        rw [Nat.div_lt_iff_lt_mul (by decide), ← Nat.pow_succ]
        exact h
      have hlength := ih hquotient
      omega

end Varint

namespace Wire

/-! ## What is written is read back -/

theorem readVarint_encode {n : ℕ} (h : n < 2 ^ 64) (rest : Bytes) :
    readVarint (Varint.encode n ++ rest) = .ok (n, rest) := by
  unfold readVarint
  rw [Varint.decode?_encode h]

theorem Form.ofCode?_code (form : Form) : Form.ofCode? form.code = some form := by
  cases form <;> rfl

theorem Form.code_lt (form : Form) : form.code < 8 := by
  cases form <;> decide

/-- The greatest number that a field can have. -/
def maxNumber : ℕ := 536870911

theorem readKey_encodeKey {number : ℕ} (hpos : 0 < number) (hle : number ≤ maxNumber) (form : Form)
    (rest : Bytes) : readKey (encodeKey number form ++ rest) = .ok ((number, form), rest) := by
  unfold maxNumber at hle
  have hcode := form.code_lt
  have hmod : (8 * number + form.code) % 8 = form.code := by omega
  have hdiv : (8 * number + form.code) / 8 = number := by omega
  have hkey : keyOfNat (8 * number + form.code) = .ok (number, form) := by
    unfold keyOfNat maxKey
    rw [if_neg (by omega), hmod, Form.ofCode?_code, hdiv]
    simp only
    rw [if_neg (by omega)]
  unfold readKey encodeKey
  rw [readVarint_encode (by omega)]
  simp only [hkey]

theorem takeOctets_append {n : ℕ} {octets : Bytes} (h : octets.length = n) (rest : Bytes) :
    takeOctets n (octets ++ rest) = .ok (octets, rest) := by
  subst h
  unfold takeOctets
  rw [if_pos (by simp)]
  simp

theorem readDelimited_encode {octets : Bytes} (h : octets.length < 2 ^ 64) (rest : Bytes) :
    readDelimited (Varint.encode octets.length ++ octets ++ rest) = .ok (octets, rest) := by
  unfold readDelimited
  rw [List.append_assoc, readVarint_encode h]
  exact takeOctets_append rfl rest

/-! ## The lengths of what is read and written -/

theorem lt_of_readVarint {v : ℕ} {bs rest : Bytes} (h : readVarint bs = .ok (v, rest)) :
    v < 2 ^ 64 := by
  unfold readVarint at h
  split at h
  · rename_i hd
    cases h
    exact Varint.lt_of_decode? hd
  · cases h

/-- A delimited payload that has been read has a length of 64 bits. -/
theorem length_lt_of_readDelimited {bs octets rest : Bytes}
    (h : readDelimited bs = .ok (octets, rest)) : octets.length < 2 ^ 64 := by
  unfold readDelimited at h
  split at h
  · cases h
  · rename_i n _ hv
    have hn := lt_of_readVarint hv
    unfold takeOctets at h
    split at h
    · cases h
      rw [List.length_take]
      omega
    · cases h

theorem length_encodeKey (number : ℕ) (form : Form) :
    (encodeKey number form).length = Varint.length (8 * number) := by
  unfold encodeKey
  rw [Varint.length_encode, Varint.length_key number form.code_lt]

end Wire

end OrderRelay
