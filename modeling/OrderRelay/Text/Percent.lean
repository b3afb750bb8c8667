import OrderRelay.Text.Hex

/-!
# Percent-encoding

A percent sign and two hexadecimal digits stand for one octet; a percent sign without two digits
after it stands for itself.

* `decode`: the octets that an encoded sequence stands for.
* `decodeText?`: the same, read as UTF-8.
* `encode`: the octets of a text with those that fail a test written as `%XX`.
* `decode_encode`: decoding takes an encoding back.
-/

namespace OrderRelay.Percent

/-- The value of an octet that is a hexadecimal digit. -/
def digit? (b : UInt8) : Option Nat := Hex.digit? (Char.ofNat b.toNat)

/-- Replaces every `%XX` by its octet; `acc` holds the octets so far, last first. -/
def decodeOnto (acc : Bytes) : Bytes → Bytes
  | [] => acc.reverse
  | b :: x :: y :: rest =>
    if b = 0x25 then
      match digit? x, digit? y with
      | some hi, some lo => decodeOnto (UInt8.ofNat (16 * hi + lo) :: acc) rest
      | _, _ => decodeOnto (b :: acc) (x :: y :: rest)
    else decodeOnto (b :: acc) (x :: y :: rest)
  | b :: rest => decodeOnto (b :: acc) rest

/-- Replaces every `%XX` by its octet. -/
def decode (bs : Bytes) : Bytes := decodeOnto [] bs

/-- The text that an encoded sequence stands for, if its octets are UTF-8. -/
def decodeText? (bs : Bytes) : Option String := Utf8.decode? (decode bs)

/-- A percent sign and the two large digits of an octet. -/
def escape (b : UInt8) : Bytes :=
  [0x25, UInt8.ofNat (Hex.digit (b.toNat / 16)).toUpper.toNat,
    UInt8.ofNat (Hex.digit (b.toNat % 16)).toUpper.toNat]

/-- Writes the octets that `keep` refuses as `%XX`. -/
def encode (keep : UInt8 → Bool) (bs : Bytes) : Bytes :=
  bs.flatMap fun b => if keep b then [b] else escape b

theorem decodeOnto_cons {b : UInt8} (h : b ≠ 0x25) (acc rest : Bytes) :
    decodeOnto acc (b :: rest) = decodeOnto (b :: acc) rest := by
  match rest with
  | [] => rfl
  | [_] => rfl
  | _ :: _ :: _ => rw [decodeOnto, if_neg h]

theorem digit?_escape : ∀ n, n < 16 →
    digit? (UInt8.ofNat (Hex.digit n).toUpper.toNat) = some n := by decide

theorem decodeOnto_escape (b : UInt8) (acc rest : Bytes) :
    decodeOnto acc (escape b ++ rest) = decodeOnto (b :: acc) rest := by
  have hb := b.toNat_lt
  simp only [escape, List.cons_append, List.nil_append]
  rw [decodeOnto, if_pos rfl, digit?_escape _ (by omega), digit?_escape _ (by omega)]
  simp only
  rw [Nat.div_add_mod, UInt8.ofNat_toNat]

/-- An encoding that leaves no percent sign as it is can be taken back. -/
theorem decode_encode {keep : UInt8 → Bool} (h : keep 0x25 = false) (bs : Bytes) :
    decode (encode keep bs) = bs := by
  have hOnto : ∀ acc : Bytes, decodeOnto acc (encode keep bs) = acc.reverse ++ bs := by
    induction bs with
    | nil => intro acc; simp [encode, decodeOnto]
    | cons b bs ih =>
      intro acc
      have hcons : encode keep (b :: bs) = (if keep b then [b] else escape b) ++ encode keep bs := rfl
      rw [hcons]
      by_cases hb : keep b
      · have hne : b ≠ 0x25 := fun e => by simp [e, h] at hb
        rw [if_pos hb, List.cons_append, List.nil_append, decodeOnto_cons hne, ih]
        simp
      · rw [if_neg hb, decodeOnto_escape, ih]
        simp
  rw [decode, hOnto]
  rfl

end OrderRelay.Percent
