import Mathlib.Data.List.Basic
import OrderRelay.Text.Percent

/-!
# The encoded forms of octets

Octets have many encoded forms: an unreserved one may stand as it is or be escaped, and
an escape may have digits of either case.

* `Percent.Form`: one sequence of octets is an encoded form of another.
* `decode_form`: **every form is decoded to the same octets**, and what stands after it
  stays as it is.
-/

namespace OrderRelay.Percent

/-- The letters and digits of ASCII, and four signs. -/
def isUnreserved (b : UInt8) : Bool :=
  (0x41 ≤ b && b ≤ 0x5A) || (0x61 ≤ b && b ≤ 0x7A) || (0x30 ≤ b && b ≤ 0x39)
    || b == 0x2D || b == 0x2E || b == 0x5F || b == 0x7E

/-- **One of the encoded forms of octets.** -/
inductive Form : Bytes → Bytes → Prop where
  | nil : Form [] []
  | plain {b : UInt8} {form octets : Bytes} (hb : isUnreserved b = true) (h : Form form octets) :
      Form (b :: form) (b :: octets)
  | escaped {b x y : UInt8} {form octets : Bytes} (hx : digit? x = some (b.toNat / 16))
      (hy : digit? y = some (b.toNat % 16)) (h : Form form octets) :
      Form (0x25 :: x :: y :: form) (b :: octets)

/-- Neither digits nor unreserved octets are among these. -/
theorem not_isUnreserved {b : UInt8} (h : b = 0x2F ∨ b = 0x3F ∨ b = 0x23 ∨ b = 0x25) :
    isUnreserved b = false ∧ digit? b = none := by
  rcases h with rfl | rfl | rfl | rfl <;> decide

/-- A form holds nothing that ends a segment or a path. -/
theorem Form.not_mem {form octets : Bytes} (h : Form form octets) {b : UInt8}
    (hb : b = 0x2F ∨ b = 0x3F ∨ b = 0x23) : b ∉ form := by
  obtain ⟨hunreserved, hdigit⟩ := not_isUnreserved (b := b) (by tauto)
  have hpercent : b ≠ 0x25 := by rcases hb with rfl | rfl | rfl <;> decide
  induction h with
  | nil => exact List.not_mem_nil
  | @plain c form octets hc _ ih =>
    have hne : b ≠ c := by
      rintro rfl
      rw [hunreserved] at hc
      cases hc
    rw [List.mem_cons, not_or]
    exact ⟨hne, ih⟩
  | @escaped c x y form octets hx hy _ ih =>
    have hnx : b ≠ x := by
      rintro rfl
      rw [hdigit] at hx
      cases hx
    have hny : b ≠ y := by
      rintro rfl
      rw [hdigit] at hy
      cases hy
    simp only [List.mem_cons, not_or]
    exact ⟨hpercent, hnx, hny, ih⟩

theorem Form.eq_nil {octets : Bytes} (h : Form [] octets) : octets = [] := by
  cases h; rfl

/-- Decoding takes the octets of a form off the front, whatever comes after it. -/
theorem decodeOnto_form {form octets : Bytes} (h : Form form octets) (acc rest : Bytes) :
    decodeOnto acc (form ++ rest) = decodeOnto (octets.reverse ++ acc) rest := by
  induction h generalizing acc with
  | nil => rfl
  | @plain b form octets hb _ ih =>
    have hne : b ≠ 0x25 := by rintro rfl; revert hb; decide
    rw [List.cons_append, decodeOnto_cons hne, ih, List.reverse_cons, List.append_assoc]
    rfl
  | @escaped b x y form octets hx hy _ ih =>
    have hb : UInt8.ofNat (16 * (b.toNat / 16) + b.toNat % 16) = b := by
      rw [Nat.div_add_mod, UInt8.ofNat_toNat]
    rw [List.cons_append, List.cons_append, List.cons_append, decodeOnto, if_pos rfl, hx, hy]
    simp only
    rw [hb, ih, List.reverse_cons, List.append_assoc]
    rfl

/-- Octets without a percent sign stand for themselves. -/
theorem decodeOnto_plain {bs : Bytes} (h : 0x25 ∉ bs) (acc : Bytes) :
    decodeOnto acc bs = acc.reverse ++ bs := by
  induction bs generalizing acc with
  | nil => simp [decodeOnto]
  | cons b bs ih =>
    rw [List.mem_cons, not_or] at h
    rw [decodeOnto_cons (Ne.symm h.1), ih h.2, List.reverse_cons, List.append_assoc]
    rfl

/-- **Every form is decoded to the same octets.** -/
theorem decode_form {form octets rest : Bytes} (h : Form form octets) (hrest : 0x25 ∉ rest) :
    decode (form ++ rest) = octets ++ rest := by
  rw [decode, decodeOnto_form h, decodeOnto_plain hrest, List.append_nil, List.reverse_reverse]

/-- Every form of a text is read as that text. -/
theorem decodeText?_form {form : Bytes} {s t : String} (h : Form form (Utf8.encode s))
    (ht : 0x25 ∉ Utf8.encode t) : decodeText? (form ++ Utf8.encode t) = some (s ++ t) := by
  rw [decodeText?, decode_form h ht, ← Utf8.encode_append, Utf8.decode?_encode]

end OrderRelay.Percent
