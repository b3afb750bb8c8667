import Mathlib.Data.Nat.Notation
import OrderRelay.Http.Header

/-!
# The octets of texts

A text is written as the octets of its characters, one after another. A character of ASCII has one
octet, so octets that can be shown are told by their text.

* `Utf8.encode_ofList`: the octets of a text, character by character.
* `Utf8.eq_of_sublist`: characters are not left out without a loss of octets.
* `Utf8.octet_of_mem`, `Utf8.utf8EncodeChar_ascii`: the octets of one character.
* `visibleText?_eq_some_iff`: **the text of octets that can be shown** has these octets.
-/

namespace OrderRelay

namespace Utf8

theorem encode_ofList (cs : List Char) :
    encode (String.ofList cs) = cs.flatMap String.utf8EncodeChar := by
  simp [encode, List.utf8Encode]

theorem encode_eq_flatMap (s : String) : encode s = s.toList.flatMap String.utf8EncodeChar := by
  rw [← encode_ofList, String.ofList_toList]

/-- Characters that are left out take their octets with them. -/
theorem encode_sublist {cs ds : List Char} (h : cs.Sublist ds) :
    (encode (String.ofList cs)).Sublist (encode (String.ofList ds)) := by
  rw [encode_ofList, encode_ofList]
  induction h with
  | slnil => exact .refl _
  | cons c _ ih => exact ih.trans (List.sublist_append_right _ _)
  | cons_cons c _ ih => exact (List.Sublist.refl _).append ih

/-- If no octets are missing, no characters have been left out. -/
theorem eq_of_sublist {cs ds : List Char} (h : cs.Sublist ds)
    (hle : (encode (String.ofList ds)).length ≤ (encode (String.ofList cs)).length) : cs = ds := by
  have hdecode := decode?_encode (String.ofList cs)
  rw [(encode_sublist h).eq_of_length_le hle, decode?_encode] at hdecode
  exact (String.ofList_injective (Option.some.inj hdecode)).symm

theorem encode_singleton (c : Char) : encode c.toString = String.utf8EncodeChar c := by
  rw [encode_eq_flatMap]
  simp

/-- A character of ASCII is its own octet, and the octets of any other one are above those of ASCII. -/
theorem octet_of_mem {c : Char} {b : UInt8} (hb : b ∈ String.utf8EncodeChar c) :
    c.toNat < 0x80 ∧ b.toNat = c.toNat ∨ 0x80 ≤ c.toNat ∧ 0x80 ≤ b.toNat := by
  have hval : c.val.toNat = c.toNat := rfl
  unfold String.utf8EncodeChar at hb
  simp only at hb
  split at hb
  · rw [List.mem_singleton] at hb
    subst hb
    refine .inl ⟨by omega, ?_⟩
    simp only [UInt8.toNat_ofNat']
    omega
  · refine .inr ⟨by omega, ?_⟩
    have hhigh : ∃ n, b = UInt8.ofNat n ∧ 128 ≤ n ∧ n < 256 := by
      split at hb
      · simp only [List.mem_cons, List.not_mem_nil, or_false] at hb
        rcases hb with rfl | rfl <;> exact ⟨_, rfl, by omega, by omega⟩
      · split at hb
        · simp only [List.mem_cons, List.not_mem_nil, or_false] at hb
          rcases hb with rfl | rfl | rfl <;> exact ⟨_, rfl, by omega, by omega⟩
        · simp only [List.mem_cons, List.not_mem_nil, or_false] at hb
          rcases hb with rfl | rfl | rfl | rfl <;> exact ⟨_, rfl, by omega, by omega⟩
    obtain ⟨n, rfl, hlow, hlast⟩ := hhigh
    simp only [UInt8.toNat_ofNat']
    omega

/-- The octet of a character of ASCII belongs to this character alone. -/
theorem mem_of_mem_encode {cs : List Char} {c : Char} (hc : c.toNat < 0x80)
    (h : UInt8.ofNat c.toNat ∈ encode (String.ofList cs)) : c ∈ cs := by
  rw [encode_ofList] at h
  obtain ⟨d, hd, hmem⟩ := List.mem_flatMap.1 h
  have hnat : (UInt8.ofNat c.toNat).toNat = c.toNat := by
    simp only [UInt8.toNat_ofNat']
    omega
  have hoctet := octet_of_mem hmem
  have hsame : d.toNat = c.toNat := by omega
  rwa [← Char.toNat_inj.1 hsame]

/-- The octets of a character that is no control character are none either, and only
quotes and backslashes hold the octets of these. -/
theorem plain_of_mem {c : Char} (hc : 0x20 ≤ c.toNat) (hquote : c ≠ '\"') (hback : c ≠ '\\')
    {b : UInt8} (hb : b ∈ String.utf8EncodeChar c) : 0x20 ≤ b ∧ b ≠ 0x22 ∧ b ≠ 0x5C := by
  have hq : c.toNat ≠ 34 := fun h => hquote (Char.toNat_inj.1 h)
  have hk : c.toNat ≠ 92 := fun h => hback (Char.toNat_inj.1 h)
  have hoctet := octet_of_mem hb
  rw [UInt8.le_iff_toNat_le, ne_eq, ne_eq, ← UInt8.toNat_inj, ← UInt8.toNat_inj]
  simp only [UInt8.reduceToNat]
  omega

/-- The octets of a character of ASCII. -/
theorem utf8EncodeChar_ascii {c : Char} (h : c.toNat < 0x80) :
    String.utf8EncodeChar c = [UInt8.ofNat c.toNat] := by
  have hval : c.val.toNat = c.toNat := rfl
  unfold String.utf8EncodeChar
  rw [hval]
  simp only
  rw [if_pos (by omega)]

/-- Octets of ASCII are those of the characters of the same numbers. -/
theorem encode_ofList_ascii {bs : Bytes} (h : ∀ b ∈ bs, b < 0x80) :
    encode (String.ofList (bs.map fun b => Char.ofNat b.toNat)) = bs := by
  rw [encode_ofList]
  induction bs with
  | nil => rfl
  | cons b bs ih =>
    rw [List.forall_mem_cons] at h
    have hb : b.toNat < 0x80 := UInt8.lt_iff_toNat_lt.1 h.1
    have hvalid : b.toNat.isValidChar := .inl (by omega)
    have hchar : (Char.ofNat b.toNat).toNat = b.toNat := by
      unfold Char.ofNat
      rw [dif_pos hvalid]
      rfl
    rw [List.map_cons, List.flatMap_cons, ih h.2, utf8EncodeChar_ascii (by omega), hchar,
      UInt8.ofNat_toNat]
    rfl

end Utf8

namespace Http

/-- Only octets of ASCII can be shown. -/
theorem lt_of_isVisibleOctet {b : UInt8} (h : isVisibleOctet b = true) : b < 0x80 := by
  simp only [isVisibleOctet, Bool.or_eq_true, Bool.and_eq_true, decide_eq_true_eq, beq_iff_eq] at h
  rw [UInt8.lt_iff_toNat_lt]
  rcases h with ⟨-, h⟩ | rfl
  · have hlt := UInt8.lt_iff_toNat_lt.1 h
    simp only [UInt8.reduceToNat] at hlt ⊢
    omega
  · decide

/-- **The text of octets that can be shown** has these octets. -/
theorem visibleText?_eq_some_iff {value : Bytes} {text : String} : visibleText? value = some text ↔
    value.all isVisibleOctet = true ∧ Utf8.encode text = value := by
  have hwritten : value.all isVisibleOctet = true →
      Utf8.encode (String.ofList (value.map fun b => Char.ofNat b.toNat)) = value := fun h =>
    Utf8.encode_ofList_ascii fun b hb => lt_of_isVisibleOctet (List.all_eq_true.1 h b hb)
  unfold visibleText?
  constructor
  · intro h
    split at h
    · rename_i hall
      cases h
      exact ⟨hall, hwritten hall⟩
    · cases h
  · rintro ⟨hall, htext⟩
    rw [if_pos hall]
    have hdecode := Utf8.decode?_encode text
    rw [htext, ← hwritten hall, Utf8.decode?_encode] at hdecode
    exact hdecode

end Http

end OrderRelay
