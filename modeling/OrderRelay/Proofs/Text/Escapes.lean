import Mathlib.Tactic.Common
import OrderRelay.Text.Percent

/-!
# Escapes that were there already

Whoever encodes octets but keeps the percent signs does not know an escape from a percent sign that
was meant as one. Decoding then takes the escapes back that were there before, and nothing else.

* `HasEscape`: a percent sign with two digits behind it.
* `decode_induction`: octets as decoding goes over them.
* `decode_encode_of_keeps`: **an encoding that keeps percent signs** is decoded like the octets
  alone.
* `length_decode_le`, `decode_eq_self_iff`: decoding changes octets with an escape only, and makes
  them fewer.
-/

namespace OrderRelay.Percent

/-- Two digits come first. -/
def DigitsFirst (bs : Bytes) : Prop :=
  ∃ x y rest, bs = x :: y :: rest ∧ (digit? x).isSome ∧ (digit? y).isSome

theorem decodeText?_nil : decodeText? [] = some "" := rfl

/-- **Octets hold an escape**: a percent sign with two digits behind it. -/
def HasEscape (bs : Bytes) : Prop := ∃ before after, bs = before ++ 0x25 :: after ∧ DigitsFirst after

theorem hasEscape_nil : ¬HasEscape [] := by
  rintro ⟨before, after, h, -⟩
  simp at h

theorem hasEscape_cons_iff {b : UInt8} {bs : Bytes} (h : b = 0x25 → ¬DigitsFirst bs) :
    HasEscape (b :: bs) ↔ HasEscape bs := by
  constructor
  · rintro ⟨before, after, hbs, hdigits⟩
    rcases List.cons_eq_append_iff.1 hbs with ⟨rfl, hbs⟩ | ⟨before', rfl, hbs⟩
    · obtain ⟨rfl, rfl⟩ := List.cons_eq_cons.1 hbs
      exact absurd hdigits (h rfl)
    · exact ⟨before', after, (List.cons_eq_cons.1 hbs).2, hdigits⟩
  · rintro ⟨before, after, rfl, hdigits⟩
    exact ⟨b :: before, after, rfl, hdigits⟩

/-- What comes behind octets makes no escape of them unless it begins with a digit or has one
itself. -/
theorem hasEscape_append_iff {bs rest : Bytes} {c : UInt8} (hrest : rest.head? = some c)
    (hc : digit? c = none) (hnone : ¬HasEscape rest) : HasEscape (bs ++ rest) ↔ HasEscape bs := by
  obtain ⟨more, rfl⟩ := List.head?_eq_some_iff.1 hrest
  constructor
  · rintro ⟨before, after, heq, x, y, after', rfl, hx, hy⟩
    rcases List.append_eq_append_iff.1 heq with ⟨mid, rfl, hmid⟩ | ⟨mid, rfl, hmid⟩
    · exact absurd ⟨mid, _, hmid, x, y, after', rfl, hx, hy⟩ hnone
    · -- the escape begins in front; it cannot go on behind
      match mid, hmid with
      | [], hmid => exact absurd ⟨[], _, hmid.symm, x, y, after', rfl, hx, hy⟩ hnone
      | [_], hmid =>
        simp only [List.cons_append, List.nil_append, List.cons.injEq] at hmid
        rw [hmid.2.1, hc] at hx
        cases hx
      | [_, _], hmid =>
        simp only [List.cons_append, List.nil_append, List.cons.injEq] at hmid
        rw [hmid.2.2.1, hc] at hy
        cases hy
      | m :: m' :: m'' :: mid, hmid =>
        simp only [List.cons_append, List.cons.injEq] at hmid
        obtain ⟨rfl, rfl, rfl, -⟩ := hmid
        exact ⟨before, x :: y :: mid, rfl, x, y, mid, rfl, hx, hy⟩
  · rintro ⟨before, after, rfl, x, y, after', rfl, hx, hy⟩
    exact ⟨before, x :: y :: after' ++ c :: more, by simp, x, y, _, rfl, hx, hy⟩

/-! ## Decoding step by step -/

/-- **Octets as decoding goes over them**: escape by escape, and octet by octet in between. -/
@[elab_as_elim]
theorem decode_induction {motive : Bytes → Prop} (nil : motive [])
    (escape : ∀ x y rest, (digit? x).isSome → (digit? y).isSome → motive rest →
      motive (0x25 :: x :: y :: rest))
    (plain : ∀ b rest, (b = 0x25 → ¬DigitsFirst rest) → motive rest → motive (b :: rest))
    (bs : Bytes) : motive bs := by
  induction hn : bs.length using Nat.strongRecOn generalizing bs with
  | _ n ih =>
    cases bs with
    | nil => exact nil
    | cons b rest =>
      by_cases h : b = 0x25 ∧ DigitsFirst rest
      · obtain ⟨rfl, x, y, rest, rfl, hx, hy⟩ := h
        exact escape x y rest hx hy (ih _ (by simp at hn; omega) rest rfl)
      · exact plain b rest (not_and.1 h) (ih _ (by simp at hn; omega) rest rfl)

/-- What is no escape is taken as it is. -/
theorem decodeOnto_step {b : UInt8} {rest : Bytes} (h : b = 0x25 → ¬DigitsFirst rest) (acc : Bytes) :
    decodeOnto acc (b :: rest) = decodeOnto (b :: acc) rest := by
  match rest, h with
  | [], _ => rfl
  | [_], _ => rfl
  | x :: y :: rest, h =>
    rw [decodeOnto]
    by_cases hb : b = 0x25
    · rw [if_pos hb]
      cases hx : digit? x with
      | none => rfl
      | some hi =>
        cases hy : digit? y with
        | none => rfl
        | some lo => exact absurd ⟨x, y, rest, rfl, by simp [hx], by simp [hy]⟩ (h hb)
    · rw [if_neg hb]

/-- An escape is taken as one octet. -/
theorem exists_decodeOnto_escape {x y : UInt8} (hx : (digit? x).isSome) (hy : (digit? y).isSome) :
    ∃ octet, ∀ acc rest, decodeOnto acc (0x25 :: x :: y :: rest) = decodeOnto (octet :: acc) rest := by
  obtain ⟨hi, hx⟩ := Option.isSome_iff_exists.1 hx
  obtain ⟨lo, hy⟩ := Option.isSome_iff_exists.1 hy
  refine ⟨UInt8.ofNat (16 * hi + lo), fun acc rest => ?_⟩
  rw [decodeOnto, if_pos rfl, hx, hy]

/-- Decoding changes octets just if there is an escape, and then it makes them fewer. -/
theorem decodeOnto_cases (bs : Bytes) : ∀ acc,
    (¬HasEscape bs ∧ decodeOnto acc bs = acc.reverse ++ bs) ∨
      (HasEscape bs ∧ (decodeOnto acc bs).length < acc.length + bs.length) := by
  induction bs using decode_induction with
  | nil => exact fun acc => .inl ⟨hasEscape_nil, (List.append_nil _).symm⟩
  | escape x y rest hx hy ih =>
    intro acc
    obtain ⟨octet, hoctet⟩ := exists_decodeOnto_escape hx hy
    refine .inr ⟨⟨[], _, rfl, x, y, rest, rfl, hx, hy⟩, ?_⟩
    rw [hoctet]
    rcases ih (octet :: acc) with ⟨-, h⟩ | ⟨-, h⟩
    · rw [h]
      simp only [List.length_append, List.length_reverse, List.length_cons]
      omega
    · simp only [List.length_cons] at h ⊢
      omega
  | plain b rest hb ih =>
    intro acc
    rw [decodeOnto_step hb, hasEscape_cons_iff hb]
    rcases ih (b :: acc) with ⟨hnone, h⟩ | ⟨hsome, h⟩
    · exact .inl ⟨hnone, by rw [h, List.reverse_cons, List.append_assoc, List.singleton_append]⟩
    · refine .inr ⟨hsome, ?_⟩
      simp only [List.length_cons] at h ⊢
      omega

theorem length_decode_le (bs : Bytes) : (decode bs).length ≤ bs.length := by
  rcases decodeOnto_cases bs [] with ⟨-, h⟩ | ⟨-, h⟩
  · rw [decode, h]
    exact Nat.le_refl _
  · rw [List.length_nil, Nat.zero_add] at h
    exact Nat.le_of_lt h

/-- **Octets are decoded to themselves just if there is no escape in them.** -/
theorem decode_eq_self_iff {bs : Bytes} : decode bs = bs ↔ ¬HasEscape bs := by
  rcases decodeOnto_cases bs [] with ⟨hnone, h⟩ | ⟨hsome, h⟩
  · exact iff_of_true h hnone
  · refine iff_of_false (fun heq => ?_) (not_not_intro hsome)
    rw [decode] at heq
    rw [heq, List.length_nil, Nat.zero_add] at h
    exact Nat.lt_irrefl _ h

/-! ## Encodings that keep percent signs -/

section Keeps

variable {keep : UInt8 → Bool}

theorem encode_cons (b : UInt8) (bs : Bytes) :
    encode keep (b :: bs) = (if keep b then [b] else escape b) ++ encode keep bs := rfl

/-- What an encoding holds stood there already, or belongs to an escape. -/
theorem mem_encode {b : UInt8} {bs : Bytes} (h : b ∈ encode keep bs) :
    (b ∈ bs ∧ keep b = true) ∨ b = 0x25 ∨ (digit? b).isSome := by
  obtain ⟨c, hc, hb⟩ := List.mem_flatMap.1 h
  split at hb
  case isTrue hkeep =>
    obtain rfl := List.mem_singleton.1 hb
    exact .inl ⟨hc, hkeep⟩
  case isFalse =>
    have hlt := c.toNat_lt
    simp only [escape, List.mem_cons, List.not_mem_nil, or_false] at hb
    rcases hb with rfl | rfl | rfl
    · exact .inr (.inl rfl)
    · exact .inr (.inr (by rw [digit?_escape _ (by omega)]; rfl))
    · exact .inr (.inr (by rw [digit?_escape _ (by omega)]; rfl))

/-- Encoding brings no digits to the front. -/
theorem digitsFirst_of_encode {bs : Bytes} (h : DigitsFirst (encode keep bs)) : DigitsFirst bs := by
  have hpercent : (digit? 0x25).isSome = false := by decide
  obtain ⟨x, y, rest, heq, hx, hy⟩ := h
  cases bs with
  | nil => cases heq
  | cons b bs =>
    rw [encode_cons] at heq
    split at heq
    case isFalse =>
      obtain rfl : 0x25 = x := (List.cons_eq_cons.1 heq).1
      rw [hpercent] at hx
      cases hx
    case isTrue =>
      obtain ⟨rfl, hrest⟩ := List.cons_eq_cons.1 heq
      cases bs with
      | nil => cases hrest
      | cons c bs =>
        have hrest : encode keep (c :: bs) = y :: rest := hrest
        rw [encode_cons] at hrest
        split at hrest
        case isFalse =>
          obtain rfl : 0x25 = y := (List.cons_eq_cons.1 hrest).1
          rw [hpercent] at hy
          cases hy
        case isTrue =>
          obtain ⟨rfl, -⟩ := List.cons_eq_cons.1 hrest
          exact ⟨b, c, bs, rfl, hx, hy⟩

/-- **An encoding that keeps percent signs and digits is decoded like the octets alone.** -/
theorem decode_encode_of_keeps (hpercent : keep 0x25 = true)
    (hdigits : ∀ b, (digit? b).isSome → keep b = true) (bs : Bytes) :
    decode (encode keep bs) = decode bs := by
  have honto : ∀ acc, decodeOnto acc (encode keep bs) = decodeOnto acc bs := by
    induction bs using decode_induction with
    | nil => exact fun _ => rfl
    | escape x y rest hx hy ih =>
      intro acc
      obtain ⟨octet, hoctet⟩ := exists_decodeOnto_escape hx hy
      rw [encode_cons, encode_cons, encode_cons, if_pos hpercent, if_pos (hdigits x hx),
        if_pos (hdigits y hy), hoctet]
      exact (hoctet acc _).trans (ih _)
    | plain b rest hb ih =>
      intro acc
      rw [encode_cons, decodeOnto_step hb]
      split
      case isTrue =>
        rw [List.singleton_append,
          decodeOnto_step fun h hfirst => hb h (digitsFirst_of_encode hfirst)]
        exact ih _
      case isFalse =>
        rw [decodeOnto_escape]
        exact ih _
  exact honto []

end Keeps

end OrderRelay.Percent
