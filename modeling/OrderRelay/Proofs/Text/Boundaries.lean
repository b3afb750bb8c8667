import Mathlib.Tactic.Common
import OrderRelay.Proofs.Text.Octets
import OrderRelay.Text.Boundary

/-!
# Where a text can be cut

Octets of a text split into two texts just at its boundaries. A character has four octets at most, so
a boundary is never far, and a search that goes back octet by octet ends at the nearest one.

* `Utf8.isBoundary_encode_iff`: **boundaries are where the text splits**.
* `Utf8.Cut`: what is kept is the longest start of a text that fits into so many octets.
* `Utf8.Cut.eq_of_length_le`, `Utf8.Cut.lt_length`: such a start leaves nothing out that fits, and
  three octets at most that would have fitted.
* `Utf8.Cut.after_eq`: **the search in closed form**: it steps back to the end of the cut and stops.
-/

namespace OrderRelay.Utf8

/-! ## Octets of one character -/

theorem continues_ofNat (n : ℕ) :
    continues (UInt8.ofNat n) = true ↔ 0x80 ≤ n % 256 ∧ n % 256 < 0xC0 := by
  unfold continues
  rw [Bool.and_eq_true, decide_eq_true_eq, decide_eq_true_eq, UInt8.le_iff_toNat_le,
    UInt8.lt_iff_toNat_lt]
  simp only [UInt8.toNat_ofNat', UInt8.reduceToNat]

/-- Octets of which only the first is out of the range of those that go on with a character. -/
theorem exists_lead_of_bits {lead : ℕ} (low : List ℕ) (h : lead < 128 ∨ 192 ≤ lead ∧ lead < 256) :
    ∃ b rest, UInt8.ofNat lead :: low.map (fun n => UInt8.ofNat (n % 64 + 128)) = b :: rest ∧
      continues b = false ∧ ∀ b ∈ rest, continues b = true := by
  refine ⟨_, _, rfl, ?_, ?_⟩
  · rw [← Bool.not_eq_true, continues_ofNat]
    omega
  · intro b hb
    obtain ⟨n, -, rfl⟩ := List.mem_map.1 hb
    rw [continues_ofNat]
    omega

/-- The first octet of a character begins one, and the others go on with it. -/
theorem exists_lead (c : Char) : ∃ lead rest, String.utf8EncodeChar c = lead :: rest ∧
    continues lead = false ∧ ∀ b ∈ rest, continues b = true := by
  unfold String.utf8EncodeChar
  simp only
  -- one case for each number of octets
  split
  · exact exists_lead_of_bits [] (by omega)
  · split
    · exact exists_lead_of_bits [_] (by omega)
    · split
      · exact exists_lead_of_bits [_, _] (by omega)
      · exact exists_lead_of_bits [_, _, _] (by omega)

/-! ## Boundaries -/

theorem isBoundary_zero (bs : Bytes) : isBoundary bs 0 = true := rfl

theorem isBoundary_length (bs : Bytes) : isBoundary bs bs.length = true := by
  unfold isBoundary
  rw [List.getElem?_eq_none (Nat.le_refl _)]
  simp

theorem le_length_of_isBoundary {bs : Bytes} {n : ℕ} (h : isBoundary bs n = true) :
    n ≤ bs.length := by
  by_contra hlt
  unfold isBoundary at h
  rw [List.getElem?_eq_none (by omega)] at h
  simp at h
  omega

/-- Inside, an offset is a boundary unless the octet there goes on with a character. -/
theorem isBoundary_of_getElem? {bs : Bytes} {n : ℕ} {b : UInt8} (hn : n ≠ 0)
    (h : bs[n]? = some b) : isBoundary bs n = !continues b := by
  unfold isBoundary
  rw [h, beq_false_of_ne hn, Bool.false_or]

theorem length_encode_cons (c : Char) (cs : List Char) : (encode (String.ofList (c :: cs))).length =
    c.utf8Size + (encode (String.ofList cs)).length := by
  rw [encode_ofList, encode_ofList, List.flatMap_cons, List.length_append,
    String.length_utf8EncodeChar]

/-- A text ends at a boundary, whatever comes after it. -/
theorem isBoundary_append (s t : String) :
    isBoundary (encode (s ++ t)) (encode s).length = true := by
  by_cases hs : (encode s).length = 0
  · rw [hs]
    exact isBoundary_zero _
  · rw [encode_append, encode_eq_flatMap t]
    cases t.toList with
    | nil =>
      rw [List.flatMap_nil, List.append_nil]
      exact isBoundary_length _
    | cons c cs =>
      obtain ⟨lead, rest, hc, hlead, -⟩ := exists_lead c
      have hoctet : (encode s ++ (c :: cs).flatMap String.utf8EncodeChar)[(encode s).length]? =
          some lead := by
        rw [List.getElem?_append_right (Nat.le_refl _), Nat.sub_self, List.flatMap_cons, hc]
        rfl
      rw [isBoundary_of_getElem? hs hoctet, hlead]
      rfl

/-- There is no boundary inside a character. -/
theorem not_isBoundary_inside {s t : List Char} {c : Char} {n : ℕ}
    (hlow : (encode (String.ofList s)).length < n)
    (hhigh : n < (encode (String.ofList s)).length + c.utf8Size) :
    isBoundary (encode (String.ofList (s ++ c :: t))) n = false := by
  obtain ⟨lead, rest, hc, -, hrest⟩ := exists_lead c
  have hsize : c.utf8Size = rest.length + 1 := by
    rw [← String.length_utf8EncodeChar, hc, List.length_cons]
  -- the octet there is one of those after the first of the character
  obtain ⟨k, rfl⟩ := Nat.exists_eq_add_of_lt hlow
  have hk : k < rest.length := by omega
  have hoctet : (encode (String.ofList (s ++ c :: t)))[(encode (String.ofList s)).length + k + 1]? =
      some rest[k] := by
    rw [String.ofList_append, encode_append, List.getElem?_append_right (by omega), encode_ofList,
      List.flatMap_cons, hc, Nat.add_assoc, Nat.add_sub_cancel_left, List.cons_append,
      List.getElem?_cons_succ, List.getElem?_append_left hk, List.getElem?_eq_getElem hk]
  rw [isBoundary_of_getElem? (Nat.succ_ne_zero _) hoctet, hrest _ (List.getElem_mem hk)]
  rfl

/-- Every offset before the end of a text is that of a character, or inside one. -/
theorem exists_around {cs : List Char} {n : ℕ} (h : n < (encode (String.ofList cs)).length) :
    ∃ s c t, cs = s ++ c :: t ∧ (encode (String.ofList s)).length ≤ n ∧
      n < (encode (String.ofList s)).length + c.utf8Size := by
  induction cs generalizing n with
  | nil => simp [encode] at h
  | cons d ds ih =>
    rw [length_encode_cons] at h
    by_cases hd : n < d.utf8Size
    · exact ⟨[], d, ds, rfl, Nat.zero_le _, by omega⟩
    · obtain ⟨s, c, t, rfl, hlow, hhigh⟩ := @ih (n - d.utf8Size) (by omega)
      refine ⟨d :: s, c, t, rfl, ?_, ?_⟩
      · rw [length_encode_cons]
        omega
      · rw [length_encode_cons]
        omega

/-- **Boundaries are where the text splits.** -/
theorem isBoundary_encode_iff {s : String} {n : ℕ} : isBoundary (encode s) n = true ↔
    ∃ start rest, s = start ++ rest ∧ (encode start).length = n := by
  constructor
  · intro h
    rcases Nat.eq_or_lt_of_le (le_length_of_isBoundary h) with heq | hlt
    · exact ⟨s, "", by simp, heq.symm⟩
    · obtain ⟨cs, rfl⟩ : ∃ cs, s = String.ofList cs := ⟨s.toList, by simp⟩
      obtain ⟨start, c, rest, rfl, hlow, hhigh⟩ := exists_around hlt
      rcases Nat.eq_or_lt_of_le hlow with heq | hinside
      · exact ⟨String.ofList start, String.ofList (c :: rest), String.ofList_append, heq⟩
      · rw [not_isBoundary_inside hinside hhigh] at h
        cases h
  · rintro ⟨start, rest, rfl, rfl⟩
    exact isBoundary_append start rest

/-! ## The search -/

theorem Search.look_of_isBoundary {bs : Bytes} {n : ℕ} (h : isBoundary bs n = true) :
    (looking n).look bs = found n := by
  unfold look
  exact if_pos h

theorem Search.look_of_not_isBoundary {bs : Bytes} {n : ℕ} (h : isBoundary bs (n + 1) = false) :
    (looking (n + 1)).look bs = looking n := by
  unfold look
  exact if_neg (Bool.eq_false_iff.1 h)

/-! ## The longest start that fits -/

/-- **A text is cut to so many octets**: what is kept is the longest start of it that fits. -/
structure Cut (room : ℕ) (s kept : String) : Prop where
  starts : ∃ rest, s = kept ++ rest
  fits : (encode kept).length ≤ room
  longest : ∀ start rest, s = start ++ rest → (encode start).length ≤ room →
    (encode start).length ≤ (encode kept).length

namespace Cut

variable {room : ℕ} {s kept : String}

theorem refl (h : (encode s).length ≤ room) : Cut room s s := by
  refine ⟨⟨"", by simp⟩, h, ?_⟩
  rintro start rest rfl -
  rw [encode_append, List.length_append]
  omega

/-- The cut comes before the first character that goes beyond the limit. -/
theorem before {start rest : List Char} {c : Char}
    (hfits : (encode (String.ofList start)).length ≤ room)
    (hbeyond : room < (encode (String.ofList start)).length + c.utf8Size) :
    Cut room (String.ofList (start ++ c :: rest)) (String.ofList start) := by
  refine ⟨⟨String.ofList (c :: rest), String.ofList_append⟩, hfits, ?_⟩
  intro longer more hsplit hroom
  by_contra hlt
  have hinside := not_isBoundary_inside (t := rest) (Nat.lt_of_not_le hlt)
    (Nat.lt_of_le_of_lt hroom hbeyond)
  rw [isBoundary_encode_iff.2 ⟨longer, more, hsplit, rfl⟩] at hinside
  cases hinside

/-- The cut is made at a boundary. -/
theorem ends (h : Cut room s kept) : isBoundary (encode s) (encode kept).length = true := by
  obtain ⟨rest, hrest⟩ := h.starts
  exact isBoundary_encode_iff.2 ⟨kept, rest, hrest, rfl⟩

/-- There is no other boundary between the cut and the limit. -/
theorem not_isBoundary (h : Cut room s kept) {n : ℕ} (hlow : (encode kept).length < n)
    (hroom : n ≤ room) : isBoundary (encode s) n = false := by
  refine Bool.eq_false_iff.2 fun hn => ?_
  obtain ⟨start, rest, hsplit, rfl⟩ := isBoundary_encode_iff.1 hn
  have := h.longest start rest hsplit hroom
  omega

theorem isPrefix_encode (h : Cut room s kept) : encode kept <+: encode s := by
  obtain ⟨rest, rfl⟩ := h.starts
  exact ⟨encode rest, (encode_append kept rest).symm⟩

/-- A text that fits is kept whole. -/
theorem eq_of_length_le (h : Cut room s kept) (hle : (encode s).length ≤ room) : kept = s := by
  have hlength := h.longest s "" (by simp) hle
  have hoctets := h.isPrefix_encode.eq_of_length_le hlength
  exact Option.some.inj (by rw [← decode?_encode, hoctets, decode?_encode])

/-- Of one that does not fit, three octets at most are left out that would have fitted. -/
theorem lt_length (h : Cut room s kept) (hlt : room < (encode s).length) :
    room < (encode kept).length + 4 := by
  obtain ⟨cs, rfl⟩ : ∃ cs, s = String.ofList cs := ⟨s.toList, by simp⟩
  obtain ⟨start, c, rest, rfl, hlow, hhigh⟩ := exists_around hlt
  -- what comes before the character at the limit fits
  have hstart := h.longest (String.ofList start) (String.ofList (c :: rest))
    String.ofList_append hlow
  have := c.utf8Size_le_four
  omega

/-- The search sets out at the end of the cut or at most three octets behind it. -/
theorem min_le (h : Cut room s kept) : (encode kept).length ≤ min (encode s).length room ∧
    min (encode s).length room ≤ (encode kept).length + 3 := by
  have hstart := h.isPrefix_encode.length_le
  have hfits := h.fits
  refine ⟨by omega, ?_⟩
  rcases Nat.lt_or_ge room (encode s).length with hlt | hle
  · have := h.lt_length hlt
    omega
  · rw [h.eq_of_length_le hle]
    omega

/-- **The search in closed form**: it steps back to the end of the cut, where it stops. -/
theorem after_eq (h : Cut room s kept) (looks : ℕ) : Search.after (encode s) room looks =
    if looks ≤ min (encode s).length room - (encode kept).length then
      .looking (min (encode s).length room - looks)
    else .found (encode kept).length := by
  obtain ⟨hlow, -⟩ := h.min_le
  induction looks with
  | zero => rw [if_pos (Nat.zero_le _)]; rfl
  | succ looks ih =>
    rw [Search.after, ih]
    by_cases hstopped : looks ≤ min (encode s).length room - (encode kept).length
    · rw [if_pos hstopped]
      by_cases hmore : looks + 1 ≤ min (encode s).length room - (encode kept).length
      · obtain ⟨n, hn⟩ : ∃ n, min (encode s).length room - looks = n + 1 :=
          Nat.exists_eq_succ_of_ne_zero (by omega)
        have hnone := h.not_isBoundary (n := n + 1) (by omega) (by omega)
        rw [if_pos hmore, hn, Search.look_of_not_isBoundary hnone]
        congr 1
        omega
      · have hend : min (encode s).length room - looks = (encode kept).length := by omega
        rw [if_neg hmore, hend, Search.look_of_isBoundary h.ends]
    · rw [if_neg hstopped, if_neg (by omega)]
      rfl

/-- The search never leaves the octets. -/
theorem after_ne_lost (h : Cut room s kept) (looks : ℕ) :
    Search.after (encode s) room looks ≠ .lost := by
  rw [h.after_eq]
  split
  · nofun
  · nofun

/-- **Four looks find the end of the cut**, and further ones change nothing. -/
theorem cutBack?_eq_some (h : Cut room s kept) {looks : ℕ} (hlooks : 4 ≤ looks) :
    cutBack? looks room s = some kept := by
  obtain ⟨-, hhigh⟩ := h.min_le
  have htake : (encode s).take (encode kept).length = encode kept :=
    (List.prefix_iff_eq_take.1 h.isPrefix_encode).symm
  unfold cutBack?
  rw [h.after_eq, if_neg (by omega)]
  simp only
  rw [htake, decode?_encode]

end Cut

end OrderRelay.Utf8
