import OrderRelay.Proofs.Json.Texts
import OrderRelay.Proofs.Number.Proper

/-!
# Numbers as they are written

A number is scanned as it was written, as long as no digit and no other part of a number
comes after it.

* `Writes`: the octets that write a literal. The exponent may be written in several ways.
* `number_scan`: **a proper literal is scanned as itself**, in each of those ways.
* `writes_of_number`: and what is scanned as a literal writes it, and nothing less.
* `Stops`, `token_number`: the way in which literals are written here, and what comes after them.
-/

namespace OrderRelay

namespace Json.Scan

/-- The octets of digits. -/
def octets (ds : Digits) : Bytes := ds.map fun d => UInt8.ofNat (0x30 + d.val)

theorem length_octets (ds : Digits) : (octets ds).length = ds.length := List.length_map _

theorem flatMap_chars (ds : Digits) : ds.chars.flatMap String.utf8EncodeChar = octets ds := by
  have hdigit : ∀ d : Fin 10, String.utf8EncodeChar (Nat.digitChar d.val) =
      [UInt8.ofNat (0x30 + d.val)] := by decide
  unfold Digits.chars octets
  induction ds with
  | nil => rfl
  | cons d ds ih =>
    rw [List.map_cons, List.map_cons, List.flatMap_cons, ih, hdigit]
    rfl

theorem isDigit_octet : ∀ d : Fin 10, isDigit (UInt8.ofNat (0x30 + d.val)) = true := by decide

/-- The digits at the front are those that were written. -/
theorem digits_octets {ds : Digits} {rest : Bytes}
    (hrest : ∀ b more, rest = b :: more → isDigit b = false) : digits (octets ds ++ rest) = ds := by
  have hlast : ∀ d : Fin 10, Digits.last ((UInt8.ofNat (0x30 + d.val)).toNat - 0x30) = d := by decide
  unfold digits octets
  induction ds with
  | nil =>
    cases rest with
    | nil => rfl
    | cons b more => simp [hrest b more rfl]
  | cons d ds ih =>
    rw [List.map_cons, List.cons_append, List.takeWhile_cons, if_pos (isDigit_octet d),
      List.map_cons, ih, hlast]

theorem drop_octets (ds : Digits) (rest : Bytes) :
    (octets ds ++ rest).drop ds.length = rest := by
  rw [← length_octets ds, List.drop_left]

/-- Digits do not begin with a sign. -/
theorem head?_octets_ne {ds : Digits} (hds : ds ≠ []) (rest : Bytes) :
    (octets ds ++ rest).head? ≠ some 0x2B ∧ (octets ds ++ rest).head? ≠ some 0x2D := by
  have hoctet : ∀ d : Fin 10, UInt8.ofNat (0x30 + d.val) ≠ 0x2B ∧
      UInt8.ofNat (0x30 + d.val) ≠ 0x2D := by decide
  obtain ⟨d, more, rfl⟩ := List.exists_cons_of_ne_nil hds
  exact ⟨fun h => (hoctet d).1 (Option.some.inj h), fun h => (hoctet d).2 (Option.some.inj h)⟩

/-- The octets of a fraction. -/
def fractionOctets : Option Digits → Bytes
  | none => []
  | some ds => 0x2E :: octets ds

/-- **The octets that write an exponent**: its letter is small or large, and a plus may be left
out. -/
def WritesExponent : Option Exponent → Bytes → Prop
  | none, bs => bs = []
  | some e, bs => ∃ letter sign, bs = letter :: (sign ++ octets e.digits) ∧
      (letter = 0x65 ∨ letter = 0x45) ∧
        if e.negative then sign = [0x2D] else sign = [] ∨ sign = [0x2B]

/-- **The octets that write a literal.** -/
def Writes (l : Literal) (bs : Bytes) : Prop :=
  ∃ power, WritesExponent l.exponent power ∧ bs = (if l.negative then [0x2D] else []) ++
    (octets l.whole ++ (fractionOctets l.fraction ++ power))

/-- The octets of an exponent that carries its sign. -/
def exponentOctets : Option Exponent → Bytes
  | none => []
  | some e => 0x65 :: (if e.negative then 0x2D else 0x2B) :: octets e.digits

theorem writesExponent_octets (e : Option Exponent) : WritesExponent e (exponentOctets e) := by
  cases e with
  | none => rfl
  | some e =>
    obtain ⟨negative, ds⟩ := e
    cases negative with
    | true => exact ⟨0x65, [0x2D], rfl, .inl rfl, rfl⟩
    | false => exact ⟨0x65, [0x2B], rfl, .inl rfl, .inr rfl⟩

theorem encode_text (l : Literal) : Utf8.encode l.text =
    (if l.negative then [0x2D] else []) ++
      (octets l.whole ++ (fractionOctets l.fraction ++ exponentOctets l.exponent)) := by
  have hminus : String.utf8EncodeChar '-' = [0x2D] := by decide
  have hplus : String.utf8EncodeChar '+' = [0x2B] := by decide
  have hpoint : String.utf8EncodeChar '.' = [0x2E] := by decide
  have he : String.utf8EncodeChar 'e' = [0x65] := by decide
  unfold Literal.text
  rw [Utf8.encode_ofList]
  simp only [List.flatMap_append, flatMap_chars, List.append_assoc]
  congr 1
  · cases l.negative with
    | true => simp [hminus]
    | false => rfl
  · congr 2
    · cases l.fraction with
      | none => rfl
      | some ds => simp [fractionOctets, hpoint, flatMap_chars]
    · cases l.exponent with
      | none => rfl
      | some e =>
        cases hneg : e.negative <;>
          simp [exponentOctets, he, hminus, hplus, flatMap_chars, hneg]

/-- The characters of a literal write it. -/
theorem writes_text (l : Literal) : Writes l (Utf8.encode l.text) :=
  ⟨_, writesExponent_octets _, encode_text l⟩

/-- A literal is not written with nothing. -/
theorem Writes.ne_nil {l : Literal} {bs : Bytes} (h : Writes l bs) (hl : l.Proper) : bs ≠ [] := by
  rintro rfl
  obtain ⟨power, -, hnil⟩ := h
  obtain ⟨d, more, hwhole⟩ := List.exists_cons_of_ne_nil hl.whole
  simp [hwhole, octets] at hnil

/-! ## What comes after a number -/

/-- What comes next is no part of a number. -/
def EndsNumber (rest : Bytes) : Prop :=
  ∀ b more, rest = b :: more → isDigit b = false ∧ b ≠ 0x2E ∧ b ≠ 0x65 ∧ b ≠ 0x45

/-- An exponent does not begin with a point or a digit, and neither does what comes after it. -/
theorem WritesExponent.starts {e : Option Exponent} {power rest : Bytes} (h : WritesExponent e power)
    (hrest : EndsNumber rest) {b : UInt8} {more : Bytes} (hb : power ++ rest = b :: more) :
    isDigit b = false ∧ b ≠ 0x2E := by
  cases e with
  | none =>
    obtain rfl : power = [] := h
    exact ⟨(hrest b more hb).1, (hrest b more hb).2.1⟩
  | some e =>
    obtain ⟨letter, sign, rfl, hletter, -⟩ := h
    cases hb
    rcases hletter with rfl | rfl <;> decide

/-- What may come after a number: a comma, a colon, or the end of an array or object. -/
def Stops (rest : Bytes) : Prop :=
  ∀ b more, rest = b :: more → b ∈ ([0x2C, 0x3A, 0x5D, 0x7D] : Bytes)

theorem Stops.nil : Stops [] := fun _ _ h => (nomatch h)

theorem Stops.cons {b : UInt8} {rest : Bytes} (h : b ∈ ([0x2C, 0x3A, 0x5D, 0x7D] : Bytes)) :
    Stops (b :: rest) := by
  rintro _ _ ⟨⟩
  exact h

/-- What may come after a number is no part of it. -/
theorem Stops.endsNumber {rest : Bytes} (h : Stops rest) : EndsNumber rest := by
  intro b more hb
  have hmem := h b more hb
  simp only [List.mem_cons, List.not_mem_nil, or_false] at hmem
  rcases hmem with rfl | rfl | rfl | rfl <;> decide

/-! ## What is written is scanned -/

section Numbers

variable {offset used : ℕ} {rest : Bytes}

/-- The sign of an exponent, if there is one. -/
def Signs (negative : Bool) (sign rest : Bytes) : Prop :=
  if negative then sign = [0x2D]
  else sign = [0x2B] ∨ sign = [] ∧ rest.head? ≠ some 0x2B ∧ rest.head? ≠ some 0x2D

theorem exists_signs (bs : Bytes) : ∃ negative sign rest, bs = sign ++ rest ∧
    Signs negative sign rest := by
  by_cases hminus : bs.head? = some 0x2D
  · obtain ⟨rest, rfl⟩ := List.head?_eq_some_iff.1 hminus
    exact ⟨true, [0x2D], rest, rfl, rfl⟩
  · by_cases hplus : bs.head? = some 0x2B
    · obtain ⟨rest, rfl⟩ := List.head?_eq_some_iff.1 hplus
      exact ⟨false, [0x2B], rest, rfl, .inl rfl⟩
    · exact ⟨false, [], bs, rfl, .inr ⟨rfl, hplus, hminus⟩⟩

/-- The digits of an exponent come after its sign. -/
theorem exponent_signed {l : Literal} {letter : UInt8} (hletter : letter = 0x65 ∨ letter = 0x45)
    {negative : Bool} {sign rest : Bytes} (hsign : Signs negative sign rest) :
    exponent l offset used (letter :: (sign ++ rest)) =
      if (digits rest).isEmpty then brokenNumber (offset + 1 + sign.length) rest
      else ⟨.number { l with exponent := some ⟨negative, digits rest⟩ },
        used + 1 + sign.length + (digits rest).length - 1⟩ := by
  rw [exponent, if_pos hletter]
  cases negative with
  | true =>
    obtain rfl : sign = [0x2D] := hsign
    rfl
  | false =>
    rcases hsign with rfl | ⟨rfl, hplus, hminus⟩
    · rfl
    · simp only [List.nil_append, hplus, hminus, or_self, if_false, List.drop_zero, decide_false]
      rfl

theorem exponent_scan {l : Literal} (hl : l.exponent = none) {e : Option Exponent}
    (he : ∀ x, e = some x → x.digits ≠ []) {power : Bytes} (hpower : WritesExponent e power)
    (hrest : EndsNumber rest) : exponent l offset used (power ++ rest) =
      ⟨.number { l with exponent := e }, used + power.length - 1⟩ := by
  cases e with
  | none =>
    obtain rfl : power = [] := hpower
    have hsame : ({ l with exponent := none } : Literal) = l := by rw [← hl]
    rw [hsame]
    cases rest with
    | nil => rfl
    | cons b more =>
      obtain ⟨-, -, hsmall, hlarge⟩ := hrest b more rfl
      change exponent l offset used (b :: more) = _
      rw [exponent, if_neg (by simp [hsmall, hlarge])]
      rfl
  | some e =>
    obtain ⟨negative, ds⟩ := e
    obtain ⟨letter, sign, rfl, hletter, hsign⟩ := hpower
    -- nothing that may come after the number is a digit of its exponent
    have hdigits : digits (octets ds ++ rest) = ds :=
      digits_octets fun b more h => (hrest b more h).1
    have hne : ds ≠ [] := he ⟨negative, ds⟩ rfl
    have hsigns : Signs negative sign (octets ds ++ rest) := by
      cases negative with
      | true => exact hsign
      | false =>
        rcases hsign with rfl | rfl
        · exact .inr ⟨rfl, head?_octets_ne hne rest⟩
        · exact .inl rfl
    rw [List.cons_append, List.append_assoc, exponent_signed hletter hsigns, hdigits,
      if_neg (by simpa using hne)]
    simp only [List.length_cons, List.length_append, length_octets]
    congr 1
    omega

theorem fraction_scan {l : Literal} (hl : l.exponent = none) (hl' : l.fraction = none)
    {f : Option Digits} (hf : ∀ ds, f = some ds → ds ≠ []) {e : Option Exponent}
    (he : ∀ x, e = some x → x.digits ≠ []) {power : Bytes} (hpower : WritesExponent e power)
    (hrest : EndsNumber rest) :
    fraction l offset used (fractionOctets f ++ (power ++ rest)) =
      ⟨.number { l with fraction := f, exponent := e },
        used + (fractionOctets f ++ power).length - 1⟩ := by
  cases f with
  | none =>
    have hsame : ({ l with fraction := none, exponent := e } : Literal) =
        { l with exponent := e } := by rw [← hl']
    have hskip : ∀ bs, (∀ b more, bs = b :: more → b ≠ 0x2E) →
        fraction l offset used bs = exponent l offset used bs := by
      intro bs h
      cases bs with
      | nil => rfl
      | cons b more => rw [fraction, if_neg (h b more rfl)]
    rw [hsame]
    exact (hskip _ fun b more h => (hpower.starts hrest h).2).trans
      (exponent_scan hl he hpower hrest)
  | some ds =>
    have hdigits : digits (octets ds ++ (power ++ rest)) = ds :=
      digits_octets fun b more h => (hpower.starts hrest h).1
    have hne : ds.isEmpty = false := by simpa using hf ds rfl
    change fraction l offset used (0x2E :: (octets ds ++ (power ++ rest))) = _
    rw [fraction, if_pos rfl]
    simp only [hdigits, hne, drop_octets]
    rw [if_neg (by decide), exponent_scan (by exact hl) he hpower hrest]
    simp [fractionOctets, length_octets]
    omega

/-- The minus of a number, if there is one. -/
def Minus (negative : Bool) (sign rest : Bytes) : Prop :=
  if negative then sign = [0x2D] else sign = [] ∧ rest.head? ≠ some 0x2D

theorem Minus.eq {negative : Bool} {sign rest : Bytes} (h : Minus negative sign rest) :
    sign = if negative then [0x2D] else [] := by
  cases negative with
  | true => exact h
  | false => exact h.1

theorem exists_minus (bs : Bytes) : ∃ negative sign rest, bs = sign ++ rest ∧
    Minus negative sign rest := by
  by_cases hminus : bs.head? = some 0x2D
  · obtain ⟨rest, rfl⟩ := List.head?_eq_some_iff.1 hminus
    exact ⟨true, [0x2D], rest, rfl, rfl⟩
  · exact ⟨false, [], bs, rfl, rfl, hminus⟩

/-- The digits of a number come after its minus, if there is one. -/
theorem number_signed {negative : Bool} {sign rest : Bytes} (hsign : Minus negative sign rest) :
    number offset (sign ++ rest) =
      match digits rest with
      | [] => brokenNumber (offset + sign.length) rest
      | d :: more =>
        if d.val = 0 ∧ more ≠ [] then brokenNumber (offset + sign.length + 1) (rest.drop 1)
        else
          fraction ⟨negative, digits rest, none, none⟩ (offset + sign.length + (digits rest).length)
            (sign.length + (digits rest).length) (rest.drop (digits rest).length) := by
  unfold number
  cases negative with
  | true =>
    obtain rfl : sign = [0x2D] := hsign
    rfl
  | false =>
    obtain ⟨rfl, hminus⟩ := hsign
    simp only [List.nil_append, hminus, if_false, List.drop_zero, List.length_nil]
    rfl

/-- **A proper literal is scanned as itself**, in whichever way it is written. -/
theorem number_scan {l : Literal} (hl : l.Proper) {bs : Bytes} (hbs : Writes l bs)
    (hrest : EndsNumber rest) : number offset (bs ++ rest) = ⟨.number l, bs.length - 1⟩ := by
  obtain ⟨negative, whole, f, e⟩ := l
  obtain ⟨hwhole, hleading, hf, he⟩ := hl
  obtain ⟨power, hpower, rfl⟩ := hbs
  simp only at hwhole hleading hf he hpower
  obtain ⟨d, more, rfl⟩ := List.exists_cons_of_ne_nil hwhole
  have hone : ¬(d.val = 0 ∧ more ≠ []) := fun h => h.2 (hleading d more rfl h.1)
  -- the whole part ends where the fraction, the exponent or the rest begins
  have hstart : ∀ b bs, fractionOctets f ++ (power ++ rest) = b :: bs → isDigit b = false := by
    intro b bs h
    cases f with
    | some ds =>
      cases h
      decide
    | none => exact (hpower.starts hrest h).1
  have hdigits : digits (octets (d :: more) ++ (fractionOctets f ++ (power ++ rest))) =
      d :: more := digits_octets hstart
  have hsign : Minus negative (if negative then [0x2D] else [])
      (octets (d :: more) ++ (fractionOctets f ++ (power ++ rest))) := by
    cases negative with
    | true => rfl
    | false => exact ⟨rfl, (head?_octets_ne hwhole _).2⟩
  rw [List.append_assoc, List.append_assoc, List.append_assoc, number_signed hsign, hdigits]
  simp only
  rw [if_neg hone, drop_octets, fraction_scan rfl rfl hf he hpower hrest]
  simp only [List.length_append, length_octets]
  congr 1
  omega

/-! ## What is scanned is written -/

theorem ne_number_of_brokenNumber {l : Literal} {bs : Bytes} {extra : ℕ} :
    brokenNumber offset bs ≠ ⟨.number l, extra⟩ := by
  unfold brokenNumber
  split <;> simp

/-- Octets begin with the digits that are read off them. -/
theorem octets_digits_append (bs : Bytes) :
    octets (digits bs) ++ bs.drop (digits bs).length = bs := by
  have hoctet : ∀ b : UInt8, isDigit b = true →
      UInt8.ofNat (0x30 + (Digits.last (b.toNat - 0x30)).val) = b := by
    intro b hb
    simp only [isDigit, Bool.and_eq_true, decide_eq_true_eq, UInt8.le_iff_toNat_le] at hb
    have hlow : 0x30 ≤ b.toNat := hb.1
    have hhigh : b.toNat ≤ 0x39 := hb.2
    have hlast : (Digits.last (b.toNat - 0x30)).val = b.toNat - 0x30 := Nat.mod_eq_of_lt (by omega)
    rw [hlast, Nat.add_sub_cancel' hlow, UInt8.ofNat_toNat]
  induction bs with
  | nil => rfl
  | cons b bs ih =>
    by_cases hb : isDigit b = true
    · have hdigits : digits (b :: bs) = Digits.last (b.toNat - 0x30) :: digits bs := by
        simp [digits, hb]
      rw [hdigits, List.length_cons, List.drop_succ_cons, octets, List.map_cons, hoctet b hb,
        List.cons_append, ← octets, ih]
    · have hdigits : digits (b :: bs) = [] := by simp [digits, hb]
      rw [hdigits]
      rfl

theorem writes_of_exponent {l l' : Literal} (hl : l.exponent = none) {bs : Bytes} {extra : ℕ}
    (h : exponent l offset used bs = ⟨.number l', extra⟩) :
    ∃ e power rest, l' = { l with exponent := e } ∧ (∀ x, e = some x → x.digits ≠ []) ∧
      WritesExponent e power ∧ bs = power ++ rest ∧ extra = used + power.length - 1 := by
  have hsame : l = { l with exponent := none } := by rw [← hl]
  cases bs with
  | nil =>
    cases h
    exact ⟨none, [], [], hsame, fun x hx => (nomatch hx), rfl, rfl, rfl⟩
  | cons letter bs =>
    by_cases hletter : letter = 0x65 ∨ letter = 0x45
    · obtain ⟨negative, sign, rest, rfl, hsign⟩ := exists_signs bs
      rw [exponent_signed hletter hsign] at h
      split at h
      · exact absurd h ne_number_of_brokenNumber
      · rename_i hdigits
        cases h
        refine ⟨some ⟨negative, digits rest⟩, letter :: (sign ++ octets (digits rest)),
          rest.drop (digits rest).length, rfl, ?_, ⟨letter, sign, rfl, hletter, ?_⟩, ?_, ?_⟩
        · rintro _ ⟨⟩
          simpa using hdigits
        · cases negative with
          | true => exact hsign
          | false => exact hsign.elim .inr fun hnone => .inl hnone.1
        · rw [List.cons_append, List.append_assoc, octets_digits_append]
        · simp only [List.length_cons, List.length_append, length_octets]
          omega
    · rw [exponent, if_neg hletter] at h
      cases h
      exact ⟨none, [], letter :: bs, hsame, fun x hx => (nomatch hx), rfl, rfl, rfl⟩

theorem writes_of_fraction {l l' : Literal} (hl : l.exponent = none) (hl' : l.fraction = none)
    {bs : Bytes} {extra : ℕ} (h : fraction l offset used bs = ⟨.number l', extra⟩) :
    ∃ f e power rest, l' = { l with fraction := f, exponent := e } ∧
      (∀ ds, f = some ds → ds ≠ []) ∧ (∀ x, e = some x → x.digits ≠ []) ∧
        WritesExponent e power ∧ bs = fractionOctets f ++ (power ++ rest) ∧
          extra = used + (fractionOctets f ++ power).length - 1 := by
  have hnone : ∀ bs, exponent l offset used bs = ⟨.number l', extra⟩ →
      ∃ f e power rest, l' = { l with fraction := f, exponent := e } ∧
        (∀ ds, f = some ds → ds ≠ []) ∧ (∀ x, e = some x → x.digits ≠ []) ∧
          WritesExponent e power ∧ bs = fractionOctets f ++ (power ++ rest) ∧
            extra = used + (fractionOctets f ++ power).length - 1 := by
    intro bs h
    obtain ⟨e, power, rest, rfl, he, hpower, hbs, hextra⟩ := writes_of_exponent hl h
    exact ⟨none, e, power, rest, by rw [← hl'], fun ds hds => (nomatch hds), he, hpower, hbs, hextra⟩
  cases bs with
  | nil => exact hnone [] h
  | cons p bs =>
    rw [fraction] at h
    split at h
    · rename_i hp
      simp only at h
      split at h
      · exact absurd h ne_number_of_brokenNumber
      · rename_i hdigits
        obtain ⟨e, power, rest, rfl, he, hpower, hbs, rfl⟩ := writes_of_exponent (by exact hl) h
        refine ⟨some (digits bs), e, power, rest, rfl, ?_, he, hpower, ?_, ?_⟩
        · rintro _ ⟨⟩
          simpa using hdigits
        · rw [fractionOctets, List.cons_append, ← hbs, octets_digits_append, hp]
        · simp only [fractionOctets, List.length_cons, List.length_append, length_octets]
          omega
    · exact hnone _ h

/-- **What is scanned as a literal writes it.** -/
theorem writes_of_number {l : Literal} {bs : Bytes} {extra : ℕ}
    (h : number offset bs = ⟨.number l, extra⟩) :
    l.Proper ∧ ∃ written rest, bs = written ++ rest ∧ Writes l written ∧
      extra = written.length - 1 := by
  obtain ⟨negative, sign, rest, rfl, hsign⟩ := exists_minus bs
  rw [number_signed hsign] at h
  have hwhole := octets_digits_append rest
  cases hdigits : digits rest with
  | nil =>
    rw [hdigits] at h
    exact absurd h ne_number_of_brokenNumber
  | cons d more =>
    rw [hdigits] at h hwhole
    simp only at h
    split at h
    · exact absurd h ne_number_of_brokenNumber
    · rename_i hone
      obtain ⟨f, e, power, after, rfl, hf, he, hpower, hafter, rfl⟩ := writes_of_fraction rfl rfl h
      refine ⟨⟨List.cons_ne_nil _ _, ?_, hf, he⟩, _, after, ?_, ⟨power, hpower, rfl⟩, ?_⟩
      · rintro _ _ ⟨⟩ hzero
        by_contra hmore
        exact hone ⟨hzero, hmore⟩
      · rw [← hsign.eq, ← hwhole, hafter]
        simp only [List.append_assoc]
      · simp only [← hsign.eq, List.length_append, length_octets]
        omega

/-! ## Numbers among other tokens -/

/-- A digit or a minus begins a number. -/
theorem token_eq_number {b : UInt8} (hb : b = 0x2D ∨ isDigit b = true) :
    token offset b rest = number offset (b :: rest) := by
  -- it begins no other token
  have hother : ∀ c : UInt8, c ∈ ([0x7B, 0x7D, 0x5B, 0x5D, 0x2C, 0x3A, 0x22] : Bytes) → b ≠ c := by
    rintro c hc rfl
    simp only [List.mem_cons, List.not_mem_nil, or_false] at hc
    rcases hc with rfl | rfl | rfl | rfl | rfl | rfl | rfl <;> simp [isDigit] at hb
  unfold token
  rw [if_neg (hother _ (by decide)), if_neg (hother _ (by decide)), if_neg (hother _ (by decide)),
    if_neg (hother _ (by decide)), if_neg (hother _ (by decide)), if_neg (hother _ (by decide)),
    if_neg (hother _ (by decide)), if_pos (by simpa using hb)]

/-- **A proper literal is scanned as itself.** -/
theorem token_number (offset : ℕ) {l : Literal} (hl : l.Proper) (hrest : Stops rest) :
    ∃ b body, Utf8.encode l.text = b :: body ∧ (b = 0x2D ∨ isDigit b = true) ∧
      token offset b (body ++ rest) = ⟨.number l, body.length⟩ := by
  have hfirst : ∃ b body, Utf8.encode l.text = b :: body ∧ (b = 0x2D ∨ isDigit b = true) := by
    obtain ⟨d, more, hwhole⟩ := List.exists_cons_of_ne_nil hl.whole
    rw [encode_text, hwhole]
    cases l.negative with
    | true => exact ⟨0x2D, _, rfl, .inl rfl⟩
    | false => exact ⟨UInt8.ofNat (0x30 + d.val), _, rfl, .inr (isDigit_octet d)⟩
  obtain ⟨b, body, hencode, hb⟩ := hfirst
  refine ⟨b, body, hencode, hb, ?_⟩
  rw [token_eq_number hb, ← List.cons_append, ← hencode,
    number_scan hl (writes_text l) hrest.endsNumber, hencode]
  rfl

end Numbers

end Json.Scan

end OrderRelay
