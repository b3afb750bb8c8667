import OrderRelay.Json.Value
import OrderRelay.Proofs.Json.Lexing
import OrderRelay.Proofs.Text.Octets

/-!
# Texts as they are written

A text is written between quotes, with escapes for what a text must not hold. It is
scanned as the text again, whatever comes after it.

* `ScannedAs`, `scannedAs_self`: what is written for a character is scanned as the
  character.
* `token_quote`: **a quoted text is scanned as the text.**
* `Begins`, `begins_token`: the first octet of a token tells which one it is.
* `length_le_of_mem_tokens`: a text is no longer than what it is found in.
-/

namespace OrderRelay

open Json

namespace Json

namespace Scan

/-! ## Texts -/

section Texts

variable {start offset : ℕ} {inner said rest : Bytes}

/-- One more octet that says itself. -/
theorem textFrom_octet {b : UInt8} (hb : 0x20 ≤ b ∧ b ≠ 0x22 ∧ b ≠ 0x5C) (s : TextState) :
    textFrom start inner offset s (b :: rest) = textFrom start inner (offset + 1)
      { s.settle (offset + 1) with said := b :: (s.settle (offset + 1)).said } rest := by
  obtain ⟨hcontrol, hquote, hback⟩ := hb
  rw [textFrom.eq_def]
  simp only
  rw [if_neg hback, if_neg hquote, if_neg (UInt8.not_lt.2 hcontrol)]

/-- One more escape of one letter. -/
theorem textFrom_escape {c o : UInt8} (hc : c ≠ 0x75) (ho : escaped? c = some o) (s : TextState) :
    textFrom start inner offset s (0x5C :: c :: rest) = textFrom start inner (offset + 2)
      { s.settle (offset + 2) with said := o :: (s.settle (offset + 2)).said } rest := by
  rw [textFrom.eq_def]
  simp only [if_pos, if_neg hc, ho]

/-- One more escape of four digits. -/
theorem textFrom_digits {x y z w : UInt8} {n : ℕ} (hn : hex4? x y z w = some n) (s : TextState) :
    textFrom start inner offset s (0x5C :: 0x75 :: x :: y :: z :: w :: rest) =
      textFrom start inner (offset + 6) (s.unit n (offset + 6)) rest := by
  rw [textFrom.eq_def]
  simp only [if_pos, hn]

/-- The closing quote. -/
theorem textFrom_quote (s : TextState) : textFrom start inner offset s (0x22 :: rest) =
    ⟨.text ((s.settle (offset + 1)).content start (inner.take (offset - start))),
      offset + 1 - start⟩ := by
  rw [textFrom.eq_def]
  rfl

/-- An octet of a text that says itself. -/
theorem textFrom_plain {b : UInt8} (hb : 0x20 ≤ b ∧ b ≠ 0x22 ∧ b ≠ 0x5C) :
    textFrom start inner offset ⟨said, none, none⟩ (b :: rest) =
      textFrom start inner (offset + 1) ⟨b :: said, none, none⟩ rest :=
  textFrom_octet hb _

theorem textFrom_plain_append {bs : Bytes} (hbs : ∀ b ∈ bs, 0x20 ≤ b ∧ b ≠ 0x22 ∧ b ≠ 0x5C) :
    textFrom start inner offset ⟨said, none, none⟩ (bs ++ rest) =
      textFrom start inner (offset + bs.length) ⟨bs.reverse ++ said, none, none⟩ rest := by
  induction bs generalizing offset said with
  | nil => rfl
  | cons b bs ih =>
    rw [List.forall_mem_cons] at hbs
    rw [List.cons_append, textFrom_plain hbs.1, ih hbs.2]
    simp [Nat.add_assoc, Nat.add_comm 1]

/-- An escape of one letter. -/
theorem textFrom_letter {b o : UInt8} (hb : b ≠ 0x75) (ho : escaped? b = some o) :
    textFrom start inner offset ⟨said, none, none⟩ (0x5C :: b :: rest) =
      textFrom start inner (offset + 2) ⟨o :: said, none, none⟩ rest :=
  textFrom_escape hb ho _

/-- An escape of four digits that is no half of a pair. -/
theorem textFrom_unit {x y z w : UInt8} {n : ℕ} (hn : hex4? x y z w = some n)
    (hhigh : isHigh n = false) (hlow : isLow n = false) :
    textFrom start inner offset ⟨said, none, none⟩ (0x5C :: 0x75 :: x :: y :: z :: w :: rest) =
      textFrom start inner (offset + 6) ⟨push n said, none, none⟩ rest := by
  have hunit : (⟨said, none, none⟩ : TextState).unit n (offset + 6) = ⟨push n said, none, none⟩ := by
    simp [TextState.unit, hhigh, hlow]
  rw [textFrom_digits hn, hunit]

/-- The digits of a control character. -/
theorem hex4?_control : ∀ n, n < 0x20 →
    hex4? 0x30 0x30 (UInt8.ofNat (Hex.digit (n / 16)).toNat)
      (UInt8.ofNat (Hex.digit (n % 16)).toNat) = some n ∧
    isHigh n = false ∧ isLow n = false ∧ (Hex.digit (n / 16)).toNat < 0x80 ∧
      (Hex.digit (n % 16)).toNat < 0x80 := by
  decide

/-- The characters that are written with a letter. -/
def lettered : List Char := ['\"', '\\', Char.ofNat 0x08, '\t', '\n', Char.ofNat 0x0C, '\r']

/-- The octets of what is written for a character. -/
def escapeOctets (c : Char) : Bytes := (escape c).flatMap String.utf8EncodeChar

/-- What is written for a character is scanned as these octets. -/
def ScannedAs (c : Char) (octets : Bytes) : Prop :=
  ∀ start inner offset said rest,
    textFrom start inner offset ⟨said, none, none⟩ (escapeOctets c ++ rest) =
      textFrom start inner (offset + (escapeOctets c).length) ⟨octets.reverse ++ said, none, none⟩ rest

theorem scannedAs_letter {c d : Char} {b o : UInt8} (hescape : escape c = ['\\', d])
    (hd : String.utf8EncodeChar d = [b]) (hb : b ≠ 0x75) (ho : escaped? b = some o) :
    ScannedAs c [o] := by
  have hback : String.utf8EncodeChar '\\' = [0x5C] := by decide
  have hoctets : escapeOctets c = [0x5C, b] := by
    unfold escapeOctets
    rw [hescape, List.flatMap_cons, List.flatMap_cons, List.flatMap_nil, hback, hd]
    rfl
  intro start inner offset said rest
  rw [hoctets]
  exact textFrom_letter hb ho

/-- A character that is written with a letter is scanned as itself. -/
theorem scannedAs_of_lettered {c : Char} (hc : c ∈ lettered) :
    ScannedAs c (String.utf8EncodeChar c) := by
  have hself : ∀ d b o, escape c = ['\\', d] → String.utf8EncodeChar d = [b] → b ≠ 0x75 →
      escaped? b = some o → String.utf8EncodeChar c = [o] →
        ScannedAs c (String.utf8EncodeChar c) := by
    intro d b o hescape hd hb ho hsame
    rw [hsame]
    exact scannedAs_letter hescape hd hb ho
  simp only [lettered, List.mem_cons, List.not_mem_nil, or_false] at hc
  rcases hc with rfl | rfl | rfl | rfl | rfl | rfl | rfl
  · exact hself '\"' 0x22 0x22 (by decide) (by decide) (by decide) (by decide) (by decide)
  · exact hself '\\' 0x5C 0x5C (by decide) (by decide) (by decide) (by decide) (by decide)
  · exact hself 'b' 0x62 0x08 (by decide) (by decide) (by decide) (by decide) (by decide)
  · exact hself 't' 0x74 0x09 (by decide) (by decide) (by decide) (by decide) (by decide)
  · exact hself 'n' 0x6E 0x0A (by decide) (by decide) (by decide) (by decide) (by decide)
  · exact hself 'f' 0x66 0x0C (by decide) (by decide) (by decide) (by decide) (by decide)
  · exact hself 'r' 0x72 0x0D (by decide) (by decide) (by decide) (by decide) (by decide)

/-- Any other character is written with four digits, or as it is. -/
theorem escape_of_not_lettered {c : Char} (hc : c ∉ lettered) :
    escape c = if c.toNat < 0x20 then
      ['\\', 'u', '0', '0', Hex.digit (c.toNat / 16), Hex.digit (c.toNat % 16)] else [c] := by
  simp only [lettered, List.mem_cons, List.not_mem_nil, or_false, not_or] at hc
  obtain ⟨hquote, hback, hbell, htab, hline, hform, hreturn⟩ := hc
  have hofNat : ∀ n, c.toNat = n → c = Char.ofNat n := fun n h => by rw [← h, Char.ofNat_toNat]
  -- two of the letters stand for characters that are compared by their numbers
  have hbell' : c.toNat ≠ 0x08 := fun h => hbell (hofNat _ h)
  have hform' : c.toNat ≠ 0x0C := fun h => hform (hofNat _ h)
  unfold escape
  rw [if_neg hquote, if_neg hback, if_neg hbell', if_neg htab, if_neg hline, if_neg hform',
    if_neg hreturn]

/-- A control character that is written with four digits is scanned as itself. -/
theorem scannedAs_of_control {c : Char} (hc : c ∉ lettered) (hcontrol : c.toNat < 0x20) :
    ScannedAs c (String.utf8EncodeChar c) := by
  obtain ⟨hhex, hhigh, hlow, hfirst, hsecond⟩ := hex4?_control c.toNat hcontrol
  have hstart : (['\\', 'u', '0', '0'] : List Char).flatMap String.utf8EncodeChar =
      [0x5C, 0x75, 0x30, 0x30] := by decide
  have hescape : escape c = ['\\', 'u', '0', '0'] ++
      [Hex.digit (c.toNat / 16), Hex.digit (c.toNat % 16)] := by
    rw [escape_of_not_lettered hc, if_pos hcontrol]
    rfl
  have hoctets : escapeOctets c = [0x5C, 0x75, 0x30, 0x30,
      UInt8.ofNat (Hex.digit (c.toNat / 16)).toNat, UInt8.ofNat (Hex.digit (c.toNat % 16)).toNat] := by
    unfold escapeOctets
    rw [hescape, List.flatMap_append, hstart, List.flatMap_cons, List.flatMap_cons,
      List.flatMap_nil, Utf8.utf8EncodeChar_ascii hfirst, Utf8.utf8EncodeChar_ascii hsecond]
    rfl
  intro start inner offset said rest
  have hpush : push c.toNat said = (String.utf8EncodeChar c).reverse ++ said := by
    rw [push, Char.ofNat_toNat, Utf8.encode_singleton]
  rw [hoctets, ← hpush]
  exact textFrom_unit hhex hhigh hlow

/-- **What is written for a character is scanned as the character.** -/
theorem scannedAs_self (c : Char) : ScannedAs c (String.utf8EncodeChar c) := by
  by_cases hlettered : c ∈ lettered
  · exact scannedAs_of_lettered hlettered
  · by_cases hcontrol : c.toNat < 0x20
    · exact scannedAs_of_control hlettered hcontrol
    · have hquote : c ≠ '\"' := by
        rintro rfl
        exact hlettered (by decide)
      have hback : c ≠ '\\' := by
        rintro rfl
        exact hlettered (by decide)
      have hoctets : escapeOctets c = String.utf8EncodeChar c := by
        unfold escapeOctets
        rw [escape_of_not_lettered hlettered, if_neg hcontrol, List.flatMap_singleton]
      intro start inner offset said rest
      rw [hoctets]
      exact textFrom_plain_append fun b hb => Utf8.plain_of_mem (by omega) hquote hback hb

/-- A whole text, up to its closing quote. -/
theorem textFrom_escaped (cs : List Char) :
    textFrom start inner offset ⟨said, none, none⟩ (cs.flatMap escapeOctets ++ 0x22 :: rest) =
      let length := (cs.flatMap escapeOctets).length
      ⟨.text ((⟨(cs.flatMap String.utf8EncodeChar).reverse ++ said, none, none⟩ :
          TextState).content start (inner.take (offset + length - start))),
        offset + length + 1 - start⟩ := by
  -- on the characters that are left, after any text that has been said
  induction cs generalizing offset said with
  | nil =>
    simp only [List.flatMap_nil, List.nil_append, List.length_nil, Nat.add_zero,
      List.reverse_nil]
    rw [textFrom.eq_def]
    rfl
  | cons c cs ih =>
    simp only [List.flatMap_cons, List.append_assoc, List.length_append, List.reverse_append] at ih ⊢
    rw [scannedAs_self c, ih]
    simp only [Nat.add_assoc]

/-- **A quoted text is scanned as the text.** -/
theorem token_quote (offset : ℕ) (s : String) (rest : Bytes) :
    ∃ body, Utf8.encode (quote s) = 0x22 :: body ∧
      token offset 0x22 (body ++ rest) = ⟨.text (.ok s), body.length⟩ := by
  have hquote : String.utf8EncodeChar '\"' = [0x22] := by decide
  have hencode : Utf8.encode (quote s) =
      0x22 :: (s.toList.flatMap escapeOctets ++ [0x22]) := by
    unfold quote escapeOctets
    rw [Utf8.encode_ofList]
    simp only [List.flatMap_append, List.flatMap_cons, List.flatMap_nil, hquote, List.append_nil,
      List.cons_append, List.nil_append, List.flatMap_assoc]
  refine ⟨_, hencode, ?_⟩
  have htoken : ∀ bs, token offset 0x22 bs =
      textFrom (offset + 1) bs (offset + 1) ⟨[], none, none⟩ bs := fun bs => rfl
  rw [htoken, List.append_assoc, List.singleton_append, textFrom_escaped]
  have hcontent : ∀ inner, (⟨(s.toList.flatMap String.utf8EncodeChar).reverse ++ [], none, none⟩ :
      TextState).content (offset + 1) inner = .ok s := by
    intro inner
    unfold TextState.content
    rw [List.append_nil, List.reverse_reverse, ← Utf8.encode_eq_flatMap, Utf8.decode?_encode]
  simp only [hcontent, List.length_append, List.length_singleton]
  rw [Nat.add_assoc (offset + 1), Nat.add_sub_cancel_left]

/-! ## Lengths of texts -/

theorem length_push (n : ℕ) (said : Bytes) : (push n said).length ≤ said.length + 4 := by
  have hsize := (Char.ofNat n).utf8Size_le_four
  unfold push
  rw [Utf8.encode_singleton, List.length_append, List.length_reverse, String.length_utf8EncodeChar]
  omega

theorem TextState.length_unit (s : TextState) (n offset : ℕ) :
    (s.unit n offset).said.length ≤ s.said.length + 4 := by
  unfold TextState.unit TextState.flawed
  split
  · split
    · exact length_push _ _
    · exact Nat.le_add_right _ _
  · split
    · exact Nat.le_add_right _ _
    · split
      · exact Nat.le_add_right _ _
      · exact length_push _ _

theorem TextState.said_settle (s : TextState) (offset : ℕ) : (s.settle offset).said = s.said := by
  unfold TextState.settle TextState.flawed
  split <;> rfl

/-- A text has no more octets than what it is scanned from. -/
theorem length_le_of_textFrom {s : TextState} {bs : Bytes} {t : String} {extra : ℕ}
    (h : textFrom start inner offset s bs = ⟨.text (.ok t), extra⟩) :
    (Utf8.encode t).length ≤ s.said.length + bs.length := by
  -- each step takes at least as many octets as it adds to what the text says
  fun_induction textFrom start inner offset s bs with
  | case3 offset s x y z w rest n hn ih =>
    have hread := ih h
    have hunit := s.length_unit n (offset + 6)
    simp only [List.length_cons]
    omega
  | case6 offset s c rest hc settled o ho ih =>
    have hread := ih h
    have hsaid : settled.said = s.said := s.said_settle (offset + 2)
    simp only [List.length_cons, hsaid] at hread ⊢
    omega
  | case8 offset s rest settled hne =>
    have hsaid : settled.said = s.said := s.said_settle (offset + 1)
    simp only [Scan.mk.injEq, Lexeme.text.injEq] at h
    have hcontent := h.1
    unfold TextState.content at hcontent
    split at hcontent
    · cases hcontent
    · rename_i hdecode
      cases hcontent
      rw [← Utf8.eq_encode_of_decode? hdecode, List.length_reverse, hsaid]
      exact Nat.le_add_right _ _
    · cases hcontent
  | case10 offset s b rest hb settled hquote hcontrol ih =>
    have hread := ih h
    have hsaid : settled.said = s.said := s.said_settle (offset + 1)
    simp only [List.length_cons, hsaid] at hread ⊢
    omega
  | _ => cases h

end Texts

/-! ## What a scan finds -/

/-- A number, or one that breaks off. -/
def isNumeral : Lexeme → Bool
  | .number _ | .broken .. => true
  | _ => false

section Numerals

variable {l : Literal} {offset used : ℕ} {bs : Bytes}

theorem isNumeral_brokenNumber : isNumeral (brokenNumber offset bs).lexeme = true := by
  unfold brokenNumber
  split <;> rfl

theorem isNumeral_exponent : isNumeral (exponent l offset used bs).lexeme = true := by
  unfold exponent
  split
  · rfl
  · rename_i e bs
    split
    · simp only
      generalize (if bs.head? = some 0x2B ∨ bs.head? = some 0x2D then 1 else 0 : ℕ) = sign
      split
      · exact isNumeral_brokenNumber
      · rfl
    · rfl

theorem isNumeral_fraction : isNumeral (fraction l offset used bs).lexeme = true := by
  unfold fraction
  split
  · rfl
  · split
    · simp only
      split
      · exact isNumeral_brokenNumber
      · exact isNumeral_exponent
    · exact isNumeral_exponent

/-- A number is found where one begins, or nothing that can be gone on with. -/
theorem isNumeral_number : isNumeral (number offset bs).lexeme = true := by
  unfold number
  simp only
  split
  · exact isNumeral_brokenNumber
  · split
    · exact isNumeral_brokenNumber
    · exact isNumeral_fraction

end Numerals

/-- A word is found, or nothing that can be gone on with. -/
theorem word_cases (found : Lexeme) (offset : ℕ) (ws bs : Bytes) :
    (word found offset ws bs).lexeme = found ∨ (word found offset ws bs).lexeme.isBroken = true := by
  induction ws generalizing offset bs with
  | nil => exact .inl rfl
  | cons w ws ih =>
    cases bs with
    | nil => exact .inr rfl
    | cons c cs =>
      unfold word
      split
      · exact ih _ _
      · exact .inr rfl

/-- A text is found behind a quote, or nothing that can be gone on with. -/
theorem textFrom_cases (start : ℕ) (inner : Bytes) (offset : ℕ) (s : TextState) (bs : Bytes) :
    (∃ content, (textFrom start inner offset s bs).lexeme = .text content) ∨
      (textFrom start inner offset s bs).lexeme.isBroken = true := by
  fun_induction textFrom start inner offset s bs with
  | case3 _ _ _ _ _ _ _ _ _ ih => exact ih
  | case6 _ _ _ _ _ _ _ _ ih => exact ih
  | case8 => exact .inl ⟨_, rfl⟩
  | case10 _ _ _ _ _ _ _ _ ih => exact ih
  | _ => exact .inr rfl

/-- The octet with which a lexeme begins. -/
def Begins (b : UInt8) : Lexeme → Prop
  | .openObject => b = 0x7B
  | .closeObject => b = 0x7D
  | .openArray => b = 0x5B
  | .closeArray => b = 0x5D
  | .comma => b = 0x2C
  | .colon => b = 0x3A
  | .null => b = 0x6E
  | .bool true => b = 0x74
  | .bool false => b = 0x66
  | .text _ => b = 0x22
  | .number _ => b = 0x2D ∨ isDigit b = true
  | .stray | .broken .. => True

theorem begins_of_isBroken {b : UInt8} {l : Lexeme} (h : l.isBroken = true) : Begins b l := by
  cases l with
  | broken => trivial
  | _ => cases h

/-- **The first octet tells which token it is.** -/
theorem begins_token (offset : ℕ) (b : UInt8) (rest : Bytes) :
    Begins b (token offset b rest).lexeme := by
  have hword : ∀ {found : Lexeme} (ws : Bytes), Begins b found →
      Begins b (word found (offset + 1) ws rest).lexeme := by
    intro found ws hfound
    rcases word_cases found (offset + 1) ws rest with h | h
    · rwa [h]
    · exact begins_of_isBroken h
  by_cases hfixed : b ∈ ([0x7B, 0x7D, 0x5B, 0x5D, 0x2C, 0x3A, 0x22, 0x6E, 0x74, 0x66] : Bytes)
  · simp only [List.mem_cons, List.not_mem_nil, or_false] at hfixed
    rcases hfixed with rfl | rfl | rfl | rfl | rfl | rfl | rfl | rfl | rfl | rfl
    iterate 6 exact rfl
    · rcases textFrom_cases (offset + 1) rest (offset + 1) ⟨[], none, none⟩ rest with ⟨content, h⟩ | h
      · change Begins 0x22 (textFrom (offset + 1) rest (offset + 1) ⟨[], none, none⟩ rest).lexeme
        rw [h]
        rfl
      · exact begins_of_isBroken h
    · exact hword [0x75, 0x6C, 0x6C] rfl
    · exact hword [0x72, 0x75, 0x65] rfl
    · exact hword [0x61, 0x6C, 0x73, 0x65] rfl
  · -- what is left is a number or nothing
    simp only [List.mem_cons, List.not_mem_nil, or_false, not_or] at hfixed
    obtain ⟨h1, h2, h3, h4, h5, h6, h7, h8, h9, h10⟩ := hfixed
    unfold token
    rw [if_neg h1, if_neg h2, if_neg h3, if_neg h4, if_neg h5, if_neg h6, if_neg h7]
    by_cases hnumber : (b = 0x2D || isDigit b) = true
    · have hnumeral : isNumeral (number offset (b :: rest)).lexeme = true := isNumeral_number
      rw [if_pos hnumber]
      cases hl : (number offset (b :: rest)).lexeme with
      | number l => simpa [Begins] using hnumber
      | broken => trivial
      | _ => rw [hl] at hnumeral; cases hnumeral
    · rw [if_neg hnumber, if_neg h8, if_neg h9, if_neg h10]
      trivial

end Scan

/-- **A text is no longer than what it is found in.** -/
theorem length_le_of_mem_tokens {offset : ℕ} {bs : Bytes} {t : String}
    (h : .text (.ok t) ∈ lexemes (tokensOnto [] offset bs)) : (Utf8.encode t).length ≤ bs.length := by
  -- on the length, since each token takes at least one octet
  induction hn : bs.length using Nat.strongRecOn generalizing offset bs with
  | ind n ih =>
    subst hn
    cases bs with
    | nil =>
      rw [tokensOnto] at h
      cases h
    | cons b rest =>
      rw [tokensOnto_cons, lexemes_cons, List.mem_cons] at h
      rcases h with h | h
      · have htoken : Scan.token offset b rest =
            ⟨.text (.ok t), (Scan.token offset b rest).extra⟩ := by rw [h]
        obtain rfl : b = 0x22 := by
          have hbegins := Scan.begins_token offset b rest
          rw [htoken] at hbegins
          exact hbegins
        have hle := Scan.length_le_of_textFrom htoken
        rw [List.length_nil, Nat.zero_add] at hle
        exact Nat.le_succ_of_le hle
      · split at h
        · cases h
        · have hshort : ((rest.drop (Scan.token offset b rest).extra).drop
              (gapAfter (rest.drop (Scan.token offset b rest).extra))).length < (b :: rest).length := by
            simp only [List.length_drop, List.length_cons]
            omega
          exact Nat.le_trans (ih _ hshort h rfl) (Nat.le_of_lt hshort)

end Json

end OrderRelay
