import Mathlib.Data.List.Chain
import Mathlib.Data.List.TakeWhile
import OrderRelay.Proofs.Json.Scanning

/-!
# White space between the words of a text

The words of a text are the octets that its tokens take in. A text is laid out of its words, with
white space before, between and after them as it likes. Whoever lays out the same words with other
white space writes a text that says the same: a word ends where it ends, and after a number there
always stands something that is no part of it.

* `words`, `Laid`: the words of a text, and the texts that are laid out of words.
* `laid_words`: a value is laid out of its own words.
* `outline_of_laid`: **the same words say the same**, whatever the white space between them.
-/

namespace OrderRelay.Json

/-- The octets that a token takes in. -/
def Token.octets (text : Bytes) (t : Token) : Bytes := (text.drop t.start).take (t.stop - t.start)

/-- The words of a text. -/
def words (text : Bytes) : List Bytes := (tokens text).map (Token.octets text)

/-- **A text that is laid out of words**, with white space before, between and after them. -/
inductive Laid : List Bytes → Bytes → Prop where
  | done {gap : Bytes} (hgap : ∀ b ∈ gap, isSpace b = true) : Laid [] gap
  | word {gap w rest : Bytes} {ws : List Bytes} (hgap : ∀ b ∈ gap, isSpace b = true)
      (h : Laid ws rest) : Laid (w :: ws) (gap ++ (w ++ rest))

/-- More white space in front. -/
theorem Laid.pad {gap rest : Bytes} {ws : List Bytes} (h : Laid ws rest)
    (hgap : ∀ b ∈ gap, isSpace b = true) : Laid ws (gap ++ rest) := by
  cases h with
  | done hrest => exact .done (List.forall_mem_append.2 ⟨hgap, hrest⟩)
  | word hgap' h =>
    rw [← List.append_assoc]
    exact .word (List.forall_mem_append.2 ⟨hgap, hgap'⟩) h

/-- Octets begin with the gap in front of what comes after it. -/
theorem laid_of_drop_gapAfter {bs : Bytes} {ws : List Bytes} (h : Laid ws (bs.drop (gapAfter bs))) :
    Laid ws bs := by
  have htake : bs.takeWhile isSpace = bs.take (gapAfter bs) :=
    List.prefix_iff_eq_take.1 (List.takeWhile_prefix _)
  have hpad : Laid ws (bs.takeWhile isSpace ++ bs.drop (gapAfter bs)) :=
    h.pad fun b hb => List.mem_takeWhile_imp hb
  rwa [htake, List.take_append_drop] at hpad

/-! ## What may stand next to what -/

/-- A lexeme that may come after a number. -/
def Lexeme.follows : Lexeme → Bool
  | .comma | .closeArray | .closeObject => true
  | _ => false

/-- **Lexemes that can stand side by side without white space**: each is a word of its own, and a
number is the last one or has something after it that is no part of it. -/
structure Separate (ls : List Lexeme) : Prop where
  sound : ∀ l ∈ ls, Scan.isSound l = true
  numbers : ls.IsChain fun l l' => (∃ n, l = .number n) → l'.follows = true

namespace Separate

theorem nil : Separate [] := ⟨List.forall_mem_nil _, .nil⟩

theorem singleton {l : Lexeme} (h : Scan.isSound l = true) : Separate [l] :=
  ⟨List.forall_mem_singleton.2 h, .singleton l⟩

/-- One more lexeme in front that is no number. -/
theorem cons {l : Lexeme} {ls : List Lexeme} (hl : Scan.isSound l = true)
    (hnumber : ∀ n, l ≠ .number n) (h : Separate ls) : Separate (l :: ls) := by
  refine ⟨List.forall_mem_cons.2 ⟨hl, h.sound⟩, List.isChain_cons.2 ⟨?_, h.numbers⟩⟩
  rintro l' - ⟨n, hn⟩
  exact absurd hn (hnumber n)

/-- Lexemes with something after them that may come after a number. -/
theorem append {ls ms : List Lexeme} {m : Lexeme} (h : Separate ls) (hms : Separate (m :: ms))
    (hm : m.follows = true) : Separate (ls ++ m :: ms) := by
  refine ⟨List.forall_mem_append.2 ⟨h.sound, hms.sound⟩,
    List.isChain_append.2 ⟨h.numbers, hms.numbers, ?_⟩⟩
  rintro l - m' hm' -
  obtain rfl : m = m' := by simpa using hm'
  exact hm

end Separate

/-- What is left of an array or an object begins with something that may come after a number. -/
theorem exists_follows_of_derives {part : Part} {ls : List Lexeme} (h : Derives part ls)
    (hpart : part ≠ .value) : ∃ l ms, ls = l :: ms ∧ l.follows = true := by
  cases h with
  | closeArray | element | closeObject | member => exact ⟨_, _, rfl, rfl⟩
  | _ => exact absurd rfl hpart

namespace Separate

/-- A number may be the end of an element, since a comma or a bracket comes next. -/
theorem append_of_derives {part : Part} {v more : List Lexeme} (hv : Separate v)
    (hmore : Separate more) (h : Derives part more) (hpart : part ≠ .value) :
    Separate (v ++ more) := by
  obtain ⟨l, ms, rfl, hl⟩ := exists_follows_of_derives h hpart
  exact hv.append hmore hl

/-- The name of a member may stand between any two words, with its colon. -/
theorem key {ls : List Lexeme} (name : Except Fault String) (h : Separate ls) :
    Separate (.text name :: .colon :: ls) := by
  have hcolon : Separate (.colon :: ls) := .cons rfl (by simp) h
  exact .cons rfl (by simp) hcolon

end Separate

/-- **The words of a value can stand side by side.** -/
theorem separate_of_derives {part : Part} {ls : List Lexeme} (h : Derives part ls) : Separate ls := by
  induction h with
  | @word l h =>
    have hsound : Scan.isSound l = true := by
      cases l <;> first | rfl | cases h
    exact .singleton hsound
  | emptyArray => exact .cons rfl (by simp) (.singleton rfl)
  | array _ hmore ihv ihmore =>
    have hall := ihv.append_of_derives ihmore hmore (by simp)
    exact .cons rfl (by simp) hall
  | emptyObject => exact .cons rfl (by simp) (.singleton rfl)
  | @object name _ _ _ hmore ihv ihmore =>
    have hall := ihv.append_of_derives ihmore hmore (by simp)
    exact .cons rfl (by simp) (hall.key name)
  | closeArray => exact .singleton rfl
  | element _ hmore ihv ihmore =>
    have hall := ihv.append_of_derives ihmore hmore (by simp)
    exact .cons rfl (by simp) hall
  | closeObject => exact .singleton rfl
  | @member name _ _ _ hmore ihv ihmore =>
    have hall := ihv.append_of_derives ihmore hmore (by simp)
    exact .cons rfl (by simp) (hall.key name)

/-! ## What words say -/

/-- A word that is scanned as a lexeme wherever it stands. -/
structure Says (w : Bytes) (l : Lexeme) : Prop where
  scanned : ∃ b body, w = b :: body ∧ Scan.Begins b l ∧ Scan.Spell b body l
  sound : Scan.isSound l = true

/-- No word begins with white space. -/
theorem Scan.isSpace_of_begins {b : UInt8} {l : Lexeme} (h : Scan.Begins b l)
    (hl : Scan.isSound l = true) : isSpace b = false := by
  cases l with
  | number n =>
    rcases h with rfl | hdigit
    · rfl
    · have hother : ∀ c : UInt8, c ∈ ([0x20, 0x0A, 0x09, 0x0D] : Bytes) → b ≠ c := by
        rintro c hc rfl
        simp only [List.mem_cons, List.not_mem_nil, or_false] at hc
        rcases hc with rfl | rfl | rfl | rfl <;> simp [Scan.isDigit] at hdigit
      simp [isSpace, hother]
  | bool value =>
    cases value <;> obtain rfl := h <;> rfl
  | stray | broken => cases hl
  | _ =>
    obtain rfl := h
    rfl

/-- What is left of a text is laid out of the octets of its tokens, and each of them says its
lexeme. -/
theorem laid_octets {text : Bytes} {n : ℕ} : ∀ {offset : ℕ}, text.length - offset ≤ n →
    (∀ l ∈ lexemes (tokensOnto [] offset (text.drop offset)), Scan.isSound l = true) →
    Laid ((tokensOnto [] offset (text.drop offset)).map (Token.octets text)) (text.drop offset) ∧
      List.Forall₂ Says ((tokensOnto [] offset (text.drop offset)).map (Token.octets text))
        (lexemes (tokensOnto [] offset (text.drop offset))) := by
  -- on what is left of the text
  induction n with
  | zero =>
    intro offset hn hsound
    have hnil : text.drop offset = [] := List.drop_eq_nil_of_le (by omega)
    rw [hnil, tokensOnto]
    exact ⟨.done (List.forall_mem_nil _), .nil⟩
  | succ n ih =>
    intro offset hn hsound
    cases hbs : text.drop offset with
    | nil =>
      rw [tokensOnto]
      exact ⟨.done (List.forall_mem_nil _), .nil⟩
    | cons b rest =>
      have hlength : text.length - offset = rest.length + 1 := by
        rw [← List.length_drop, hbs, List.length_cons]
      rw [hbs, tokensOnto_cons] at hsound
      rw [tokensOnto_cons]
      simp only [lexemes_cons, List.forall_mem_cons] at hsound
      obtain ⟨hfirst, hmore⟩ := hsound
      obtain ⟨body, after, rfl, hextra, hspell⟩ := Scan.exists_spell hfirst
      rw [hextra, Scan.isBroken_of_isSound hfirst, List.drop_left] at hmore ⊢
      simp only [Bool.false_eq_true, if_false, List.map_cons, lexemes_cons] at hmore ⊢
      have hnext : after.drop (gapAfter after) =
          text.drop (offset + 1 + body.length + gapAfter after) := by
        have hoffset : offset + 1 + body.length + gapAfter after =
            offset + ((b :: body).length + gapAfter after) := by
          rw [List.length_cons]
          omega
        rw [hoffset, ← List.drop_drop, hbs, ← List.cons_append, List.drop_length_add_append]
      have hoctets : Token.octets text ⟨(Scan.token offset b (body ++ after)).lexeme, offset,
          offset + 1 + body.length, offset + 1 + body.length + gapAfter after⟩ = b :: body := by
        have hstop : offset + 1 + body.length - offset = body.length + 1 := by omega
        simp only [Token.octets, hbs, hstop, List.take_succ_cons, List.take_left]
      rw [hnext] at hmore
      obtain ⟨hlaid, hwords⟩ := ih (by simp only [List.length_append] at hlength; omega) hmore
      rw [← hnext] at hlaid hwords
      rw [hoctets]
      refine ⟨.word (List.forall_mem_nil _) (laid_of_drop_gapAfter hlaid), .cons ?_ hwords⟩
      exact ⟨⟨b, body, rfl, Scan.begins_token _ _ _, hspell⟩, hfirst⟩

/-- **A text is laid out of its words.** -/
theorem laid_words {text : Bytes} (h : ∀ l ∈ lexemes (tokens text), Scan.isSound l = true) :
    Laid (words text) text :=
  laid_of_drop_gapAfter (laid_octets (Nat.le_refl _) h).1

/-- **The words of a text say its lexemes.** -/
theorem says_words {text : Bytes} (h : ∀ l ∈ lexemes (tokens text), Scan.isSound l = true) :
    List.Forall₂ Says (words text) (lexemes (tokens text)) :=
  (laid_octets (Nat.le_refl _) h).2

/-! ## Laying out words -/

theorem gapAfter_append {gap : Bytes} (hgap : ∀ b ∈ gap, isSpace b = true) (rest : Bytes) :
    gapAfter (gap ++ rest) = gap.length + gapAfter rest := by
  unfold gapAfter
  rw [List.takeWhile_append_of_pos hgap, List.length_append]

/-- White space is no part of a number. -/
theorem endsNumber_of_isSpace {b : UInt8} {rest : Bytes} (h : isSpace b = true) :
    Scan.EndsNumber (b :: rest) := by
  rintro _ _ ⟨⟩
  simp only [isSpace, Bool.or_eq_true, beq_iff_eq] at h
  rcases h with ((rfl | rfl) | rfl) | rfl <;> decide

/-- After a number comes white space, or a word that is no part of it. -/
theorem endsNumber_of_laid {ws : List Bytes} {ls : List Lexeme} {rest : Bytes} (h : Laid ws rest)
    (hwords : List.Forall₂ Says ws ls) (hfollows : ∀ l ∈ ls.head?, l.follows = true) :
    Scan.EndsNumber rest := by
  cases h with
  | done hgap =>
    cases rest with
    | nil => exact fun _ _ h => (nomatch h)
    | cons b rest => exact endsNumber_of_isSpace (hgap b List.mem_cons_self)
  | @word gap w rest ws hgap h =>
    cases gap with
    | cons b gap => exact endsNumber_of_isSpace (hgap b List.mem_cons_self)
    | nil =>
      cases hwords with
      | @cons _ l _ ls hw hmore =>
        obtain ⟨b, body, rfl, hb, -⟩ := hw.scanned
        have hl : l.follows = true := hfollows l rfl
        rintro _ _ ⟨⟩
        cases l with
        | comma | closeArray | closeObject =>
          obtain rfl := hb
          decide
        | _ => cases hl

/-- **Words say the same wherever they are laid out.** -/
theorem bares_of_laid {ws : List Bytes} {ls : List Lexeme} {bs : Bytes} (h : Laid ws bs)
    (hwords : List.Forall₂ Says ws ls) (hseparate : Separate ls) (offset : ℕ) :
    bares (lexemes (tokensOnto [] (offset + gapAfter bs) (bs.drop (gapAfter bs)))) = bares ls := by
  induction h generalizing ls offset with
  | @done gap hgap =>
    cases hwords
    have hall : gapAfter gap = gap.length := by
      have happend := gapAfter_append hgap []
      rwa [List.append_nil] at happend
    rw [hall, List.drop_length, tokensOnto]
    rfl
  | @word gap w rest ws hgap hrest ih =>
    cases hwords with
    | @cons _ l _ ls hw hmore =>
      obtain ⟨b, body, rfl, hb, hspell⟩ := hw.scanned
      have hsolid : isSpace b = false := Scan.isSpace_of_begins hb hw.sound
      have hchain := List.isChain_cons.1 hseparate.numbers
      have hends : ∀ n, l = .number n → Scan.EndsNumber rest := by
        intro n hn
        exact endsNumber_of_laid hrest hmore fun l' hl' => hchain.1 l' hl' ⟨n, hn⟩
      have hgapAfter : gapAfter (gap ++ (b :: body ++ rest)) = gap.length := by
        rw [gapAfter_append hgap]
        simp [gapAfter, hsolid]
      obtain ⟨l', hscan, hbare⟩ := hspell (offset + gap.length) rest hends
      have hwhole : l'.isBroken = false := by
        apply Scan.isBroken_of_isSound
        rw [← Scan.isSound_bare, hbare, Scan.isSound_bare, hw.sound]
      rw [hgapAfter, List.drop_left, List.cons_append, tokensOnto_cons]
      simp only [hscan, hwhole, List.drop_left, Bool.false_eq_true, if_false, lexemes_cons,
        bares_cons, hbare]
      rw [ih hmore ⟨fun m hm => hseparate.sound m (List.mem_cons_of_mem _ hm), hchain.2⟩]

/-- **The same words say the same**, whatever the white space between them. -/
theorem outline_of_laid {text text' : Bytes} (h : IsValue (lexemes (tokens text)))
    (hlaid : Laid (words text) text') : outline text' = outline text := by
  have hseparate := separate_of_derives h
  have hbares := bares_of_laid hlaid (says_words hseparate.sound) hseparate 0
  rw [Nat.zero_add] at hbares
  exact hbares

end OrderRelay.Json
