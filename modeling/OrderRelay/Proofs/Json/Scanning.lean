import OrderRelay.Proofs.Json.Numerals
import OrderRelay.Proofs.Json.Outline

/-!
# A word is scanned alike wherever it stands

The octets of a word tell what it is, whatever stands before them and after them. Only a number
needs something after it that is no part of it.
-/

namespace OrderRelay.Json.Scan

/-! ## Texts -/

/-- Two states within a text that come to the same, but for the place of a flaw. -/
structure TextState.Alike (s s' : TextState) : Prop where
  said : s'.said = s.said
  high : s'.high = s.high
  flaw : s'.flaw.isSome = s.flaw.isSome

namespace TextState.Alike

variable {s s' : TextState}

theorem flawed (h : s.Alike s') (cause : Malformed) (offset offset' : ℕ) :
    (s.flawed cause offset).Alike (s'.flawed cause offset') :=
  ⟨h.said, rfl, by simp [TextState.flawed]⟩

theorem settle (h : s.Alike s') (offset offset' : ℕ) :
    (s.settle offset).Alike (s'.settle offset') := by
  unfold TextState.settle
  rw [h.high]
  split
  · exact h.flawed _ _ _
  · exact h

theorem unit (h : s.Alike s') (n offset offset' : ℕ) :
    (s.unit n offset).Alike (s'.unit n offset') := by
  unfold TextState.unit
  rw [h.high]
  split
  · split
    · exact ⟨by simp only [h.said], rfl, h.flaw⟩
    · exact h.flawed _ _ _
  · split
    · exact h.flawed _ _ _
    · split
      · exact ⟨h.said, rfl, h.flaw⟩
      · exact ⟨by simp only [h.said], rfl, h.flaw⟩

theorem say (h : s.Alike s') (b : UInt8) :
    ({ s with said := b :: s.said } : TextState).Alike { s' with said := b :: s'.said } :=
  ⟨by simp only [h.said], h.high, h.flaw⟩

/-- Such states say the same. -/
theorem content (h : s.Alike s') (start start' : ℕ) (inner inner' : Bytes) :
    (s'.content start' inner').toOption = (s.content start inner).toOption := by
  obtain ⟨said, flaw, high⟩ := s
  obtain ⟨said', flaw', high'⟩ := s'
  obtain ⟨rfl, -, hflaw⟩ := h
  unfold TextState.content
  cases flaw with
  | some f =>
    obtain ⟨f', rfl⟩ := Option.isSome_iff_exists.1 hflaw
    rfl
  | none =>
    obtain rfl : flaw' = none := by simpa using hflaw
    cases Utf8.decode? said'.reverse <;> rfl

end TextState.Alike

/-- **A text is scanned alike wherever it stands.** -/
theorem exists_body_of_textFrom {start offset extra : ℕ} {inner bs : Bytes} {s : TextState}
    {content : Except Fault String} (hstart : start ≤ offset)
    (h : textFrom start inner offset s bs = ⟨.text content, extra⟩) :
    ∃ body after, bs = body ++ after ∧ extra = offset - start + body.length ∧
      ∀ start' inner' s' rest, s.Alike s' → ∃ content',
        textFrom start' inner' (start' + (offset - start)) s' (body ++ rest) =
          ⟨.text content', extra⟩ ∧ content'.toOption = content.toOption := by
  -- each step takes the same octets in the other place
  fun_induction textFrom start inner offset s bs with
  | case3 offset s x y z w rest n hn ih =>
    obtain ⟨body, after, rfl, hextra, hscan⟩ := ih (Nat.le_add_right_of_le hstart) h
    refine ⟨0x5C :: 0x75 :: x :: y :: z :: w :: body, after, rfl, ?_,
      fun start' inner' s' rest hs => ?_⟩
    · simp only [List.length_cons]
      omega
    · have hoffset : start' + (offset - start) + 6 = start' + (offset + 6 - start) := by omega
      simp only [List.cons_append]
      rw [textFrom_digits hn, hoffset]
      exact hscan _ _ _ _ (hs.unit n _ _)
  | case6 offset s c rest hc settled o ho ih =>
    obtain ⟨body, after, rfl, hextra, hscan⟩ := ih (Nat.le_add_right_of_le hstart) h
    refine ⟨0x5C :: c :: body, after, rfl, ?_, fun start' inner' s' rest hs => ?_⟩
    · simp only [List.length_cons]
      omega
    · have hoffset : start' + (offset - start) + 2 = start' + (offset + 2 - start) := by omega
      simp only [List.cons_append]
      rw [textFrom_escape hc ho, hoffset]
      exact hscan _ _ _ _ ((hs.settle _ _).say o)
  | case8 offset s rest settled hne =>
    simp only [Scan.mk.injEq, Lexeme.text.injEq] at h
    obtain ⟨rfl, rfl⟩ := h
    refine ⟨[0x22], rest, rfl, ?_, fun start' inner' s' rest hs => ?_⟩
    · rw [List.length_singleton]
      omega
    · have hextra : start' + (offset - start) + 1 - start' = offset + 1 - start := by omega
      rw [List.cons_append, textFrom_quote, hextra]
      exact ⟨_, rfl, (hs.settle _ _).content _ _ _ _⟩
  | case10 offset s b rest hb settled hquote hcontrol ih =>
    obtain ⟨body, after, rfl, hextra, hscan⟩ := ih (Nat.le_add_right_of_le hstart) h
    refine ⟨b :: body, after, rfl, ?_, fun start' inner' s' rest hs => ?_⟩
    · rw [List.length_cons]
      omega
    · have hoffset : start' + (offset - start) + 1 = start' + (offset + 1 - start) := by omega
      rw [List.cons_append, textFrom_octet ⟨UInt8.not_lt.1 hcontrol, hquote, hb⟩, hoffset]
      exact hscan _ _ _ _ ((hs.settle _ _).say b)
  | _ => cases h

/-! ## Words -/

theorem word_append (found : Lexeme) (offset : ℕ) (ws rest : Bytes) :
    word found offset ws (ws ++ rest) = ⟨found, ws.length⟩ := by
  induction ws generalizing offset with
  | nil => rfl
  | cons w ws ih =>
    rw [List.cons_append, word, if_pos rfl, ih]
    rfl

/-- A word that does not break off is there. -/
theorem exists_append_of_word {found : Lexeme} {offset : ℕ} {ws bs : Bytes}
    (h : (word found offset ws bs).lexeme.isBroken = false) : ∃ rest, bs = ws ++ rest := by
  induction ws generalizing offset bs with
  | nil => exact ⟨bs, rfl⟩
  | cons w ws ih =>
    cases bs with
    | nil => cases h
    | cons b bs =>
      rw [word] at h
      split at h
      · rename_i hb
        obtain ⟨rest, rfl⟩ := ih h
        exact ⟨rest, by rw [hb, List.cons_append]⟩
      · cases h

/-! ## Tokens -/

/-- A lexeme that can stand in a value. -/
def isSound : Lexeme → Bool
  | .stray | .broken .. => false
  | _ => true

theorem isBroken_of_isSound {l : Lexeme} (h : isSound l = true) : l.isBroken = false := by
  cases l with
  | broken => cases h
  | _ => rfl

theorem isSound_bare (l : Lexeme) : isSound l.bare = isSound l := by
  cases l with
  | text content => cases content <;> rfl
  | _ => rfl

/-- **The octet `b` and those after it are scanned as a lexeme**, wherever they stand and whatever
comes after them. -/
def Spell (b : UInt8) (body : Bytes) (l : Lexeme) : Prop :=
  ∀ offset after, (∀ n, l = .number n → EndsNumber after) →
    ∃ l', token offset b (body ++ after) = ⟨l', body.length⟩ ∧ l'.bare = l.bare

/-- A word is scanned alike wherever it stands. -/
theorem spell_word {b : UInt8} {found : Lexeme} {ws rest : Bytes} {offset : ℕ}
    (htoken : ∀ offset rest, token offset b rest = word found (offset + 1) ws rest)
    (h : (token offset b rest).lexeme = found) (hfound : found.isBroken = false) :
    ∃ body after, rest = body ++ after ∧ (token offset b rest).extra = body.length ∧
      Spell b body found := by
  have hwhole : (word found (offset + 1) ws rest).lexeme.isBroken = false := by
    rw [← htoken, h, hfound]
  obtain ⟨after, rfl⟩ := exists_append_of_word hwhole
  refine ⟨ws, after, rfl, by rw [htoken, word_append], fun offset' after' _ => ?_⟩
  exact ⟨found, by rw [htoken, word_append], rfl⟩

/-- **A token is scanned alike wherever it stands.** -/
theorem exists_spell {offset : ℕ} {b : UInt8} {rest : Bytes}
    (h : isSound (token offset b rest).lexeme = true) :
    ∃ body after, rest = body ++ after ∧ (token offset b rest).extra = body.length ∧
      Spell b body (token offset b rest).lexeme := by
  have hbegins := begins_token offset b rest
  -- a token of one octet
  have hsingle : ∀ l, (token offset b rest).lexeme = l →
      (∀ offset rest, token offset b rest = ⟨l, 0⟩) → ∃ body after, rest = body ++ after ∧
        (token offset b rest).extra = body.length ∧ Spell b body l := by
    intro l hl htoken
    refine ⟨[], rest, rfl, by rw [htoken]; rfl, fun offset' after' _ => ?_⟩
    exact ⟨l, htoken _ _, rfl⟩
  cases hl : (token offset b rest).lexeme with
  | openObject | closeObject | openArray | closeArray | comma | colon =>
    rw [hl] at hbegins
    obtain rfl := hbegins
    exact hsingle _ hl fun _ _ => rfl
  | null =>
    rw [hl] at hbegins
    obtain rfl := hbegins
    exact spell_word (fun _ _ => rfl) hl rfl
  | bool value =>
    rw [hl] at hbegins
    cases value with
    | true | false =>
      obtain rfl := hbegins
      exact spell_word (fun _ _ => rfl) hl rfl
  | text content =>
    rw [hl] at hbegins
    obtain rfl := hbegins
    have hscan : textFrom (offset + 1) rest (offset + 1) ⟨[], none, none⟩ rest =
        ⟨.text content, (token offset 0x22 rest).extra⟩ := by
      rw [← hl]
      rfl
    obtain ⟨body, after, hrest, hextra, hsame⟩ := exists_body_of_textFrom (Nat.le_refl _) hscan
    rw [Nat.sub_self, Nat.zero_add] at hextra
    refine ⟨body, after, hrest, hextra, fun offset' after' _ => ?_⟩
    obtain ⟨content', hscan', hcontent⟩ :=
      hsame (offset' + 1) (body ++ after') ⟨[], none, none⟩ after' ⟨rfl, rfl, rfl⟩
    rw [Nat.sub_self, hextra] at hscan'
    exact ⟨.text content', hscan', by rw [bare_text, bare_text, hcontent]⟩
  | number l =>
    rw [hl] at hbegins
    have hscan : number offset (b :: rest) = ⟨.number l, (token offset b rest).extra⟩ := by
      rw [← token_eq_number hbegins, ← hl]
    obtain ⟨hproper, written, after, hbs, hwrites, hextra⟩ := writes_of_number hscan
    obtain ⟨c, body, rfl⟩ := List.exists_cons_of_ne_nil (hwrites.ne_nil hproper)
    cases hbs
    refine ⟨body, after, rfl, hextra, fun offset' after' hends => ?_⟩
    refine ⟨.number l, ?_, rfl⟩
    rw [token_eq_number hbegins, ← List.cons_append, number_scan hproper hwrites (hends l rfl)]
    rfl
  | stray | broken => rw [hl] at h; cases h

end OrderRelay.Json.Scan
