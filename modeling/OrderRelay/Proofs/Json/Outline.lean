import OrderRelay.Proofs.Json.Arrays

/-!
# What a text says, wherever its words stand

A flawed text carries the place of its flaw. The outline of a text is what is left of its lexemes
without such places: two texts of the same outline say the same.

* `Lexeme.bare`, `outline`: lexemes without the places of flaws.
* `isValue_bares_iff`: the grammar does not look at flaws.
* `Holds`: the members of the object that a text holds, also those whose names are flawed.
* `exists_holds_iff`: **every text of an object holds its members**, and no others
  (`Holds.unique`).
-/

namespace OrderRelay.Json

/-! ## Lexemes without places -/

/-- A lexeme without the place of its flaw. -/
def Lexeme.bare : Lexeme → Lexeme
  | .text (.error _) => .text (.error (.unfinished .text))
  | l => l

/-- A lexeme that is not a text has no flaw. -/
theorem Lexeme.eq_of_bare_eq {l l' : Lexeme} (h : l.bare = l')
    (hl' : ∀ content, l' ≠ .text content) : l = l' := by
  subst h
  cases l with
  | text content => cases content <;> exact absurd rfl (hl' _)
  | _ => rfl

/-- A text that says something has no flaw either. -/
theorem Lexeme.eq_text_of_bare_eq {l : Lexeme} {s : String} (h : l.bare = .text (.ok s)) :
    l = .text (.ok s) := by
  cases l with
  | text content =>
    cases content with
    | ok t => exact h
    | error fault => cases h
  | _ => cases h

/-- Lexemes without the places of flaws. -/
def bares (ls : List Lexeme) : List Lexeme := ls.map Lexeme.bare

@[simp] theorem bares_nil : bares [] = [] := rfl

@[simp] theorem bares_cons (l : Lexeme) (ls : List Lexeme) :
    bares (l :: ls) = l.bare :: bares ls := rfl

@[simp] theorem bares_append (ls ms : List Lexeme) : bares (ls ++ ms) = bares ls ++ bares ms :=
  List.map_append

theorem bares_eq_cons {ls ms : List Lexeme} {l : Lexeme} :
    bares ls = l :: ms ↔ ∃ k ks, ls = k :: ks ∧ k.bare = l ∧ bares ks = ms :=
  List.map_eq_cons_iff

theorem bares_eq_append {ls ms ns : List Lexeme} :
    bares ls = ms ++ ns ↔ ∃ js ks, ls = js ++ ks ∧ bares js = ms ∧ bares ks = ns :=
  List.map_eq_append_iff

/-- **The outline of a text**: its lexemes without the places of flaws. -/
def outline (text : Bytes) : List Lexeme := bares (lexemes (tokens text))

/-! ## Passing over -/

/-- A token without the place of its flaw. -/
def Token.bare (t : Token) : Token := { t with lexeme := t.lexeme.bare }

/-- What is passed over is not looked into. -/
theorem Skip.step_bare (s : State) (t : Token) : step s t.bare = step s t := by
  obtain ⟨frames, phase⟩ := s
  obtain ⟨l, start, stop, next⟩ := t
  cases l with
  | text content =>
    cases content with
    | ok said => rfl
    | error fault =>
      -- only the phase and what is open decide what a text is good for
      cases phase <;> rcases frames with _ | ⟨frame, frames⟩
      all_goals first
        | rfl
        | cases frame <;> rfl
  | _ => rfl

theorem Skip.run_map_bare (s : State) (ts : List Token) :
    run s (ts.map Token.bare) = (run s ts).map (List.map Token.bare) := by
  induction ts generalizing s with
  | nil => rfl
  | cons t ts ih =>
    rw [List.map_cons, run, run, step_bare]
    cases step s t with
    | error fault => rfl
    | ok s' =>
      cases s' with
      | none => rfl
      | some s' => exact ih s'

theorem placed_bares (ls : List Lexeme) : placed (bares ls) = (placed ls).map Token.bare := by
  simp [placed, bares, Token.bare, Function.comp_def]

/-- **The grammar does not look at flaws.** -/
theorem isValue_bares_iff {ls : List Lexeme} : IsValue (bares ls) ↔ IsValue ls := by
  have hskip : skip (placed (bares ls)) = (skip (placed ls)).map (List.map Token.bare) := by
    rw [placed_bares]
    exact Skip.run_map_bare _ _
  rw [isValue_iff_skip, isValue_iff_skip, hskip]
  cases skip (placed ls) with
  | error fault => simp [Except.map]
  | ok rest => simp [Except.map]

/-! ## Texts that hold an object -/

theorem bare_text (content : Except Fault String) :
    (Lexeme.text content).bare = nameLexeme content.toOption := by
  cases content <;> rfl

/-- **The members of the object that a text holds**, in their order. -/
structure Holds (text : Bytes) (es : List Entry) : Prop where
  outline : outline text = .openObject :: entryLexemes true es
  values : ∀ e ∈ es, IsValue e.2

/-- A text holds the members of one object only. -/
theorem Holds.unique {text : Bytes} {es es' : List Entry} (h : Holds text es)
    (h' : Holds text es') : es = es' := by
  have hsame := h.outline.symm.trans h'.outline
  rw [List.cons.injEq] at hsame
  exact entryLexemes_inj h.values h'.values hsame.2

/-- What is left of an object is the outline of members. -/
theorem exists_entries_of_moreMembers {ls : List Lexeme} (h : Derives .moreMembers ls) :
    ∃ es : List Entry, bares ls = entryLexemes false es ∧ ∀ e ∈ es, IsValue e.2 := by
  -- on the derivation of the members; what is derived within them is of no interest
  generalize hpart : Part.moreMembers = part at h
  induction h with
  | closeObject => exact ⟨[], rfl, List.forall_mem_nil _⟩
  | @member name v more hv _ _ ih =>
    obtain ⟨es, hmore, hes⟩ := ih rfl
    refine ⟨(name.toOption, bares v) :: es, ?_,
      List.forall_mem_cons.2 ⟨isValue_bares_iff.2 hv, hes⟩⟩
    rw [bares_cons, bares_cons, bares_cons, bares_append, bare_text, hmore]
    rfl
  | _ => cases hpart

/-- A text of an object is a value. -/
theorem Holds.isValue {text : Bytes} {es : List Entry} (h : Holds text es) :
    IsValue (lexemes (tokens text)) := by
  rw [← isValue_bares_iff, ← Json.outline, h.outline]
  exact isValue_entries h.values

/-- **Every text of an object holds its members.** -/
theorem exists_holds_iff {text : Bytes} : (∃ es, Holds text es) ↔
    IsValue (lexemes (tokens text)) ∧ ∃ ls, lexemes (tokens text) = .openObject :: ls := by
  constructor
  · rintro ⟨es, h⟩
    refine ⟨h.isValue, ?_⟩
    obtain ⟨l, ls, hls, hl, -⟩ := bares_eq_cons.1 h.outline
    obtain rfl := Lexeme.eq_of_bare_eq hl (by simp)
    exact ⟨ls, hls⟩
  · rintro ⟨hvalue, ls, hls⟩
    rw [hls] at hvalue
    cases hvalue with
    | word h => cases h
    | emptyObject =>
      refine ⟨[], ?_, List.forall_mem_nil _⟩
      rw [outline, hls]
      rfl
    | @object name v more hv hmore =>
      obtain ⟨es, hes, hvalues⟩ := exists_entries_of_moreMembers hmore
      refine ⟨(name.toOption, bares v) :: es, ?_,
        List.forall_mem_cons.2 ⟨isValue_bares_iff.2 hv, hvalues⟩⟩
      rw [outline, hls, bares_cons, bares_cons, bares_cons, bares_append, bare_text, hes]
      rfl

end OrderRelay.Json
