import Mathlib.Data.List.Basic
import OrderRelay.Json.Skip

/-!
# The grammar of values

What is passed over without being read is a value of the grammar, at any depth of
nesting. A number may be too large and a text need not say anything.

* `Derives`: the lexemes of a value, and of what is left of an array or an object.
* `run_of_derives`, `begins_of_run`: what the grammar derives is passed over, and what is
  passed over is derived, for any structures that are open around it.
* `skip_eq_ok_iff`: **a value alone is passed over exactly up to its end.**
-/

namespace OrderRelay.Json

/-- The lexemes of tokens. -/
def lexemes (ts : List Token) : List Lexeme := ts.map Token.lexeme

@[simp] theorem lexemes_nil : lexemes [] = [] := rfl

@[simp] theorem lexemes_cons (t : Token) (ts : List Token) :
    lexemes (t :: ts) = t.lexeme :: lexemes ts := rfl

@[simp] theorem lexemes_append (ts us : List Token) :
    lexemes (ts ++ us) = lexemes ts ++ lexemes us := List.map_append

theorem lexemes_eq_nil {ts : List Token} : lexemes ts = [] ↔ ts = [] := List.map_eq_nil_iff

theorem lexemes_eq_cons {ts : List Token} {l : Lexeme} {ls : List Lexeme} :
    lexemes ts = l :: ls ↔ ∃ t us, ts = t :: us ∧ t.lexeme = l ∧ lexemes us = ls :=
  List.map_eq_cons_iff

theorem lexemes_eq_singleton {ts : List Token} {l : Lexeme} :
    lexemes ts = [l] ↔ ∃ t, ts = [t] ∧ t.lexeme = l :=
  List.map_eq_singleton_iff

theorem lexemes_eq_append {ts : List Token} {ls ms : List Lexeme} :
    lexemes ts = ls ++ ms ↔ ∃ us vs, ts = us ++ vs ∧ lexemes us = ls ∧ lexemes vs = ms :=
  List.map_eq_append_iff

/-- A value of one lexeme. -/
def Lexeme.isWord : Lexeme → Bool
  | .null | .bool _ | .text _ | .number _ => true
  | _ => false

/-- What the grammar speaks of. -/
inductive Part where
  | value
  /-- What comes after an element of an array, up to the end of the array. -/
  | moreElements
  /-- What comes after a member of an object, up to the end of the object. -/
  | moreMembers

/-- **The grammar of values.** -/
inductive Derives : Part → List Lexeme → Prop where
  | word {l : Lexeme} (h : l.isWord = true) : Derives .value [l]
  | emptyArray : Derives .value [.openArray, .closeArray]
  | array {v more : List Lexeme} (hv : Derives .value v) (hmore : Derives .moreElements more) :
      Derives .value (.openArray :: (v ++ more))
  | emptyObject : Derives .value [.openObject, .closeObject]
  | object {name : Except Fault String} {v more : List Lexeme} (hv : Derives .value v)
      (hmore : Derives .moreMembers more) :
      Derives .value (.openObject :: .text name :: .colon :: (v ++ more))
  | closeArray : Derives .moreElements [.closeArray]
  | element {v more : List Lexeme} (hv : Derives .value v) (hmore : Derives .moreElements more) :
      Derives .moreElements (.comma :: (v ++ more))
  | closeObject : Derives .moreMembers [.closeObject]
  | member {name : Except Fault String} {v more : List Lexeme} (hv : Derives .value v)
      (hmore : Derives .moreMembers more) :
      Derives .moreMembers (.comma :: .text name :: .colon :: (v ++ more))

/-- The lexemes of a value. -/
abbrev IsValue (ls : List Lexeme) : Prop := Derives .value ls

namespace Skip

/-- The state in which a part is expected. -/
def State.before (frames : List Frame) : Part → State
  | .value => ⟨frames, .value⟩
  | .moreElements => ⟨.array :: frames, .after⟩
  | .moreMembers => ⟨.object :: frames, .after⟩

/-- Goes on behind a part. -/
def resume (frames : List Frame) (ts : List Token) : Except Fault (List Token) :=
  match finish frames with
  | none => .ok ts
  | some s => run s ts

theorem resume_array (frames : List Frame) (ts : List Token) :
    resume (.array :: frames) ts = run (.before frames .moreElements) ts := rfl

theorem resume_object (frames : List Frame) (ts : List Token) :
    resume (.object :: frames) ts = run (.before frames .moreMembers) ts := rfl

theorem run_of_finish {s : State} {t : Token} {ts : List Token} {frames : List Frame}
    (h : step s t = .ok (finish frames)) : run s (t :: ts) = resume frames ts := by
  rw [run, h]
  unfold resume
  cases finish frames <;> rfl

theorem run_of_step {s s' : State} {t : Token} {ts : List Token} (h : step s t = .ok (some s')) :
    run s (t :: ts) = run s' ts := by
  rw [run, h]

/-! ## What the grammar derives is passed over -/

/-- A value does not begin with the end of an array. -/
theorem exists_cons_of_isValue {ls : List Lexeme} (h : IsValue ls) :
    ∃ l more, ls = l :: more ∧ l ≠ .closeArray := by
  cases h with
  | word h => exact ⟨_, [], rfl, by rintro rfl; cases h⟩
  | emptyArray => exact ⟨_, _, rfl, by simp⟩
  | array => exact ⟨_, _, rfl, by simp⟩
  | emptyObject => exact ⟨_, _, rfl, by simp⟩
  | object => exact ⟨_, _, rfl, by simp⟩

/-- The first value of an array is passed over like any other. -/
theorem run_first {frames : List Frame} {vs ts : List Token} (hv : IsValue (lexemes vs)) :
    run ⟨.array :: frames, .first⟩ (vs ++ ts) = run ⟨.array :: frames, .value⟩ (vs ++ ts) := by
  obtain ⟨l, more, hl, hclose⟩ := exists_cons_of_isValue hv
  obtain ⟨⟨l', start, stop, next⟩, us, rfl, rfl, -⟩ := lexemes_eq_cons.1 hl
  rw [List.cons_append, run, run]
  cases l' <;> first | rfl | exact absurd rfl hclose

/-- A name and its colon are passed over. -/
theorem run_key {frames : List Frame} {us : List Token} {name : Except Fault String}
    {v more : List Lexeme} (h : lexemes us = .text name :: .colon :: (v ++ more)) :
    ∃ vs ws, lexemes vs = v ∧ lexemes ws = more ∧ ∀ ts,
      run ⟨frames, .key⟩ (us ++ ts) = run ⟨frames, .value⟩ (vs ++ (ws ++ ts)) := by
  obtain ⟨⟨_, _, _, _⟩, us', rfl, ⟨⟩, hcolon⟩ := lexemes_eq_cons.1 h
  obtain ⟨⟨_, _, _, _⟩, us'', rfl, ⟨⟩, hrest⟩ := lexemes_eq_cons.1 hcolon
  obtain ⟨vs, ws, rfl, hvs, hws⟩ := lexemes_eq_append.1 hrest
  refine ⟨vs, ws, hvs, hws, fun ts => ?_⟩
  rw [← List.append_assoc]
  exact (run_of_step rfl).trans (run_of_step rfl)

/-- The first name of an object is passed over like any other. -/
theorem run_firstKey {frames : List Frame} {us ts : List Token} {name : Except Fault String}
    {more : List Lexeme} (h : lexemes us = .text name :: more) :
    run ⟨.object :: frames, .first⟩ (us ++ ts) = run ⟨.object :: frames, .key⟩ (us ++ ts) := by
  obtain ⟨⟨_, _, _, _⟩, us', rfl, ⟨⟩, -⟩ := lexemes_eq_cons.1 h
  exact (run_of_step rfl).trans (run_of_step rfl).symm

/-- A structure that ends at once is passed over like a word. -/
theorem run_empty (frame : Frame) {frames : List Frame} {opening closing : Token} {ts : List Token}
    (hopen : step ⟨frames, .value⟩ opening = .ok (some ⟨frame :: frames, .first⟩))
    (hclose : step ⟨frame :: frames, .first⟩ closing = .ok (finish frames)) :
    run ⟨frames, .value⟩ (opening :: closing :: ts) = resume frames ts := by
  rw [run_of_step hopen, run_of_finish hclose]

/-- **What the grammar derives is passed over**, whatever is open around it. -/
theorem run_of_derives {part : Part} {ls : List Lexeme} (h : Derives part ls) :
    ∀ {vs : List Token}, lexemes vs = ls → ∀ (frames : List Frame) (ts : List Token),
      run (.before frames part) (vs ++ ts) = resume frames ts := by
  induction h with
  | @word l h =>
    intro vs hvs frames ts
    obtain ⟨⟨l', start, stop, next⟩, rfl, hl⟩ := lexemes_eq_singleton.1 hvs
    obtain rfl : l' = l := hl
    refine run_of_finish ?_
    cases l' <;> first | rfl | cases h
  | emptyArray =>
    intro vs hvs frames ts
    obtain ⟨⟨_, _, _, _⟩, us, rfl, ⟨⟩, hus⟩ := lexemes_eq_cons.1 hvs
    obtain ⟨⟨_, _, _, _⟩, rfl, ⟨⟩⟩ := lexemes_eq_singleton.1 hus
    exact run_empty .array rfl rfl
  | array hv _ ihv ihmore =>
    intro vs hvs frames ts
    obtain ⟨⟨l, start, stop, next⟩, us, rfl, ⟨⟩, hus⟩ := lexemes_eq_cons.1 hvs
    obtain ⟨us, ws, rfl, rfl, hws⟩ := lexemes_eq_append.1 hus
    have helement := ihv rfl (.array :: frames) (ws ++ ts)
    have hmore := ihmore hws frames ts
    calc run ⟨frames, .value⟩ (⟨.openArray, start, stop, next⟩ :: (us ++ ws) ++ ts)
        = run ⟨.array :: frames, .first⟩ (us ++ ws ++ ts) := run_of_step rfl
      _ = run ⟨.array :: frames, .value⟩ (us ++ (ws ++ ts)) := by
          rw [List.append_assoc, run_first hv]
      _ = resume frames ts := helement.trans hmore
  | emptyObject =>
    intro vs hvs frames ts
    obtain ⟨⟨_, _, _, _⟩, us, rfl, ⟨⟩, hus⟩ := lexemes_eq_cons.1 hvs
    obtain ⟨⟨_, _, _, _⟩, rfl, ⟨⟩⟩ := lexemes_eq_singleton.1 hus
    exact run_empty .object rfl rfl
  | object _ _ ihv ihmore =>
    intro vs hvs frames ts
    obtain ⟨⟨l, start, stop, next⟩, us, rfl, ⟨⟩, hus⟩ := lexemes_eq_cons.1 hvs
    obtain ⟨vs, ws, hvs, hws, hkey⟩ := run_key hus
    have hmember := ihv hvs (.object :: frames) (ws ++ ts)
    have hmore := ihmore hws frames ts
    calc run ⟨frames, .value⟩ (⟨.openObject, start, stop, next⟩ :: us ++ ts)
        = run ⟨.object :: frames, .first⟩ (us ++ ts) := run_of_step rfl
      _ = run ⟨.object :: frames, .key⟩ (us ++ ts) := run_firstKey hus
      _ = run ⟨.object :: frames, .value⟩ (vs ++ (ws ++ ts)) := hkey ts
      _ = resume frames ts := hmember.trans hmore
  | closeArray =>
    intro vs hvs frames ts
    obtain ⟨⟨_, _, _, _⟩, rfl, ⟨⟩⟩ := lexemes_eq_singleton.1 hvs
    exact run_of_finish rfl
  | element _ _ ihv ihmore =>
    intro vs hvs frames ts
    obtain ⟨⟨l, start, stop, next⟩, us, rfl, ⟨⟩, hus⟩ := lexemes_eq_cons.1 hvs
    obtain ⟨us, ws, rfl, rfl, hws⟩ := lexemes_eq_append.1 hus
    have helement := ihv rfl (.array :: frames) (ws ++ ts)
    have hmore := ihmore hws frames ts
    calc run ⟨.array :: frames, .after⟩ (⟨.comma, start, stop, next⟩ :: (us ++ ws) ++ ts)
        = run ⟨.array :: frames, .value⟩ (us ++ ws ++ ts) := run_of_step rfl
      _ = run ⟨.array :: frames, .value⟩ (us ++ (ws ++ ts)) := by rw [List.append_assoc]
      _ = resume frames ts := helement.trans hmore
  | closeObject =>
    intro vs hvs frames ts
    obtain ⟨⟨_, _, _, _⟩, rfl, ⟨⟩⟩ := lexemes_eq_singleton.1 hvs
    exact run_of_finish rfl
  | member _ _ ihv ihmore =>
    intro vs hvs frames ts
    obtain ⟨⟨l, start, stop, next⟩, us, rfl, ⟨⟩, hus⟩ := lexemes_eq_cons.1 hvs
    obtain ⟨vs, ws, hvs, hws, hkey⟩ := run_key hus
    have hmember := ihv hvs (.object :: frames) (ws ++ ts)
    have hmore := ihmore hws frames ts
    calc run ⟨.object :: frames, .after⟩ (⟨.comma, start, stop, next⟩ :: us ++ ts)
        = run ⟨.object :: frames, .key⟩ (us ++ ts) := run_of_step rfl
      _ = run ⟨.object :: frames, .value⟩ (vs ++ (ws ++ ts)) := hkey ts
      _ = resume frames ts := hmember.trans hmore

/-! ## What is passed over is derived by the grammar -/

/-- A value has started. -/
theorem run_value_cases {frames : List Frame} {t : Token} {ts rest : List Token}
    (h : run ⟨frames, .value⟩ (t :: ts) = .ok rest) :
    (t.lexeme.isWord = true ∧ resume frames ts = .ok rest) ∨
      (t.lexeme = .openArray ∧ run ⟨.array :: frames, .first⟩ ts = .ok rest) ∨
        (t.lexeme = .openObject ∧ run ⟨.object :: frames, .first⟩ ts = .ok rest) := by
  obtain ⟨l, start, stop, next⟩ := t
  cases l with
  | null | bool | text | number => exact .inl ⟨rfl, (run_of_finish rfl).symm.trans h⟩
  | openArray => exact .inr (.inl ⟨rfl, (run_of_step rfl).symm.trans h⟩)
  | openObject => exact .inr (.inr ⟨rfl, (run_of_step rfl).symm.trans h⟩)
  | _ => cases h

/-- The lexeme with which a structure ends. -/
def Frame.closer : Frame → Lexeme
  | .array => .closeArray
  | .object => .closeObject

/-- What each part of a structure begins with: a value, or the name of a member. -/
def Frame.entry : Frame → Phase
  | .array => .value
  | .object => .key

/-- A structure ends at once, or its first part follows. -/
theorem run_first_cases {frame : Frame} {frames : List Frame} {ts rest : List Token}
    (h : run ⟨frame :: frames, .first⟩ ts = .ok rest) :
    (∃ t us, ts = t :: us ∧ t.lexeme = frame.closer ∧ resume frames us = .ok rest) ∨
      run ⟨frame :: frames, frame.entry⟩ ts = .ok rest := by
  cases ts with
  | nil => cases h
  | cons t ts =>
    obtain ⟨l, start, stop, next⟩ := t
    -- each structure is ended by its own lexeme only
    cases frame <;> cases l <;> first
      | exact .inr h
      | exact .inl ⟨_, _, rfl, rfl, (run_of_finish rfl).symm.trans h⟩

/-- A name is followed by a colon. -/
theorem run_key_cases {frames : List Frame} {ts rest : List Token}
    (h : run ⟨frames, .key⟩ ts = .ok rest) :
    ∃ key colon us name, ts = key :: colon :: us ∧ key.lexeme = .text name ∧
      colon.lexeme = .colon ∧ run ⟨frames, .value⟩ us = .ok rest := by
  cases ts with
  | nil => cases h
  | cons key ts =>
    obtain ⟨l, start, stop, next⟩ := key
    cases l with
    | text name =>
      have hcolon : run ⟨frames, .colon⟩ ts = .ok rest := (run_of_step rfl).symm.trans h
      cases ts with
      | nil => cases hcolon
      | cons colon us =>
        obtain ⟨l, start, stop, next⟩ := colon
        cases l with
        | colon => exact ⟨_, _, us, name, rfl, rfl, rfl, (run_of_step rfl).symm.trans hcolon⟩
        | _ => cases hcolon
    | broken isText => cases isText <;> cases h
    | _ => cases h

/-- A structure ends, or another part of it follows. -/
theorem run_after_cases {frame : Frame} {frames : List Frame} {t : Token} {ts rest : List Token}
    (h : run ⟨frame :: frames, .after⟩ (t :: ts) = .ok rest) :
    (t.lexeme = frame.closer ∧ resume frames ts = .ok rest) ∨
      (t.lexeme = .comma ∧ run ⟨frame :: frames, frame.entry⟩ ts = .ok rest) := by
  obtain ⟨l, start, stop, next⟩ := t
  cases frame <;> cases l <;> first
    | exact .inl ⟨rfl, (run_of_finish rfl).symm.trans h⟩
    | exact .inr ⟨rfl, (run_of_step rfl).symm.trans h⟩
    | cases h

/-- What is passed over begins with what the grammar derives. -/
def Begins (frames : List Frame) (part : Part) (ts rest : List Token) : Prop :=
  ∃ vs us, ts = vs ++ us ∧ Derives part (lexemes vs) ∧ resume frames us = .ok rest

/-- An element and the rest of its array, each of which begins as derived. -/
theorem Begins.trans {frame : Frame} {frames : List Frame} {more part : Part} {ts rest : List Token}
    (hresume : ∀ us, resume (frame :: frames) us = run (.before frames more) us)
    (hv : Begins (frame :: frames) .value ts rest)
    (hmore : ∀ us, us.length ≤ ts.length → run (.before frames more) us = .ok rest →
      Begins frames more us rest)
    {before : List Token} (hpart : ∀ {v ls : List Lexeme}, Derives .value v → Derives more ls →
      Derives part (lexemes before ++ (v ++ ls))) : Begins frames part (before ++ ts) rest := by
  obtain ⟨vs, us, rfl, hvs, hus⟩ := hv
  obtain ⟨ws, us, rfl, hws, hrest⟩ := hmore us (by simp) (hresume us ▸ hus)
  refine ⟨before ++ (vs ++ ws), us, by simp, ?_, hrest⟩
  rw [lexemes_append, lexemes_append]
  exact hpart hvs hws

/-- **What is passed over is derived by the grammar**, whatever is open around it. -/
theorem begins_of_run (n : ℕ) : ∀ {ts : List Token}, ts.length ≤ n →
    ∀ {part : Part} {frames : List Frame} {rest : List Token},
      run (.before frames part) ts = .ok rest → Begins frames part ts rest := by
  induction n with
  | zero =>
    intro ts hlen part frames rest h
    obtain rfl := List.eq_nil_of_length_eq_zero (Nat.le_zero.1 hlen)
    cases h
  | succ n ih =>
    intro ts hlen part frames rest h
    cases ts with
    | nil => cases h
    | cons t ts =>
      have hts : ts.length ≤ n := Nat.le_of_succ_le_succ hlen
      -- a value within an array or an object, and then what is left of that
      have hnested : ∀ {frame : Frame} {more part : Part} (before us : List Token),
          us.length ≤ n → (∀ vs, resume (frame :: frames) vs = run (.before frames more) vs) →
          run ⟨frame :: frames, .value⟩ us = .ok rest →
          (∀ {v ls : List Lexeme}, Derives .value v → Derives more ls →
            Derives part (lexemes before ++ (v ++ ls))) → Begins frames part (before ++ us) rest :=
        fun before us hus hresume hrun hpart => .trans hresume (ih hus hrun)
          (fun vs hvs hmore => ih (Nat.le_trans hvs hus) hmore) hpart
      cases part with
      | value =>
        rcases run_value_cases h with ⟨hword, hrest⟩ | ⟨hopen, hrun⟩ | ⟨hopen, hrun⟩
        · exact ⟨[t], ts, rfl, .word hword, hrest⟩
        · rcases run_first_cases hrun with ⟨u, us, rfl, hclose, hrest⟩ | hrun
          · refine ⟨[t, u], us, rfl, ?_, hrest⟩
            rw [lexemes_cons, lexemes_cons, hopen, hclose]
            exact .emptyArray
          · refine hnested [t] ts hts (resume_array frames) hrun fun hv hmore => ?_
            simp only [lexemes_cons, lexemes_nil, hopen, List.cons_append, List.nil_append]
            exact .array hv hmore
        · rcases run_first_cases hrun with ⟨u, us, rfl, hclose, hrest⟩ | hrun
          · refine ⟨[t, u], us, rfl, ?_, hrest⟩
            rw [lexemes_cons, lexemes_cons, hopen, hclose]
            exact .emptyObject
          · obtain ⟨key, colon, us, name, rfl, hkey, hcolon, hrun⟩ := run_key_cases hrun
            refine hnested [t, key, colon] us (by simp at hts; omega) (resume_object frames) hrun
              fun hv hmore => ?_
            simp only [lexemes_cons, lexemes_nil, hopen, hkey, hcolon, List.cons_append,
              List.nil_append]
            exact .object hv hmore
      | moreElements =>
        rcases run_after_cases h with ⟨hclose, hrest⟩ | ⟨hcomma, hrun⟩
        · refine ⟨[t], ts, rfl, ?_, hrest⟩
          rw [lexemes_cons, hclose]
          exact .closeArray
        · refine hnested [t] ts hts (resume_array frames) hrun fun hv hmore => ?_
          simp only [lexemes_cons, lexemes_nil, hcomma, List.cons_append, List.nil_append]
          exact .element hv hmore
      | moreMembers =>
        rcases run_after_cases h with ⟨hclose, hrest⟩ | ⟨hcomma, hrun⟩
        · refine ⟨[t], ts, rfl, ?_, hrest⟩
          rw [lexemes_cons, hclose]
          exact .closeObject
        · obtain ⟨key, colon, us, name, rfl, hkey, hcolon, hrun⟩ := run_key_cases hrun
          refine hnested [t, key, colon] us (by simp at hts; omega) (resume_object frames) hrun
            fun hv hmore => ?_
          simp only [lexemes_cons, lexemes_nil, hcomma, hkey, hcolon, List.cons_append,
            List.nil_append]
          exact .member hv hmore

end Skip

/-- **What is passed over is a value of the grammar.** -/
theorem skip_eq_ok_iff {ts rest : List Token} :
    skip ts = .ok rest ↔ ∃ vs, ts = vs ++ rest ∧ IsValue (lexemes vs) := by
  constructor
  · intro h
    have hrun : Skip.run (.before [] .value) ts = .ok rest := h
    obtain ⟨vs, us, rfl, hvs, hus⟩ := Skip.begins_of_run _ (Nat.le_refl _) hrun
    cases hus
    exact ⟨vs, rfl, hvs⟩
  · rintro ⟨vs, rfl, hvs⟩
    exact Skip.run_of_derives hvs rfl [] rest

end OrderRelay.Json
