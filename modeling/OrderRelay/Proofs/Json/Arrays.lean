import Mathlib.Data.Prod.Basic
import OrderRelay.Proofs.Json.Members

/-!
# What arrays hold

An array is a list of the lexemes of values. An array of one kind holds a value of that
kind at each place. An array that stands for an object holds the members of a shape in
their order, all of them unless those at the end have values of their own.

* `readElements_eq_ok_iff`: the reader of one kind takes each element.
* `FillsInOrder`: the slots that elements fill, one after another.
* `SpellsShape`: the lexemes of an object or array that stands for slots.
* `Shape.read_eq_ok_iff`, `readText_eq_ok_iff`: **what is read is what is spelled.**
* `HoldsObject`: the members of the object that a text holds.
-/

namespace OrderRelay.Json

/-- The lexemes of elements, up to the end of their array. -/
def elementLexemes (first : Bool) : List (List Lexeme) → List Lexeme
  | [] => [.closeArray]
  | ls :: items => lead first ++ (ls ++ elementLexemes false items)

/-! ## The next element -/

/-- There is no further element exactly at the end of the array. -/
theorem nextElement?_eq_none_iff {first : Bool} {ts : List Token} :
    nextElement? first ts = .ok none ↔ ∃ t us, ts = t :: us ∧ t.lexeme = .closeArray := by
  constructor
  · intro h
    cases ts with
    | nil => cases h
    | cons t ts =>
      simp only [nextElement?] at h
      split at h
      · rename_i hclose
        exact ⟨t, ts, rfl, hclose⟩
      · cases h
      · split at h
        · cases h
        · split at h <;> cases h
      · cases h
  · rintro ⟨⟨l, start, stop, next⟩, us, rfl, hclose⟩
    obtain rfl : l = .closeArray := hclose
    rfl

/-- The next element stands behind a comma, unless it is the first. -/
theorem nextElement?_eq_some_iff {first : Bool} {ts rest : List Token} :
    nextElement? first ts = .ok (some rest) ↔
      ∃ us, ts = us ++ rest ∧ lexemes us = lead first ∧
        ∃ t vs, rest = t :: vs ∧ t.lexeme ≠ .closeArray := by
  constructor
  · intro h
    cases ts with
    | nil => cases h
    | cons t ts =>
      simp only [nextElement?] at h
      split at h
      · cases h
      · rename_i hclose
        cases h
        exact ⟨[], rfl, rfl, t, ts, rfl, hclose⟩
      · rename_i hcomma
        split at h
        · cases h
        · rename_i u us
          split at h
          · cases h
          · rename_i hclose
            cases h
            exact ⟨[t], rfl, by rw [lexemes_cons, hcomma]; rfl, u, us, rfl, hclose⟩
      · cases h
  · rintro ⟨us, rfl, hus, ⟨l, start, stop, next⟩, vs, rfl, hclose⟩
    cases first with
    | true =>
      obtain rfl := lexemes_eq_nil.1 hus
      cases l <;> first | rfl | exact absurd rfl hclose
    | false =>
      obtain ⟨⟨l', _, _, _⟩, rfl, hcomma⟩ := lexemes_eq_singleton.1 hus
      obtain rfl : l' = .comma := hcomma
      cases l <;> first | rfl | exact absurd rfl hclose

/-- A value that comes next is an element. -/
theorem nextElement?_of_isValue {first : Bool} {us vs : List Token} (rest : List Token)
    (hus : lexemes us = lead first) (hvs : IsValue (lexemes vs)) :
    nextElement? first (us ++ (vs ++ rest)) = .ok (some (vs ++ rest)) := by
  obtain ⟨l, more, hl, hclose⟩ := Skip.exists_cons_of_isValue hvs
  obtain ⟨t, vs, rfl, rfl, -⟩ := lexemes_eq_cons.1 hl
  exact nextElement?_eq_some_iff.2 ⟨us, rfl, hus, t, vs ++ rest, rfl, hclose⟩

section Arrays

variable {κ : Type} [Kinds κ] [Readable κ] [Spelled κ] {absence : Absence}

/-! ## Elements of one kind -/

omit [Spelled κ] in
theorem readElements_close {k : κ} {n : ℕ} {acc : List (Carrier k)} {t : Token} {ts : List Token}
    (h : t.lexeme = .closeArray) : readElements k n acc (t :: ts) = .ok (acc.reverse, ts) := by
  have hnext : nextElement? (n == 0) (t :: ts) = .ok none :=
    nextElement?_eq_none_iff.2 ⟨t, ts, rfl, h⟩
  rw [readElements]
  split
  · rename_i he
    rw [hnext] at he; cases he
  · rfl
  · rename_i he
    rw [hnext] at he; cases he

omit [Spelled κ] in
theorem readElements_element {k : κ} {n : ℕ} {acc : List (Carrier k)} {v : Carrier k}
    {ts us rest : List Token} (hnext : nextElement? (n == 0) ts = .ok (some us))
    (hread : Readable.read k us = .ok (v, rest)) :
    readElements k n acc ts = readElements k (n + 1) (v :: acc) rest := by
  rw [readElements]
  split
  · rename_i he
    rw [hnext] at he; cases he
  · rename_i he
    rw [hnext] at he; cases he
  · rename_i he
    rw [hnext] at he; cases he
    split
    · rename_i he
      rw [hread] at he; cases he
    · rename_i he
      rw [hread] at he; cases he; rfl

/-- The lexemes of values of one kind, each at its place. -/
def SpellsAll (k : κ) : List (List Lexeme) → List (Carrier k) → Prop :=
  List.Forall₂ (Spelled.Spells k)

theorem SpellsAll.isValue {k : κ} {items : List (List Lexeme)} {vs : List (Carrier k)}
    (h : SpellsAll k items vs) : ∀ ls ∈ items, IsValue ls := by
  induction h with
  | nil => simp
  | cons hls _ ih =>
    rw [List.forall_mem_cons]
    exact ⟨Spelled.isValue hls, ih⟩

/-- **The reader of one kind takes each element** up to the end of the array. -/
theorem readElements_eq_ok_iff {k : κ} {n : ℕ} {acc vs : List (Carrier k)} {ts rest : List Token} :
    readElements k n acc ts = .ok (vs, rest) ↔
      ∃ items us news, ts = us ++ rest ∧ lexemes us = elementLexemes (n == 0) items ∧
        SpellsAll k items news ∧ vs = acc.reverse ++ news := by
  constructor
  · -- along the reader, which takes one element at each step
    intro h
    fun_induction readElements k n acc ts with
    | case1 => cases h
    | case2 n acc ts hnext =>
      obtain ⟨t, us, rfl, hclose⟩ := nextElement?_eq_none_iff.1 hnext
      cases h
      exact ⟨[], [t], [], rfl, by rw [lexemes_cons, hclose]; rfl, .nil, by simp⟩
    | case3 => cases h
    | case4 n acc ts ts' hnext v rest₁ hread ih =>
      obtain ⟨us, rfl, hus, -⟩ := nextElement?_eq_some_iff.1 hnext
      obtain ⟨ws, rfl, hws⟩ := Spelled.read_eq_ok_iff.1 hread
      obtain ⟨items, xs, news, rfl, hxs, hall, rfl⟩ := ih h
      refine ⟨lexemes ws :: items, us ++ (ws ++ xs), v :: news, by simp, ?_, .cons hws hall, by simp⟩
      rw [lexemes_append, lexemes_append, hus, hxs]
      rfl
  · rintro ⟨items, us, news, rfl, hus, hall, rfl⟩
    induction hall generalizing n acc us with
    | nil =>
      obtain ⟨t, rfl, hclose⟩ := lexemes_eq_singleton.1 hus
      rw [List.append_nil]
      exact readElements_close hclose
    | @cons ls v items news hls _ ih =>
      obtain ⟨xs, ys, rfl, hxs, hys⟩ := lexemes_eq_append.1 hus
      obtain ⟨vs, ws, rfl, rfl, hws⟩ := lexemes_eq_append.1 hys
      have hnext : nextElement? (n == 0) (xs ++ (vs ++ ws) ++ rest) =
          .ok (some (vs ++ (ws ++ rest))) := by
        rw [List.append_assoc, List.append_assoc]
        exact nextElement?_of_isValue _ hxs (Spelled.isValue hls)
      rw [readElements_element hnext (Spelled.read_eq_ok_iff.2 ⟨vs, rfl, hls⟩),
        ih (n := n + 1) ws hws]
      simp

/-- An array of values is a value. -/
theorem isValue_array {items : List (List Lexeme)} (h : ∀ ls ∈ items, IsValue ls) :
    IsValue (.openArray :: elementLexemes true items) := by
  have hmore : ∀ items : List (List Lexeme), (∀ ls ∈ items, IsValue ls) →
      Derives .moreElements (elementLexemes false items) := by
    intro items h
    induction items with
    | nil => exact .closeArray
    | cons ls items ih =>
      rw [List.forall_mem_cons] at h
      exact Derives.element h.1 (v := ls) (ih h.2)
  cases items with
  | nil => exact .emptyArray
  | cons ls items =>
    rw [List.forall_mem_cons] at h
    exact Derives.array (v := ls) h.1 (hmore items h.2)

/-- An object of values is a value. -/
theorem isValue_object {es : List (String × List Lexeme)} (h : ∀ e ∈ es, IsValue e.2) :
    IsValue (.openObject :: memberLexemes true es) := by
  rw [memberLexemes_eq_entryLexemes]
  exact isValue_entries (List.forall_mem_map.2 h)

/-- A bracket is neither a comma nor the beginning of a value. -/
theorem elementLexemes_cons_ne {first : Bool} {ls more : List Lexeme} {items : List (List Lexeme)}
    (h : IsValue ls) : elementLexemes first (ls :: items) ≠ .closeArray :: more := by
  obtain ⟨l, rest, rfl, hclose⟩ := Skip.exists_cons_of_isValue h
  intro heq
  cases first with
  | true => exact hclose (List.cons.inj heq).1
  | false => cases heq

/-- The lexemes of elements tell the elements. -/
theorem elementLexemes_inj {first : Bool} {items items' : List (List Lexeme)}
    (hitems : ∀ ls ∈ items, IsValue ls) (hitems' : ∀ ls ∈ items', IsValue ls)
    (h : elementLexemes first items = elementLexemes first items') : items = items' := by
  induction items generalizing first items' with
  | nil =>
    cases items' with
    | nil => rfl
    | cons ls items' =>
      exact absurd h.symm (elementLexemes_cons_ne (List.forall_mem_cons.1 hitems').1)
  | cons ls items ih =>
    rw [List.forall_mem_cons] at hitems
    cases items' with
    | nil => exact absurd h (elementLexemes_cons_ne hitems.1)
    | cons ls' items' =>
      rw [List.forall_mem_cons] at hitems'
      simp only [elementLexemes, List.append_cancel_left_eq] at h
      obtain ⟨rfl, hmore⟩ := IsValue.append_inj hitems.1 hitems'.1 h
      rw [ih hitems.2 hitems'.2 hmore]

/-! ## Elements in place of members -/

/-- **The slots that elements fill**, one after another. -/
def FillsInOrder (absence : Absence) : (ms : List (Member κ)) → List (List Lexeme) →
    Slots ms → Prop
  | [], items, _ => items = []
  | m :: ms, [], slots => absence = .byDefault ∧ slots = Slots.empty (m :: ms)
  | m :: ms, ls :: items, (slot, slots) =>
    SpellsSlot absence m.kind ls slot ∧ FillsInOrder absence ms items slots

theorem FillsInOrder.isValue {ms : List (Member κ)} {items : List (List Lexeme)} {slots : Slots ms}
    (h : FillsInOrder absence ms items slots) : ∀ ls ∈ items, IsValue ls := by
  induction ms generalizing items with
  | nil =>
    obtain rfl : items = [] := h
    simp
  | cons m ms ih =>
    cases items with
    | nil => simp
    | cons ls items =>
      obtain ⟨slot, slots⟩ := slots
      rw [List.forall_mem_cons]
      exact ⟨h.1.isValue, ih h.2⟩

theorem endArray_eq_ok_iff {ts rest : List Token} :
    endArray ts = .ok rest ↔ ∃ t, ts = t :: rest ∧ t.lexeme = .closeArray := by
  constructor
  · intro h
    cases ts with
    | nil => cases h
    | cons t ts =>
      simp only [endArray] at h
      split at h
      · rename_i hclose
        cases h
        exact ⟨t, rfl, hclose⟩
      · cases h
      · split at h <;> cases h
      · cases h
  · rintro ⟨⟨l, start, stop, next⟩, rfl, hclose⟩
    obtain rfl : l = .closeArray := hclose
    rfl

variable {n : ℕ} {m : Member κ} {ms : List (Member κ)} {ts us rest : List Token}

omit [Spelled κ] in
/-- An array that ends early leaves the members that are left to their own values, if they have
any. -/
theorem readPositions_end {slots : Slots (m :: ms)} (hnext : nextElement? (n == 0) ts = .ok none) :
    readPositions absence n (m :: ms) ts = .ok (.slots slots, us) ↔
      absence = .byDefault ∧ slots = Slots.empty (m :: ms) ∧ us = ts := by
  simp only [readPositions, hnext]
  cases absence with
  | byNull => simp
  | byDefault => simp [eq_comm]

/-- The next element goes into the next slot. -/
theorem readPositions_element {slot : Slot (Carrier m.kind)} {slots : Slots ms}
    (hnext : nextElement? (n == 0) ts = .ok (some us)) :
    readPositions absence n (m :: ms) ts = .ok (.slots (slot, slots), rest) ↔
      ∃ vs ws, us = vs ++ ws ∧ SpellsSlot absence m.kind (lexemes vs) slot ∧
        readPositions absence (n + 1) ms ws = .ok (.slots slots, rest) := by
  simp only [readPositions, hnext]
  constructor
  · intro h
    split at h
    · cases h
    · rename_i ws hslot
      obtain ⟨vs, rfl, hvs⟩ := readSlot_eq_ok_iff.1 (within_eq_ok.1 hslot)
      split at h
      · cases h
      · cases h
      · rename_i hrest
        cases h
        exact ⟨vs, ws, rfl, hvs, hrest⟩
  · rintro ⟨vs, ws, rfl, hvs, hrest⟩
    have hslot : within (.index n) (readSlot absence m.kind (vs ++ ws)) = .ok (slot, ws) :=
      within_eq_ok.2 (readSlot_eq_ok_iff.2 ⟨vs, rfl, hvs⟩)
    simp only [hslot, hrest]

/-- The reader of members in their order stops in front of the end of the array. -/
theorem readPositions_eq_ok_iff {slots : Slots ms} :
    (∃ us, readPositions absence n ms ts = .ok (.slots slots, us) ∧ endArray us = .ok rest) ↔
      ∃ items vs, ts = vs ++ rest ∧ lexemes vs = elementLexemes (n == 0) items ∧
        FillsInOrder absence ms items slots := by
  -- on the members of the shape: the array may end in front of each of them
  induction ms generalizing n ts with
  | nil =>
    simp only [readPositions, endArray_eq_ok_iff, FillsInOrder]
    constructor
    · rintro ⟨us, h, t, rfl, hclose⟩
      cases h
      exact ⟨[], [t], rfl, by rw [lexemes_cons, hclose]; rfl, rfl⟩
    · rintro ⟨items, vs, rfl, hvs, rfl⟩
      obtain ⟨t, rfl, hclose⟩ := lexemes_eq_singleton.1 hvs
      exact ⟨_, rfl, t, rfl, hclose⟩
  | cons m ms ih =>
    constructor
    · rintro ⟨us, h, hend⟩
      cases hnext : nextElement? (n == 0) ts with
      | error e => simp only [readPositions, hnext] at h; cases h
      | ok next =>
        cases next with
        | none =>
          obtain ⟨rfl, rfl, rfl⟩ := (readPositions_end hnext).1 h
          obtain ⟨t, rfl, hclose⟩ := endArray_eq_ok_iff.1 hend
          exact ⟨[], [t], rfl, by rw [lexemes_cons, hclose]; rfl, rfl, rfl⟩
        | some ys =>
          obtain ⟨slot, slots⟩ := slots
          obtain ⟨xs, rfl, hxs, -⟩ := nextElement?_eq_some_iff.1 hnext
          obtain ⟨vs, ws, rfl, hvs, hrest⟩ := (readPositions_element hnext).1 h
          obtain ⟨items, zs, rfl, hzs, hfills⟩ := ih.1 ⟨us, hrest, hend⟩
          refine ⟨lexemes vs :: items, xs ++ (vs ++ zs), by simp, ?_, hvs, hfills⟩
          rw [lexemes_append, lexemes_append, hxs, hzs]
          rfl
    · rintro ⟨items, vs, rfl, hvs, hfills⟩
      cases items with
      | nil =>
        obtain ⟨rfl, rfl⟩ := hfills
        obtain ⟨t, rfl, hclose⟩ := lexemes_eq_singleton.1 hvs
        have hnext : nextElement? (n == 0) ([t] ++ rest) = .ok none :=
          nextElement?_eq_none_iff.2 ⟨t, rest, rfl, hclose⟩
        exact ⟨_, (readPositions_end hnext).2 ⟨rfl, rfl, rfl⟩,
          endArray_eq_ok_iff.2 ⟨t, rfl, hclose⟩⟩
      | cons ls items =>
        obtain ⟨slot, slots⟩ := slots
        obtain ⟨hslot, hfills⟩ := hfills
        obtain ⟨xs, ys, rfl, hxs, hys⟩ := lexemes_eq_append.1 hvs
        obtain ⟨vs, ws, rfl, rfl, hws⟩ := lexemes_eq_append.1 hys
        obtain ⟨us, hrest, hend⟩ := (ih (n := n + 1)).2 ⟨items, ws, rfl, hws, hfills⟩
        have hnext : nextElement? (n == 0) (xs ++ (vs ++ ws) ++ rest) =
            .ok (some (vs ++ (ws ++ rest))) := by
          rw [List.append_assoc, List.append_assoc]
          exact nextElement?_of_isValue _ hxs hslot.isValue
        exact ⟨us, (readPositions_element hnext).2 ⟨vs, ws ++ rest, rfl, hslot, hrest⟩, hend⟩

/-! ## Objects and arrays -/

/-- **The lexemes that stand for slots**: those of an object, or those of an array. -/
inductive SpellsShape (s : Shape κ) : List Lexeme → Slots s.members → Prop where
  | object {es : List (String × List Lexeme)} {slots : Slots s.members}
      (h : Fills s.absence s.members es slots) :
      SpellsShape s (.openObject :: memberLexemes true es) slots
  | array {items : List (List Lexeme)} {slots : Slots s.members}
      (h : FillsInOrder s.absence s.members items slots) :
      SpellsShape s (.openArray :: elementLexemes true items) slots

theorem SpellsShape.isValue {s : Shape κ} {ls : List Lexeme} {slots : Slots s.members}
    (h : SpellsShape s ls slots) : IsValue ls := by
  cases h with
  | object h => exact isValue_object h.isValue
  | array h => exact isValue_array h.isValue

/-- An object is read by its members. -/
theorem Shape.read_object {s : Shape κ} {t : Token} {slots : Slots s.members}
    (hopen : t.lexeme = .openObject) : s.read (t :: ts) = .ok (slots, rest) ↔
      ∃ es vs, ts = vs ++ rest ∧ lexemes vs = memberLexemes true es ∧
        Fills s.absence s.members es slots := by
  have hread : s.read (t :: ts) =
      readMembers s.absence s.members true (Slots.empty s.members) ts := by
    obtain ⟨l, start, stop, next⟩ := t
    obtain rfl : l = .openObject := hopen
    rfl
  rw [hread, readMembers_eq_ok_iff]
  simp only [putsAll_iff]
  rfl

/-- An array is read by its elements, all of them. -/
theorem Shape.read_array {s : Shape κ} {t : Token} {slots : Slots s.members}
    (hopen : t.lexeme = .openArray) : s.read (t :: ts) = .ok (slots, rest) ↔
      ∃ items vs, ts = vs ++ rest ∧ lexemes vs = elementLexemes true items ∧
        FillsInOrder s.absence s.members items slots := by
  obtain ⟨l, start, stop, next⟩ := t
  obtain rfl : l = .openArray := hopen
  have hread : s.read (⟨.openArray, start, stop, next⟩ :: ts) = .ok (slots, rest) ↔
      ∃ us, readPositions s.absence 0 s.members ts = .ok (.slots slots, us) ∧
        endArray us = .ok rest := by
    simp only [Shape.read]
    constructor
    · intro h
      split at h
      · cases h
      · rename_i found us hfound
        split at h
        · rename_i hend
          cases h
          exact ⟨us, hfound, hend⟩
        · cases h
        · cases h
    · rintro ⟨us, hfound, hend⟩
      simp only [hfound, hend]
  exact hread.trans (readPositions_eq_ok_iff (n := 0))

omit [Spelled κ] in
/-- Nothing else is read. -/
theorem Shape.lexeme_of_read {s : Shape κ} {t : Token} {slots : Slots s.members}
    (h : s.read (t :: ts) = .ok (slots, rest)) :
    t.lexeme = .openObject ∨ t.lexeme = .openArray := by
  rw [Shape.read] at h
  split at h
  · rename_i hopen
    exact .inl hopen
  · rename_i hopen
    exact .inr hopen
  · cases h

/-- **What is read is what is spelled.** -/
theorem Shape.read_eq_ok_iff {s : Shape κ} {ts rest : List Token} {slots : Slots s.members} :
    s.read ts = .ok (slots, rest) ↔ ∃ vs, ts = vs ++ rest ∧ SpellsShape s (lexemes vs) slots := by
  constructor
  · intro h
    cases ts with
    | nil => cases h
    | cons t ts =>
      rcases Shape.lexeme_of_read h with hopen | hopen
      · obtain ⟨es, vs, rfl, hvs, hfills⟩ := (Shape.read_object hopen).1 h
        refine ⟨t :: vs, rfl, ?_⟩
        rw [lexemes_cons, hopen, hvs]
        exact .object hfills
      · obtain ⟨items, vs, rfl, hvs, hfills⟩ := (Shape.read_array hopen).1 h
        refine ⟨t :: vs, rfl, ?_⟩
        rw [lexemes_cons, hopen, hvs]
        exact .array hfills
  · rintro ⟨vs, rfl, h⟩
    generalize hls : lexemes vs = ls at h
    cases h with
    | object hfills =>
      obtain ⟨t, us, rfl, hopen, hus⟩ := lexemes_eq_cons.1 hls
      exact (Shape.read_object hopen).2 ⟨_, us, rfl, hus, hfills⟩
    | array hfills =>
      obtain ⟨t, us, rfl, hopen, hus⟩ := lexemes_eq_cons.1 hls
      exact (Shape.read_array hopen).2 ⟨_, us, rfl, hus, hfills⟩

/-- **A text is read as what its lexemes stand for.** -/
theorem readText_eq_ok_iff {s : Shape κ} {text : Bytes} {slots : Slots s.members} :
    s.readText text = .ok slots ↔ SpellsShape s (lexemes (tokens text)) slots := by
  unfold Shape.readText
  constructor
  · intro h
    split at h
    · cases h
    · rename_i hread
      cases h
      obtain ⟨vs, hvs, hspells⟩ := Shape.read_eq_ok_iff.1 hread
      rwa [hvs, List.append_nil]
    · cases h
  · intro h
    rw [Shape.read_eq_ok_iff.2 ⟨_, (List.append_nil _).symm, h⟩]

/-! ## Texts that hold an object -/

/-- A name that is not flawed is still told apart. -/
theorem injective_named :
    Function.Injective (Prod.map some id : String × List Lexeme → Entry) :=
  Function.Injective.prodMap (fun _ _ h => Option.some.inj h) Function.injective_id

/-- The lexemes of members tell the members. -/
theorem memberLexemes_inj {first : Bool} {es es' : List (String × List Lexeme)}
    (hes : ∀ e ∈ es, IsValue e.2) (hes' : ∀ e ∈ es', IsValue e.2)
    (h : memberLexemes first es = memberLexemes first es') : es = es' := by
  rw [memberLexemes_eq_entryLexemes, memberLexemes_eq_entryLexemes] at h
  exact List.map_injective_iff.2 injective_named
    (entryLexemes_inj (List.forall_mem_map.2 hes) (List.forall_mem_map.2 hes') h)

/-- The members of the object that a text holds. -/
def HoldsObject (text : Bytes) (es : List (String × List Lexeme)) : Prop :=
  lexemes (tokens text) = .openObject :: memberLexemes true es ∧ ∀ e ∈ es, IsValue e.2

/-- **A text that holds an object stands for what its members fill.** -/
theorem HoldsObject.spellsShape_iff {text : Bytes} {es : List (String × List Lexeme)}
    (h : HoldsObject text es) {s : Shape κ} {slots : Slots s.members} :
    SpellsShape s (lexemes (tokens text)) slots ↔ Fills s.absence s.members es slots := by
  rw [h.1]
  constructor
  · -- the members of an object are told by its lexemes
    intro hspells
    generalize hls : Lexeme.openObject :: memberLexemes true es = ls at hspells
    cases hspells with
    | object hfills =>
      rw [List.cons.injEq] at hls
      obtain rfl := memberLexemes_inj h.2 hfills.isValue hls.2
      exact hfills
    | array => cases hls
  · exact SpellsShape.object

end Arrays

end OrderRelay.Json
