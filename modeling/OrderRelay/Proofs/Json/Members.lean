import OrderRelay.Json.Reader
import OrderRelay.Proofs.Json.Grammar

/-!
# What objects hold

An object is a list of members, each a name and the lexemes of a value. Which slots it
fills does not depend on how its tokens are laid out: a member of a shape is filled by
the one value that goes by one of its names, and every other value only has to be one.

* `Spelled`: kinds whose values are told by their lexemes.
* `Fills`: the slots that members fill, one member of the shape after another.
* `readMembers_eq_ok_iff`: the reader fills slots as it goes.
* `Entry`, `entryLexemes_inj`: members whose names may be flawed, which no reader takes.
-/

namespace OrderRelay.Json

/-! ## Values -/

/-- **Kinds whose values are told by their lexemes.** -/
class Spelled (κ : Type) [Kinds κ] [Readable κ] where
  /-- The lexemes that spell a value. -/
  Spells : (k : κ) → List Lexeme → Carrier k → Prop
  read_eq_ok_iff : ∀ {k : κ} {ts rest : List Token} {v : Carrier k},
    Readable.read k ts = .ok (v, rest) ↔ ∃ vs, ts = vs ++ rest ∧ Spells k (lexemes vs) v
  isValue : ∀ {k : κ} {ls : List Lexeme} {v : Carrier k}, Spells k ls v → IsValue ls
  /-- The word null spells nothing. -/
  not_null : ∀ {k : κ} {ls : List Lexeme} {v : Carrier k}, ¬Spells k (.null :: ls) v

/-- Tokens of these lexemes, wherever they stand. -/
def placed (ls : List Lexeme) : List Token := ls.map fun l => ⟨l, 0, 0, 0⟩

theorem lexemes_placed (ls : List Lexeme) : lexemes (placed ls) = ls := by
  simp [lexemes, placed, Function.comp_def]

theorem placed_append (ls ms : List Lexeme) : placed (ls ++ ms) = placed ls ++ placed ms :=
  List.map_append

/-- A value is what is passed over up to its end, wherever its tokens stand. -/
theorem IsValue.skip_placed {vs : List Lexeme} (h : IsValue vs) (rest : List Lexeme) :
    skip (placed (vs ++ rest)) = .ok (placed rest) := by
  rw [placed_append]
  exact skip_eq_ok_iff.2 ⟨placed vs, rfl, by rwa [lexemes_placed]⟩

theorem isValue_iff_skip {ls : List Lexeme} : IsValue ls ↔ skip (placed ls) = .ok [] := by
  constructor
  · intro h
    have hskip := h.skip_placed []
    rwa [List.append_nil] at hskip
  · intro h
    obtain ⟨vs, hvs, hvalue⟩ := skip_eq_ok_iff.1 h
    rwa [← List.append_nil vs, ← hvs, lexemes_placed] at hvalue

/-- A value ends where it ends, whatever comes after it. -/
theorem IsValue.append_inj {vs vs' rest rest' : List Lexeme} (hv : IsValue vs) (hv' : IsValue vs')
    (h : vs ++ rest = vs' ++ rest') : vs = vs' ∧ rest = rest' := by
  -- any tokens with these lexemes are passed over, and up to one place only
  have hrest : rest = rest' := by
    have hsame := hv.skip_placed rest
    rw [h, hv'.skip_placed rest', Except.ok.injEq] at hsame
    rw [← lexemes_placed rest, ← lexemes_placed rest', hsame]
  subst hrest
  exact ⟨List.append_cancel_right h, rfl⟩

section Slots

variable {κ : Type} [Kinds κ] [Readable κ] [Spelled κ] {absence : Absence}

/-- The lexemes that put something into a slot. -/
def SpellsSlot (absence : Absence) (k : κ) (ls : List Lexeme) : Slot (Carrier k) → Prop
  | .absent => False
  | .null => absence = .byNull ∧ ls = [.null]
  | .given v => Spelled.Spells k ls v

theorem SpellsSlot.isValue {k : κ} {ls : List Lexeme} {slot : Slot (Carrier k)}
    (h : SpellsSlot absence k ls slot) : IsValue ls := by
  cases slot with
  | absent => exact h.elim
  | null =>
    obtain ⟨-, rfl⟩ := h
    exact .word rfl
  | given v => exact Spelled.isValue h

omit [Spelled κ] in
/-- The word null is looked for before a value is. -/
theorem readSlot_null {k : κ} {t : Token} {ts : List Token} (ht : t.lexeme = .null) :
    readSlot .byNull k (t :: ts) = .ok (.null, ts) := by
  obtain ⟨l, start, stop, next⟩ := t
  obtain rfl : l = .null := ht
  rfl

omit [Spelled κ] in
theorem readSlot_given {k : κ} {ts : List Token}
    (h : ¬(absence = .byNull ∧ ∃ t us, ts = t :: us ∧ t.lexeme = .null)) :
    readSlot absence k ts = (Readable.read k ts).map fun read => (.given read.1, read.2) := by
  unfold readSlot
  split
  · exact absurd ⟨rfl, _, _, rfl, rfl⟩ h
  · cases Readable.read k ts <;> rfl

/-- What begins with the word null puts no value into a slot. -/
theorem SpellsSlot.eq_null {k : κ} {t : Token} {vs : List Token} {slot : Slot (Carrier k)}
    (h : SpellsSlot absence k (lexemes (t :: vs)) slot) (ht : t.lexeme = .null) :
    slot = .null ∧ vs = [] := by
  rw [lexemes_cons, ht] at h
  cases slot with
  | absent => exact h.elim
  | null =>
    obtain ⟨-, hone⟩ := h
    have hnil : lexemes vs = [] := (List.cons.inj hone).2
    exact ⟨rfl, lexemes_eq_nil.1 hnil⟩
  | given v => exact (Spelled.not_null h).elim

theorem readSlot_eq_ok_iff {k : κ} {ts rest : List Token} {slot : Slot (Carrier k)} :
    readSlot absence k ts = .ok (slot, rest) ↔
      ∃ vs, ts = vs ++ rest ∧ SpellsSlot absence k (lexemes vs) slot := by
  by_cases hnull : absence = .byNull ∧ ∃ t us, ts = t :: us ∧ t.lexeme = .null
  · obtain ⟨rfl, t, us, rfl, ht⟩ := hnull
    rw [readSlot_null ht]
    constructor
    · intro h
      cases h
      have hword : lexemes [t] = [.null] := by rw [lexemes_cons, ht]; rfl
      exact ⟨[t], rfl, rfl, hword⟩
    · rintro ⟨vs, hvs, hslot⟩
      cases vs with
      | nil =>
        obtain ⟨l, more, hl, -⟩ := Skip.exists_cons_of_isValue hslot.isValue
        cases hl
      | cons v vs =>
        cases hvs
        obtain ⟨rfl, rfl⟩ := hslot.eq_null ht
        rfl
  · rw [readSlot_given hnull]
    constructor
    · intro h
      cases hread : Readable.read k ts with
      | error e =>
        rw [hread] at h
        cases h
      | ok read =>
        rw [hread] at h
        cases h
        exact Spelled.read_eq_ok_iff.1 hread
    · rintro ⟨vs, rfl, hslot⟩
      cases slot with
      | absent => exact hslot.elim
      | null =>
        obtain ⟨rfl, hone⟩ := hslot
        obtain ⟨t, us, rfl, ht, -⟩ := lexemes_eq_cons.1 hone
        exact absurd ⟨rfl, t, _, rfl, ht⟩ hnull
      | given v =>
        have hread : Readable.read k (vs ++ rest) = .ok (v, rest) :=
          Spelled.read_eq_ok_iff.2 ⟨vs, rfl, hslot⟩
        rw [hread]
        rfl

/-! ## Members -/

/-- What a member of this name puts into the slots: a value into the slot of the first
member of the shape that goes by the name, or nothing at all. -/
def Puts (absence : Absence) (name : String) (ls : List Lexeme) :
    (ms : List (Member κ)) → Slots ms → Slots ms → Prop
  | [], _, _ => IsValue ls
  | m :: ms, (slot, slots), (slot', slots') =>
    if m.names.contains name then
      slot = .absent ∧ SpellsSlot absence m.kind ls slot' ∧ slots' = slots
    else slot' = slot ∧ Puts absence name ls ms slots slots'

theorem Puts.isValue {name : String} {ls : List Lexeme} {ms : List (Member κ)}
    {slots slots' : Slots ms} (h : Puts absence name ls ms slots slots') : IsValue ls := by
  induction ms with
  | nil => exact h
  | cons m ms ih =>
    obtain ⟨slot, slots⟩ := slots
    obtain ⟨slot', slots'⟩ := slots'
    rw [Puts] at h
    split at h
    · exact h.2.1.isValue
    · exact ih h.2

theorem afterColon_eq_ok_iff {ts rest : List Token} :
    afterColon ts = .ok rest ↔ ∃ t, ts = t :: rest ∧ t.lexeme = .colon := by
  constructor
  · intro h
    cases ts with
    | nil => cases h
    | cons t ts =>
      obtain ⟨l, start, stop, next⟩ := t
      cases l with
      | colon => cases h; exact ⟨_, rfl, rfl⟩
      | _ => cases h
  · rintro ⟨t, rfl, hcolon⟩
    simp [afterColon, hcolon]

theorem Slot.isAbsent_iff {α : Type} {slot : Slot α} : slot.isAbsent = true ↔ slot = .absent := by
  cases slot <;> simp [Slot.isAbsent]

variable {key : Token} {name : String} {m : Member κ} {ms : List (Member κ)}
  {slot slot' : Slot (Carrier m.kind)} {slots slots' : Slots ms} {ts rest : List Token}

omit [Spelled κ] in
/-- A member that the shape does not have is passed over. -/
theorem readMember_unknown {none none' : Slots ([] : List (Member κ))} :
    readMember absence key name [] none ts = .ok (none', rest) ↔
      ∃ colon vs, ts = colon :: (vs ++ rest) ∧ colon.lexeme = .colon ∧ IsValue (lexemes vs) := by
  rw [readMember]
  constructor
  · intro h
    split at h
    · cases h
    · rename_i us hcolon
      obtain ⟨colon, rfl, hlexeme⟩ := afterColon_eq_ok_iff.1 hcolon
      split at h
      · cases h
      · rename_i hskip
        cases h
        obtain ⟨vs, rfl, hvs⟩ := skip_eq_ok_iff.1 hskip
        exact ⟨colon, vs, rfl, hlexeme, hvs⟩
  · rintro ⟨colon, vs, rfl, hlexeme, hvs⟩
    have hcolon : afterColon (colon :: (vs ++ rest)) = .ok (vs ++ rest) :=
      afterColon_eq_ok_iff.2 ⟨colon, rfl, hlexeme⟩
    have hskip : skip (vs ++ rest) = .ok rest := skip_eq_ok_iff.2 ⟨vs, rfl, hvs⟩
    rw [hcolon]
    simp only [hskip]
    rfl

/-- A member goes into its slot if nothing is there yet. -/
theorem readMember_own (hname : m.names.contains name = true) :
    readMember absence key name (m :: ms) (.absent, slots) ts = .ok ((slot', slots'), rest) ↔
      ∃ colon vs, ts = colon :: (vs ++ rest) ∧ colon.lexeme = .colon ∧
        SpellsSlot absence m.kind (lexemes vs) slot' ∧ slots' = slots := by
  have habsent : (Slot.absent : Slot (Carrier m.kind)).isAbsent = true := rfl
  rw [readMember, if_pos hname, if_pos habsent]
  constructor
  · intro h
    split at h
    · cases h
    · rename_i us hcolon
      obtain ⟨colon, rfl, hlexeme⟩ := afterColon_eq_ok_iff.1 hcolon
      split at h
      · cases h
      · rename_i hslot
        cases h
        obtain ⟨vs, rfl, hvs⟩ := readSlot_eq_ok_iff.1 (within_eq_ok.1 hslot)
        exact ⟨colon, vs, rfl, hlexeme, hvs, rfl⟩
  · rintro ⟨colon, vs, rfl, hlexeme, hvs, rfl⟩
    have hcolon : afterColon (colon :: (vs ++ rest)) = .ok (vs ++ rest) :=
      afterColon_eq_ok_iff.2 ⟨colon, rfl, hlexeme⟩
    have hslot : within (.member name) (readSlot absence m.kind (vs ++ rest)) = .ok (slot', rest) :=
      within_eq_ok.2 (readSlot_eq_ok_iff.2 ⟨vs, rfl, hvs⟩)
    rw [hcolon]
    simp only [hslot]

omit [Spelled κ] in
/-- A second value for a member is refused. -/
theorem readMember_taken (hname : m.names.contains name = true) (htaken : slot ≠ .absent)
    {read : Slots (m :: ms) × List Token} :
    readMember absence key name (m :: ms) (slot, slots) ts ≠ .ok read := by
  have hslot : ¬slot.isAbsent = true := mt Slot.isAbsent_iff.1 htaken
  rw [readMember, if_pos hname, if_neg hslot]
  intro h
  cases h

omit [Spelled κ] in
/-- A member that goes by another name leaves the slot alone. -/
theorem readMember_other (hname : ¬m.names.contains name = true) :
    readMember absence key name (m :: ms) (slot, slots) ts = .ok ((slot', slots'), rest) ↔
      slot' = slot ∧ readMember absence key name ms slots ts = .ok (slots', rest) := by
  rw [readMember, if_neg hname]
  cases readMember absence key name ms slots ts with
  | error e => simp
  | ok read =>
    constructor
    · intro h
      cases h
      exact ⟨rfl, rfl⟩
    · rintro ⟨rfl, h⟩
      cases h
      rfl

/-- **The reader puts one member into its slot.** -/
theorem readMember_eq_ok_iff :
    readMember absence key name ms slots ts = .ok (slots', rest) ↔
      ∃ colon vs, ts = colon :: (vs ++ rest) ∧ colon.lexeme = .colon ∧
        Puts absence name (lexemes vs) ms slots slots' := by
  induction ms with
  | nil => exact readMember_unknown
  | cons m ms ih =>
    obtain ⟨slot, slots⟩ := slots
    obtain ⟨slot', slots'⟩ := slots'
    simp only [Puts]
    by_cases hname : m.names.contains name = true
    · simp only [if_pos hname]
      by_cases habsent : slot = .absent
      · subst habsent
        rw [readMember_own hname]
        simp
      · refine iff_of_false (readMember_taken hname habsent) ?_
        rintro ⟨colon, vs, -, -, hempty, -⟩
        exact habsent hempty
    · simp only [if_neg hname]
      rw [readMember_other hname, ih]
      constructor
      · rintro ⟨rfl, colon, vs, hts, hcolon, hputs⟩
        exact ⟨colon, vs, hts, hcolon, rfl, hputs⟩
      · rintro ⟨colon, vs, hts, hcolon, rfl, hputs⟩
        exact ⟨rfl, colon, vs, hts, hcolon, hputs⟩

/-- The comma in front of all but the first part of an object or array. -/
def lead (first : Bool) : List Lexeme := if first then [] else [.comma]

/-- The lexemes of members, up to the end of their object. -/
def memberLexemes (first : Bool) : List (String × List Lexeme) → List Lexeme
  | [] => [.closeObject]
  | (name, ls) :: es => lead first ++ .text (.ok name) :: .colon :: (ls ++ memberLexemes false es)

theorem named_eq_ok_iff {t key : Token} {ts rest : List Token}
    {name : String} : nextMember?.named t ts = .ok (some (name, key, rest)) ↔
      key = t ∧ rest = ts ∧ t.lexeme = .text (.ok name) := by
  unfold nextMember?.named here
  split <;> simp_all [eq_comm, and_comm, and_left_comm]

theorem named_ne_none {t : Token} {ts : List Token} : nextMember?.named t ts ≠ .ok none := by
  unfold nextMember?.named here
  split <;> simp

/-- There is no further member exactly at the end of the object. -/
theorem nextMember?_eq_none_iff {first : Bool} {ts : List Token} :
    nextMember? first ts = .ok none ↔ ∃ t us, ts = t :: us ∧ t.lexeme = .closeObject := by
  constructor
  · intro h
    cases ts with
    | nil => cases h
    | cons t ts =>
      simp only [nextMember?] at h
      split at h
      · rename_i hclose
        exact ⟨t, ts, rfl, hclose⟩
      · exact absurd h named_ne_none
      · split at h
        · cases h
        · split at h
          · cases h
          · exact absurd h named_ne_none
      · cases h
  · rintro ⟨⟨l, start, stop, next⟩, us, rfl, hclose⟩
    obtain rfl : l = .closeObject := hclose
    rfl

/-- The name of the next member stands behind a comma, unless it is the first. -/
theorem nextMember?_eq_some_iff {first : Bool} {ts rest : List Token} {key : Token} {name : String} :
    nextMember? first ts = .ok (some (name, key, rest)) ↔
      ∃ us, ts = us ++ key :: rest ∧ lexemes us = lead first ∧ key.lexeme = .text (.ok name) := by
  constructor
  · intro h
    cases ts with
    | nil => cases h
    | cons t ts =>
      simp only [nextMember?] at h
      split at h
      · cases h
      · obtain ⟨rfl, rfl, hname⟩ := named_eq_ok_iff.1 h
        exact ⟨[], rfl, rfl, hname⟩
      · rename_i hcomma
        split at h
        · cases h
        · split at h
          · cases h
          · obtain ⟨rfl, rfl, hname⟩ := named_eq_ok_iff.1 h
            exact ⟨[t], rfl, by rw [lexemes_cons, hcomma]; rfl, hname⟩
      · cases h
  · rintro ⟨us, rfl, hus, hname⟩
    have hnamed : nextMember?.named key rest = .ok (some (name, key, rest)) :=
      named_eq_ok_iff.2 ⟨rfl, rfl, hname⟩
    obtain ⟨l, start, stop, next⟩ := key
    obtain rfl : l = .text (.ok name) := hname
    cases first with
    | true =>
      obtain rfl := lexemes_eq_nil.1 hus
      exact hnamed
    | false =>
      obtain ⟨⟨l, _, _, _⟩, rfl, hcomma⟩ := lexemes_eq_singleton.1 hus
      obtain rfl : l = .comma := hcomma
      exact hnamed

/-- What several members put into the slots, one after another. -/
def PutsAll (absence : Absence) (ms : List (Member κ)) :
    List (String × List Lexeme) → Slots ms → Slots ms → Prop
  | [], slots, slots' => slots' = slots
  | (name, ls) :: es, slots, slots' =>
    ∃ slots₁, Puts absence name ls ms slots slots₁ ∧ PutsAll absence ms es slots₁ slots'

omit [Spelled κ] in
theorem readMembers_close {ms : List (Member κ)} {first : Bool} {slots : Slots ms} {t : Token}
    {ts : List Token} (h : t.lexeme = .closeObject) :
    readMembers absence ms first slots (t :: ts) = .ok (slots, ts) := by
  have hnext : nextMember? first (t :: ts) = .ok none :=
    nextMember?_eq_none_iff.2 ⟨t, ts, rfl, h⟩
  rw [readMembers]
  split
  · rename_i he
    rw [hnext] at he; cases he
  · rfl
  · rename_i he
    rw [hnext] at he; cases he

omit [Spelled κ] in
theorem readMembers_member {ms : List (Member κ)} {first : Bool} {slots slots' : Slots ms}
    {name : String} {key : Token} {ts us rest : List Token}
    (hnext : nextMember? first ts = .ok (some (name, key, us)))
    (hmember : readMember absence key name ms slots us = .ok (slots', rest)) :
    readMembers absence ms first slots ts = readMembers absence ms false slots' rest := by
  rw [readMembers]
  split
  · rename_i he
    rw [hnext] at he; cases he
  · rename_i he
    rw [hnext] at he; cases he
  · rename_i he
    rw [hnext] at he; cases he
    split
    · rename_i he
      rw [hmember] at he; cases he
    · rename_i he
      rw [hmember] at he; cases he; rfl

/-- **The reader puts members into slots up to the end of the object.** -/
theorem readMembers_eq_ok_iff {ms : List (Member κ)} {first : Bool} {slots slots' : Slots ms}
    {ts rest : List Token} :
    readMembers absence ms first slots ts = .ok (slots', rest) ↔
      ∃ es vs, ts = vs ++ rest ∧ lexemes vs = memberLexemes first es ∧
        PutsAll absence ms es slots slots' := by
  constructor
  · intro h
    fun_induction readMembers absence ms first slots ts with
    | case1 => cases h
    | case2 first slots ts hnext =>
      obtain ⟨t, us, rfl, hclose⟩ := nextMember?_eq_none_iff.1 hnext
      cases h
      exact ⟨[], [t], rfl, by rw [lexemes_cons, hclose]; rfl, rfl⟩
    | case3 => cases h
    | case4 first slots ts name key ts' hnext slots₁ rest₁ hmember ih =>
      obtain ⟨us, rfl, hus, hname⟩ := nextMember?_eq_some_iff.1 hnext
      obtain ⟨colon, vs, rfl, hcolon, hputs⟩ := readMember_eq_ok_iff.1 hmember
      obtain ⟨es, ws, rfl, hws, hall⟩ := ih h
      refine ⟨(name, lexemes vs) :: es, us ++ key :: colon :: (vs ++ ws), by simp, ?_, slots₁, hputs,
        hall⟩
      simp only [lexemes_append, lexemes_cons, hus, hname, hcolon, hws, memberLexemes]
  · rintro ⟨es, vs, rfl, hvs, hall⟩
    induction es generalizing first slots vs with
    | nil =>
      obtain ⟨t, rfl, hclose⟩ := lexemes_eq_singleton.1 hvs
      obtain rfl := hall
      exact readMembers_close hclose
    | cons e es ih =>
      obtain ⟨name, ls⟩ := e
      obtain ⟨slots₁, hputs, hall⟩ := hall
      obtain ⟨us, ws, rfl, hus, hkey⟩ := lexemes_eq_append.1 hvs
      obtain ⟨key, ws, rfl, hname, hrest⟩ := lexemes_eq_cons.1 hkey
      obtain ⟨colon, ws, rfl, hcolon, hrest⟩ := lexemes_eq_cons.1 hrest
      obtain ⟨vs, ws, rfl, rfl, hws⟩ := lexemes_eq_append.1 hrest
      have hnext : nextMember? first (us ++ key :: colon :: (vs ++ ws) ++ rest) =
          .ok (some (name, key, colon :: (vs ++ (ws ++ rest)))) :=
        nextMember?_eq_some_iff.2 ⟨us, by simp, hus, hname⟩
      have hmember : readMember absence key name ms slots (colon :: (vs ++ (ws ++ rest))) =
          .ok (slots₁, ws ++ rest) :=
        readMember_eq_ok_iff.2 ⟨colon, vs, rfl, hcolon, hputs⟩
      rw [readMembers_member hnext hmember]
      exact ih ws hws hall

/-! ## What fills a slot -/

omit [Kinds κ] [Readable κ] [Spelled κ] in
/-- Whether a member goes by one of the names of a member of a shape. -/
def Member.owns (m : Member κ) (e : String × List Lexeme) : Bool := m.names.contains e.1

/-- The values that go by one of the names of a member of a shape. -/
def Member.valuesIn (m : Member κ) (es : List (String × List Lexeme)) : List (List Lexeme) :=
  (es.filter m.owns).map Prod.snd

/-- What values that all go for one slot make of it. A second value has no place. -/
def FillsSlot (absence : Absence) (k : κ) : List (List Lexeme) → Slot (Carrier k) →
    Slot (Carrier k) → Prop
  | [], slot, slot' => slot' = slot
  | [ls], slot, slot' => slot = .absent ∧ SpellsSlot absence k ls slot'
  | _, _, _ => False

/-- What the members of an object make of the slots of a shape. -/
def FillsFrom (absence : Absence) : (ms : List (Member κ)) → List (String × List Lexeme) →
    Slots ms → Slots ms → Prop
  | [], es, _, _ => ∀ e ∈ es, IsValue e.2
  | m :: ms, es, (slot, slots), (slot', slots') =>
    FillsSlot absence m.kind (m.valuesIn es) slot slot' ∧
      FillsFrom absence ms (es.filter fun e => !m.owns e) slots slots'

/-- **The slots that the members of an object fill.** -/
def Fills (absence : Absence) (ms : List (Member κ)) (es : List (String × List Lexeme))
    (slots : Slots ms) : Prop :=
  FillsFrom absence ms es (Slots.empty ms) slots

/-- One more value for a slot comes before all others. -/
theorem fillsSlot_cons_iff {k : κ} {ls : List Lexeme} {values : List (List Lexeme)}
    {slot slot' : Slot (Carrier k)} :
    FillsSlot absence k (ls :: values) slot slot' ↔
      ∃ slot₁, slot = .absent ∧ SpellsSlot absence k ls slot₁ ∧
        FillsSlot absence k values slot₁ slot' := by
  cases values with
  | nil =>
    constructor
    · rintro ⟨habsent, hls⟩
      exact ⟨slot', habsent, hls, rfl⟩
    · rintro ⟨slot₁, habsent, hls, hsame⟩
      obtain rfl : slot' = slot₁ := hsame
      exact ⟨habsent, hls⟩
  | cons v vs =>
    -- the slot is taken by the first value
    constructor
    · exact fun h => h.elim
    · rintro ⟨slot₁, -, hls, hmore⟩
      cases vs with
      | nil =>
        obtain ⟨rfl, -⟩ := hmore
        exact hls
      | cons => exact hmore

/-- **Putting members one after another** fills each slot with the value that goes for it. -/
theorem putsAll_iff {ms : List (Member κ)} {es : List (String × List Lexeme)}
    {slots slots' : Slots ms} :
    PutsAll absence ms es slots slots' ↔ FillsFrom absence ms es slots slots' := by
  induction ms generalizing es with
  | nil =>
    induction es with
    | nil => exact ⟨fun _ => by simp [FillsFrom], fun _ => rfl⟩
    | cons e es ih =>
      obtain ⟨name, ls⟩ := e
      simp only [FillsFrom, List.forall_mem_cons]
      constructor
      · rintro ⟨slots₁, hls, hall⟩
        exact ⟨hls, ih.1 hall⟩
      · rintro ⟨hls, hall⟩
        exact ⟨slots, hls, ih.2 hall⟩
  | cons m ms ihms =>
    induction es generalizing slots with
    | nil =>
      obtain ⟨slot, slots⟩ := slots
      obtain ⟨slot', slots'⟩ := slots'
      have hrest : PutsAll absence ms [] slots slots' ↔ FillsFrom absence ms [] slots slots' := ihms
      simp only [FillsFrom, Member.valuesIn, List.filter_nil, List.map_nil, FillsSlot, ← hrest]
      exact Prod.ext_iff
    | cons e es ih =>
      obtain ⟨name, ls⟩ := e
      obtain ⟨slot, slots⟩ := slots
      obtain ⟨slot', slots'⟩ := slots'
      have hputs : PutsAll absence (m :: ms) ((name, ls) :: es) (slot, slots) (slot', slots') ↔
          ∃ slot₁ slots₁, Puts absence name ls (m :: ms) (slot, slots) (slot₁, slots₁) ∧
            FillsSlot absence m.kind (m.valuesIn es) slot₁ slot' ∧
              FillsFrom absence ms (es.filter fun e => !m.owns e) slots₁ slots' := by
        constructor
        · rintro ⟨⟨slot₁, slots₁⟩, hfirst, hall⟩
          exact ⟨slot₁, slots₁, hfirst, ih.1 hall⟩
        · rintro ⟨slot₁, slots₁, hfirst, hall⟩
          exact ⟨(slot₁, slots₁), hfirst, ih.2 hall⟩
      rw [hputs]
      by_cases hname : m.owns (name, ls) = true
      · have hvalues : m.valuesIn ((name, ls) :: es) = ls :: m.valuesIn es := by
          simp [Member.valuesIn, hname]
        have hothers : ((name, ls) :: es).filter (fun e => !m.owns e) =
            es.filter fun e => !m.owns e := by
          simp [hname]
        simp only [FillsFrom, hvalues, hothers, fillsSlot_cons_iff, Puts,
          if_pos (show m.names.contains name = true from hname)]
        constructor
        · rintro ⟨slot₁, slots₁, ⟨habsent, hls, rfl⟩, hslot, hall⟩
          exact ⟨⟨slot₁, habsent, hls, hslot⟩, hall⟩
        · rintro ⟨⟨slot₁, habsent, hls, hslot⟩, hall⟩
          exact ⟨slot₁, slots, ⟨habsent, hls, rfl⟩, hslot, hall⟩
      · have hvalues : m.valuesIn ((name, ls) :: es) = m.valuesIn es := by
          simp [Member.valuesIn, hname]
        have hothers : ((name, ls) :: es).filter (fun e => !m.owns e) =
            (name, ls) :: es.filter fun e => !m.owns e := by
          simp [hname]
        simp only [FillsFrom, hvalues, hothers, ← ihms, PutsAll, Puts,
          if_neg (show ¬m.names.contains name = true from hname)]
        constructor
        · rintro ⟨slot₁, slots₁, ⟨rfl, hls⟩, hslot, hall⟩
          exact ⟨hslot, slots₁, hls, hall⟩
        · rintro ⟨hslot, slots₁, hls, hall⟩
          exact ⟨slot, slots₁, ⟨rfl, hls⟩, hslot, hall⟩

theorem fillsSlot_isValue {k : κ} {values : List (List Lexeme)} {slot slot' : Slot (Carrier k)}
    (h : FillsSlot absence k values slot slot') : ∀ ls ∈ values, IsValue ls := by
  match values, h with
  | [], _ => simp
  | [ls], h => simpa using h.2.isValue

/-- Every member of an object that fills slots has a value. -/
theorem FillsFrom.isValue {ms : List (Member κ)} {es : List (String × List Lexeme)}
    {slots slots' : Slots ms} (h : FillsFrom absence ms es slots slots') :
    ∀ e ∈ es, IsValue e.2 := by
  induction ms generalizing es with
  | nil => exact h
  | cons m ms ih =>
    obtain ⟨slot, slots⟩ := slots
    obtain ⟨slot', slots'⟩ := slots'
    obtain ⟨hslot, hall⟩ := h
    intro e he
    by_cases hname : m.owns e = true
    · exact fillsSlot_isValue hslot _ (List.mem_map_of_mem (List.mem_filter.2 ⟨he, hname⟩))
    · exact ih hall e (List.mem_filter.2 ⟨he, by simpa using hname⟩)

end Slots

/-! ## Members whose names may be flawed -/

/-- A member of an object: its name, if it is a text that says something, and what stands for its
value. -/
abbrev Entry := Option String × List Lexeme

/-- What stands for a name. -/
def nameLexeme : Option String → Lexeme
  | some name => .text (.ok name)
  | none => .text (.error (.unfinished .text))

theorem nameLexeme_inj {name name' : Option String} :
    nameLexeme name = nameLexeme name' ↔ name = name' := by
  cases name <;> cases name' <;> simp [nameLexeme]

/-- The lexemes of such members, up to the end of their object. -/
def entryLexemes (first : Bool) : List Entry → List Lexeme
  | [] => [.closeObject]
  | (name, ls) :: es => lead first ++ nameLexeme name :: .colon :: (ls ++ entryLexemes false es)

/-- The lexemes of members tell the members. -/
theorem entryLexemes_inj {first : Bool} {es es' : List Entry} (hes : ∀ e ∈ es, IsValue e.2)
    (hes' : ∀ e ∈ es', IsValue e.2) (h : entryLexemes first es = entryLexemes first es') :
    es = es' := by
  induction es generalizing first es' with
  | nil =>
    cases es' with
    | nil => rfl
    | cons e es' => cases first <;> simp [entryLexemes, lead, nameLexeme] at h
  | cons e es ih =>
    cases es' with
    | nil => cases first <;> simp [entryLexemes, lead] at h
    | cons e' es' =>
      obtain ⟨name, ls⟩ := e
      obtain ⟨name', ls'⟩ := e'
      simp only [entryLexemes, List.append_cancel_left_eq, List.cons.injEq, nameLexeme_inj,
        true_and] at h
      obtain ⟨rfl, h⟩ := h
      rw [List.forall_mem_cons] at hes hes'
      obtain ⟨rfl, hmore⟩ := IsValue.append_inj hes.1 hes'.1 h
      rw [ih hes.2 hes'.2 hmore]

/-- An object of values is a value. -/
theorem isValue_entries {es : List Entry} (h : ∀ e ∈ es, IsValue e.2) :
    IsValue (.openObject :: entryLexemes true es) := by
  have hname : ∀ name, ∃ content, nameLexeme name = .text content := by
    intro name
    cases name <;> exact ⟨_, rfl⟩
  have hmore : ∀ es : List Entry, (∀ e ∈ es, IsValue e.2) →
      Derives .moreMembers (entryLexemes false es) := by
    intro es h
    induction es with
    | nil => exact .closeObject
    | cons e es ih =>
      obtain ⟨name, ls⟩ := e
      rw [List.forall_mem_cons] at h
      obtain ⟨content, hcontent⟩ := hname name
      rw [entryLexemes, hcontent]
      exact .member h.1 (ih h.2)
  cases es with
  | nil => exact .emptyObject
  | cons e es =>
    obtain ⟨name, ls⟩ := e
    rw [List.forall_mem_cons] at h
    obtain ⟨content, hcontent⟩ := hname name
    rw [entryLexemes, hcontent]
    exact .object h.1 (hmore es h.2)

/-- Members whose names are not flawed. -/
theorem memberLexemes_eq_entryLexemes (first : Bool) (es : List (String × List Lexeme)) :
    memberLexemes first es = entryLexemes first (es.map (Prod.map some id)) := by
  induction es generalizing first with
  | nil => rfl
  | cons e es ih =>
    rw [memberLexemes, ih]
    rfl

end OrderRelay.Json
