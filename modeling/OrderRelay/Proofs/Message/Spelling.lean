import OrderRelay.Message.Json
import OrderRelay.Proofs.Json.Arrays

/-!
# How values of messages are spelled in JSON

A single value is one lexeme. A record is an object of its fields, or an array of them in
their order, and a list is an array of records.

* `Scalar.ofLexeme?`: the single value that one lexeme spells.
* `givenIn_of_spellsShape`: each value that a text gives stands in the text.
* `Schema.Spells`, `Kind.Spells`: the lexemes of records, and of the values of fields.
* `Record.ofText_eq_ok_iff`: **the record that a text holds.**
-/

namespace OrderRelay

open Json

namespace Scalar

/-- The value that a lexeme spells. -/
def ofLexeme? : (s : Scalar) → Lexeme → Option (Carrier s)
  | .text, .text (.ok content) => some content
  | .double, .number l =>
    match l.number with
    | .ok (.whole n) => some (Double.ofInt n)
    | .ok (.double d) => some d
    | .error _ => none
  | .int32, .number l =>
    match l.number with
    | .ok (.whole n) => if inInt32 n then some (Int32.ofInt n) else none
    | _ => none
  | _, _ => none

theorem ofToken_eq_ok_iff {s : Scalar} {t : Token} {v : Carrier s} :
    s.ofToken t = .ok v ↔ s.ofLexeme? t.lexeme = some v := by
  obtain ⟨l, start, stop, next⟩ := t
  cases s with
  | text =>
    cases l with
    | text content =>
      cases content with
      | ok content =>
        change Except.ok content = Except.ok v ↔ some content = some v
        rw [Except.ok.injEq, Option.some.injEq]
      | error fault => exact ⟨fun h => (nomatch h), fun h => (nomatch h)⟩
    | _ => exact ⟨fun h => (nomatch h), fun h => (nomatch h)⟩
  | double =>
    cases l with
    | number l =>
      simp only [ofToken, ofLexeme?, Token.number]
      cases l.number with
      | error left => simp
      | ok n => cases n <;> simp
    | _ => exact ⟨fun h => (nomatch h), fun h => (nomatch h)⟩
  | int32 =>
    cases l with
    | number l =>
      simp only [ofToken, ofLexeme?, Token.number]
      cases l.number with
      | error left => simp
      | ok n =>
        cases n with
        | whole n =>
          simp only
          split <;> simp
        | double d => simp
    | _ => exact ⟨fun h => (nomatch h), fun h => (nomatch h)⟩

/-- What spells a value is a word, but not the word null. -/
theorem isWord_of_ofLexeme? {s : Scalar} {l : Lexeme} {v : Carrier s} (h : s.ofLexeme? l = some v) :
    l.isWord = true ∧ l ≠ .null := by
  cases l with
  | text | number | bool => exact ⟨rfl, by simp⟩
  | _ => cases s <;> cases h

/-- The lexemes that spell a value: a single one. -/
def Spells (s : Scalar) (ls : List Lexeme) (v : Carrier s) : Prop :=
  ∃ l, ls = [l] ∧ s.ofLexeme? l = some v

theorem read_eq_ok_iff {s : Scalar} {ts rest : List Token} {v : Carrier s} :
    s.read ts = .ok (v, rest) ↔ ∃ vs, ts = vs ++ rest ∧ s.Spells (lexemes vs) v := by
  constructor
  · intro h
    cases ts with
    | nil => cases h
    | cons t ts =>
      rw [read] at h
      split at h
      · cases h
      · rename_i hv
        cases h
        exact ⟨[t], rfl, t.lexeme, rfl, ofToken_eq_ok_iff.1 hv⟩
  · rintro ⟨vs, rfl, l, hl, hv⟩
    obtain ⟨t, rfl, rfl⟩ := lexemes_eq_singleton.1 hl
    rw [List.cons_append, read, ofToken_eq_ok_iff.2 hv]
    rfl

end Scalar

instance : Spelled Scalar where
  Spells := Scalar.Spells
  read_eq_ok_iff := Scalar.read_eq_ok_iff
  isValue := by
    rintro s _ v ⟨l, rfl, h⟩
    exact .word (Scalar.isWord_of_ofLexeme? h).1
  not_null := by
    rintro s ls v ⟨l, hl, h⟩
    cases hl
    exact (Scalar.isWord_of_ofLexeme? h).2 rfl

/-! ## Where given values come from -/

/-- Each value that has been given is the value of one of these lexemes. -/
def GivenIn (ls : List Lexeme) : (ms : List (Member Scalar)) → Slots ms → Prop
  | [], _ => True
  | m :: ms, (slot, slots) =>
    (∀ v, slot = .given v → ∃ l ∈ ls, m.kind.ofLexeme? l = some v) ∧ GivenIn ls ms slots

theorem givenIn_empty (ls : List Lexeme) (ms : List (Member Scalar)) :
    GivenIn ls ms (Slots.empty ms) := by
  induction ms with
  | nil => trivial
  | cons m ms ih => exact ⟨fun v h => (nomatch h), ih⟩

theorem exists_of_spellsSlot {absence : Absence} {s : Scalar} {ls all : List Lexeme}
    {slot : Slot (Carrier s)} (h : SpellsSlot absence s ls slot) (hall : ∀ l ∈ ls, l ∈ all) :
    ∀ v, slot = .given v → ∃ l ∈ all, s.ofLexeme? l = some v := by
  rintro v rfl
  obtain ⟨l, rfl, hl⟩ : s.Spells ls v := h
  exact ⟨l, hall l List.mem_cons_self, hl⟩

theorem givenIn_of_fillsFrom {absence : Absence} {ms : List (Member Scalar)}
    {es : List (String × List Lexeme)} {slots : Slots ms} {all : List Lexeme}
    (hall : ∀ e ∈ es, ∀ l ∈ e.2, l ∈ all) (h : Fills absence ms es slots) :
    GivenIn all ms slots := by
  induction ms generalizing es with
  | nil => trivial
  | cons m ms ih =>
    obtain ⟨slot, slots⟩ := slots
    obtain ⟨hslot, hrest⟩ := h
    refine ⟨?_, ih (fun e he => hall e (List.mem_filter.1 he).1) hrest⟩
    -- what goes by a name of the member is the value of one of the members of the object
    have hvalues : ∀ ls ∈ m.valuesIn es, ∀ l ∈ ls, l ∈ all := by
      intro ls hls
      obtain ⟨e, he, rfl⟩ := List.mem_map.1 hls
      exact hall e (List.mem_filter.1 he).1
    generalize m.valuesIn es = values at hslot hvalues
    match values, hslot with
    | [], hslot =>
      obtain rfl : slot = .absent := hslot
      exact fun v h => (nomatch h)
    | [ls], hslot => exact exists_of_spellsSlot hslot.2 (hvalues ls List.mem_cons_self)

theorem givenIn_of_fillsInOrder {absence : Absence} {ms : List (Member Scalar)}
    {items : List (List Lexeme)} {slots : Slots ms} {all : List Lexeme}
    (hall : ∀ ls ∈ items, ∀ l ∈ ls, l ∈ all) (h : FillsInOrder absence ms items slots) :
    GivenIn all ms slots := by
  induction ms generalizing items with
  | nil => trivial
  | cons m ms ih =>
    cases items with
    | nil =>
      obtain ⟨-, rfl⟩ := h
      exact givenIn_empty all (m :: ms)
    | cons ls items =>
      obtain ⟨slot, slots⟩ := slots
      rw [List.forall_mem_cons] at hall
      exact ⟨exists_of_spellsSlot h.1 hall.1, ih hall.2 h.2⟩

theorem mem_memberLexemes {first : Bool} {es : List (String × List Lexeme)}
    {e : String × List Lexeme} (he : e ∈ es) {l : Lexeme} (hl : l ∈ e.2) :
    l ∈ memberLexemes first es := by
  induction es generalizing first with
  | nil => cases he
  | cons e' es ih =>
    obtain ⟨name, ls⟩ := e'
    rw [memberLexemes]
    refine List.mem_append_right _ (List.mem_cons_of_mem _ (List.mem_cons_of_mem _ ?_))
    rcases List.mem_cons.1 he with rfl | he
    · exact List.mem_append_left _ hl
    · exact List.mem_append_right _ (ih he)

theorem mem_elementLexemes {first : Bool} {items : List (List Lexeme)} {ls : List Lexeme}
    (hls : ls ∈ items) {l : Lexeme} (hl : l ∈ ls) : l ∈ elementLexemes first items := by
  induction items generalizing first with
  | nil => cases hls
  | cons ls' items ih =>
    rw [elementLexemes]
    refine List.mem_append_right _ ?_
    rcases List.mem_cons.1 hls with rfl | hls
    · exact List.mem_append_left _ hl
    · exact List.mem_append_right _ (ih hls)

/-- **Each value that a text gives** is the value of one of its lexemes. -/
theorem givenIn_of_spellsShape {s : Shape Scalar} {ls : List Lexeme} {slots : Slots s.members}
    (h : SpellsShape s ls slots) : GivenIn ls s.members slots := by
  cases h with
  | object h =>
    refine givenIn_of_fillsFrom (fun e he l hl => ?_) h
    exact List.mem_cons_of_mem _ (mem_memberLexemes he hl)
  | array h =>
    refine givenIn_of_fillsInOrder (fun ls hls l hl => ?_) h
    exact List.mem_cons_of_mem _ (mem_elementLexemes hls hl)

/-! ## Records and lists -/

/-- The lexemes that spell a record. -/
def Schema.Spells {κ : Type} [Kinds κ] [Readable κ] [Spelled κ] [Defaulted κ] (s : Schema κ)
    (ls : List Lexeme) (r : Record s.fields) : Prop :=
  ∃ slots, SpellsShape s.shape ls slots ∧ Record.ofSlots s.fields slots = r

theorem Schema.read_eq_ok_iff {s : Schema Scalar} {ts rest : List Token} {r : Record s.fields} :
    s.read ts = .ok (r, rest) ↔ ∃ vs, ts = vs ++ rest ∧ s.Spells (lexemes vs) r := by
  unfold Schema.read
  constructor
  · intro h
    split at h
    · cases h
    · rename_i slots us hread
      cases h
      obtain ⟨vs, hvs, hspells⟩ := Shape.read_eq_ok_iff.1 hread
      exact ⟨vs, hvs, slots, hspells, rfl⟩
  · rintro ⟨vs, rfl, slots, hspells, rfl⟩
    rw [Shape.read_eq_ok_iff.2 ⟨vs, rfl, hspells⟩]

instance : Spelled (Schema Scalar) where
  Spells := Schema.Spells
  read_eq_ok_iff := Schema.read_eq_ok_iff
  isValue := by
    rintro s ls r ⟨slots, h, -⟩
    exact h.isValue
  not_null := by
    rintro s ls r ⟨slots, h, -⟩
    cases h

/-- The lexemes that spell the value of a field. -/
def Kind.Spells : (k : Kind) → List Lexeme → Carrier k → Prop
  | .one s, ls, v => s.Spells ls v
  | .many entry, ls, rs =>
    ∃ items, ls = .openArray :: elementLexemes true items ∧ SpellsAll entry items rs

theorem Kind.read_eq_ok_iff {k : Kind} {ts rest : List Token} {v : Carrier k} :
    k.read ts = .ok (v, rest) ↔ ∃ vs, ts = vs ++ rest ∧ k.Spells (lexemes vs) v := by
  cases k with
  | one s => exact Scalar.read_eq_ok_iff
  | many entry =>
    constructor
    · intro h
      cases ts with
      | nil => cases h
      | cons t ts =>
        rw [Kind.read] at h
        split at h
        · rename_i hopen
          obtain ⟨items, us, news, rfl, hus, hall, rfl⟩ := readElements_eq_ok_iff.1 h
          refine ⟨t :: us, rfl, items, ?_, hall⟩
          rw [lexemes_cons, hopen, hus]
          rfl
        · cases h
    · rintro ⟨vs, rfl, items, hls, hall⟩
      obtain ⟨⟨l, start, stop, next⟩, us, rfl, hopen, hus⟩ := lexemes_eq_cons.1 hls
      obtain rfl : l = .openArray := hopen
      exact readElements_eq_ok_iff.2 ⟨items, us, v, rfl, hus, hall, rfl⟩

instance : Spelled Kind where
  Spells := Kind.Spells
  read_eq_ok_iff := Kind.read_eq_ok_iff
  isValue := by
    intro k ls v h
    cases k with
    | one s => exact Spelled.isValue (k := s) h
    | many entry =>
      obtain ⟨items, rfl, hall⟩ := h
      exact isValue_array (SpellsAll.isValue hall)
  not_null := by
    intro k ls v h
    cases k with
    | one s => exact Spelled.not_null (k := s) h
    | many entry =>
      obtain ⟨items, hls, -⟩ := h
      cases hls

/-- **The record that a text holds** is the one that its lexemes spell. -/
theorem Record.ofText_eq_ok_iff {s : Schema Kind} {text : Bytes} {r : Record s.fields} :
    Record.ofText s text = .ok r ↔ s.Spells (lexemes (tokens text)) r := by
  unfold Record.ofText
  constructor
  · intro h
    split at h
    · cases h
    · rename_i slots hread
      cases h
      exact ⟨slots, readText_eq_ok_iff.1 hread, rfl⟩
  · rintro ⟨slots, hspells, rfl⟩
    rw [readText_eq_ok_iff.2 hspells]

end OrderRelay
