import OrderRelay.Proofs.Json.Filling
import OrderRelay.Proofs.Json.Outline
import OrderRelay.Proofs.Message.Spelling

/-!
# What an object says

An object is read as the values of its members, each of which has a slot of its own. Where the
members stand, in which order they come and what the others are does not matter, as long as all of
them have a name.

* `Placeless`: kinds whose values do not depend on the places of flaws.
* `spellsShape_entries_iff`, `Holds.readText_eq_ok_iff`: **what is read of the members** of an
  object, and of those that a text holds.
* `exists_readText_of_amount`: texts whose values amount to the same are read alike.
* `readText_ne_ok_of_twice`: **a value that is given twice is refused.**
-/

namespace OrderRelay

open Json

/-! ## Places of flaws do not matter -/

theorem Scalar.ofLexeme?_bare (s : Scalar) (l : Lexeme) : s.ofLexeme? l.bare = s.ofLexeme? l := by
  cases l with
  | text content => cases content <;> cases s <;> rfl
  | _ => rfl

theorem Scalar.spells_bares_iff {s : Scalar} {ls : List Lexeme} {v : Carrier s} :
    s.Spells (bares ls) v ↔ s.Spells ls v := by
  constructor
  · rintro ⟨l, hl, hv⟩
    obtain ⟨k, ks, rfl, rfl, hks⟩ := bares_eq_cons.1 hl
    obtain rfl : ks = [] := List.map_eq_nil_iff.1 hks
    exact ⟨k, rfl, by rwa [← s.ofLexeme?_bare]⟩
  · rintro ⟨l, rfl, hv⟩
    exact ⟨l.bare, rfl, by rwa [s.ofLexeme?_bare]⟩

/-- **Kinds whose values do not depend on the places of flaws.** -/
class Placeless (κ : Type) [Kinds κ] [Readable κ] [Spelled κ] : Prop where
  spells_bares_iff : ∀ {k : κ} {ls : List Lexeme} {v : Carrier k},
    Spelled.Spells k (bares ls) v ↔ Spelled.Spells k ls v

instance : Placeless Scalar := ⟨Scalar.spells_bares_iff⟩

section Slots

variable {κ : Type} [Kinds κ] [Readable κ] [Spelled κ] [Placeless κ] {absence : Absence} {k : κ}

theorem spellsSlot_bares_iff {ls : List Lexeme} {slot : Slot (Carrier k)} :
    SpellsSlot absence k (bares ls) slot ↔ SpellsSlot absence k ls slot := by
  cases slot with
  | absent => rfl
  | null =>
    have hnull : bares ls = [.null] ↔ ls = [.null] := by
      constructor
      · intro h
        obtain ⟨k, ks, rfl, hk, hks⟩ := bares_eq_cons.1 h
        obtain rfl : ks = [] := List.map_eq_nil_iff.1 hks
        rw [Lexeme.eq_of_bare_eq hk (by simp)]
      · rintro rfl
        rfl
    exact and_congr_right fun _ => hnull
  | given v => exact Placeless.spells_bares_iff

theorem fillsSlot_bares_iff {values : List (List Lexeme)} {slot slot' : Slot (Carrier k)} :
    FillsSlot absence k (values.map bares) slot slot' ↔ FillsSlot absence k values slot slot' := by
  match values with
  | [] => rfl
  | [ls] => exact and_congr_right fun _ => spellsSlot_bares_iff
  | _ :: _ :: _ => rfl

end Slots

/-! ## Members and entries -/

/-- The entry of a member. -/
def Json.Entry.of (e : String × List Lexeme) : Entry := (some e.1, bares e.2)

theorem bares_lead (first : Bool) : bares (lead first) = lead first := by
  cases first <;> rfl

theorem eq_lead_of_bares_eq {first : Bool} {ls : List Lexeme} (h : bares ls = lead first) :
    ls = lead first := by
  cases first with
  | true => exact List.map_eq_nil_iff.1 h
  | false =>
    obtain ⟨l, ms, rfl, hl, hms⟩ := bares_eq_cons.1 h
    obtain rfl : ms = [] := List.map_eq_nil_iff.1 hms
    rw [Lexeme.eq_of_bare_eq hl (by simp)]
    rfl

theorem bares_memberLexemes (first : Bool) (es : List (String × List Lexeme)) :
    bares (memberLexemes first es) = entryLexemes first (es.map Entry.of) := by
  induction es generalizing first with
  | nil => rfl
  | cons e es ih =>
    obtain ⟨name, ls⟩ := e
    simp only [memberLexemes, List.map_cons, Entry.of, entryLexemes, bares_append, bares_cons, ih,
      bares_lead]
    rfl

/-- Entries that all have names are those of members. -/
theorem exists_members_of_bares {first : Bool} {ls : List Lexeme} {es : List Entry}
    (h : bares ls = entryLexemes first es) (hnames : ∀ e ∈ es, e.1.isSome = true) :
    ∃ es', ls = memberLexemes first es' ∧ es'.map Entry.of = es := by
  induction es generalizing first ls with
  | nil =>
    obtain ⟨l, ms, rfl, hl, hms⟩ := bares_eq_cons.1 h
    obtain rfl : ms = [] := List.map_eq_nil_iff.1 hms
    obtain rfl := Lexeme.eq_of_bare_eq hl (by simp)
    exact ⟨[], rfl, rfl⟩
  | cons e es ih =>
    obtain ⟨name, v⟩ := e
    rw [List.forall_mem_cons] at hnames
    obtain ⟨name, rfl⟩ := Option.isSome_iff_exists.1 hnames.1
    -- what is in front, the name, the colon, the value, and the members after it
    obtain ⟨us, ks, rfl, hus, hmember⟩ := bares_eq_append.1 h
    obtain ⟨key, ks, rfl, hkey, hvalue⟩ := bares_eq_cons.1 hmember
    obtain ⟨l, ks, rfl, hcolon, hvalue⟩ := bares_eq_cons.1 hvalue
    obtain ⟨vs, ks, rfl, rfl, hmore⟩ := bares_eq_append.1 hvalue
    obtain ⟨es', rfl, rfl⟩ := ih hmore hnames.2
    obtain rfl := Lexeme.eq_text_of_bare_eq hkey
    obtain rfl := Lexeme.eq_of_bare_eq hcolon (by simp)
    refine ⟨(name, vs) :: es', ?_, rfl⟩
    rw [eq_lead_of_bares_eq hus]
    rfl

/-- An object whose entries all have names has members of these names. -/
theorem Json.Holds.exists_members {text : Bytes} {es : List Entry} (h : Holds text es)
    (hnames : ∀ e ∈ es, e.1.isSome = true) :
    ∃ es', lexemes (tokens text) = .openObject :: memberLexemes true es' ∧ es'.map Entry.of = es := by
  obtain ⟨l, ls, hls, hl, hmore⟩ := bares_eq_cons.1 h.outline
  obtain rfl := Lexeme.eq_of_bare_eq hl (by simp)
  obtain ⟨es', rfl, hes⟩ := exists_members_of_bares hmore hnames
  exact ⟨es', hls, hes⟩

/-- The members of an object are its entries. -/
theorem Json.HoldsObject.holds {text : Bytes} {es : List (String × List Lexeme)}
    (h : HoldsObject text es) : Holds text (es.map Entry.of) := by
  refine ⟨?_, List.forall_mem_map.2 fun e he => isValue_bares_iff.2 (h.2 e he)⟩
  rw [outline, h.1, bares_cons, bares_memberLexemes]
  rfl

theorem given_map_of {κ : Type} (m : Member κ) (es : List (String × List Lexeme)) :
    m.given (es.map Entry.of) = (m.valuesIn es).map bares := by
  unfold Member.given Member.valuesIn
  rw [List.filter_map, List.map_map, List.map_map]
  rfl

section Read

variable {κ : Type} [Kinds κ] [Readable κ] [Spelled κ] [Placeless κ]

/-- Each slot is filled alike by members and by their entries. -/
theorem fillsEach_of_iff {absence : Absence} {ms : List (Member κ)}
    {es : List (String × List Lexeme)} {slots : Slots ms} :
    FillsEach absence ms (fun m => m.given (es.map Entry.of)) slots ↔
      FillsEach absence ms (fun m => m.valuesIn es) slots := by
  induction ms with
  | nil => rfl
  | cons m ms ih =>
    obtain ⟨slot, slots⟩ := slots
    simp only [FillsEach, given_map_of, fillsSlot_bares_iff] at ih ⊢
    rw [ih]

/-! ## What is read of an object -/

variable {s : Shape κ} {text text' : Bytes} {es es' : List Entry} {slots : Slots s.members}

/-- **What is read of the members of an object**: the value of each slot, as long as every member has
a name. -/
theorem spellsShape_entries_iff {ls : List Lexeme}
    (h : bares ls = .openObject :: entryLexemes true es) (hvalues : ∀ e ∈ es, IsValue e.2)
    (hs : Apart s.members) :
    SpellsShape s ls slots ↔ (∀ e ∈ es, e.1.isSome = true) ∧
      FillsEach s.absence s.members (fun m => m.given es) slots := by
  constructor
  · intro hspells
    cases hspells with
    | @object members _ hfills =>
      rw [bares_cons, bares_memberLexemes, List.cons.injEq] at h
      obtain ⟨hmembers, heach⟩ := (fills_iff hs).1 hfills
      have hsame : members.map Entry.of = es :=
        entryLexemes_inj (List.forall_mem_map.2 fun e he => isValue_bares_iff.2 (hmembers e he))
          hvalues h.2
      subst hsame
      exact ⟨List.forall_mem_map.2 fun e _ => rfl, fillsEach_of_iff.2 heach⟩
    | array => cases h
  · rintro ⟨hnames, heach⟩
    obtain ⟨l, ms, rfl, hl, hmore⟩ := bares_eq_cons.1 h
    obtain rfl := Lexeme.eq_of_bare_eq hl (by simp)
    obtain ⟨members, rfl, rfl⟩ := exists_members_of_bares hmore hnames
    refine .object ((fills_iff hs).2 ⟨fun e he => ?_, fillsEach_of_iff.1 heach⟩)
    exact isValue_bares_iff.1 (hvalues _ (List.mem_map_of_mem he))

/-- **What is read of the members that a text holds.** -/
theorem Json.Holds.readText_eq_ok_iff (h : Holds text es) (hs : Apart s.members) :
    s.readText text = .ok slots ↔ (∀ e ∈ es, e.1.isSome = true) ∧
      FillsEach s.absence s.members (fun m => m.given es) slots := by
  rw [Json.readText_eq_ok_iff]
  exact spellsShape_entries_iff h.outline h.values hs

/-- **Texts whose values amount to the same are read alike.** -/
theorem exists_readText_of_amount (h : Holds text es) (h' : Holds text' es') (hs : Apart s.members)
    (hnull : s.absence = .byNull)
    (hnames : (∀ e ∈ es, e.1.isSome = true) → ∀ e ∈ es', e.1.isSome = true)
    (hamount : ∀ m ∈ s.members, amount (m.given es') = amount (m.given es))
    (hread : s.readText text = .ok slots) :
    ∃ slots', s.readText text' = .ok slots' ∧ SameValues s.members slots slots' := by
  obtain ⟨hall, heach⟩ := (h.readText_eq_ok_iff hs).1 hread
  rw [hnull] at heach
  obtain ⟨slots', heach', hsame⟩ := heach.of_amount hamount
  rw [← hnull] at heach'
  exact ⟨slots', (h'.readText_eq_ok_iff hs).2 ⟨hnames hall, heach'⟩, hsame⟩

/-- **A value that is given twice is refused.** -/
theorem readText_ne_ok_of_twice (h : Holds text es) (hs : Apart s.members) {m : Member κ}
    (hm : m ∈ s.members) (htwice : 2 ≤ (m.given es).length) : s.readText text ≠ .ok slots := by
  intro hread
  obtain ⟨-, heach⟩ := (h.readText_eq_ok_iff hs).1 hread
  obtain ⟨slot, hslot⟩ := heach.exists_fillsSlot hm
  match hvalues : m.given es, hslot with
  | [], _ | [_], _ =>
    rw [hvalues] at htwice
    simp at htwice

end Read

end OrderRelay
