import OrderRelay.Proofs.Message.Entries
import OrderRelay.Proofs.Message.Rendering

/-!
# Records out of objects

An object is read as a record by the labels of its fields: each field takes the one value that goes
by its label, and its initial value if none does. The members of a row within a list are read in the
same way as those of the text.

* `spellsShape_bares_iff`: records do not depend on the places of flaws, and neither do lists.
* `Comes`, `Record.MadeOf`: what comes of the values that are given for the fields.
* `Record.MadeBy`: the record that members make.
* `Schema.spells_object_iff`: **what an object is read as.**
-/

namespace OrderRelay

open Json

/-! ## Places of flaws within objects and arrays -/

theorem bares_memberLexemes_eq (first : Bool) (es : List (String × List Lexeme)) :
    bares (memberLexemes first es) = memberLexemes first (es.map (Prod.map id bares)) := by
  rw [bares_memberLexemes, memberLexemes_eq_entryLexemes, List.map_map]
  rfl

/-- What is an object without the places of its flaws is one with them. -/
theorem exists_members_of_bares_eq {first : Bool} {ls : List Lexeme}
    {es : List (String × List Lexeme)} (h : bares ls = memberLexemes first es) :
    ∃ es', ls = memberLexemes first es' ∧ es'.map (Prod.map id bares) = es := by
  rw [memberLexemes_eq_entryLexemes] at h
  obtain ⟨es', hls, hes⟩ := exists_members_of_bares h (List.forall_mem_map.2 fun _ _ => rfl)
  refine ⟨es', hls, List.map_injective_iff.2 injective_named ?_⟩
  rw [← hes, List.map_map]
  rfl

theorem bares_elementLexemes (first : Bool) (items : List (List Lexeme)) :
    bares (elementLexemes first items) = elementLexemes first (items.map bares) := by
  induction items generalizing first with
  | nil => rfl
  | cons ls items ih =>
    rw [List.map_cons, elementLexemes, elementLexemes, bares_append, bares_append, bares_lead, ih]

/-- What is an array without the places of its flaws is one with them. -/
theorem exists_items_of_bares_eq {first : Bool} {ls : List Lexeme} {items : List (List Lexeme)}
    (h : bares ls = elementLexemes first items) :
    ∃ items', ls = elementLexemes first items' ∧ items'.map bares = items := by
  induction items generalizing first ls with
  | nil =>
    obtain ⟨l, ms, rfl, hl, hms⟩ := bares_eq_cons.1 h
    obtain rfl : ms = [] := List.map_eq_nil_iff.1 hms
    obtain rfl := Lexeme.eq_of_bare_eq hl (by simp)
    exact ⟨[], rfl, rfl⟩
  | cons v items ih =>
    obtain ⟨us, ks, rfl, hus, hitems⟩ := bares_eq_append.1 h
    obtain ⟨vs, ks, rfl, rfl, hmore⟩ := bares_eq_append.1 hitems
    obtain ⟨items', rfl, rfl⟩ := ih hmore
    refine ⟨vs :: items', ?_, rfl⟩
    rw [elementLexemes, eq_lead_of_bares_eq hus]

section Placeless

variable {κ : Type} [Kinds κ] [Readable κ] [Spelled κ] [Placeless κ] {absence : Absence}

theorem fillsFrom_bares_iff {ms : List (Member κ)} {es : List (String × List Lexeme)}
    {slots slots' : Slots ms} :
    FillsFrom absence ms (es.map (Prod.map id bares)) slots slots' ↔
      FillsFrom absence ms es slots slots' := by
  induction ms generalizing es with
  | nil => simp only [FillsFrom, List.forall_mem_map, Prod.map_snd, isValue_bares_iff]
  | cons m ms ih =>
    obtain ⟨slot, slots⟩ := slots
    obtain ⟨slot', slots'⟩ := slots'
    -- names are left alone, so each member takes the same entries away
    have hvalues : m.valuesIn (es.map (Prod.map id bares)) = (m.valuesIn es).map bares := by
      unfold Member.valuesIn
      rw [List.filter_map, List.map_map, List.map_map]
      rfl
    have hothers : (es.map (Prod.map id bares)).filter (fun e => !m.owns e) =
        (es.filter fun e => !m.owns e).map (Prod.map id bares) := by
      rw [List.filter_map]
      rfl
    simp only [FillsFrom, hvalues, hothers, fillsSlot_bares_iff, ih]

theorem fillsInOrder_bares_iff {ms : List (Member κ)} {items : List (List Lexeme)}
    {slots : Slots ms} :
    FillsInOrder absence ms (items.map bares) slots ↔ FillsInOrder absence ms items slots := by
  induction ms generalizing items with
  | nil => exact List.map_eq_nil_iff
  | cons m ms ih =>
    cases items with
    | nil => rfl
    | cons ls items =>
      obtain ⟨slot, slots⟩ := slots
      simp only [List.map_cons, FillsInOrder, spellsSlot_bares_iff, ih]

/-- **The slots of a shape do not depend on the places of flaws.** -/
theorem spellsShape_bares_iff {s : Shape κ} {ls : List Lexeme} {slots : Slots s.members} :
    SpellsShape s (bares ls) slots ↔ SpellsShape s ls slots := by
  constructor
  · intro h
    generalize hbares : bares ls = ms at h
    cases h with
    | object hfills =>
      obtain ⟨l, ks, rfl, hl, hks⟩ := bares_eq_cons.1 hbares
      obtain rfl := Lexeme.eq_of_bare_eq hl (by simp)
      obtain ⟨es, rfl, rfl⟩ := exists_members_of_bares_eq hks
      exact .object (fillsFrom_bares_iff.1 hfills)
    | array hfills =>
      obtain ⟨l, ks, rfl, hl, hks⟩ := bares_eq_cons.1 hbares
      obtain rfl := Lexeme.eq_of_bare_eq hl (by simp)
      obtain ⟨items, rfl, rfl⟩ := exists_items_of_bares_eq hks
      exact .array (fillsInOrder_bares_iff.1 hfills)
  · intro h
    cases h with
    | object hfills =>
      rw [bares_cons, bares_memberLexemes_eq]
      exact .object (fillsFrom_bares_iff.2 hfills)
    | array hfills =>
      rw [bares_cons, bares_elementLexemes]
      exact .array (fillsInOrder_bares_iff.2 hfills)

theorem Schema.spells_bares_iff [Defaulted κ] {s : Schema κ} {ls : List Lexeme}
    {r : Record s.fields} : s.Spells (bares ls) r ↔ s.Spells ls r :=
  exists_congr fun _ => and_congr_left fun _ => spellsShape_bares_iff

/-- Lists do not depend on the places of flaws if their elements do not. -/
theorem spellsAll_bares_iff {k : κ} {items : List (List Lexeme)} {vs : List (Carrier k)} :
    SpellsAll k (items.map bares) vs ↔ SpellsAll k items vs := by
  unfold SpellsAll
  rw [List.forall₂_map_left_iff]
  exact ⟨fun h => h.imp fun _ _ => Placeless.spells_bares_iff.1,
    fun h => h.imp fun _ _ => Placeless.spells_bares_iff.2⟩

end Placeless

instance : Placeless (Schema Scalar) := ⟨Schema.spells_bares_iff⟩

theorem Kind.spells_bares_iff {k : Kind} {ls : List Lexeme} {v : Carrier k} :
    k.Spells (bares ls) v ↔ k.Spells ls v := by
  cases k with
  | one s => exact Scalar.spells_bares_iff
  | many entry =>
    constructor
    · rintro ⟨items, hbares, hall⟩
      obtain ⟨l, ks, rfl, hl, hks⟩ := bares_eq_cons.1 hbares
      obtain rfl := Lexeme.eq_of_bare_eq hl (by simp)
      obtain ⟨items, rfl, rfl⟩ := exists_items_of_bares_eq hks
      exact ⟨items, rfl, spellsAll_bares_iff.1 hall⟩
    · rintro ⟨items, rfl, hall⟩
      refine ⟨items.map bares, ?_, spellsAll_bares_iff.2 hall⟩
      rw [bares_cons, bares_elementLexemes]
      rfl

instance : Placeless Kind := ⟨Kind.spells_bares_iff⟩

/-! ## Values for fields -/

section Made

variable {κ : Type} [Kinds κ] [Readable κ] [Spelled κ] [Defaulted κ]

/-- **What comes of the values that are given for a field**: its initial value of none, and what it
spells of a single one. A second value has no place. -/
def Comes (k : κ) : List (List Lexeme) → Carrier k → Prop
  | [], v => v = Defaulted.initial k
  | [ls], v => Spelled.Spells k ls v
  | _ :: _ :: _, _ => False

/-- One value among others is the only one. -/
theorem comes_insert_iff {k : κ} {before after : List (List Lexeme)} {ls : List Lexeme}
    {v : Carrier k} : Comes k (before ++ ls :: after) v ↔
      (before = [] ∧ after = []) ∧ Spelled.Spells k ls v := by
  cases before with
  | nil =>
    cases after with
    | nil => simp only [List.nil_append, Comes, and_self, true_and]
    | cons ls' after => simp [Comes]
  | cons ls' before =>
    have htwo : ∃ ls'' more, before ++ ls :: after = ls'' :: more := by
      cases before <;> exact ⟨_, _, rfl⟩
    obtain ⟨ls'', more, hmore⟩ := htwo
    simp [hmore, Comes]

/-- In which order values are given does not matter. -/
theorem comes_perm_iff {k : κ} {values values' : List (List Lexeme)} {v : Carrier k}
    (h : values.Perm values') : Comes k values v ↔ Comes k values' v := by
  match values with
  | [] => rw [List.nil_perm.1 h]
  | [ls] => rw [List.singleton_perm.1 h]
  | ls :: ls' :: values =>
    match values' with
    | _ :: _ :: _ => rfl
    | [] | [_] =>
      have hlength := h.length_eq
      simp at hlength

/-- What fills the slot of a field comes of the values for it. -/
theorem exists_fillsSlot_iff {k : κ} {values : List (List Lexeme)} {v : Carrier k} :
    (∃ slot, FillsSlot .byDefault k values .absent slot ∧
      slot.value?.getD (Defaulted.initial k) = v) ↔ Comes k values v := by
  match values with
  | [] =>
    constructor
    · rintro ⟨slot, rfl, rfl⟩
      rfl
    · intro h
      exact ⟨.absent, rfl, h.symm⟩
  | [ls] =>
    constructor
    · rintro ⟨slot, ⟨-, hslot⟩, rfl⟩
      cases slot with
      | absent => exact hslot.elim
      | null => cases hslot.1
      | given v => exact hslot
    · intro h
      exact ⟨.given v, ⟨rfl, h⟩, rfl⟩
  | _ :: _ :: _ => exact ⟨fun ⟨_, hslot, _⟩ => hslot.elim, False.elim⟩

namespace Record

/-- **The record that the values given for its fields make.** -/
def MadeOf : (fields : List (Field κ)) → (Field κ → List (List Lexeme)) → Record fields → Prop
  | [], _, _ => True
  | f :: fields, given, (v, r) => Comes f.kind (given f) v ∧ MadeOf fields given r

theorem madeOf_congr {fields : List (Field κ)} {given given' : Field κ → List (List Lexeme)}
    (h : ∀ f ∈ fields, ∀ v, Comes f.kind (given f) v ↔ Comes f.kind (given' f) v)
    {r : Record fields} : MadeOf fields given r ↔ MadeOf fields given' r := by
  induction fields with
  | nil => rfl
  | cons f fields ih =>
    obtain ⟨v, r⟩ := r
    rw [List.forall_mem_cons] at h
    simp only [MadeOf, h.1 v, ih h.2]

/-- Slots that are filled each on its own make the record. -/
theorem exists_fillsEach_iff {fields : List (Field κ)} (given : Member κ → List (List Lexeme))
    {r : Record fields} :
    (∃ slots, FillsEach .byDefault (fields.map Field.member) given slots ∧
      ofSlots fields slots = r) ↔ MadeOf fields (fun f => given f.member) r := by
  induction fields with
  | nil => exact ⟨fun _ => trivial, fun _ => ⟨(), trivial, rfl⟩⟩
  | cons f fields ih =>
    obtain ⟨v, r⟩ := r
    constructor
    · rintro ⟨⟨slot, slots⟩, ⟨hslot, hslots⟩, hrecord⟩
      obtain ⟨hv, hr⟩ := Prod.ext_iff.1 hrecord
      exact ⟨exists_fillsSlot_iff.1 ⟨slot, hslot, hv⟩, ih.1 ⟨slots, hslots, hr⟩⟩
    · rintro ⟨hv, hr⟩
      obtain ⟨slot, hslot, rfl⟩ := exists_fillsSlot_iff.2 hv
      obtain ⟨slots, hslots, rfl⟩ := ih.2 hr
      exact ⟨(slot, slots), ⟨hslot, hslots⟩, rfl⟩

end Record

/-! ## Records of objects -/

/-- **The members of the object** that these lexemes are, in their order. -/
structure Json.Object (ls : List Lexeme) (es : List Entry) : Prop where
  outline : bares ls = .openObject :: entryLexemes true es
  values : ∀ e ∈ es, IsValue e.2

theorem Json.Object.isValue {ls : List Lexeme} {es : List Entry} (h : Object ls es) : IsValue ls := by
  rw [← isValue_bares_iff, h.outline]
  exact isValue_entries h.values

theorem Json.Holds.object {text : Bytes} {es : List Entry} (h : Holds text es) :
    Object (lexemes (tokens text)) es :=
  ⟨h.outline, h.values⟩

omit [Kinds κ] [Readable κ] [Spelled κ] [Defaulted κ] in
/-- Labels that tell fields apart are names that members do not share. -/
theorem apart_of_nodup {fields : List (Field κ)} (h : (fields.map Field.label).Nodup) :
    Apart (fields.map Field.member) := by
  unfold Apart
  rw [List.Nodup, List.pairwise_map] at h
  rw [List.pairwise_map]
  refine h.imp fun hne name hname hname' => hne ?_
  rw [← List.mem_singleton.1 hname, ← List.mem_singleton.1 hname']

/-- **The record that members make**: every member has a name, and each field takes the one value
that goes by its label. -/
def Record.MadeBy (fields : List (Field κ)) (es : List Entry) (r : Record fields) : Prop :=
  (∀ e ∈ es, e.1.isSome = true) ∧ MadeOf fields (fun f => f.member.given es) r

/-- **What an object is read as**: the record that its members make. -/
theorem Schema.spells_object_iff [Placeless κ] {s : Schema κ} {ls : List Lexeme} {es : List Entry}
    (h : Object ls es) (hs : (s.fields.map Field.label).Nodup) {r : Record s.fields} :
    s.Spells ls r ↔ Record.MadeBy s.fields es r := by
  have hspells (slots : Slots s.shape.members) : SpellsShape s.shape ls slots ↔
      (∀ e ∈ es, e.1.isSome = true) ∧
        FillsEach .byDefault s.shape.members (fun m => m.given es) slots :=
    spellsShape_entries_iff h.outline h.values (apart_of_nodup hs)
  rw [Record.MadeBy, ← Record.exists_fillsEach_iff fun m => m.given es, Schema.Spells]
  simp only [hspells, and_assoc, exists_and_left]
  rfl

end Made

end OrderRelay
