import Mathlib.Data.List.Pairwise
import OrderRelay.Proofs.Json.Arrays

/-!
# Each slot on its own

Where no two members of a shape share a name, the slots are filled one apart from the other: each by
the one value that goes by a name of its member, whatever the other members of the object are and in
whichever order they come.

* `Apart`: members that share no names.
* `FillsEach`: slots that are filled each on its own.
* `fills_iff`: **an object fills each slot on its own**, and all it holds are values.
* `amount`: what values amount to: nothing, one value, or more than one.
* `FillsEach.of_amount`: **only what values amount to matters** for what is read.
-/

namespace OrderRelay.Json

section Filling

variable {κ : Type} [Kinds κ] [Readable κ] [Spelled κ] {absence : Absence}

/-- **Members that share no names.** -/
def Apart (ms : List (Member κ)) : Prop :=
  ms.Pairwise fun m m' => ∀ name ∈ m.names, name ∉ m'.names

omit [Kinds κ] [Readable κ] [Spelled κ] in
instance (ms : List (Member κ)) : Decidable (Apart ms) :=
  inferInstanceAs (Decidable (ms.Pairwise fun m m' => ∀ name ∈ m.names, name ∉ m'.names))

omit [Kinds κ] [Readable κ] [Spelled κ] in
/-- Only one of them goes by a name. -/
theorem Apart.eq_of_mem {ms : List (Member κ)} (hms : Apart ms) {m m' : Member κ} (hm : m ∈ ms)
    (hm' : m' ∈ ms) {name : String} (hname : name ∈ m.names) (hname' : name ∈ m'.names) :
    m = m' := by
  by_contra hne
  have hsymm : Std.Symm fun m m' : Member κ => ∀ name ∈ m.names, name ∉ m'.names :=
    ⟨fun _ _ h name hname hother => h name hother hname⟩
  exact List.Pairwise.forall hms hm hm' hne name hname hname'

/-- **Slots that are filled each on its own**, by the values that there are for its member. -/
def FillsEach (absence : Absence) : (ms : List (Member κ)) → (Member κ → List (List Lexeme)) →
    Slots ms → Prop
  | [], _, _ => True
  | m :: ms, given, (slot, slots) =>
    FillsSlot absence m.kind (given m) .absent slot ∧ FillsEach absence ms given slots

theorem FillsEach.congr {ms : List (Member κ)} {given given' : Member κ → List (List Lexeme)}
    {slots : Slots ms} (hgiven : ∀ m ∈ ms, given' m = given m)
    (h : FillsEach absence ms given slots) : FillsEach absence ms given' slots := by
  induction ms with
  | nil => trivial
  | cons m ms ih =>
    obtain ⟨slot, slots⟩ := slots
    rw [List.forall_mem_cons] at hgiven
    exact ⟨hgiven.1 ▸ h.1, ih hgiven.2 h.2⟩

/-- Something fills the slot of each member. -/
theorem FillsEach.exists_fillsSlot {ms : List (Member κ)} {given : Member κ → List (List Lexeme)}
    {slots : Slots ms} (h : FillsEach absence ms given slots) {m : Member κ} (hm : m ∈ ms) :
    ∃ slot, FillsSlot absence m.kind (given m) .absent slot := by
  induction ms with
  | nil => cases hm
  | cons m' ms ih =>
    obtain ⟨slot, slots⟩ := slots
    rcases List.mem_cons.1 hm with rfl | hm
    · exact ⟨slot, h.1⟩
    · exact ih h.2 hm

/-- Slots without what is in those of some members. -/
def Slots.without (p : Member κ → Bool) : (ms : List (Member κ)) → Slots ms → Slots ms
  | [], _ => ()
  | m :: ms, (slot, slots) => (if p m then .absent else slot, Slots.without p ms slots)

/-- Where there are no values, nothing is filled. -/
theorem FillsEach.without {ms : List (Member κ)} {given : Member κ → List (List Lexeme)}
    {slots : Slots ms} (p : Member κ → Bool) (h : FillsEach absence ms given slots) :
    FillsEach absence ms (fun m => if p m then [] else given m) (Slots.without p ms slots) := by
  induction ms with
  | nil => trivial
  | cons m ms ih =>
    obtain ⟨slot, slots⟩ := slots
    refine ⟨?_, ih h.2⟩
    by_cases hm : p m = true
    · simp only [if_pos hm]
      rfl
    · simp only [if_neg hm]
      exact h.1

omit [Kinds κ] [Readable κ] [Spelled κ] in
/-- The values of a member are not among those of another. -/
theorem Member.valuesIn_filter {m m' : Member κ} (h : ∀ name ∈ m.names, name ∉ m'.names)
    (es : List (String × List Lexeme)) :
    m'.valuesIn (es.filter fun e => !m.owns e) = m'.valuesIn es := by
  unfold Member.valuesIn
  rw [List.filter_filter]
  congr 1
  refine List.filter_congr fun e _ => ?_
  cases howns : m.owns e with
  | false => simp
  | true =>
    have hother : m'.owns e = false := by
      simpa [Member.owns] using h e.1 (by simpa [Member.owns] using howns)
    simp [hother]

/-- The values that entries give for a member: those that go by one of its names. -/
def Member.given (m : Member κ) (es : List Entry) : List (List Lexeme) :=
  (es.filter fun e => e.1.any m.names.contains).map Prod.snd

omit [Kinds κ] [Readable κ] [Spelled κ] in
theorem Member.given_append (m : Member κ) (es es' : List Entry) :
    m.given (es ++ es') = m.given es ++ m.given es' := by
  unfold Member.given
  rw [List.filter_append, List.map_append]

omit [Kinds κ] [Readable κ] [Spelled κ] in
/-- One more member is one more value for the members that go by its name. -/
theorem Member.given_insert (m : Member κ) (before after : List Entry) (name : String)
    (value : List Lexeme) : m.given (before ++ (some name, value) :: after) =
      if m.names.contains name then m.given before ++ value :: m.given after
      else m.given (before ++ after) := by
  have hcons : m.given ((some name, value) :: after) =
      if m.names.contains name then value :: m.given after else m.given after := by
    have hany : (some name).any m.names.contains = m.names.contains name := rfl
    unfold Member.given
    rw [List.filter_cons, hany]
    split <;> rfl
  rw [m.given_append, m.given_append, hcons]
  split <;> rfl

/-- **An object fills each slot on its own**, and all it holds are values. -/
theorem fills_iff {ms : List (Member κ)} (hms : Apart ms) {es : List (String × List Lexeme)}
    {slots : Slots ms} : Fills absence ms es slots ↔
      (∀ e ∈ es, IsValue e.2) ∧ FillsEach absence ms (fun m => m.valuesIn es) slots := by
  unfold Fills
  -- each member takes its entries away; what is left of the others is as it was
  induction ms generalizing es with
  | nil => simp [FillsFrom, FillsEach]
  | cons m ms ih =>
    obtain ⟨slot, slots⟩ := slots
    obtain ⟨hm, hms⟩ := List.pairwise_cons.1 hms
    have hvalues : ∀ m' ∈ ms, m'.valuesIn (es.filter fun e => !m.owns e) = m'.valuesIn es :=
      fun m' hm' => Member.valuesIn_filter (hm m' hm') es
    change FillsSlot absence m.kind (m.valuesIn es) .absent slot ∧
      FillsFrom absence ms (es.filter fun e => !m.owns e) (Slots.empty ms) slots ↔ _
    rw [ih hms]
    constructor
    · rintro ⟨hslot, hothers, hall⟩
      refine ⟨fun e he => ?_, hslot, hall.congr fun m' hm' => (hvalues m' hm').symm⟩
      by_cases howns : m.owns e = true
      · exact fillsSlot_isValue hslot _ (List.mem_map_of_mem (List.mem_filter.2 ⟨he, howns⟩))
      · exact hothers e (List.mem_filter.2 ⟨he, by simpa using howns⟩)
    · rintro ⟨hes, hslot, hall⟩
      exact ⟨hslot, fun e he => hes e (List.mem_filter.1 he).1, hall.congr hvalues⟩

/-- A value that fills a slot is the only one for it. -/
theorem eq_nil_of_fillsSlot {k : κ} {values more : List (List Lexeme)} {ls : List Lexeme}
    {slot slot' : Slot (Carrier k)} (h : FillsSlot absence k (values ++ ls :: more) slot slot') :
    values = [] ∧ more = [] := by
  cases values with
  | nil =>
    cases more with
    | nil => exact ⟨rfl, rfl⟩
    | cons => exact h.elim
  | cons v values => cases values <;> exact h.elim

/-! ## What values amount to -/

/-- How often a value is given, where null alone is none. -/
inductive Amount where
  | nothing
  | once (ls : List Lexeme)
  | repeatedly

/-- What the values for a slot amount to. -/
def amount : List (List Lexeme) → Amount
  | [] | [[.null]] => .nothing
  | [ls] => .once ls
  | _ => .repeatedly

theorem amount_eq_nothing_iff {values : List (List Lexeme)} :
    amount values = .nothing ↔ values = [] ∨ values = [[.null]] := by
  unfold amount
  split <;> simp_all

theorem amount_eq_once_iff {values : List (List Lexeme)} {ls : List Lexeme} :
    amount values = .once ls ↔ values = [ls] ∧ ls ≠ [.null] := by
  unfold amount
  split
  · simp
  · simp +contextual [eq_comm]
  · rename_i hnull
    simp only [Amount.once.injEq, List.cons.injEq, and_true]
    constructor
    · rintro rfl
      exact ⟨rfl, fun h => hnull (by rw [h])⟩
    · exact fun h => h.1
  · rename_i hone
    simp only [reduceCtorEq, false_iff]
    rintro ⟨rfl, -⟩
    exact hone _ rfl

theorem amount_of_two_le {values : List (List Lexeme)} (h : 2 ≤ values.length) :
    amount values = .repeatedly := by
  match values, h with
  | _ :: _ :: _, _ => simp [amount]

/-- In which order values come does not matter. -/
theorem amount_of_perm {values values' : List (List Lexeme)} (h : values.Perm values') :
    amount values' = amount values := by
  by_cases htwo : 2 ≤ values.length
  · rw [amount_of_two_le htwo, amount_of_two_le (h.length_eq ▸ htwo)]
  · match values with
    | [] => rw [List.nil_perm.1 h]
    | [ls] => rw [List.singleton_perm.1 h]
    | _ :: _ :: _ => simp at htwo

/-- Slots with the same values in them; null is none. -/
def SameValues : (ms : List (Member κ)) → Slots ms → Slots ms → Prop
  | [], _, _ => True
  | _ :: ms, (slot, slots), (slot', slots') =>
    slot'.value? = slot.value? ∧ SameValues ms slots slots'

/-- Null alone is put into a slot as null. -/
theorem fillsSlot_null_iff {k : κ} {slot : Slot (Carrier k)} :
    FillsSlot .byNull k [[.null]] .absent slot ↔ slot = .null := by
  constructor
  · rintro ⟨-, hnull⟩
    cases slot with
    | absent => exact hnull.elim
    | null => rfl
    | given v => exact (Spelled.not_null hnull).elim
  · rintro rfl
    exact ⟨rfl, rfl, rfl⟩

/-- What amounts to nothing leaves a slot without a value. -/
theorem exists_fillsSlot_of_nothing (k : κ) {values : List (List Lexeme)}
    (h : amount values = .nothing) :
    ∃ slot : Slot (Carrier k), FillsSlot .byNull k values .absent slot ∧ slot.value? = none := by
  rcases amount_eq_nothing_iff.1 h with rfl | rfl
  · exact ⟨.absent, rfl, rfl⟩
  · exact ⟨.null, fillsSlot_null_iff.2 rfl, rfl⟩

/-- **Values that amount to the same** fill a slot with the same. -/
theorem exists_fillsSlot_of_amount {k : κ} {values values' : List (List Lexeme)}
    {slot : Slot (Carrier k)} (hamount : amount values' = amount values)
    (h : FillsSlot .byNull k values .absent slot) :
    ∃ slot', FillsSlot .byNull k values' .absent slot' ∧ slot'.value? = slot.value? := by
  cases hvalues : amount values with
  | nothing =>
    have hnone : slot.value? = none := by
      rcases amount_eq_nothing_iff.1 hvalues with rfl | rfl
      · obtain rfl : slot = .absent := h
        rfl
      · obtain rfl := fillsSlot_null_iff.1 h
        rfl
    rw [hnone]
    exact exists_fillsSlot_of_nothing k (hamount.trans hvalues)
  | once ls =>
    obtain ⟨rfl, -⟩ := amount_eq_once_iff.1 hvalues
    obtain ⟨rfl, -⟩ := amount_eq_once_iff.1 (hamount.trans hvalues)
    exact ⟨slot, h, rfl⟩
  | repeatedly =>
    -- a second value has no place
    match values, h with
    | [], _ => cases hvalues
    | [ls], _ =>
      by_cases hnull : ls = [.null]
      · subst hnull
        cases hvalues
      · rw [amount_eq_once_iff.2 ⟨rfl, hnull⟩] at hvalues
        cases hvalues

/-- **Only what values amount to matters.** -/
theorem FillsEach.of_amount {ms : List (Member κ)} {given given' : Member κ → List (List Lexeme)}
    {slots : Slots ms} (hamount : ∀ m ∈ ms, amount (given' m) = amount (given m))
    (h : FillsEach .byNull ms given slots) :
    ∃ slots', FillsEach .byNull ms given' slots' ∧ SameValues ms slots slots' := by
  induction ms with
  | nil => exact ⟨(), trivial, trivial⟩
  | cons m ms ih =>
    obtain ⟨slot, slots⟩ := slots
    rw [List.forall_mem_cons] at hamount
    obtain ⟨slot', hslot', hvalue⟩ := exists_fillsSlot_of_amount hamount.1 h.1
    obtain ⟨slots', hslots', hsame⟩ := ih hamount.2 h.2
    exact ⟨(slot', slots'), ⟨hslot', hslots'⟩, hvalue, hsame⟩

end Filling

end OrderRelay.Json
