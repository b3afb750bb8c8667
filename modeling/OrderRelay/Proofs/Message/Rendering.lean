import Mathlib.Data.List.Forall2
import OrderRelay.Message.Orders
import OrderRelay.Proofs.Json.Building
import OrderRelay.Proofs.Message.Spelling

/-!
# Messages come back from JSON

What is written for a message is an object with one member for each field. It is a valid
text, and it is read back as that message, if the text of each double in it is read back
as the double.

* `Double.ReadsBack`: a double whose text is read back.
* `JsonLaws`: what is asked of kinds of values, single values and lists alike.
* `Record.spells_object`: the object of a record spells it.
* `ofText_text`: **what is written for a message is read as the message**, and is valid.
-/

namespace OrderRelay

open Json

/-- **A double whose text is read back** as the same double. -/
def Double.ReadsBack (d : Double) : Prop :=
  d.isFinite = true ∧ (d.literal .wire).number = .ok (.double d)

/-- **What is asked of kinds of values** so that records of them come back. -/
class JsonLaws (κ : Type) [Kinds κ] [Readable κ] [Spelled κ] where
  /-- Whether the labels of the schemas within a kind tell their fields apart. -/
  told : κ → Bool
  toJson : (k : κ) → Carrier k → Value
  /-- The text of each double within the value is read back. -/
  ReadsBack : (k : κ) → Carrier k → Prop
  /-- Every value is written properly, whether or not it is read back. -/
  proper : ∀ (k : κ) (v : Carrier k), (toJson k v).Proper
  sound : ∀ {k : κ} {v : Carrier k}, ReadsBack k v → (toJson k v).Sound
  spells : ∀ {k : κ} {v : Carrier k}, told k = true → ReadsBack k v →
    Spelled.Spells k (toJson k v).words v

/-! ## Records -/

namespace Record

variable {κ : Type} [Kinds κ] [Readable κ] [Spelled κ] [JsonLaws κ] {fields : List (Field κ)}

/-- The members of the object of a record. -/
def members (fields : List (Field κ)) (r : Record fields) : List (String × Value) :=
  Tuple.toList (fun f v => (f.label, JsonLaws.toJson f.kind v)) fields r

/-- The text of each double within a record is read back. -/
def ReadsBack : (fields : List (Field κ)) → Record fields → Prop
  | [], _ => True
  | f :: fields, (v, r) => JsonLaws.ReadsBack f.kind v ∧ ReadsBack fields r

/-- Whether the labels of the fields tell them apart, at every depth. -/
def told (fields : List (Field κ)) : Bool :=
  decide (fields.map Field.label).Nodup && fields.all fun f => JsonLaws.told f.kind

theorem told_cons {f : Field κ} (h : told (f :: fields) = true) :
    f.label ∉ fields.map Field.label ∧ JsonLaws.told f.kind = true ∧ told fields = true := by
  unfold told at h ⊢
  rw [Bool.and_eq_true, decide_eq_true_eq, List.all_cons, List.map_cons, List.nodup_cons,
    Bool.and_eq_true] at h
  obtain ⟨⟨hnot, hnodup⟩, hkind, hall⟩ := h
  refine ⟨hnot, hkind, ?_⟩
  rw [Bool.and_eq_true, decide_eq_true_eq]
  exact ⟨hnodup, hall⟩

theorem nodup_of_told (h : told fields = true) : (fields.map Field.label).Nodup := by
  unfold told at h
  rw [Bool.and_eq_true, decide_eq_true_eq] at h
  exact h.1

theorem told_of_mem (h : told fields = true) {f : Field κ} (hf : f ∈ fields) :
    JsonLaws.told f.kind = true := by
  unfold told at h
  rw [Bool.and_eq_true, List.all_eq_true] at h
  exact h.2 f hf

theorem proper_members (fields : List (Field κ)) (r : Record fields) :
    ∀ m ∈ members fields r, m.2.Proper := by
  induction fields with
  | nil => exact fun m hm => (nomatch hm)
  | cons f fields ih =>
    obtain ⟨v, r⟩ := r
    exact List.forall_mem_cons.2 ⟨JsonLaws.proper f.kind v, ih r⟩

theorem sound_object {r : Record fields} (h : ReadsBack fields r) :
    (Value.object (members fields r)).Sound := by
  refine .object ?_
  induction fields with
  | nil => exact fun m hm => (nomatch hm)
  | cons f fields ih =>
    obtain ⟨v, r⟩ := r
    refine List.forall_mem_cons.2 ⟨JsonLaws.sound h.1, ih h.2⟩

/-- The slots of a record, all filled. -/
def slots : (fields : List (Field κ)) → Record fields → Slots (fields.map Field.member)
  | [], _ => ()
  | _ :: fields, (v, r) => (.given v, slots fields r)

omit [Readable κ] [Spelled κ] [JsonLaws κ] in
theorem ofSlots_slots [Defaulted κ] (fields : List (Field κ)) (r : Record fields) :
    ofSlots fields (slots fields r) = r := by
  induction fields with
  | nil => rfl
  | cons f fields ih =>
    obtain ⟨v, r⟩ := r
    exact congrArg (Prod.mk v) (ih r)

theorem mem_labels {r : Record fields} {e : String × List Lexeme}
    (h : e ∈ Value.memberWords (members fields r)) : e.1 ∈ fields.map Field.label := by
  induction fields with
  | nil => cases h
  | cons f fields ih =>
    obtain ⟨v, r⟩ := r
    rcases List.mem_cons.1 h with rfl | h
    · exact List.mem_cons_self
    · exact List.mem_cons_of_mem _ (ih h)

/-- **The members of the object of a record fill its slots.** -/
theorem fills_members (hs : told fields = true) {r : Record fields} (h : ReadsBack fields r) :
    Fills .byDefault (fields.map Field.member) (Value.memberWords (members fields r))
      (slots fields r) := by
  induction fields with
  | nil => exact fun e he => (nomatch he)
  | cons f fields ih =>
    obtain ⟨v, r⟩ := r
    obtain ⟨hnot, hkind, hs⟩ := told_cons hs
    -- no other member goes by this label
    have hother : ∀ e ∈ Value.memberWords (members fields r), f.member.owns e = false := by
      intro e he
      have hne : e.1 ≠ f.label := fun heq => hnot (heq ▸ mem_labels he)
      simpa [Member.owns, Field.member] using hne
    have hmembers : Value.memberWords (members (f :: fields) (v, r)) =
        (f.label, (JsonLaws.toJson f.kind v).words) :: Value.memberWords (members fields r) := rfl
    have howns : f.member.owns (f.label, (JsonLaws.toJson f.kind v).words) = true := by
      simp [Member.owns, Field.member]
    have hvalues : f.member.valuesIn (Value.memberWords (members (f :: fields) (v, r))) =
        [(JsonLaws.toJson f.kind v).words] := by
      rw [Member.valuesIn, hmembers, List.filter_cons, if_pos howns, List.map_cons,
        List.filter_eq_nil_iff.2 (by simpa using hother)]
      rfl
    have hrest : (Value.memberWords (members (f :: fields) (v, r))).filter
        (fun e => !f.member.owns e) = Value.memberWords (members fields r) := by
      rw [hmembers, List.filter_cons, if_neg (by simp [howns]),
        List.filter_eq_self.2 (by simpa using hother)]
    refine ⟨?_, ?_⟩
    · rw [hvalues]
      exact ⟨rfl, JsonLaws.spells hkind h.1⟩
    · rw [hrest]
      exact ih hs h.2

/-- **The object of a record spells it.** -/
theorem spells_object [Defaulted κ] {s : Schema κ} (hs : told s.fields = true)
    {r : Record s.fields} (h : ReadsBack s.fields r) :
    s.Spells (Value.object (members s.fields r)).words r :=
  ⟨slots s.fields r, .object (fills_members hs h), ofSlots_slots s.fields r⟩

end Record

/-! ## Kinds of values -/

/-- A double is written properly also if it is not finite. -/
theorem Json.Value.proper_ofDouble (d : Double) : (Value.ofDouble d).Proper := by
  unfold ofDouble
  split
  · exact .number (Double.proper_literal d)
  · exact .null

namespace Scalar

/-- The text of a double is read back; that of anything else always is. -/
def ReadsBack : (s : Scalar) → Carrier s → Prop
  | .double, (d : Double) => d.ReadsBack
  | .text, _ | .int32, _ => True

theorem bounds_toInt (n : Int32) : -2147483648 ≤ n.toInt ∧ n.toInt ≤ 2147483647 :=
  ⟨n.le_toInt, Int.le_of_lt_add_one n.toInt_lt⟩

theorem number_toInt (n : Int32) : (Literal.ofInt n.toInt).number = .ok (.whole n.toInt) := by
  obtain ⟨hlow, hhigh⟩ := bounds_toInt n
  refine Literal.number_ofInt ?_ ?_ <;> simp only [Literal.limit63, Literal.limit64] <;> omega

theorem proper_toJson (s : Scalar) (v : Carrier s) : (s.toJson v).Proper := by
  cases s with
  | text => exact .text v
  | double => exact Value.proper_ofDouble v
  | int32 => exact .number (Literal.proper_ofInt _)

theorem sound_toJson {s : Scalar} {v : Carrier s} (h : s.ReadsBack v) : (s.toJson v).Sound := by
  cases s with
  | text => exact .text v
  | double =>
    have hjson : Scalar.toJson .double v = .number (Double.literal .wire v) := if_pos h.1
    rw [hjson]
    exact .number (Double.proper_literal v) h.2
  | int32 => exact .number (Literal.proper_ofInt _) (number_toInt v)

theorem spells_toJson {s : Scalar} {v : Carrier s} (h : s.ReadsBack v) :
    s.Spells (s.toJson v).words v := by
  cases s with
  | text => exact ⟨_, rfl, rfl⟩
  | double =>
    have hjson : Scalar.toJson .double v = .number (Double.literal .wire v) := if_pos h.1
    rw [hjson]
    refine ⟨_, rfl, ?_⟩
    have hnumber : (Double.literal .wire v).number = .ok (.double v) := h.2
    simp only [ofLexeme?, hnumber]
  | int32 =>
    refine ⟨_, rfl, ?_⟩
    have hin : inInt32 (Int32.toInt v) = true := by
      obtain ⟨hlow, hhigh⟩ := bounds_toInt v
      simp [inInt32, hlow, hhigh]
    simp only [ofLexeme?, number_toInt v]
    rw [if_pos hin, Int32.ofInt_toInt]

end Scalar

instance : JsonLaws Scalar where
  told _ := true
  toJson := Scalar.toJson
  ReadsBack := Scalar.ReadsBack
  proper := Scalar.proper_toJson
  sound := Scalar.sound_toJson
  spells _ := Scalar.spells_toJson

namespace Kind

/-- The text of each double in the value of a field is read back. -/
def ReadsBack : (k : Kind) → Carrier k → Prop
  | .one s, v => s.ReadsBack v
  | .many entry, (rs : List (Record entry.fields)) => ∀ r ∈ rs, Record.ReadsBack entry.fields r

/-- Whether labels tell the fields of the entries of a list apart. -/
def told : Kind → Bool
  | .one _ => true
  | .many entry => Record.told entry.fields

theorem proper_toJson (k : Kind) (v : Carrier k) : (k.toJson v).Proper := by
  cases k with
  | one s => exact s.proper_toJson v
  | many entry =>
    refine .array (List.forall_mem_map.2 fun r _ => ?_)
    exact .object (Record.proper_members entry.fields r)

theorem sound_toJson {k : Kind} {v : Carrier k} (h : k.ReadsBack v) : (k.toJson v).Sound := by
  cases k with
  | one s => exact Scalar.sound_toJson h
  | many entry =>
    refine .array (List.forall_mem_map.2 fun r hr => ?_)
    exact Record.sound_object (h r hr)

theorem spells_toJson {k : Kind} {v : Carrier k} (hk : k.told = true) (h : k.ReadsBack v) :
    k.Spells (k.toJson v).words v := by
  cases k with
  | one s => exact Scalar.spells_toJson h
  | many entry =>
    refine ⟨_, rfl, ?_⟩
    rw [Value.itemWords_eq, List.map_map]
    refine List.forall₂_map_left_iff.2 (List.forall₂_same.2 fun r hr => ?_)
    exact Record.spells_object hk (h r hr)

end Kind

instance : JsonLaws Kind where
  told := Kind.told
  toJson := Kind.toJson
  ReadsBack := Kind.ReadsBack
  proper := Kind.proper_toJson
  sound := Kind.sound_toJson
  spells := Kind.spells_toJson

/-! ## Messages -/

namespace Message

variable {M : Type} [Message M]

/-- The text of each double in a message is read back. -/
def ReadsBack (m : M) : Prop := Record.ReadsBack (schema M).fields (toRecord m)

/-- **What is written for a message is valid, and is read as the message.** -/
theorem ofText_text (hs : Record.told (schema M).fields = true) {m : M} (h : ReadsBack m) :
    Value.ofText? (Utf8.encode (text m)) = some (toJson m) ∧
      ofText M (Utf8.encode (text m)) = .ok m := by
  have hsound : (toJson m).Sound := Record.sound_object h
  have hspells : (schema M).Spells (toJson m).words (toRecord m) := Record.spells_object hs h
  refine ⟨Value.ofText?_compact hsound, map_ofRecord_eq_ok_iff.2 ?_⟩
  -- the text is scanned as the words of the object, and these spell the record
  have htokens : lexemes (tokens (Utf8.encode (text m))) = (toJson m).words :=
    (Value.prints_compact hsound).tokens
  exact Record.ofText_eq_ok_iff.2 (htokens ▸ hspells)

end Message

end OrderRelay
