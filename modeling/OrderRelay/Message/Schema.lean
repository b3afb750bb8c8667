import OrderRelay.Number.Double
import OrderRelay.Tuple

/-!
# Schemas of messages

The messages to and from the order engine are records: each field has a name, a number and a kind. A
field holds one value, or the entries of a list whose schema holds single values only.

* `Schema`: the fields of a message, under the name of the message.
* `Record`: one value for each field.
* `Message`: types that are records under another view.
-/

namespace OrderRelay

/-- Kinds of single values. -/
inductive Scalar where
  | text
  | double
  | int32
  deriving DecidableEq

instance : Kinds Scalar where
  Carrier
    | .text => String
    | .double => Double
    | .int32 => Int32

/-- A field of a message. -/
structure Field (κ : Type) where
  /-- The name that wire failures use. -/
  name : String
  /-- The name in JSON. -/
  label : String
  /-- The number on the wire. -/
  number : Nat
  kind : κ

/-- The fields of a message. -/
structure Schema (κ : Type) where
  name : String
  fields : List (Field κ)

/-- One value for each field. -/
abbrev Record {κ : Type} [Kinds κ] (fields : List (Field κ)) := Tuple (fun f => Carrier f.kind) fields

/-- Kinds of fields. -/
inductive Kind where
  /-- One value. -/
  | one (s : Scalar)
  /-- The entries of a list. -/
  | many (entry : Schema Scalar)

instance : Kinds Kind where
  Carrier
    | .one s => Carrier s
    | .many entry => List (Record entry.fields)

/-- Kinds with a value for a field that is left out. -/
class Defaulted (κ : Type) [Kinds κ] where
  initial : (k : κ) → Carrier k

instance : Defaulted Scalar where
  initial
    | .text => ""
    | .double => Double.zero
    | .int32 => (0 : Int32)

instance : Defaulted Kind where
  initial
    | .one s => Defaulted.initial s
    | .many _ => []

/-- The record whose fields are all left out. -/
def Record.initial {κ : Type} [Kinds κ] [Defaulted κ] (fields : List (Field κ)) : Record fields :=
  Tuple.build (fun f => Defaulted.initial f.kind) fields

/-- The same field as the field of a message that may also hold lists. -/
def Field.single (f : Field Scalar) : Field Kind := ⟨f.name, f.label, f.number, .one f.kind⟩

/-- Types that are records under another view. -/
class Message (M : Type) where
  schema : Schema Kind
  toRecord : M → Record schema.fields
  ofRecord : Record schema.fields → M
  ofRecord_toRecord : ∀ m, ofRecord (toRecord m) = m
  toRecord_ofRecord : ∀ r, toRecord (ofRecord r) = r

/-- What is read as a message is its record. -/
theorem Message.map_ofRecord_eq_ok_iff {M ε : Type} [Message M]
    {read : Except ε (Record (schema M).fields)} {m : M} :
    read.map ofRecord = .ok m ↔ read = .ok (toRecord m) := by
  cases read with
  | error e => exact ⟨fun h => (nomatch h), fun h => (nomatch h)⟩
  | ok r =>
    constructor
    · intro h
      obtain rfl := Except.ok.inj h
      rw [toRecord_ofRecord]
    · intro h
      obtain rfl := Except.ok.inj h
      exact congrArg Except.ok (ofRecord_toRecord m)

/-- The message whose fields are all left out. -/
def Message.initial (M : Type) [Message M] : M := ofRecord (Record.initial (schema M).fields)

end OrderRelay
