import OrderRelay.Json.Reader
import OrderRelay.Json.Value
import OrderRelay.Message.Schema

/-!
# Messages in JSON

A record is written as an object with one member for each field, also for a field that has its
initial value. It is read from an object with any of those members, in any order, or from an array
of the values in the order of the schema.

* `Message.toJson`: the object of a message.
* `Message.ofText`: the message that a text holds.
-/

namespace OrderRelay

open Json

/-! ## Writing -/

/-- The JSON value of a single value. -/
def Scalar.toJson : (s : Scalar) → Carrier s → Value
  | .text, (t : String) => .text t
  | .double, (d : Double) => .ofDouble d
  | .int32, (n : Int32) => .ofInt n.toInt

/-- The object of a record of single values. -/
def Record.rowToJson (fields : List (Field Scalar)) (r : Record fields) : Value :=
  .object (Tuple.toList (fun f v => (f.label, f.kind.toJson v)) fields r)

/-- The JSON value of a field. -/
def Kind.toJson : (k : Kind) → Carrier k → Value
  | .one s, v => s.toJson v
  | .many entry, (rs : List (Record entry.fields)) => .array (rs.map (Record.rowToJson entry.fields))

/-- The object of a record. -/
def Record.toJson (fields : List (Field Kind)) (r : Record fields) : Value :=
  .object (Tuple.toList (fun f v => (f.label, f.kind.toJson v)) fields r)

/-! ## Reading -/

/-- The numbers of 32 bits. -/
def inInt32 (n : Int) : Bool := -2147483648 ≤ n && n ≤ 2147483647

/-- What messages call a kind of value. -/
def Scalar.expected : Scalar → String
  | .text => "a string"
  | .double => "f64"
  | .int32 => "i32"

/-- The value of one token. -/
def Scalar.ofToken (s : Scalar) (t : Token) : Except Fault (Carrier s) :=
  match s, t.lexeme with
  | .text, .text (.ok content) => .ok content
  | .double, .number l =>
    match t.number l with
    | .error fault => .error fault
    | .ok (.whole n) => .ok (Double.ofInt n)
    | .ok (.double d) => .ok d
  | .int32, .number l =>
    match t.number l with
    | .error fault => .error fault
    | .ok (.whole n) =>
      if inInt32 n then .ok (Int32.ofInt n)
      else .error (t.unfit (.range (.whole n) (Scalar.expected .int32)))
    | .ok (.double d) => .error (t.unfit (.kind (.double d) (Scalar.expected .int32)))
  | s, _ => .error (mismatched t s.expected)

/-- Reads a single value, which is one token. -/
def Scalar.read (s : Scalar) : List Token → Reading (Carrier s)
  | [] => here (.unfinished .value)
  | t :: rest =>
    match s.ofToken t with
    | .error fault => here fault
    | .ok v => .ok (v, rest)

theorem Scalar.length_lt_of_read {s : Scalar} {ts rest : List Token} {v : Carrier s}
    (h : s.read ts = .ok (v, rest)) : rest.length < ts.length := by
  cases ts with
  | nil => simp [Scalar.read, here] at h
  | cons t ts =>
    simp only [Scalar.read, here] at h
    split at h
    · simp at h
    · simp only [Except.ok.injEq, Prod.mk.injEq] at h
      simp [h.2]

instance : Readable Scalar where
  read := Scalar.read
  shrinks := Scalar.length_lt_of_read

/-- The member that stands for a field. -/
def Field.member {κ : Type} (f : Field κ) : Member κ := ⟨[f.label], f.kind⟩

/-- The objects that stand for records of a schema. -/
def Schema.shape {κ : Type} (s : Schema κ) : Shape κ :=
  ⟨"struct " ++ s.name, .byDefault, s.fields.map Field.member⟩

/-- The record that slots make; a field without a value is left out. -/
def Record.ofSlots {κ : Type} [Kinds κ] [Defaulted κ] :
    (fields : List (Field κ)) → Slots (fields.map Field.member) → Record fields
  | [], () => ()
  | f :: fields, (slot, slots) =>
    (slot.value?.getD (Defaulted.initial f.kind), Record.ofSlots fields slots)

/-- Reads a record. -/
def Schema.read {κ : Type} [Kinds κ] [Readable κ] [Defaulted κ] (s : Schema κ) (ts : List Token) :
    Reading (Record s.fields) :=
  match s.shape.read ts with
  | .error e => .error e
  | .ok (slots, rest) => .ok (Record.ofSlots s.fields slots, rest)

theorem Schema.length_lt_of_read {κ : Type} [Kinds κ] [Readable κ] [Defaulted κ] {s : Schema κ}
    {ts rest : List Token} {r : Record s.fields} (h : s.read ts = .ok (r, rest)) :
    rest.length < ts.length := by
  simp only [Schema.read] at h
  split at h
  · simp at h
  · rename_i hr
    simp only [Except.ok.injEq, Prod.mk.injEq] at h
    exact h.2 ▸ Shape.length_lt_of_read hr

instance : Kinds (Schema Scalar) where
  Carrier s := Record s.fields

instance : Readable (Schema Scalar) where
  read := Schema.read
  shrinks := Schema.length_lt_of_read

/-- Reads the value of a field. -/
def Kind.read : (k : Kind) → List Token → Reading (Carrier k)
  | .one s, ts => s.read ts
  | .many _, [] => here (.unfinished .value)
  | .many entry, t :: ts =>
    match t.lexeme with
    | .openArray => readElements entry 0 [] ts
    | _ => here (mismatched t "a sequence")

theorem Kind.length_lt_of_read {k : Kind} {ts rest : List Token} {v : Carrier k}
    (h : k.read ts = .ok (v, rest)) : rest.length < ts.length := by
  cases k with
  | one s => exact Scalar.length_lt_of_read h
  | many entry =>
    cases ts with
    | nil => simp [Kind.read, here] at h
    | cons t ts =>
      simp only [Kind.read, here] at h
      split at h
      · exact Nat.lt_add_one_of_le (length_le_of_readElements h)
      · simp at h

instance : Readable Kind where
  read := Kind.read
  shrinks := Kind.length_lt_of_read

/-- The record that a text holds. -/
def Record.ofText (schema : Schema Kind) (text : Bytes) : Except Json.Error (Record schema.fields) :=
  match schema.shape.readText text with
  | .error e => .error e
  | .ok slots => .ok (Record.ofSlots schema.fields slots)

namespace Message

/-- The object of a message. -/
def toJson {M : Type} [Message M] (m : M) : Value := Record.toJson (schema M).fields (toRecord m)

/-- The text of a message. -/
def text {M : Type} [Message M] (m : M) : String := (toJson m).compact

/-- The message that a text holds. -/
def ofText (M : Type) [Message M] (text : Bytes) : Except Json.Error M :=
  (Record.ofText (schema M) text).map ofRecord

end Message

end OrderRelay
