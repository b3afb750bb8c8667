import OrderRelay.Message.Schema
import OrderRelay.Wire.Field

/-!
# Messages on the wire

A record is written field by field in the order of its schema; a field that has its initial value is
left out, and a list is written as one field for each entry. It is read field by field in any order:
a single value replaces the one before it, an entry is added to its list.

* `Record.encode`, `Record.encodedLength`: the octets of a record and how many they are.
* `Record.decode`: the record that octets hold.
* `Message.encode`, `Message.encodedLength`, `Message.decode`: the same for messages.
-/

namespace OrderRelay

open Wire

/-- Kinds whose values have a form on the wire. -/
class Wired (κ : Type) [Kinds κ] where
  /-- The octets of a field of this number. -/
  encode : (number : Nat) → (k : κ) → Carrier k → Bytes
  /-- How many octets those are. -/
  size : (number : Nat) → (k : κ) → Carrier k → Nat
  /-- Reads a payload of the given form into a value; `depth` messages may still nest. -/
  merge : (depth : Nat) → (k : κ) → Form → Carrier k → Bytes → Decoding (Carrier k)
  length_le_of_merge : ∀ {depth : Nat} {k : κ} {form : Form} {old new : Carrier k} {bs rest : Bytes},
    merge depth k form old bs = .ok (new, rest) → rest.length ≤ bs.length

/-! ## Single values -/

/-- A key, a length and so many octets. -/
def encodeDelimited (number : Nat) (payload : Bytes) : Bytes :=
  encodeKey number .delimited ++ Varint.encode payload.length ++ payload

/-- The eight octets of a double, lowest first. -/
def Double.octets (d : Double) : Bytes :=
  (List.range 8).map fun i => UInt8.ofNat (d.bits.toNat >>> (8 * i))

/-- The double of eight octets, lowest first. -/
def Double.ofOctets (bs : Bytes) : Double :=
  ⟨UInt64.ofNat (bs.foldr (fun b n => b.toNat + 256 * n) 0)⟩

/-- The variable-length number of a 32-bit integer: its sign extended to 64 bits. -/
def varintOfInt32 (n : Int32) : Nat := n.toInt64.toUInt64.toNat

/-- The 32-bit integer of a variable-length number: its low half. -/
def int32OfVarint (n : Nat) : Int32 := (UInt64.ofNat n).toInt64.toInt32

namespace Scalar

/-- The octets of a field; none for the initial value. -/
def encode (number : Nat) : (s : Scalar) → Carrier s → Bytes
  | .text, (t : String) => if t.isEmpty then [] else encodeDelimited number (Utf8.encode t)
  | .double, (d : Double) => if d.isZero then [] else encodeKey number .fixed64 ++ d.octets
  | .int32, (n : Int32) =>
    if n = 0 then [] else encodeKey number .varint ++ Varint.encode (varintOfInt32 n)

/-- How many octets a field takes. -/
def size (number : Nat) : (s : Scalar) → Carrier s → Nat
  | .text, (t : String) =>
    if t.isEmpty then 0
    else Varint.length (8 * number) + Varint.length t.utf8ByteSize + t.utf8ByteSize
  | .double, (d : Double) => if d.isZero then 0 else Varint.length (8 * number) + 8
  | .int32, (n : Int32) =>
    if n = 0 then 0 else Varint.length (8 * number) + Varint.length (varintOfInt32 n)

/-- The form in which a value is written. -/
def form : Scalar → Form
  | .text => .delimited
  | .double => .fixed64
  | .int32 => .varint

/-- The value of a payload of the right form. -/
def decode : (s : Scalar) → Bytes → Decoding (Carrier s)
  | .text, bs =>
    match readDelimited bs with
    | .error e => .error e
    | .ok (octets, rest) =>
      match Utf8.decode? octets with
      | some t => .ok (t, rest)
      | none => fail .notUtf8
  | .double, bs =>
    match takeOctets 8 bs with
    | .error e => .error e
    | .ok (octets, rest) => .ok (Double.ofOctets octets, rest)
  | .int32, bs =>
    match readVarint bs with
    | .error e => .error e
    | .ok (n, rest) => .ok (int32OfVarint n, rest)

/-- The value of a payload. -/
def merge (s : Scalar) (form : Form) (bs : Bytes) : Decoding (Carrier s) :=
  if form = s.form then s.decode bs else fail (.wrongForm form s.form)

theorem decode_text_eq_ok_iff {t : String} {bs rest : Bytes} :
    Scalar.text.decode bs = .ok (t, rest) ↔
      ∃ octets, readDelimited bs = .ok (octets, rest) ∧ Utf8.decode? octets = some t := by
  constructor
  · intro h
    rw [decode] at h
    split at h
    · cases h
    · rename_i octets _ hread
      split at h
      · rename_i htext
        cases h
        exact ⟨octets, hread, htext⟩
      · cases h
  · rintro ⟨octets, hread, htext⟩
    simp only [decode, hread, htext]

theorem decode_double_eq_ok_iff {d : Double} {bs rest : Bytes} :
    Scalar.double.decode bs = .ok (d, rest) ↔
      ∃ octets, takeOctets 8 bs = .ok (octets, rest) ∧ Double.ofOctets octets = d := by
  constructor
  · intro h
    rw [decode] at h
    split at h
    · cases h
    · rename_i octets _ hread
      cases h
      exact ⟨octets, hread, rfl⟩
  · rintro ⟨octets, hread, rfl⟩
    simp only [decode, hread]

theorem decode_int32_eq_ok_iff {i : Int32} {bs rest : Bytes} :
    Scalar.int32.decode bs = .ok (i, rest) ↔
      ∃ n, readVarint bs = .ok (n, rest) ∧ int32OfVarint n = i := by
  constructor
  · intro h
    rw [decode] at h
    split at h
    · cases h
    · rename_i n _ hread
      cases h
      exact ⟨n, hread, rfl⟩
  · rintro ⟨n, hread, rfl⟩
    simp only [decode, hread]

theorem merge_eq_ok_iff {s : Scalar} {form : Form} {bs : Bytes} {read : Carrier s × Bytes} :
    s.merge form bs = .ok read ↔ form = s.form ∧ s.decode bs = .ok read := by
  unfold merge
  by_cases hform : form = s.form
  · rw [if_pos hform]
    exact (and_iff_right hform).symm
  · rw [if_neg hform]
    exact iff_of_false nofun fun h => hform h.1

theorem length_le_of_decode {s : Scalar} {v : Carrier s} {bs rest : Bytes}
    (h : s.decode bs = .ok (v, rest)) : rest.length ≤ bs.length := by
  cases s with
  | text =>
    obtain ⟨octets, hread, -⟩ := decode_text_eq_ok_iff.1 h
    exact length_le_of_readDelimited hread
  | double =>
    obtain ⟨octets, hread, -⟩ := decode_double_eq_ok_iff.1 h
    exact length_le_of_takeOctets hread
  | int32 =>
    obtain ⟨n, hread, -⟩ := decode_int32_eq_ok_iff.1 h
    exact Nat.le_of_lt (length_lt_of_readVarint hread)

theorem length_le_of_merge {s : Scalar} {form : Form} {v : Carrier s} {bs rest : Bytes}
    (h : s.merge form bs = .ok (v, rest)) : rest.length ≤ bs.length :=
  length_le_of_decode (merge_eq_ok_iff.1 h).2

end Scalar

instance : Wired Scalar where
  encode := Scalar.encode
  size := Scalar.size
  merge _ s form _ bs := s.merge form bs
  length_le_of_merge := Scalar.length_le_of_merge

/-! ## Records -/

namespace Record

variable {κ : Type} [Kinds κ] [Wired κ]

/-- The octets of a record. -/
def encode (fields : List (Field κ)) (r : Record fields) : Bytes :=
  (Tuple.toList (fun f v => Wired.encode f.number f.kind v) fields r).flatten

/-- How many octets a record takes. -/
def encodedLength (fields : List (Field κ)) (r : Record fields) : Nat :=
  (Tuple.toList (fun f v => Wired.size f.number f.kind v) fields r).foldr (· + ·) 0

/-- Reads the payload of the field of the given number into its value; a number that no field has is
passed over. -/
def mergeField (name : String) (depth number : Nat) (form : Form) :
    (fields : List (Field κ)) → Record fields → Bytes → Decoding (Record fields)
  | [], r, bs =>
    match skipField depth number form bs with
    | .error e => .error e
    | .ok rest => .ok (r, rest)
  | f :: fields, (v, vs), bs =>
    if number = f.number then
      match Wired.merge depth f.kind form v bs with
      | .error e => .error (e.within name f.name)
      | .ok (v, rest) => .ok ((v, vs), rest)
    else
      match mergeField name depth number form fields vs bs with
      | .error e => .error e
      | .ok (vs, rest) => .ok ((v, vs), rest)

section

variable {name : String} {depth number : Nat} {form : Form} {bs rest : Bytes}

theorem mergeField_nil_eq_ok_iff {r r' : Record ([] : List (Field κ))} :
    mergeField name depth number form [] r bs = .ok (r', rest) ↔
      r' = r ∧ skipField depth number form bs = .ok rest := by
  rw [mergeField]
  cases skipField depth number form bs with
  | error e => simp
  | ok rest' => simp [eq_comm]

variable {f : Field κ} {fields : List (Field κ)} {v v' : Carrier f.kind} {r r' : Record fields}

/-- The first field goes by the number. -/
theorem mergeField_own_eq_ok_iff (hnumber : number = f.number) :
    mergeField name depth number form (f :: fields) (v, r) bs = .ok ((v', r'), rest) ↔
      r' = r ∧ Wired.merge depth f.kind form v bs = .ok (v', rest) := by
  rw [mergeField, if_pos hnumber]
  cases Wired.merge depth f.kind form v bs with
  | error e => simp
  | ok read =>
    constructor
    · intro h
      cases h
      exact ⟨rfl, rfl⟩
    · rintro ⟨rfl, h⟩
      cases h
      rfl

/-- The first field goes by another number. -/
theorem mergeField_other_eq_ok_iff (hnumber : number ≠ f.number) :
    mergeField name depth number form (f :: fields) (v, r) bs = .ok ((v', r'), rest) ↔
      v' = v ∧ mergeField name depth number form fields r bs = .ok (r', rest) := by
  rw [mergeField, if_neg hnumber]
  cases mergeField name depth number form fields r bs with
  | error e => simp
  | ok read =>
    constructor
    · intro h
      cases h
      exact ⟨rfl, rfl⟩
    · rintro ⟨rfl, h⟩
      cases h
      rfl

end

theorem length_le_of_mergeField {name : String} {depth number : Nat} {form : Form}
    {fields : List (Field κ)} {r r' : Record fields} {bs rest : Bytes}
    (h : mergeField name depth number form fields r bs = .ok (r', rest)) :
    rest.length ≤ bs.length := by
  induction fields with
  | nil => exact length_le_of_skipField (mergeField_nil_eq_ok_iff.1 h).2
  | cons f fields ih =>
    obtain ⟨v, r⟩ := r
    obtain ⟨v', r'⟩ := r'
    by_cases hnumber : number = f.number
    · have hmerge := ((mergeField_own_eq_ok_iff hnumber).1 h).2
      exact Wired.length_le_of_merge hmerge
    · have hmerge := ((mergeField_other_eq_ok_iff hnumber).1 h).2
      exact ih hmerge

/-- Reads fields as long as more than `left` octets are left. -/
def mergeFields (name : String) (depth left : Nat) (fields : List (Field κ)) (r : Record fields)
    (bs : Bytes) : Decoding (Record fields) :=
  if bs.length ≤ left then .ok (r, bs)
  else
    match _ : readKey bs with
    | .error e => .error e
    | .ok ((number, form), rest) =>
      match _ : mergeField name depth number form fields r rest with
      | .error e => .error e
      | .ok (r, rest) => mergeFields name depth left fields r rest
termination_by bs.length
decreasing_by
  have := length_lt_of_readKey (by assumption)
  have := length_le_of_mergeField (by assumption)
  omega

theorem length_le_of_mergeFields {name : String} {depth left : Nat} {fields : List (Field κ)}
    {r r' : Record fields} {bs rest : Bytes}
    (h : mergeFields name depth left fields r bs = .ok (r', rest)) : rest.length ≤ bs.length := by
  fun_induction mergeFields name depth left fields r bs with
  | case1 =>
    simp only [Except.ok.injEq, Prod.mk.injEq] at h
    simp [h.2]
  | case2 => simp at h
  | case3 => simp at h
  | case4 _ _ _ _ _ _ hk _ _ hm ih =>
    have := length_lt_of_readKey hk
    have := length_le_of_mergeField hm
    have := ih h
    omega

/-- The messages that may lie within each other, the outermost one included. -/
def maxDepth : Nat := 100

/-- The record that octets hold. -/
def decode [Defaulted κ] (schema : Schema κ) (bs : Bytes) : Except Failure (Record schema.fields) :=
  match mergeFields schema.name maxDepth 0 schema.fields (Record.initial schema.fields) bs with
  | .error e => .error e
  | .ok (r, _) => .ok r

/-- Reads a record after its length. Its fields may not reach past that length. -/
def decodeNested [Defaulted κ] (schema : Schema κ) (depth : Nat) (bs : Bytes) :
    Decoding (Record schema.fields) :=
  if depth = 0 then fail .tooDeep
  else
    match readVarint bs with
    | .error e => .error e
    | .ok (n, rest) =>
      if rest.length < n then fail .underflow
      else
        let left := rest.length - n
        match mergeFields schema.name (depth - 1) left schema.fields
            (Record.initial schema.fields) rest with
        | .error e => .error e
        | .ok (r, rest) => if rest.length = left then .ok (r, rest) else fail .overrun

theorem decode_eq_ok_iff [Defaulted κ] {schema : Schema κ} {bs : Bytes}
    {r : Record schema.fields} : decode schema bs = .ok r ↔
      ∃ rest, mergeFields schema.name maxDepth 0 schema.fields (Record.initial schema.fields) bs =
        .ok (r, rest) := by
  unfold decode
  cases mergeFields schema.name maxDepth 0 schema.fields (Record.initial schema.fields) bs with
  | error e => simp
  | ok read => simp [Prod.ext_iff]

/-- A record that is read after its length ends exactly there. -/
theorem decodeNested_eq_ok_iff [Defaulted κ] {schema : Schema κ} {depth : Nat}
    {r : Record schema.fields} {bs rest : Bytes} : decodeNested schema depth bs = .ok (r, rest) ↔
      depth ≠ 0 ∧ ∃ n inner, readVarint bs = .ok (n, inner) ∧ n ≤ inner.length ∧
        rest.length = inner.length - n ∧
          mergeFields schema.name (depth - 1) (inner.length - n) schema.fields
            (Record.initial schema.fields) inner = .ok (r, rest) := by
  constructor
  · intro h
    simp only [decodeNested] at h
    split at h
    · cases h
    rename_i hdepth
    split at h
    · cases h
    rename_i n inner hsize
    split at h
    · cases h
    rename_i hlen
    split at h
    · cases h
    rename_i hfields
    split at h
    · rename_i hend
      cases h
      exact ⟨hdepth, n, inner, hsize, Nat.le_of_not_lt hlen, hend, hfields⟩
    · cases h
  · rintro ⟨hdepth, n, inner, hsize, hlen, hend, hfields⟩
    simp only [decodeNested, if_neg hdepth, hsize, if_neg (Nat.not_lt.2 hlen), hfields, if_pos hend]

theorem length_le_of_decodeNested [Defaulted κ] {schema : Schema κ} {depth : Nat}
    {r : Record schema.fields} {bs rest : Bytes}
    (h : decodeNested schema depth bs = .ok (r, rest)) : rest.length ≤ bs.length := by
  obtain ⟨-, n, inner, hsize, -, -, hfields⟩ := decodeNested_eq_ok_iff.1 h
  have hinner := length_lt_of_readVarint hsize
  have hrest := length_le_of_mergeFields hfields
  omega

end Record

/-! ## Fields that may hold lists -/

namespace Kind

/-- The octets of a field. An entry is written even if all its fields are left out. -/
def encode (number : Nat) : (k : Kind) → Carrier k → Bytes
  | .one s, v => Scalar.encode number s v
  | .many entry, (rs : List (Record entry.fields)) =>
    rs.flatMap fun r => encodeDelimited number (Record.encode entry.fields r)

/-- How many octets a field takes. -/
def size (number : Nat) : (k : Kind) → Carrier k → Nat
  | .one s, v => Scalar.size number s v
  | .many entry, (rs : List (Record entry.fields)) =>
    (rs.map fun r =>
      let n := Record.encodedLength entry.fields r
      Varint.length (8 * number) + Varint.length n + n).foldr (· + ·) 0

/-- Reads a payload into the value of a field. -/
def merge (depth : Nat) : (k : Kind) → Form → Carrier k → Bytes → Decoding (Carrier k)
  | .one s, form, _, bs => s.merge form bs
  | .many entry, form, (rs : List (Record entry.fields)), bs =>
    if form = .delimited then
      match Record.decodeNested entry depth bs with
      | .error e => .error e
      | .ok (r, rest) => .ok (rs ++ [r], rest)
    else fail (.wrongForm form .delimited)

theorem merge_many_eq_ok_iff {depth : Nat} {entry : Schema Scalar} {form : Form}
    {old new : List (Record entry.fields)} {bs rest : Bytes} :
    merge depth (.many entry) form old bs = .ok (new, rest) ↔
      form = .delimited ∧ ∃ r, Record.decodeNested entry depth bs = .ok (r, rest) ∧
        new = old ++ [r] := by
  rw [merge]
  by_cases hform : form = .delimited
  · rw [if_pos hform]
    cases Record.decodeNested entry depth bs with
    | error e => simp
    | ok read =>
      constructor
      · intro h
        cases h
        exact ⟨hform, _, rfl, rfl⟩
      · rintro ⟨-, r, h, rfl⟩
        cases h
        rfl
  · rw [if_neg hform]
    exact iff_of_false nofun fun h => hform h.1

theorem length_le_of_merge {depth : Nat} {k : Kind} {form : Form} {old new : Carrier k}
    {bs rest : Bytes} (h : k.merge depth form old bs = .ok (new, rest)) :
    rest.length ≤ bs.length := by
  cases k with
  | one s => exact Scalar.length_le_of_merge h
  | many entry =>
    obtain ⟨-, r, hread, -⟩ := merge_many_eq_ok_iff.1 h
    exact Record.length_le_of_decodeNested hread

end Kind

instance : Wired Kind where
  encode := Kind.encode
  size := Kind.size
  merge := Kind.merge
  length_le_of_merge := Kind.length_le_of_merge

/-! ## Messages -/

namespace Message

variable {M : Type} [Message M]

/-- The octets of a message. -/
def encode (m : M) : Bytes := Record.encode (schema M).fields (toRecord m)

/-- How many octets a message takes. -/
def encodedLength (m : M) : Nat := Record.encodedLength (schema M).fields (toRecord m)

/-- The message that octets hold. -/
def decode (M : Type) [Message M] (bs : Bytes) : Except Failure M :=
  (Record.decode (schema M) bs).map ofRecord

end Message

end OrderRelay
