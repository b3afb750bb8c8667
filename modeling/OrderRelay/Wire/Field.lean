import OrderRelay.Number.Digits
import OrderRelay.Wire.Varint

/-!
# Fields on the wire

A message on the wire is a sequence of fields, each a key and a payload. The key holds the number of
the field and the form of the payload, so a reader can pass over fields that it does not know.

* `Form`: the six forms of a payload.
* `readKey`, `encodeKey`: a key.
* `skipField`: passes over the payload of an unknown field, groups of fields included.
* `Failure`: why octets are not a message, with the field in which they fail.
-/

namespace OrderRelay.Wire

/-- The form of a payload. -/
inductive Form where
  | varint
  | fixed64
  | delimited
  | groupStart
  | groupEnd
  | fixed32
  deriving DecidableEq

namespace Form

/-- The number of a form in a key. -/
def code : Form → Nat
  | .varint => 0
  | .fixed64 => 1
  | .delimited => 2
  | .groupStart => 3
  | .groupEnd => 4
  | .fixed32 => 5

/-- The form of a number. -/
def ofCode? : Nat → Option Form
  | 0 => some .varint
  | 1 => some .fixed64
  | 2 => some .delimited
  | 3 => some .groupStart
  | 4 => some .groupEnd
  | 5 => some .fixed32
  | _ => none

/-- What messages call a form. -/
def describe : Form → String
  | .varint => "Varint"
  | .fixed64 => "SixtyFourBit"
  | .delimited => "LengthDelimited"
  | .groupStart => "StartGroup"
  | .groupEnd => "EndGroup"
  | .fixed32 => "ThirtyTwoBit"

end Form

/-- Why octets are not a message. -/
inductive Cause where
  | invalidVarint
  /-- A key of more than 32 bits. -/
  | invalidKey (key : Nat)
  | invalidForm (code : Nat)
  | invalidNumber
  /-- A known field has another form than its own. -/
  | wrongForm (found expected : Form)
  /-- The octets end within a payload. -/
  | underflow
  | notUtf8
  /-- A nested message reaches past its length. -/
  | overrun
  | tooDeep
  | strayGroupEnd

/-- The words for a cause. -/
def Cause.describe : Cause → String
  | .invalidVarint => "invalid varint"
  | .invalidKey key => "invalid key value: " ++ natText key
  | .invalidForm code => "invalid wire type value: " ++ natText code
  | .invalidNumber => "invalid tag value: 0"
  | .wrongForm found expected =>
    "invalid wire type: " ++ found.describe ++ " (expected " ++ expected.describe ++ ")"
  | .underflow => "buffer underflow"
  | .notUtf8 => "invalid string value: data is not UTF-8 encoded"
  | .overrun => "delimited length exceeded"
  | .tooDeep => "recursion limit reached"
  | .strayGroupEnd => "unexpected end group tag"

/-- A cause and the fields it lies in, innermost first, each with the name of its message. -/
structure Failure where
  fields : List (String × String)
  cause : Cause

namespace Failure

/-- The failure lies in this field of this message. -/
def within (message field : String) (f : Failure) : Failure :=
  { f with fields := f.fields ++ [(message, field)] }

/-- The words for a failure. -/
def message (f : Failure) : String :=
  "failed to decode Protobuf message: "
    ++ String.join (f.fields.map fun (message, field) => message ++ "." ++ field ++ ": ")
    ++ f.cause.describe

end Failure

/-- What a reader makes of the octets at the front, and the octets after those. -/
abbrev Decoding (α : Type) := Except Failure (α × Bytes)

/-- Fails for a cause of its own. -/
def fail {α : Type} (cause : Cause) : Except Failure α := .error ⟨[], cause⟩

/-- The variable-length number at the front. -/
def readVarint (bs : Bytes) : Decoding Nat :=
  match Varint.decode? bs with
  | some r => .ok r
  | none => fail .invalidVarint

theorem length_lt_of_readVarint {v : Nat} {bs rest : Bytes} (h : readVarint bs = .ok (v, rest)) :
    rest.length < bs.length := by
  simp only [readVarint, fail] at h
  split at h
  · rename_i r hd
    simp only [Except.ok.injEq] at h
    exact Varint.length_lt_of_decode? (h ▸ hd)
  · simp at h

/-- The octets of a key. -/
def encodeKey (number : Nat) (form : Form) : Bytes := Varint.encode (8 * number + form.code)

/-- The largest key. -/
def maxKey : Nat := 0xFFFFFFFF

/-- The number and form that a key stands for. -/
def keyOfNat (key : Nat) : Except Failure (Nat × Form) :=
  if maxKey < key then fail (.invalidKey key)
  else
    match Form.ofCode? (key % 8) with
    | none => fail (.invalidForm (key % 8))
    | some form => if key / 8 = 0 then fail .invalidNumber else .ok (key / 8, form)

/-- The key at the front. -/
def readKey (bs : Bytes) : Decoding (Nat × Form) :=
  match readVarint bs with
  | .error e => .error e
  | .ok (key, rest) =>
    match keyOfNat key with
    | .error e => .error e
    | .ok found => .ok (found, rest)

theorem length_lt_of_readKey {k : Nat × Form} {bs rest : Bytes} (h : readKey bs = .ok (k, rest)) :
    rest.length < bs.length := by
  simp only [readKey] at h
  split at h
  · simp at h
  · rename_i hv
    split at h
    · simp at h
    · simp only [Except.ok.injEq, Prod.mk.injEq] at h
      exact h.2 ▸ length_lt_of_readVarint hv

/-- So many octets from the front. -/
def takeOctets (n : Nat) (bs : Bytes) : Decoding Bytes :=
  if n ≤ bs.length then .ok (bs.take n, bs.drop n) else fail .underflow

theorem length_le_of_takeOctets {n : Nat} {found bs rest : Bytes}
    (h : takeOctets n bs = .ok (found, rest)) : rest.length ≤ bs.length := by
  simp only [takeOctets, fail] at h
  split at h
  · simp only [Except.ok.injEq, Prod.mk.injEq] at h
    simp [← h.2]
  · simp at h

/-- The octets of a delimited payload. -/
def readDelimited (bs : Bytes) : Decoding Bytes :=
  match readVarint bs with
  | .error e => .error e
  | .ok (n, rest) => takeOctets n rest

theorem length_le_of_readDelimited {found bs rest : Bytes}
    (h : readDelimited bs = .ok (found, rest)) : rest.length ≤ bs.length := by
  simp only [readDelimited] at h
  split at h
  · simp at h
  · rename_i hv
    have := length_lt_of_readVarint hv
    have := length_le_of_takeOctets h
    omega

/-! ## Unknown fields -/

/-- The octets after a payload that is no group. -/
def skipPayload (form : Form) (bs : Bytes) : Except Failure Bytes :=
  match form with
  | .varint => (readVarint bs).map (·.2)
  | .fixed64 => (takeOctets 8 bs).map (·.2)
  | .delimited => (readDelimited bs).map (·.2)
  | .fixed32 => (takeOctets 4 bs).map (·.2)
  | .groupStart | .groupEnd => fail .strayGroupEnd

theorem map_snd_eq_ok {α : Type} {r : Decoding α} {rest : Bytes} (h : r.map (·.2) = .ok rest) :
    ∃ a, r = .ok (a, rest) := by
  cases r with
  | error e => simp [Except.map] at h
  | ok p => exact ⟨p.1, by simp only [Except.map, Except.ok.injEq] at h; simp [← h]⟩

theorem length_le_of_skipPayload {form : Form} {bs rest : Bytes}
    (h : skipPayload form bs = .ok rest) : rest.length ≤ bs.length := by
  cases form <;> simp only [skipPayload] at h
  · obtain ⟨_, h⟩ := map_snd_eq_ok h
    exact Nat.le_of_lt (length_lt_of_readVarint h)
  · obtain ⟨_, h⟩ := map_snd_eq_ok h
    exact length_le_of_takeOctets h
  · obtain ⟨_, h⟩ := map_snd_eq_ok h
    exact length_le_of_readDelimited h
  · simp [fail] at h
  · simp [fail] at h
  · obtain ⟨_, h⟩ := map_snd_eq_ok h
    exact length_le_of_takeOctets h

/-- Passes over fields until all of the given groups have ended. A group holds fields and ends with a
key of its own number; at most `depth` of them lie within each other. -/
def skipGroups (depth : Nat) (groups : List Nat) (bs : Bytes) : Except Failure Bytes :=
  match groups with
  | [] => .ok bs
  | innermost :: outer =>
    match _ : readKey bs with
    | .error e => .error e
    | .ok ((number, form), rest) =>
      if form = .groupEnd then
        if number = innermost then skipGroups depth outer rest else fail .strayGroupEnd
      else if depth ≤ outer.length + 1 then fail .tooDeep
      else if form = .groupStart then skipGroups depth (number :: innermost :: outer) rest
      else
        match _ : skipPayload form rest with
        | .error e => .error e
        | .ok rest => skipGroups depth (innermost :: outer) rest
termination_by bs.length
decreasing_by
  · exact length_lt_of_readKey (by assumption)
  · exact length_lt_of_readKey (by assumption)
  · have := length_lt_of_readKey (by assumption)
    have := length_le_of_skipPayload (by assumption)
    omega

/-- The octets after the payload of a field that nobody knows. -/
def skipField (depth number : Nat) (form : Form) (bs : Bytes) : Except Failure Bytes :=
  if depth = 0 then fail .tooDeep
  else
    match form with
    | .groupStart => skipGroups depth [number] bs
    | _ => skipPayload form bs

theorem length_le_of_skipGroups {depth : Nat} {groups : List Nat} {bs rest : Bytes}
    (h : skipGroups depth groups bs = .ok rest) : rest.length ≤ bs.length := by
  fun_induction skipGroups depth groups bs with
  | case1 bs =>
    simp only [Except.ok.injEq] at h
    simp [h]
  | case2 | case4 | case5 | case7 => simp [fail] at h
  | case3 _ _ _ _ hk ih =>
    have := length_lt_of_readKey hk
    have := ih h
    omega
  | case6 _ _ _ _ _ _ hk _ ih =>
    have := length_lt_of_readKey hk
    have := ih h
    omega
  | case8 _ _ _ _ _ _ hk _ _ _ _ hp ih =>
    have := length_lt_of_readKey hk
    have := length_le_of_skipPayload hp
    have := ih h
    omega

theorem length_le_of_skipField {depth number : Nat} {form : Form} {bs rest : Bytes}
    (h : skipField depth number form bs = .ok rest) : rest.length ≤ bs.length := by
  simp only [skipField] at h
  split at h
  · simp [fail] at h
  · split at h
    · exact length_le_of_skipGroups h
    · exact length_le_of_skipPayload h

end OrderRelay.Wire
