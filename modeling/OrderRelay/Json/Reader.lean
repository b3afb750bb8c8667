import OrderRelay.Json.Lexer
import OrderRelay.Json.Skip
import OrderRelay.Tuple

/-!
# Reading a value of a known shape

A shape names the members of an object and the kind of each. Reading fills one slot for each member;
members of other names are passed over. An array is read as the members in their order, without
their names.

* `Readable`: kinds of values, each with a reader that takes at least one token.
* `Shape.read`: the slots of a shape from the tokens of an object or array.
* `readText`: the same from a whole text, which may hold nothing else.
-/

namespace OrderRelay.Json

/-- What a reader makes of the tokens at the front, and the tokens after those. -/
abbrev Reading (α : Type) := Except Error (α × List Token)

/-- A fault of this very value. -/
def here {α : Type} (f : Fault) : Except Error α := .error ⟨[], f⟩

/-- Puts the errors of a deeper value in their place. -/
def within {α : Type} (step : Step) (r : Except Error α) : Except Error α :=
  match r with
  | .ok a => .ok a
  | .error e => .error (e.within step)

theorem within_eq_ok {α : Type} {step : Step} {r : Except Error α} {a : α} :
    within step r = .ok a ↔ r = .ok a := by
  cases r <;> simp [within]

/-- Kinds of values that can be read. -/
class Readable (κ : Type) [Kinds κ] where
  /-- Reads a value of a kind. -/
  read : (k : κ) → List Token → Reading (Carrier k)
  shrinks : ∀ {k : κ} {ts rest : List Token} {v : Carrier k},
    read k ts = .ok (v, rest) → rest.length < ts.length

/-! ## Tokens of structures -/

/-- The tokens after a colon. -/
def afterColon : List Token → Except Error (List Token)
  | [] => here (.unfinished .object)
  | t :: rest =>
    match t.lexeme with
    | .colon => .ok rest
    | _ => here (t.refuse .expectedColon)

theorem length_lt_of_afterColon {ts rest : List Token} (h : afterColon ts = .ok rest) :
    rest.length < ts.length := by
  cases ts with
  | nil => simp [afterColon, here] at h
  | cons t ts =>
    simp only [afterColon, here] at h
    split at h
    · simp only [Except.ok.injEq] at h
      simp [h]
    · simp at h

/-- The tokens of the next element of an array, none at its end. The first element needs no comma in
front of it. -/
def nextElement? (first : Bool) : List Token → Except Error (Option (List Token))
  | [] => here (.unfinished .array)
  | t :: rest =>
    match t.lexeme, first with
    | .closeArray, _ => .ok none
    | _, true => .ok (some (t :: rest))
    | .comma, false =>
      match rest with
      | [] => here (.unfinished .value)
      | u :: _ =>
        match u.lexeme with
        | .closeArray => here (u.refuse .trailingComma)
        | _ => .ok (some rest)
    | _, false => here (t.refuse .expectedArrayComma)

theorem length_le_of_nextElement? {first : Bool} {ts rest : List Token}
    (h : nextElement? first ts = .ok (some rest)) : rest.length ≤ ts.length := by
  cases ts with
  | nil => simp [nextElement?, here] at h
  | cons t ts =>
    simp only [nextElement?, here] at h
    split at h
    · simp at h
    · simp only [Except.ok.injEq, Option.some.injEq] at h
      simp [← h]
    · split at h
      · simp at h
      · split at h
        · simp at h
        · simp only [Except.ok.injEq, Option.some.injEq] at h
          simp [← h]
    · simp at h

/-- The tokens after the end of an array that is not read any further. -/
def endArray : List Token → Except Error (List Token)
  | [] => here (.unfinished .array)
  | t :: rest =>
    match t.lexeme, rest with
    | .closeArray, _ => .ok rest
    | .comma, [] => here (.malformed .trailingCharacters t.next)
    | .comma, u :: _ =>
      match u.lexeme with
      | .closeArray => here (u.refuse .trailingComma)
      | _ => here (u.refuse .trailingCharacters)
    | _, _ => here (t.refuse .trailingCharacters)

/-- The name of the next member, its token and the tokens after it, none at the end of the object.
The first member needs no comma in front of it. -/
def nextMember? (first : Bool) : List Token → Except Error (Option (String × Token × List Token))
  | [] => here (.unfinished .object)
  | t :: rest =>
    match t.lexeme, first with
    | .closeObject, _ => .ok none
    | _, true => named t rest
    | .comma, false =>
      match rest with
      | [] => here (.unfinished .value)
      | u :: rest =>
        match u.lexeme with
        | .closeObject => here (u.refuse .trailingComma)
        | _ => named u rest
    | _, false => here (t.refuse .expectedObjectComma)
where
  /-- A name stands here. -/
  named (t : Token) (rest : List Token) : Except Error (Option (String × Token × List Token)) :=
    match t.lexeme with
    | .text (.ok name) => .ok (some (name, t, rest))
    | .text (.error fault) => here fault
    | .broken true needed _ => here needed
    | _ => here (t.refuse .keyNotText)

theorem length_le_of_endArray {ts rest : List Token} (h : endArray ts = .ok rest) :
    rest.length ≤ ts.length := by
  cases ts with
  | nil => simp [endArray, here] at h
  | cons t ts =>
    simp only [endArray, here] at h
    split at h
    · simp only [Except.ok.injEq] at h
      simp [h]
    · simp at h
    · split at h <;> simp at h
    · simp at h

theorem nextMember?_named_eq {t u : Token} {name : String} {ts rest : List Token}
    (h : nextMember?.named t ts = .ok (some (name, u, rest))) : rest = ts := by
  simp only [nextMember?.named, here] at h
  split at h <;> simp_all

theorem length_lt_of_nextMember? {first : Bool} {t : Token} {name : String} {ts rest : List Token}
    (h : nextMember? first ts = .ok (some (name, t, rest))) : rest.length < ts.length := by
  cases ts with
  | nil => simp [nextMember?, here] at h
  | cons u ts =>
    simp only [nextMember?, here] at h
    split at h
    · simp at h
    · simp [nextMember?_named_eq h]
    · split at h
      · simp at h
      · split at h
        · simp at h
        · have := nextMember?_named_eq h
          simp only [this, List.length_cons]
          omega
    · simp at h

/-! ## Arrays of one kind -/

section Elements

variable {κ : Type} [Kinds κ] [Readable κ]

/-- Reads elements up to the end of the array, putting them in front of `acc`; `n` of them stand
before. -/
def readElements (k : κ) (n : Nat) (acc : List (Carrier k)) (ts : List Token) :
    Reading (List (Carrier k)) :=
  match _ : nextElement? (n == 0) ts with
  | .error e => .error e
  | .ok none => .ok (acc.reverse, ts.drop 1)
  | .ok (some ts') =>
    match _ : Readable.read k ts' with
    | .error e => .error (e.within (.index n))
    | .ok (v, rest) => readElements k (n + 1) (v :: acc) rest
termination_by ts.length
decreasing_by
  have := length_le_of_nextElement? (by assumption)
  have := Readable.shrinks (by assumption)
  omega

theorem length_le_of_readElements {k : κ} {n : Nat} {acc vs : List (Carrier k)}
    {ts rest : List Token} (h : readElements k n acc ts = .ok (vs, rest)) :
    rest.length ≤ ts.length := by
  fun_induction readElements k n acc ts with
  | case1 => simp at h
  | case2 =>
    simp only [Except.ok.injEq, Prod.mk.injEq] at h
    simp [← h.2]
  | case3 => simp at h
  | case4 _ _ _ _ hn _ _ hr ih =>
    have := length_le_of_nextElement? hn
    have := Readable.shrinks hr
    have := ih h
    omega

end Elements

/-! ## Shapes -/

/-- How a member of an object may be left out. -/
inductive Absence where
  /-- It stands for a value of its own. An array may end early, and null is no value. -/
  | byDefault
  /-- It stands for no value, and so does null. An array must hold every element. -/
  | byNull
  deriving DecidableEq

/-- A member of an object: the names that it may go by, and the kind of its value. -/
structure Member (κ : Type) where
  names : List String
  kind : κ

/-- The name that messages use for a member. -/
def Member.name {κ : Type} (m : Member κ) : String := m.names.headD ""

/-- What has been read for a member. -/
inductive Slot (α : Type) where
  /-- Nothing so far. -/
  | absent
  /-- The word null, as no value. -/
  | null
  | given (a : α)

/-- The value in a slot. -/
def Slot.value? {α : Type} : Slot α → Option α
  | .given a => some a
  | _ => none

/-- Whether nothing has been read for a member. -/
def Slot.isAbsent {α : Type} : Slot α → Bool
  | .absent => true
  | _ => false

/-- The members of an object. -/
structure Shape (κ : Type) where
  /-- What messages call the object. -/
  expected : String
  absence : Absence
  members : List (Member κ)

section Members

variable {κ : Type} [Kinds κ] [Readable κ]

/-- One slot for each member. -/
abbrev Slots (ms : List (Member κ)) := Tuple (fun m => Slot (Carrier m.kind)) ms

/-- The slots before anything is read. -/
def Slots.empty (ms : List (Member κ)) : Slots ms := Tuple.build (fun _ => .absent) ms

/-- Reads what fills a slot. -/
def readSlot (absence : Absence) (k : κ) (ts : List Token) : Reading (Slot (Carrier k)) :=
  match absence, ts with
  | .byNull, ⟨.null, _, _, _⟩ :: rest => .ok (.null, rest)
  | _, _ =>
    match Readable.read k ts with
    | .ok (v, rest) => .ok (.given v, rest)
    | .error e => .error e

theorem length_lt_of_readSlot {absence : Absence} {k : κ} {ts rest : List Token}
    {s : Slot (Carrier k)} (h : readSlot absence k ts = .ok (s, rest)) : rest.length < ts.length := by
  simp only [readSlot] at h
  split at h
  · simp only [Except.ok.injEq, Prod.mk.injEq] at h
    simp [h.2]
  · split at h
    · rename_i hr
      simp only [Except.ok.injEq, Prod.mk.injEq] at h
      exact h.2 ▸ Readable.shrinks hr
    · simp at h

/-- Reads the value of the member of the given name into its slot. Two names of one member are two
values for it, which is refused once the text up to the next token has been seen. -/
def readMember (absence : Absence) (key : Token) (name : String) :
    (ms : List (Member κ)) → Slots ms → List Token → Reading (Slots ms)
  | [], slots, ts =>
    match afterColon ts with
    | .error e => .error e
    | .ok ts =>
      match skip ts with
      | .error fault => within (.member name) (here fault)
      | .ok rest => .ok (slots, rest)
  | m :: ms, (slot, slots), ts =>
    if m.names.contains name then
      if slot.isAbsent then
        match afterColon ts with
        | .error e => .error e
        | .ok ts =>
          match within (.member name) (readSlot absence m.kind ts) with
          | .error e => .error e
          | .ok (slot, rest) => .ok ((slot, slots), rest)
      else here (.unfit (.duplicate m.name) (seen key ts))
    else
      match readMember absence key name ms slots ts with
      | .error e => .error e
      | .ok (slots, rest) => .ok ((slot, slots), rest)
where
  /-- A closing brace right after the name is still taken. -/
  seen (key : Token) (ts : List Token) : Nat :=
    match ts with
    | ⟨.closeObject, _, stop, _⟩ :: _ => stop
    | _ => key.next

theorem length_lt_of_readMember {absence : Absence} {key : Token} {name : String}
    {ms : List (Member κ)} {slots slots' : Slots ms} {ts rest : List Token}
    (h : readMember absence key name ms slots ts = .ok (slots', rest)) : rest.length < ts.length := by
  induction ms with
  | nil =>
    simp only [readMember] at h
    split at h
    · simp at h
    · rename_i hc
      split at h
      · simp [within, here] at h
      · rename_i hs
        simp only [Except.ok.injEq, Prod.mk.injEq] at h
        have := length_lt_of_afterColon hc
        have := length_lt_of_skip hs
        rw [← h.2]
        omega
  | cons m ms ih =>
    obtain ⟨slot, slots⟩ := slots
    simp only [readMember] at h
    split at h
    · split at h
      · split at h
        · simp at h
        · rename_i hc
          split at h
          · simp at h
          · rename_i hs
            simp only [Except.ok.injEq] at h
            have := length_lt_of_afterColon hc
            have := length_lt_of_readSlot (within_eq_ok.1 hs)
            have hrest := congrArg Prod.snd h
            subst hrest
            dsimp only
            omega
      · simp [here] at h
    · split at h
      · simp at h
      · rename_i hr
        simp only [Except.ok.injEq] at h
        have hrest := congrArg Prod.snd h
        subst hrest
        exact ih hr

/-- Reads members up to the end of the object. -/
def readMembers (absence : Absence) (ms : List (Member κ)) (first : Bool) (slots : Slots ms)
    (ts : List Token) : Reading (Slots ms) :=
  match _ : nextMember? first ts with
  | .error e => .error e
  | .ok none => .ok (slots, ts.drop 1)
  | .ok (some (name, key, ts')) =>
    match _ : readMember absence key name ms slots ts' with
    | .error e => .error e
    | .ok (slots, rest) => readMembers absence ms false slots rest
termination_by ts.length
decreasing_by
  have := length_lt_of_nextMember? (by assumption)
  have := length_lt_of_readMember (by assumption)
  omega

theorem length_le_of_readMembers {absence : Absence} {ms : List (Member κ)} {first : Bool}
    {slots slots' : Slots ms} {ts rest : List Token}
    (h : readMembers absence ms first slots ts = .ok (slots', rest)) : rest.length ≤ ts.length := by
  fun_induction readMembers absence ms first slots ts with
  | case1 => simp at h
  | case2 =>
    simp only [Except.ok.injEq, Prod.mk.injEq] at h
    simp [← h.2]
  | case3 => simp at h
  | case4 _ _ _ _ _ _ hn _ _ hr ih =>
    have := length_lt_of_nextMember? hn
    have := length_lt_of_readMember hr
    have := ih h
    omega

/-- What an array holds of the members of a shape. -/
inductive Filled (ms : List (Member κ)) where
  | slots (slots : Slots ms)
  /-- It ends after so many elements, and that is too early. -/
  | short (n : Nat)

/-- Reads the members in their order from an array; `n` elements stand before. -/
def readPositions (absence : Absence) (n : Nat) :
    (ms : List (Member κ)) → List Token → Reading (Filled ms)
  | [], ts => .ok (.slots (), ts)
  | m :: ms, ts =>
    match nextElement? (n == 0) ts with
    | .error e => .error e
    | .ok none =>
      match absence with
      | .byNull => .ok (.short n, ts)
      | .byDefault => .ok (.slots (Slots.empty (m :: ms)), ts)
    | .ok (some ts) =>
      match within (.index n) (readSlot absence m.kind ts) with
      | .error e => .error e
      | .ok (slot, rest) =>
        match readPositions absence (n + 1) ms rest with
        | .error e => .error e
        | .ok (.short n, rest) => .ok (.short n, rest)
        | .ok (.slots slots, rest) => .ok (.slots (slot, slots), rest)

theorem length_le_of_readPositions {absence : Absence} {n : Nat} {ms : List (Member κ)}
    {filled : Filled ms} {ts rest : List Token}
    (h : readPositions absence n ms ts = .ok (filled, rest)) : rest.length ≤ ts.length := by
  induction ms generalizing n ts rest with
  | nil =>
    simp only [readPositions, Except.ok.injEq, Prod.mk.injEq] at h
    simp [h.2]
  | cons m ms ih =>
    simp only [readPositions] at h
    split at h
    · simp at h
    · split at h
      · simp only [Except.ok.injEq, Prod.mk.injEq] at h
        simp [h.2]
      · simp only [Except.ok.injEq, Prod.mk.injEq] at h
        simp [h.2]
    · rename_i hn
      have := length_le_of_nextElement? hn
      split at h
      · simp at h
      · rename_i hs
        have := length_lt_of_readSlot (within_eq_ok.1 hs)
        split at h
        · simp at h
        · rename_i hp
          simp only [Except.ok.injEq, Prod.mk.injEq] at h
          have := ih hp
          rw [← h.2]
          omega
        · rename_i hp
          simp only [Except.ok.injEq, Prod.mk.injEq] at h
          have := ih hp
          rw [← h.2]
          omega

/-- The words for the members that an array must hold. -/
def Shape.elements (s : Shape κ) : String :=
  s.expected ++ " with " ++ natText s.members.length
    ++ (if s.members.length = 1 then " element" else " elements")

end Members

/-- A value that is there in place of the one expected. -/
def mismatched (t : Token) (expected : String) : Fault :=
  match t.lexeme with
  | .null => t.unfit (.kind .null expected)
  | .bool b => t.unfit (.kind (.bool b) expected)
  | .text (.ok s) => t.unfit (.kind (.text s) expected)
  | .text (.error fault) => fault
  | .number l =>
    match t.number l with
    | .ok (.whole n) => t.unfit (.kind (.whole n) expected)
    | .ok (.double d) => t.unfit (.kind (.double d) expected)
    | .error fault => fault
  | .openArray => t.unfitStructure (.kind .sequence expected)
  | .openObject => t.unfitStructure (.kind .map expected)
  | .broken _ needed _ => needed
  | _ => t.refuse .expectedValue

section Whole

variable {κ : Type} [Kinds κ] [Readable κ]

/-- Reads the members of a shape from an object or from an array. -/
def Shape.read (s : Shape κ) : List Token → Reading (Slots s.members)
  | [] => here (.unfinished .value)
  | t :: ts =>
    match t.lexeme with
    | .openObject => readMembers s.absence s.members true (Slots.empty s.members) ts
    | .openArray =>
      match readPositions s.absence 0 s.members ts with
      | .error e => .error e
      | .ok (found, ts) =>
        match found, endArray ts with
        | .slots slots, .ok rest => .ok (slots, rest)
        | .slots _, .error e => .error e
        | .short n, _ => here (.unfit (.length n s.elements) ((ts.head?.map Token.stop).getD 0))
    | _ => here (mismatched t s.expected)

theorem Shape.length_lt_of_read {s : Shape κ} {ts rest : List Token} {slots : Slots s.members}
    (h : s.read ts = .ok (slots, rest)) : rest.length < ts.length := by
  cases ts with
  | nil => simp [Shape.read, here] at h
  | cons t ts =>
    rw [List.length_cons, Nat.lt_add_one_iff]
    simp only [Shape.read, here] at h
    split at h
    · exact length_le_of_readMembers h
    · split at h
      · simp at h
      · rename_i hp
        have := length_le_of_readPositions hp
        split at h
        · rename_i he
          simp only [Except.ok.injEq, Prod.mk.injEq] at h
          have := length_le_of_endArray he
          rw [← h.2]
          omega
        · simp at h
        · simp at h
    · simp at h

/-- Reads a text that holds one value of a shape and nothing else. -/
def Shape.readText (s : Shape κ) (text : Bytes) : Except Error (Slots s.members) :=
  match s.read (tokens text) with
  | .error e => .error e
  | .ok (slots, []) => .ok slots
  | .ok (_, t :: _) => here (t.refuse .trailingCharacters)

end Whole

end OrderRelay.Json
