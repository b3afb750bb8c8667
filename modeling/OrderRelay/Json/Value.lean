import OrderRelay.Json.Lexer
import OrderRelay.Number.Layout
import OrderRelay.Text.Hex

/-!
# JSON values

A value as a tree. Objects keep their members in the order in which they were written, and numbers
are kept as literals, so no digit is lost.

* `Value.compact`: the text of a value without any space.
* `Value.pretty`: the text of a value over several lines, two spaces for each level.
* `Value.ofText?`: the value that a text holds.
-/

namespace OrderRelay.Json

/-- A JSON value. -/
inductive Value where
  | null
  | bool (b : Bool)
  | number (l : Literal)
  | text (s : String)
  | array (items : List Value)
  | object (members : List (String × Value))
  deriving Inhabited

/-- A character of a text between quotes: quotes, backslashes and control characters are escaped. -/
def escape (c : Char) : List Char :=
  if c = '\"' then ['\\', '\"']
  else if c = '\\' then ['\\', '\\']
  else if c.toNat = 0x08 then ['\\', 'b']
  else if c = '\t' then ['\\', 't']
  else if c = '\n' then ['\\', 'n']
  else if c.toNat = 0x0C then ['\\', 'f']
  else if c = '\r' then ['\\', 'r']
  else if c.toNat < 0x20 then
    ['\\', 'u', '0', '0', Hex.digit (c.toNat / 16), Hex.digit (c.toNat % 16)]
  else [c]

/-- A text between quotes. -/
def quote (s : String) : String := String.ofList (['\"'] ++ s.toList.flatMap escape ++ ['\"'])

namespace Value

/-- The value of a whole number. -/
def ofInt (n : Int) : Value := .number (.ofInt n)

/-- The value of a natural number. -/
def ofNat (n : Nat) : Value := .number (.ofInt n)

/-- The value of a double; null if it is not finite. -/
def ofDouble (d : Double) : Value := if d.isFinite then .number (d.literal .wire) else .null

/-- The value, or null if there is none. -/
def orNull {α : Type} (f : α → Value) : Option α → Value
  | none => .null
  | some a => f a

mutual

/-- The text of a value without any space. -/
def compact : Value → String
  | .null => "null"
  | .bool b => if b then "true" else "false"
  | .number l => l.text
  | .text s => quote s
  | .array items => "[" ++ ",".intercalate (compactItems items) ++ "]"
  | .object members => "\x7b" ++ ",".intercalate (compactMembers members) ++ "\x7d"

/-- The texts of values. -/
def compactItems : List Value → List String
  | [] => []
  | v :: vs => compact v :: compactItems vs

/-- The texts of members. -/
def compactMembers : List (String × Value) → List String
  | [] => []
  | (name, v) :: ms => (quote name ++ ":" ++ compact v) :: compactMembers ms

end

/-- Lines between two brackets; nothing at all between them if there are no lines. -/
def block (opening closing indent : String) (lines : List String) : String :=
  if lines.isEmpty then opening ++ closing
  else
    opening ++ "\n" ++ ",\n".intercalate (lines.map fun line => indent ++ "  " ++ line) ++ "\n"
      ++ indent ++ closing

mutual

/-- The text of a value over several lines, the first of which is already indented. -/
def prettyWithin (indent : String) : Value → String
  | .null => "null"
  | .bool b => if b then "true" else "false"
  | .number l => l.text
  | .text s => quote s
  | .array items => block "[" "]" indent (prettyItems (indent ++ "  ") items)
  | .object members => block "\x7b" "\x7d" indent (prettyMembers (indent ++ "  ") members)

/-- The texts of values. -/
def prettyItems (indent : String) : List Value → List String
  | [] => []
  | v :: vs => prettyWithin indent v :: prettyItems indent vs

/-- The texts of members. -/
def prettyMembers (indent : String) : List (String × Value) → List String
  | [] => []
  | (name, v) :: ms => (quote name ++ ": " ++ prettyWithin indent v) :: prettyMembers indent ms

end

/-- The text of a value over several lines. -/
def pretty (v : Value) : String := prettyWithin "" v

/-- The member of an object by its name. -/
def member? (name : String) : Value → Option Value
  | .object members => (members.find? fun (n, _) => n == name).map (·.2)
  | _ => none

/-! ## Reading -/

/-- A structure that is still open: the parts read so far, last first. -/
inductive Partial where
  | array (items : List Value)
  | object (members : List (String × Value))
  /-- An object and the name whose value comes next. -/
  | named (members : List (String × Value)) (name : String)

/-- What may come next. -/
inductive Phase where
  | value
  | first
  | after
  | key
  | colon

/-- The open structures, innermost first, and what may come next. -/
structure Builder where
  partials : List Partial
  phase : Phase

/-- Puts a complete value into the innermost open structure; it is the result if none is open. -/
def place (v : Value) : List Partial → Value ⊕ Builder
  | [] => .inl v
  | .array items :: outer => .inr ⟨.array (v :: items) :: outer, .after⟩
  | .named members name :: outer => .inr ⟨.object ((name, v) :: members) :: outer, .after⟩
  | .object members :: outer => .inr ⟨.object members :: outer, .after⟩

/-- A value starts with this token. -/
def start (outer : List Partial) (t : Token) : Option (Value ⊕ Builder) :=
  match t.lexeme with
  | .null => some (place .null outer)
  | .bool b => some (place (.bool b) outer)
  | .text (.ok s) => some (place (.text s) outer)
  | .number l =>
    match l.number with
    | .ok _ => some (place (.number l) outer)
    | .error _ => none
  | .openArray => some (.inr ⟨.array [] :: outer, .first⟩)
  | .openObject => some (.inr ⟨.object [] :: outer, .first⟩)
  | _ => none

/-- Takes in one more token. -/
def feed (b : Builder) (t : Token) : Option (Value ⊕ Builder) :=
  match b.phase, b.partials, t.lexeme with
  | .first, .array items :: outer, .closeArray => some (place (.array items.reverse) outer)
  | .after, .array items :: outer, .closeArray => some (place (.array items.reverse) outer)
  | .first, .object members :: outer, .closeObject => some (place (.object members.reverse) outer)
  | .after, .object members :: outer, .closeObject => some (place (.object members.reverse) outer)
  | .first, .object members :: outer, .text (.ok name) =>
    some (.inr ⟨.named members name :: outer, .colon⟩)
  | .key, .object members :: outer, .text (.ok name) =>
    some (.inr ⟨.named members name :: outer, .colon⟩)
  | .first, .array items :: outer, _ => start (.array items :: outer) t
  | .colon, outer, .colon => some (.inr ⟨outer, .value⟩)
  | .after, .array items :: outer, .comma => some (.inr ⟨.array items :: outer, .value⟩)
  | .after, .object members :: outer, .comma => some (.inr ⟨.object members :: outer, .key⟩)
  | .value, outer, _ => start outer t
  | _, _, _ => none

/-- Takes in tokens until the value is complete, which must be at the end. -/
def build (b : Builder) : List Token → Option Value
  | [] => none
  | t :: rest =>
    match feed b t with
    | none => none
    | some (.inl v) => if rest.isEmpty then some v else none
    | some (.inr b) => build b rest

/-- The value that a text holds. -/
def ofText? (text : Bytes) : Option Value := build ⟨[], .value⟩ (tokens text)

end Value

end OrderRelay.Json
