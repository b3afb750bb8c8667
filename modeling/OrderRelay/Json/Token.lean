import OrderRelay.Json.Fault
import OrderRelay.Number.Literal

/-!
# JSON tokens

The words of a JSON text with their places. Whether a token is flawed can depend on what becomes of
it: a text with half a surrogate pair, or with octets that are not UTF-8, cannot be read as a value
but may be passed over. Such a token carries its flaw along instead of ending the text.

* `Token`: a lexeme, where it starts and stops, and where the next one starts.
* `Lexeme.broken`: a word at which every reader stops. Nothing follows it.
-/

namespace OrderRelay.Json

/-- The words of a JSON text. -/
inductive Lexeme where
  | openObject
  | closeObject
  | openArray
  | closeArray
  | comma
  | colon
  | null
  | bool (b : Bool)
  /-- A closed text: what it says, or why it says nothing. -/
  | text (content : Except Fault String)
  | number (literal : Literal)
  /-- A character that begins no word. -/
  | stray
  /-- A word that does not end as it began: the fault for who needs its value and the fault for who
  passes over it. -/
  | broken (isText : Bool) (needed skipped : Fault)

/-- A lexeme and its place. -/
structure Token where
  lexeme : Lexeme
  /-- The offset of its first octet. -/
  start : Nat
  /-- The offset after its last octet. -/
  stop : Nat
  /-- The offset of the next token, or of the end of the text. -/
  next : Nat

namespace Token

/-- A grammar fault that shows when the first octet of the token is looked at. -/
def refuse (t : Token) (cause : Malformed) : Fault := .malformed cause (t.start + 1)

/-- A value that does not fit, once it has been read. -/
def unfit (t : Token) (cause : Mismatch) : Fault := .unfit cause t.stop

/-- A structure where another value belongs, before it is read. -/
def unfitStructure (t : Token) (cause : Mismatch) : Fault := .unfit cause t.start

/-- What a number literal is worth; the range fault lies where the range was left. -/
def number (t : Token) (l : Literal) : Except Fault Number :=
  match l.number with
  | .ok n => .ok n
  | .error left => .error (.malformed .numberTooLarge (t.stop - left))

end Token

end OrderRelay.Json
