import OrderRelay.Mismatch
import OrderRelay.Text.Utf8

/-!
# What can be wrong with a JSON text

A reader stops at the first fault. A fault carries its place as an offset into the text, and only
its message turns that into a line and a column.

* `Fault`: the text ends too soon, breaks the grammar, or holds a value that does not fit.
* `Error`: a fault and the path of the value it lies in.
* `position`: the line and column of an offset.
-/

namespace OrderRelay.Json

/-- What a text that ends too soon leaves open. -/
inductive Unfinished where
  | value
  | text
  | array
  | object
  deriving DecidableEq

/-- How a text breaks the grammar. -/
inductive Malformed where
  | expectedColon
  | expectedArrayComma
  | expectedObjectComma
  | expectedWord
  | expectedValue
  | invalidEscape
  | invalidNumber
  | numberTooLarge
  | invalidUtf8
  | controlCharacter
  | keyNotText
  | loneSurrogate
  | halfPair
  | trailingComma
  | trailingCharacters
  deriving DecidableEq

/-- The first thing that is wrong with a text. -/
inductive Fault where
  | unfinished (what : Unfinished)
  | malformed (cause : Malformed) (offset : Nat)
  | unfit (cause : Mismatch) (offset : Nat)

/-- The words for what is left open. -/
def Unfinished.describe : Unfinished → String
  | .value => "EOF while parsing a value"
  | .text => "EOF while parsing a string"
  | .array => "EOF while parsing a list"
  | .object => "EOF while parsing an object"

/-- The words for a break of the grammar. -/
def Malformed.describe : Malformed → String
  | .expectedColon => "expected `:`"
  | .expectedArrayComma => "expected `,` or `]`"
  | .expectedObjectComma => "expected `,` or `\x7d`"
  | .expectedWord => "expected ident"
  | .expectedValue => "expected value"
  | .invalidEscape => "invalid escape"
  | .invalidNumber => "invalid number"
  | .numberTooLarge => "number out of range"
  | .invalidUtf8 => "invalid unicode code point"
  | .controlCharacter => "control character (\\u0000-\\u001F) found while parsing a string"
  | .keyNotText => "key must be a string"
  | .loneSurrogate => "lone leading surrogate in hex escape"
  | .halfPair => "unexpected end of hex escape"
  | .trailingComma => "trailing comma"
  | .trailingCharacters => "trailing characters"

/-- The line of an offset, counted from one, and the number of octets between the start of that line
and the offset. -/
def position (text : Bytes) (offset : Nat) : Nat × Nat :=
  (text.take offset).foldl
    (fun (place : Nat × Nat) (b : UInt8) =>
      if b = 0x0A then (place.1 + 1, 0) else (place.1, place.2 + 1)) (1, 0)

namespace Fault

/-- The words for a fault, without its place. -/
def describe : Fault → String
  | .unfinished what => what.describe
  | .malformed cause _ => cause.describe
  | .unfit cause _ => cause.message .wire

/-- The octets up to the place of a fault in a text. -/
def offset (text : Bytes) : Fault → Nat
  | .unfinished _ => text.length
  | .malformed _ offset => offset
  | .unfit _ offset => offset

/-- Whether the text itself is well-formed up to the fault. -/
def isUnfit : Fault → Bool
  | .unfit .. => true
  | _ => false

/-- The words for a fault with its line and column. -/
def message (f : Fault) (text : Bytes) : String :=
  let (line, column) := position text (f.offset text)
  f.describe ++ " at line " ++ natText line ++ " column " ++ natText column

end Fault

/-- One step of the path to a value. -/
inductive Step where
  | member (name : String)
  | index (n : Nat)

/-- The text of a path: names apart by points, indices in brackets. -/
def pathText : List Step → String
  | [] => ""
  | step :: rest => first step ++ String.join (rest.map next)
where
  first : Step → String
    | .member name => name
    | .index n => "[" ++ natText n ++ "]"
  next : Step → String
    | .member name => "." ++ name
    | .index n => "[" ++ natText n ++ "]"

/-- A fault and the path of the value in which it lies. -/
structure Error where
  path : List Step
  fault : Fault

namespace Error

/-- The fault lies one step deeper. -/
def within (step : Step) (e : Error) : Error := { e with path := step :: e.path }

/-- The words for an error, without its path. -/
def message (e : Error) (text : Bytes) : String := e.fault.message text

/-- The words for an error, led by its path. -/
def messageWithPath (e : Error) (text : Bytes) : String :=
  if e.path.isEmpty then e.message text else pathText e.path ++ ": " ++ e.message text

end Error

end OrderRelay.Json
