import OrderRelay.Text.Case

/-!
# Media types

The value of a content type: a type and a subtype, a slash between them, and after a semicolon or a
space the parameters. Only JSON matters here.

* `MediaType.parse?`: the type and the subtype, unless the text is no media type.
* `MediaType.isJson`: whether a text names JSON.
-/

namespace OrderRelay.Http

/-- Characters of which names are made. -/
def isNameChar (c : Char) : Bool :=
  c.isAlphanum || "!#$%&'*+-.^_`|~".toList.contains c

/-- A media type without its parameters, in small letters. -/
structure MediaType where
  main : String
  sub : String
  deriving DecidableEq, Repr

namespace MediaType

/-- Where a reader of parameters stands. -/
inductive Place where
  /-- Before the name of a parameter. -/
  | before
  | name
  /-- After the equals sign. -/
  | equals
  | value
  | quotedStart
  | quoted
  /-- After the closing quote. -/
  | after
  deriving DecidableEq, Repr

/-- The place after one more character. -/
def Place.step : Place → Char → Option Place
  | .before, c => if c = ' ' then some .before else if isNameChar c then some .name else none
  | .name, c => if isNameChar c then some .name else if c = '=' then some .equals else none
  | .equals, c =>
    if c = '"' then some .quotedStart else if isNameChar c then some .value else none
  | .value, c => if isNameChar c then some .value else if c = ';' then some .before else none
  -- A quote right after the opening one is part of the value's text and must not close it.
  | .quotedStart, c => if isQuotedChar c then some .quoted else none
  | .quoted, c => if c = '"' then some .after else if isQuotedChar c then some .quoted else none
  | .after, c => if c = ';' then some .before else if c = ' ' then some .after else none
where
  isQuotedChar (c : Char) : Bool := 0x20 ≤ c.toNat && c.toNat != 0x7F

/-- Whether parameters may end at a place. -/
def Place.mayEnd : Place → Bool
  | .before | .equals | .value | .after => true
  | .name | .quotedStart | .quoted => false

/-- Whether a text is a sequence of parameters. -/
def areParameters (cs : List Char) : Bool :=
  match cs.foldlM Place.step .before with
  | some p => p.mayEnd
  | none => false

/-- The type and the subtype of a text, unless it is no media type. -/
def parse? (s : String) : Option MediaType :=
  let main := s.toList.takeWhile isNameChar
  match s.toList.dropWhile isNameChar with
  | '/' :: rest =>
    let sub := rest.takeWhile isNameChar
    let wellFormed := !main.isEmpty &&
      match rest.dropWhile isNameChar with
      | [] => true
      | c :: parameters => !sub.isEmpty && (c == ';' || c == ' ') && areParameters parameters
    if wellFormed then some ⟨lowerAscii (String.ofList main), lowerAscii (String.ofList sub)⟩
    else none
  | _ => none

/-- The part of a subtype before its last plus sign, and the part after it. A plus sign in front
counts as a letter. -/
def suffixSplit (sub : String) : String × Option String :=
  let cs := sub.toList.drop 1
  let suffix := (cs.reverse.takeWhile (· != '+')).reverse
  if suffix.length < cs.length then
    (String.ofList (sub.toList.take (sub.toList.length - suffix.length - 1)),
      some (String.ofList suffix))
  else (sub, none)

/-- Whether a text names JSON, or something written in JSON. -/
def isJson (s : String) : Bool :=
  match parse? s with
  | none => false
  | some m =>
    let (sub, suffix) := suffixSplit m.sub
    m.main == "application" && (sub == "json" || suffix == some "json")

end MediaType

end OrderRelay.Http
