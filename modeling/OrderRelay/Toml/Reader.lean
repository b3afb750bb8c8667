import OrderRelay.Text.Hex

/-!
# Reading TOML texts and keys

The small parts of a TOML document: blanks, comments, quoted texts and keys. A reader takes
characters from the front of a document; without a result the document is not well-formed.

* `Reader`: a reader of some part.
* `text`: a text in any of the four ways of quoting.
* `keyPath`: the parts of a key that may be dotted.
-/

namespace OrderRelay.Toml

/-- Takes characters from the front of a document. -/
abbrev Reader := StateT (List Char) Option

namespace Reader

/-- The next character, which stays where it is. -/
def peek? : Reader (Option Char) := fun cs => some (cs.head?, cs)

/-- One given character. -/
def char (c : Char) : Reader Unit
  | [] => none
  | d :: rest => if d = c then some ((), rest) else none

/-- The characters at the front that pass a test. -/
def takeWhile (p : Char → Bool) : Reader (List Char) := fun cs => some (cs.takeWhile p, cs.dropWhile p)

/-- A space or a tab. -/
def isBlank (c : Char) : Bool := c = ' ' || c = '\t'

/-- Passes over spaces and tabs. -/
def blanks : Reader Unit := fun cs => some ((), cs.dropWhile isBlank)

/-- A character that a comment may hold. -/
def isComment (c : Char) : Bool := c = '\t' || (0x20 ≤ c.toNat && c.toNat ≠ 0x7F)

/-- The end of a line or of the document. -/
def lineEnd : Reader Unit
  | [] => some ((), [])
  | '\n' :: rest => some ((), rest)
  | '\r' :: '\n' :: rest => some ((), rest)
  | _ => none

/-- What may stand between the last word of a line and its end: blanks and a comment. -/
def restOfLine : Reader Unit := do
  blanks
  if (← peek?) = some '#' then
    let _ ← takeWhile isComment
  lineEnd

/-- Passes over blanks, ends of lines and comments. -/
def gaps (inComment : Bool) : List Char → List Char
  | [] => []
  | c :: cs =>
    if inComment && isComment c then gaps true cs
    else if c = '\n' then gaps false cs
    else if c = '\r' then
      match cs with
      | '\n' :: rest => gaps false rest
      | _ => c :: cs
    else if !inComment && isBlank c then gaps false cs
    else if !inComment && c = '#' then gaps true cs
    else c :: cs

/-- Passes over blanks, ends of lines and comments. -/
def anyGaps : Reader Unit := fun cs => some ((), gaps false cs)

/-! ## Texts -/

/-- A character that stands for itself between double quotes. -/
def isBasic (c : Char) : Bool :=
  c = '\t' || (0x20 ≤ c.toNat && c.toNat ≠ 0x7F && c ≠ '\"' && c ≠ '\\')

/-- A character that stands for itself between single quotes. -/
def isLiteral (c : Char) : Bool :=
  c = '\t' || (0x20 ≤ c.toNat && c.toNat ≠ 0x7F && c ≠ '\'')

/-- The character that a one-letter escape stands for. -/
def escaped? : Char → Option Char
  | 'b' => some (Char.ofNat 0x08)
  | 't' => some '\t'
  | 'n' => some '\n'
  | 'f' => some (Char.ofNat 0x0C)
  | 'r' => some '\r'
  | '\"' => some '\"'
  | '\\' => some '\\'
  | _ => none

/-- The character whose number is given in hexadecimal digits. -/
def numbered? (ds : List Char) : Option Char := do
  let n ← ds.foldlM (fun n d => do return 16 * n + (← Hex.digit? d)) 0
  if Nat.isValidChar n then some (Char.ofNat n) else none

/-- The rest of a text on one line after its double quote. -/
def basic (acc : List Char) : List Char → Option (List Char × List Char)
  | [] => none
  | '\"' :: rest => some (acc.reverse, rest)
  | '\\' :: 'u' :: a :: b :: c :: d :: rest =>
    match numbered? [a, b, c, d] with
    | some x => basic (x :: acc) rest
    | none => none
  | '\\' :: 'U' :: a :: b :: c :: d :: e :: f :: g :: h :: rest =>
    match numbered? [a, b, c, d, e, f, g, h] with
    | some x => basic (x :: acc) rest
    | none => none
  | '\\' :: e :: rest =>
    match escaped? e with
    | some x => basic (x :: acc) rest
    | none => none
  | c :: rest => if isBasic c then basic (c :: acc) rest else none

/-- Whether only blanks stand before the end of the line, which must not be that of the document. -/
def endsLine (cs : List Char) : Bool :=
  match cs.dropWhile isBlank with
  | '\n' :: _ => true
  | '\r' :: '\n' :: _ => true
  | _ => false

/-- The rest of a text of several lines after its three double quotes. After a backslash at the end
of a line all blanks and line ends are left out, which `folding` says is going on. -/
def multiBasic (folding : Bool) (acc : List Char) : List Char → Option (List Char × List Char)
  | [] => none
  | '\"' :: '\"' :: '\"' :: '\"' :: '\"' :: rest => some (('\"' :: '\"' :: acc).reverse, rest)
  | '\"' :: '\"' :: '\"' :: '\"' :: rest => some (('\"' :: acc).reverse, rest)
  | '\"' :: '\"' :: '\"' :: rest => some (acc.reverse, rest)
  | '\"' :: rest => multiBasic false ('\"' :: acc) rest
  | '\r' :: '\n' :: rest => multiBasic folding (if folding then acc else '\n' :: acc) rest
  | '\n' :: rest => multiBasic folding (if folding then acc else '\n' :: acc) rest
  | '\\' :: 'u' :: a :: b :: c :: d :: rest =>
    match numbered? [a, b, c, d] with
    | some x => multiBasic false (x :: acc) rest
    | none => none
  | '\\' :: 'U' :: a :: b :: c :: d :: e :: f :: g :: h :: rest =>
    match numbered? [a, b, c, d, e, f, g, h] with
    | some x => multiBasic false (x :: acc) rest
    | none => none
  | '\\' :: e :: rest =>
    match escaped? e with
    | some x => multiBasic false (x :: acc) rest
    | none => if endsLine (e :: rest) then multiBasic true acc (e :: rest) else none
  | c :: rest =>
    if folding && isBlank c then multiBasic true acc rest
    else if isBasic c then multiBasic false (c :: acc) rest
    else none

/-- The rest of a text of several lines after its three single quotes. -/
def multiLiteral (acc : List Char) : List Char → Option (List Char × List Char)
  | [] => none
  | '\'' :: '\'' :: '\'' :: '\'' :: '\'' :: rest => some (('\'' :: '\'' :: acc).reverse, rest)
  | '\'' :: '\'' :: '\'' :: '\'' :: rest => some (('\'' :: acc).reverse, rest)
  | '\'' :: '\'' :: '\'' :: rest => some (acc.reverse, rest)
  | '\'' :: rest => multiLiteral ('\'' :: acc) rest
  | '\r' :: '\n' :: rest => multiLiteral ('\n' :: acc) rest
  | '\n' :: rest => multiLiteral ('\n' :: acc) rest
  | c :: rest => if isLiteral c then multiLiteral (c :: acc) rest else none

/-- A line end right after the opening quotes does not count. -/
def trimFirst : List Char → List Char
  | '\n' :: rest => rest
  | '\r' :: '\n' :: rest => rest
  | cs => cs

/-- A text on one line in single quotes. -/
def literal : Reader String := do
  char '\''
  let cs ← takeWhile isLiteral
  char '\''
  return String.ofList cs

/-- A text on one line in double quotes. -/
def quoted : Reader String := do
  char '\"'
  let cs ← basic []
  return String.ofList cs

/-- A text in any way of quoting. -/
def text : Reader String := fun cs =>
  match cs with
  | '\"' :: '\"' :: '\"' :: rest =>
    (multiBasic false [] (trimFirst rest)).map fun (s, rest) => (String.ofList s, rest)
  | '\'' :: '\'' :: '\'' :: rest =>
    (multiLiteral [] (trimFirst rest)).map fun (s, rest) => (String.ofList s, rest)
  | '\"' :: _ => quoted cs
  | _ => literal cs

/-! ## Keys -/

/-- A character of a key without quotes. -/
def isBare (c : Char) : Bool := c.isAlphanum || c = '_' || c = '-'

/-- One part of a key. -/
def keyPart : Reader String := do
  match ← peek? with
  | some '\"' => quoted
  | some '\'' => literal
  | _ =>
    let cs ← takeWhile isBare
    if cs.isEmpty then failure else return String.ofList cs

/-- So many parts of a key at most, with points and blanks between them. -/
def keyParts : Nat → Reader (List String)
  | 0 => failure
  | n + 1 => do
    blanks
    let part ← keyPart
    blanks
    if (← peek?) = some '.' then
      char '.'
      return part :: (← keyParts n)
    else return [part]

/-- The parts of a key that may be dotted, without the blanks around it. No key has eighty parts. -/
def keyPath : Reader (List String) := keyParts 79

end Reader

end OrderRelay.Toml
