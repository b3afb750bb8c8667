import OrderRelay.Toml.Reader
import OrderRelay.Toml.Scalar

/-!
# TOML documents

A document is a sequence of lines, each of which defines a key of the table at hand or opens another
table. A table is defined once: keys and tables may be added to a table that has only been passed
through so far, never to one that has been written down.

* `Document.parse?`: the entries of a document, or none if it is not well-formed.
-/

namespace OrderRelay.Toml

/-- A part of a document while it is being read. -/
inductive Node where
  /-- A value, which is complete. -/
  | value (v : Value)
  /-- A table. It is passed through if only tables within it have been named, and dotted if that was
  done by a dotted key. -/
  | table (passed dotted : Bool) (entries : List (String × Node))
  /-- Tables that share one name. -/
  | tables (elements : List Node)
  deriving Inhabited

namespace Node

/-- A table without entries. -/
def empty : Node := .table false false []

/-- Puts a node under a name, in its place if the name is known and at the end if not. -/
def put (name : String) (n : Node) : List (String × Node) → List (String × Node)
  | [] => [(name, n)]
  | (m, old) :: rest => if m = name then (m, n) :: rest else (m, old) :: put name n rest

/-- Changes the table at the end of a path, making the tables on the way. Of tables that share a name
the last is meant. A dotted path does not lead through a table that has been written down. -/
def update (dotted : Bool) (change : Node → Option Node) : List String → Node → Option Node
  | [], node => change node
  | name :: path, .table passed isDotted entries =>
    match entries.lookup name with
    | none => do
      let child ← update dotted change path (.table true dotted [])
      return .table passed isDotted (entries ++ [(name, child)])
    | some (.value _) => none
    | some (.tables elements) =>
      match elements.reverse with
      | [] => none
      | last :: before => do
        let child ← update dotted change path last
        return .table passed isDotted (put name (.tables (child :: before).reverse) entries)
    | some (.table p d es) =>
      if dotted && !p then none
      else do
        let child ← update dotted change path (.table p d es)
        return .table passed isDotted (put name child entries)
  | _ :: _, _ => none

/-- Defines a key in a table. A table reached by a dotted key must be a dotted one. -/
def define (path : List String) (v : Value) (node : Node) : Option Node :=
  let init := path.dropLast
  let name := path.getLastD ""
  update true (fun node =>
    match node with
    | .table passed dotted entries =>
      if dotted == init.isEmpty || (entries.lookup name).isSome then none
      else some (.table passed dotted (entries ++ [(name, .value v)]))
    | _ => none) init node

mutual

/-- The value of a complete node. -/
def toValue : Node → Value
  | .value v => v
  | .table _ _ entries => .table (entryValues entries)
  | .tables elements => .array (elementValues elements)

/-- The values of entries. -/
def entryValues : List (String × Node) → List (String × Value)
  | [] => []
  | (name, n) :: rest => (name, toValue n) :: entryValues rest

/-- The values of elements. -/
def elementValues : List Node → List Value
  | [] => []
  | n :: rest => toValue n :: elementValues rest

end

end Node

namespace Reader

/-! ## Values -/

/-- A character of a word. -/
def isWord (c : Char) : Bool := c.isAlphanum || c = '+' || c = '-' || c = '_' || c = '.' || c = ':'

/-- A value that is a word. One blank may stand between a date and a time. -/
def word : Reader Value := fun cs => do
  let w := cs.takeWhile isWord
  let rest := cs.dropWhile isWord
  match rest with
  | ' ' :: d :: more =>
    if Word.isDate w && d.isDigit then
      let v ← Value.ofWord? (w ++ ['T'] ++ (d :: more).takeWhile isWord)
      return (v, (d :: more).dropWhile isWord)
    else return (← Value.ofWord? w, rest)
  | _ => return (← Value.ofWord? w, rest)

/-- The deepest that arrays and tables may nest within a value. -/
def maxDepth : Nat := 80

mutual

/-- A value; `fuel` bounds the number of readings and `depth` the values that may still nest. -/
def value : (fuel depth : Nat) → Reader Value
  | 0, _ => failure
  | fuel + 1, depth => do
    match ← peek? with
    | some '\"' => return .text (← text)
    | some '\'' => return .text (← text)
    | some '[' =>
      match depth with
      | 0 => failure
      | depth + 1 =>
        char '['
        return .array (← elements fuel depth)
    | some '\x7b' =>
      match depth with
      | 0 => failure
      | depth + 1 =>
        char '\x7b'
        blanks
        if (← peek?) = some '\x7d' then
          char '\x7d'
          return .table []
        else return (← pairs fuel depth .empty).toValue
    | _ => word

/-- The elements of an array up to its end. -/
def elements : (fuel depth : Nat) → Reader (List Value)
  | 0, _ => failure
  | fuel + 1, depth => do
    anyGaps
    if (← peek?) = some ']' then
      char ']'
      return []
    let v ← value fuel depth
    anyGaps
    if (← peek?) = some ',' then
      char ','
      return v :: (← elements fuel depth)
    char ']'
    return [v]

/-- The entries of a table within a line up to its end, added to those before. -/
def pairs : (fuel depth : Nat) → Node → Reader Node
  | 0, _, _ => failure
  | fuel + 1, depth, before => do
    let path ← keyPath
    char '='
    blanks
    let v ← value fuel depth
    blanks
    let node ← (before.define path v : Option Node)
    if (← peek?) = some ',' then
      char ','
      pairs fuel depth node
    else
      char '\x7d'
      return node

end

/-- A key, an equals sign and a value. -/
def assignment : Reader (List String × Value) := fun cs =>
  (do
    let path ← keyPath
    char '='
    blanks
    let v ← value (cs.length + 1) maxDepth
    return (path, v) : Reader (List String × Value)) cs

end Reader

/-! ## Documents -/

/-- A document while it is being read: the tables that are complete, and the one at hand with the
path under which it goes. -/
structure Draft where
  root : Node
  current : Node
  path : List String
  /-- The table at hand is one of several that share a name. -/
  shared : Bool

namespace Draft

/-- Before the first line, the table at hand is the document itself. -/
def start : Draft := ⟨.empty, .empty, [], false⟩

/-- Puts the table at hand into its place. -/
def close (d : Draft) : Option Node :=
  if d.path.isEmpty then some d.current
  else
    let name := d.path.getLastD ""
    d.root.update false (fun parent =>
      match parent with
      | .table passed dotted entries =>
        match entries.lookup name, d.shared with
        | none, false => some (.table passed dotted (entries ++ [(name, d.current)]))
        | none, true => some (.table passed dotted (entries ++ [(name, .tables [d.current])]))
        | some (.tables es), true =>
          some (.table passed dotted (Node.put name (.tables (es ++ [d.current])) entries))
        | some (.table true _ _), false =>
          some (.table passed dotted (Node.put name d.current entries))
        | _, _ => none
      | _ => none) d.path.dropLast

/-- The table of a name, out of its parent. It is a new one unless it has only been passed through. -/
def take (name : String) (parent : Node) : Option (Node × Node) :=
  match parent with
  | .table passed dotted entries =>
    match entries.lookup name with
    | none => some (.empty, parent)
    | some (.table true false es) =>
      some (.table false false es, .table passed dotted (entries.filter fun (n, _) => n != name))
    | _ => none
  | _ => none

/-- The table at hand is the one of this path from now on. -/
def openTable (path : List String) (d : Draft) : Option Draft := do
  let root ← d.close
  let name := path.getLastD ""
  let root' ← root.update false (fun parent => (take name parent).map (·.2)) path.dropLast
  -- The table is looked up where it stood before it was taken out.
  let current ← find? name path.dropLast root
  return ⟨root', current, path, false⟩
where
  /-- The table of a name at the end of a path that may not exist yet. -/
  find? (name : String) : List String → Node → Option Node
    | [], node => (take name node).map (·.1)
    | part :: path, .table _ _ entries =>
      match entries.lookup part with
      | none => some .empty
      | some (.tables elements) =>
        match elements.getLast? with
        | some last => find? name path last
        | none => none
      | some child => find? name path child
    | _ :: _, _ => none

/-- The table at hand is one more of those that share this path from now on. -/
def openShared (path : List String) (d : Draft) : Option Draft := do
  let root ← d.close
  let name := path.getLastD ""
  let root ← root.update false (fun parent =>
    match parent with
    | .table passed dotted entries =>
      match entries.lookup name with
      | none => some (.table passed dotted (entries ++ [(name, .tables [])]))
      | some (.tables _) => some parent
      | _ => none
    | _ => none) path.dropLast
  return ⟨root, .empty, path, true⟩

/-- The line that opens a table. -/
def header (d : Draft) : Reader Draft := do
  Reader.char '['
  if (← Reader.peek?) = some '[' then
    Reader.char '['
    let path ← Reader.keyPath
    Reader.char ']'
    Reader.char ']'
    Reader.restOfLine
    (d.openShared path : Option Draft)
  else
    let path ← Reader.keyPath
    Reader.char ']'
    Reader.restOfLine
    (d.openTable path : Option Draft)

/-- The line that defines a key. -/
def entry (d : Draft) : Reader Draft := do
  let (path, v) ← Reader.assignment
  Reader.restOfLine
  let current ← (d.current.define path v : Option Node)
  return { d with current }

/-- Reads lines up to the end; `fuel` bounds their number. -/
def lines : (fuel : Nat) → Draft → Reader Draft
  | 0, _ => failure
  | fuel + 1, d => do
    Reader.blanks
    match ← Reader.peek? with
    | none => return d
    | some '#' =>
      Reader.restOfLine
      lines fuel d
    | some '\n' =>
      Reader.lineEnd
      lines fuel d
    | some '\r' =>
      Reader.lineEnd
      lines fuel d
    | some '[' => lines fuel (← header d)
    | _ => lines fuel (← entry d)

end Draft

namespace Document

/-- A byte order mark in front does not count. -/
def withoutMark : List Char → List Char
  | c :: rest => if c.toNat = 0xFEFF then rest else c :: rest
  | [] => []

/-- The entries of a document. -/
def parse? (s : String) : Option (List (String × Value)) := do
  let cs := withoutMark s.toList
  let (d, _) ← Draft.lines (cs.length + 1) .start cs
  match (← d.close).toValue with
  | .table entries => some entries
  | _ => none

end Document

end OrderRelay.Toml
