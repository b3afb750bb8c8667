import OrderRelay.Number.Layout
import OrderRelay.Text.Quoted

/-!
# Values that do not fit

A well-formed document can still hold a value where another kind of value belongs. What is said
about it is the same for every document format, but for the layout of doubles.

* `Found`: the value that was there, as far as a message names it.
* `Mismatch`: why it does not fit, and `Mismatch.message` in words.
-/

namespace OrderRelay

/-- A value as far as a message names it. -/
inductive Found where
  | null
  | bool (b : Bool)
  | whole (n : Int)
  | double (d : Double)
  | text (s : String)
  | sequence
  | map

/-- The words for a value that was there, with doubles in the given layout. -/
def Found.describe (l : Layout) : Found → String
  | .null => "null"
  | .bool b => "boolean `" ++ (if b then "true" else "false") ++ "`"
  | .whole n => "integer `" ++ intText n ++ "`"
  | .double d => "floating point `" ++ d.render l ++ "`"
  | .text s => "string " ++ quoted s
  | .sequence => "sequence"
  | .map => "map"

/-- Why a value does not fit. -/
inductive Mismatch where
  /-- Another kind of value belongs here. -/
  | kind (found : Found) (expected : String)
  /-- The value is outside the range of its kind. -/
  | range (found : Found) (expected : String)
  /-- A sequence ends after so many elements. -/
  | length (n : Nat) (expected : String)
  /-- A member is given twice. -/
  | duplicate (member : String)

/-- The words for a mismatch, with doubles in the given layout. -/
def Mismatch.message (l : Layout) : Mismatch → String
  | .kind found expected => "invalid type: " ++ found.describe l ++ ", expected " ++ expected
  | .range found expected => "invalid value: " ++ found.describe l ++ ", expected " ++ expected
  | .length n expected => "invalid length " ++ natText n ++ ", expected " ++ expected
  | .duplicate member => "duplicate field `" ++ member ++ "`"

end OrderRelay
