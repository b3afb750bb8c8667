import OrderRelay.Number.Double

/-!
# TOML values

What the value of a key can be once a document has been read. Tables keep their entries in the order
in which the document defines them.
-/

namespace OrderRelay.Toml

/-- A TOML value. -/
inductive Value where
  | text (s : String)
  | whole (n : Int)
  | double (d : Double)
  | bool (b : Bool)
  /-- A date, a time, or both. -/
  | moment
  | array (items : List Value)
  | table (entries : List (String × Value))
  deriving Inhabited

end OrderRelay.Toml
