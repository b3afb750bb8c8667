import OrderRelay.Text.Case
import OrderRelay.Text.Utf8

/-!
# Headers

The headers of a request or a response, in their order. A name may occur more than once, and a value
is a sequence of octets that need not be text.

* `Headers.first?`: the value of the first header of a name.
* `visibleText?`: the text of a value, if all of it can be shown.
* `RequestId.ofHeaders`: the id under which a request goes on to the engine.
-/

namespace OrderRelay.Http

/-- Headers: names in small letters, and values. -/
abbrev Headers := List (String × Bytes)

namespace Headers

/-- The values of the headers of a name. -/
def values (hs : Headers) (name : String) : List Bytes :=
  (hs.filter fun (n, _) => n == name).map (·.2)

/-- The value of the first header of a name. -/
def first? (hs : Headers) (name : String) : Option Bytes := (values hs name).head?

/-- The headers without those of a name. -/
def without (hs : Headers) (name : String) : Headers := hs.filter fun (n, _) => n != name

/-- One header of a name in place of all others of that name. -/
def set (hs : Headers) (name : String) (value : Bytes) : Headers := without hs name ++ [(name, value)]

/-- The headers of other names stay. -/
theorem values_without {hs : Headers} {name other : String} (h : name ≠ other) :
    values (without hs other) name = values hs name := by
  unfold values without
  rw [List.filter_filter]
  congr 1
  refine List.filter_congr fun e _ => ?_
  obtain ⟨n, v⟩ := e
  by_cases hn : n = name
  · simp [hn, h]
  · simp [hn]

end Headers

/-- Visible ASCII, the space and the tab. -/
def isVisibleOctet (b : UInt8) : Bool := (0x20 ≤ b && b < 0x7F) || b == 0x09

/-- The text of a value, if all of it can be shown. -/
def visibleText? (value : Bytes) : Option String :=
  if value.all isVisibleOctet then some (String.ofList (value.map fun b => Char.ofNat b.toNat))
  else none

namespace RequestId

/-- The header that carries the id of a request. -/
def header : String := "x-request-id"

/-- The text of the id that the request layer has set, or else of the first header. -/
def found? (layer : Option Bytes) (hs : Headers) : Option String :=
  match layer.or (hs.first? header) with
  | some value => visibleText? value
  | none => none

/-- The id under which a request goes on; one that cannot be shown is unknown. -/
def ofHeaders (layer : Option Bytes) (hs : Headers) : String := (found? layer hs).getD "unknown"

end RequestId

end OrderRelay.Http
