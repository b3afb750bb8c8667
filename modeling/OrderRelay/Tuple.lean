/-!
# Tuples over a list

A tuple holds one entry for each element of a list, of a type that depends on that element. It is how
a record is stored whose fields are given by a list.

* `Kinds`: kinds of values, as data; a field says what it holds by naming a kind.
* `Tuple`: one entry for each element of a list.
-/

namespace OrderRelay

/-- Kinds of values: a type whose elements each stand for a type of values. -/
class Kinds (κ : Type) where
  /-- The values of a kind. -/
  Carrier : κ → Type

export Kinds (Carrier)

/-- One entry of type `C a` for each element `a` of a list. -/
def Tuple {α : Type} (C : α → Type) : List α → Type
  | [] => Unit
  | a :: as => C a × Tuple C as

namespace Tuple

variable {α : Type} {C D : α → Type}

/-- The tuple whose entries are all given by one rule. -/
def build (f : (a : α) → C a) : (as : List α) → Tuple C as
  | [] => ()
  | a :: as => (f a, build f as)

/-- Applies a function to every entry. -/
def map (f : (a : α) → C a → D a) : (as : List α) → Tuple C as → Tuple D as
  | [], () => ()
  | a :: as, (c, cs) => (f a c, map f as cs)

/-- What a function makes of every entry, in order. -/
def toList {β : Type} (f : (a : α) → C a → β) : (as : List α) → Tuple C as → List β
  | [], () => []
  | a :: as, (c, cs) => f a c :: toList f as cs

end Tuple

end OrderRelay
