import OrderRelay.Text.Case

/-!
# The engine's verdict

The engine answers an order with a status text. Each operation knows one text that means success;
every other text means that the engine said no.

* `Verdict.ofStatus`: the verdict of a status, letter case aside.
-/

namespace OrderRelay

/-- What the engine decided. -/
inductive Verdict where
  | accepted
  | rejected
  deriving DecidableEq, Repr

namespace Verdict

/-- The verdict of a status, where `token` is the status of success. -/
def ofStatus (token status : String) : Verdict := if sameAscii status token then .accepted else .rejected

/-- The name of a verdict. -/
def name : Verdict → String
  | .accepted => "accepted"
  | .rejected => "rejected"

theorem ofStatus_eq_accepted_iff {token status : String} :
    ofStatus token status = .accepted ↔ lowerAscii status = lowerAscii token := by
  rw [← sameAscii_eq_true_iff, ofStatus]
  split <;> simp_all

end Verdict

/-- The status of a submit that succeeded. -/
def submitToken : String := "ACCEPTED"

/-- The status of a cancel that succeeded. -/
def cancelToken : String := "CANCELLED"

/-- The status of a modify that succeeded. -/
def modifyToken : String := "MODIFIED"

end OrderRelay
