import OrderRelay.Engine.Failure
import OrderRelay.Http.Uri
import OrderRelay.Settings.Basic
import OrderRelay.Number.Digits

/-!
# The link to the engine

All calls share one link. It is opened without waiting for the engine and closed once; after that no
call gets hold of it.

* `Link.open?`: the link for an address, unless that is no address.
* `Link.handle`, `Link.close`: taking hold of the link, and closing it.
* `Link.step`: one of these, or a look at the state.
-/

namespace OrderRelay

/-- The link to the engine. -/
structure Link where
  /-- The host and port of the engine. -/
  target : String
  isOpen : Bool
  deriving DecidableEq, Repr

namespace Link

/-- The host and port of the engine in one text. -/
def targetOf (host : String) (port : UInt16) : String := host ++ ":" ++ natText port.toNat

/-- Opens the link to an address. -/
def open? (host : String) (port : UInt16) : Except EngineFailure Link :=
  let target := targetOf host port
  if Http.Uri.isHttp (Utf8.encode target) then .ok ⟨target, true⟩
  else .error (.invalidEndpoint target "invalid URI")

/-- The name of the state. -/
def stateName (l : Link) : String := if l.isOpen then "open" else "closed"

/-- Takes hold of the link for one call. -/
def handle (l : Link) : Except EngineFailure Unit := if l.isOpen then .ok () else .error .linkClosed

/-- Closes the link, and tells whether it was open. -/
def close (l : Link) : Link × Bool := ({ l with isOpen := false }, l.isOpen)

/-- A step of someone who uses the link. -/
inductive Step where
  | look
  | handle
  | close
  deriving DecidableEq, Repr

/-- What a step gives. -/
inductive Outcome where
  | state (isOpen : Bool)
  | handle (r : Except EngineFailure Unit)
  /-- Whether this step has closed the link. -/
  | closed (first : Bool)

/-- The link after a step, and what the step gives. -/
def step (l : Link) : Step → Link × Outcome
  | .look => (l, .state l.isOpen)
  | .handle => (l, .handle l.handle)
  | .close => (l.close.1, .closed l.close.2)

/-- The link after more steps, and what each of them gives. -/
def run (l : Link) : List Step → Link × List Outcome
  | [] => (l, [])
  | s :: rest =>
    let (l, o) := l.step s
    let (l, os) := l.run rest
    (l, o :: os)

end Link

end OrderRelay
