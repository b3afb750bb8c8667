import OrderRelay.Command.Words
import OrderRelay.Number.Decimal
import OrderRelay.Settings.Load

/-!
# The command line of the service

The command line names a document with settings and may give three settings itself.

* `ServiceLine.ofWords`: what a command line says, or why the service does not start.
-/

namespace OrderRelay

/-- What the command line of the service says. -/
structure ServiceLine where
  /-- The path of the document with settings. -/
  document : Option String
  overrides : Overrides

namespace ServiceLine

/-- The options of the service. -/
def options : List OptionName :=
  [⟨"config", some 'c'⟩, ⟨"backend-host", none⟩, ⟨"backend-port", none⟩, ⟨"bind", none⟩]

/-- A port on a command line. -/
def portOf? (s : String) : Option UInt16 :=
  (intOfText? 0 65535 s).map fun n => UInt16.ofNat n.toNat

/-- What a command line says. -/
def ofWords (ws : List String) : Except Stop ServiceLine := do
  let (parts, _) ← (readWords options false ws).mapError .usage
  let parts ← Parts.gather parts
  parts.atMost 0
  let port ← readValue "backend-port" portOf? (parts.option? "backend-port")
  parts.heedHelp
  return ⟨parts.option? "config", ⟨parts.option? "backend-host", port, parts.option? "bind"⟩⟩

end ServiceLine

end OrderRelay
