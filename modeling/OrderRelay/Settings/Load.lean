import OrderRelay.Settings.Document
import OrderRelay.Settings.Problem

/-!
# Where settings come from

Three settings can come from several places. The command line wins over the environment, the
environment over the document, and the document over the defaults. All other settings come from the
document alone. The rules are checked on the outcome only.

* `Settings.load`: the settings in force, or why there are none.
-/

namespace OrderRelay

/-- The variables of the environment that are looked at. -/
structure Environment where
  host : Option String := none
  port : Option String := none
  bindAddress : Option String := none

/-- The settings given on the command line. -/
structure Overrides where
  host : Option String := none
  port : Option UInt16 := none
  bindAddress : Option String := none

/-- What was found where the document should be. -/
inductive Source where
  /-- No document was asked for. -/
  | none
  /-- The document cannot be read. -/
  | unreadable
  | document (text : String)

/-- Why there are no settings. -/
inductive LoadError where
  | unreadable
  | malformed
  | unfit (why : Mismatch)
  | badPort (value : String)
  | broken (problems : List Problem)

namespace LoadError

/-- The words for an error; those for a document that cannot be read are not this library's. -/
def message : LoadError → String
  | .unreadable | .malformed => ""
  | .unfit why => why.message .plain
  | .badPort value => "Invalid value '" ++ value ++ "' for environment variable ORDERENGINE_PORT"
  | .broken problems => "Validation failed: " ++ ", ".intercalate (problems.map Problem.text)

end LoadError

/-- The port that a text spells, in decimal digits after a plus sign that may be left out. -/
def portOfText? (s : String) : Option UInt16 := do
  let ds ← Digits.ofSignedText? s
  let n := Digits.value ds
  if n ≤ 65535 then return UInt16.ofNat n else none

namespace Settings

/-- The settings of a document. -/
def ofDocument (text : String) : Except LoadError Settings :=
  match Toml.Document.parse? text with
  | none => .error .malformed
  | some entries =>
    match ofEntries entries with
    | .error why => .error (.unfit why)
    | .ok s => .ok s

/-- The settings to start from. -/
def ofSource : Source → Except LoadError Settings
  | .none => .ok {}
  | .unreadable => .error .unreadable
  | .document text => ofDocument text

/-- Puts a host over the one there is. -/
def withHost (host : Option String) (s : Settings) : Settings :=
  { s with engine := { s.engine with host := host.getD s.engine.host } }

/-- Puts a port over the one there is. -/
def withPort (port : Option UInt16) (s : Settings) : Settings :=
  { s with engine := { s.engine with port := port.getD s.engine.port } }

/-- Puts an address to listen on over the one there is. -/
def withBindAddress (address : Option String) (s : Settings) : Settings :=
  { s with listener := ⟨address.getD s.listener.bindAddress⟩ }

/-- The port that the environment sets, if it sets one. -/
def environmentPort (env : Environment) : Except String (Option UInt16) :=
  match env.port with
  | none => .ok none
  | some value =>
    match portOfText? (trimBlanks value) with
    | none => .error value
    | some port => .ok (some port)

/-- Puts the environment over the settings, one variable after another. A port that is none stops
this half way; the settings so far come with the error. -/
def withEnvironment (env : Environment) (s : Settings) : Except (String × Settings) Settings :=
  let s := s.withHost env.host
  match environmentPort env with
  | .error value => .error (value, s)
  | .ok port => .ok ((s.withPort port).withBindAddress env.bindAddress)

/-- Puts the command line over the settings. -/
def withOverrides (o : Overrides) (s : Settings) : Settings :=
  ((s.withHost o.host).withPort o.port).withBindAddress o.bindAddress

/-- The settings, if no rule is broken. -/
def checked (s : Settings) : Except LoadError Settings :=
  match s.problems with
  | [] => .ok s
  | ps => .error (.broken ps)

/-- The settings in force. -/
def load (source : Source) (env : Environment) (o : Overrides) : Except LoadError Settings :=
  match ofSource source with
  | .error e => .error e
  | .ok s =>
    match s.withEnvironment env with
    | .error (value, _) => .error (.badPort value)
    | .ok s => (s.withOverrides o).checked

end Settings

end OrderRelay
