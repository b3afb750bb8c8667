import OrderRelay.Mismatch
import OrderRelay.Settings.Basic
import OrderRelay.Toml.Document

/-!
# Settings from a document

A document has one table for each group of settings. What it does not mention keeps its default, and
what it mentions beyond that is ignored. An array stands for the settings of a group in their order.

* `Settings.ofEntries`: the settings of a document, or the first value in it that does not fit.
-/

namespace OrderRelay

/-- A value as far as a message names it. -/
def Toml.Value.found : Toml.Value → Found
  | .text s => .text s
  | .whole n => .whole n
  | .double d => .double d
  | .bool b => .bool b
  | .moment => .map
  | .array _ => .sequence
  | .table _ => .map

/-- A setting of a group: its name, and how a value is put into it. -/
structure Setting (α : Type) where
  name : String
  put : Toml.Value → α → Except Mismatch α

namespace Setting

variable {α : Type}

/-- A setting that is a text. -/
def text (name : String) (set : String → α → α) : Setting α :=
  ⟨name, fun v a =>
    match v with
    | .text s => .ok (set s a)
    | v => .error (.kind v.found "a string")⟩

/-- A setting that is a truth value. -/
def flag (name : String) (set : Bool → α → α) : Setting α :=
  ⟨name, fun v a =>
    match v with
    | .bool b => .ok (set b a)
    | v => .error (.kind v.found "a boolean")⟩

/-- A setting that is a number from zero up to a limit. -/
def number (name expected : String) (limit : Nat) (set : Nat → α → α) : Setting α :=
  ⟨name, fun v a =>
    match v with
    | .whole n =>
      if 0 ≤ n && n ≤ limit then .ok (set n.toNat a) else .error (.range (.whole n) expected)
    | v => .error (.kind v.found expected)⟩

/-- Puts entries into the settings of their names, in the order of the entries. -/
def putEntries (settings : List (Setting α)) : List (String × Toml.Value) → α → Except Mismatch α
  | [], a => .ok a
  | (name, v) :: entries, a =>
    match settings.find? (·.name == name) with
    | none => putEntries settings entries a
    | some s =>
      match s.put v a with
      | .error e => .error e
      | .ok a => putEntries settings entries a

/-- Puts values into the settings one by one. -/
def putItems : List (Setting α) → List Toml.Value → α → Except Mismatch α
  | s :: settings, v :: items, a =>
    match s.put v a with
    | .error e => .error e
    | .ok a => putItems settings items a
  | _, _, a => .ok a

/-- A group of settings as a setting itself. A moment counts as a table that mentions nothing. -/
def group {β : Type} (name expected : String) (settings : List (Setting α)) (initial : α)
    (set : α → β → β) : Setting β :=
  ⟨name, fun v b =>
    let filled :=
      match v with
      | .table entries => putEntries settings entries initial
      | .array items => putItems settings items initial
      | .moment => .ok initial
      | v => .error (.kind v.found ("struct " ++ expected))
    filled.map (set · b)⟩

end Setting

namespace Settings

/-- The settings of the listener. -/
def listenerSettings : List (Setting ListenerSettings) :=
  [.text "bind_address" fun s a => { a with bindAddress := s }]

/-- The settings of the engine. -/
def engineSettings : List (Setting EngineSettings) :=
  [.text "host" fun s a => { a with host := s },
    .number "port" "u16" 65535 fun n a => { a with port := UInt16.ofNat n },
    .number "connect_timeout_ms" "u64" maxTomlWord fun n a =>
      { a with connectTimeoutMs := UInt64.ofNat n },
    .number "deadline_ms" "u64" maxTomlWord fun n a => { a with deadlineMs := UInt64.ofNat n }]
where
  /-- No whole number of a document is larger. -/
  maxTomlWord : Nat := 0x7FFFFFFFFFFFFFFF

/-- The settings of the timeouts. -/
def timeoutSettings : List (Setting TimeoutSettings) :=
  [.number "request_secs" "u64" engineSettings.maxTomlWord fun n a =>
    { a with requestSecs := UInt64.ofNat n }]

/-- The settings of what is logged and measured. -/
def observabilitySettings : List (Setting ObservabilitySettings) :=
  [.text "log_level" fun s a => { a with logLevel := s },
    .flag "metrics_enabled" fun b a => { a with metricsEnabled := b },
    .text "metrics_address" fun s a => { a with metricsAddress := s }]

/-- The settings of what is refused. -/
def securitySettings : List (Setting SecuritySettings) :=
  [.number "max_body_size" "usize" engineSettings.maxTomlWord fun n a =>
    { a with maxBodySize := UInt64.ofNat n }]

/-- The groups of settings. -/
def groups : List (Setting Settings) :=
  [.group "listener" "ListenerConfig" listenerSettings {} fun g s => { s with listener := g },
    .group "backend" "BackendConfig" engineSettings {} fun g s => { s with engine := g },
    .group "timeouts" "TimeoutConfig" timeoutSettings {} fun g s => { s with timeouts := g },
    .group "observability" "ObservabilityConfig" observabilitySettings {} fun g s =>
      { s with observability := g },
    .group "security" "SecurityConfig" securitySettings {} fun g s => { s with security := g }]

/-- The settings of a document. -/
def ofEntries (entries : List (String × Toml.Value)) : Except Mismatch Settings :=
  Setting.putEntries groups entries {}

end Settings

end OrderRelay
