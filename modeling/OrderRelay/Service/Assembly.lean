import OrderRelay.Link.Basic
import OrderRelay.Settings.Problem

/-!
# Putting the service together

From settings come the parts that serve: the link to the engine, the time the engine gets, and the
address at which readings are scraped if they are measured at all.

* `Assembly.ofSettings`: the parts, or the first reason why there are none. The address for readings
  is looked at before the link.
-/

namespace OrderRelay

/-- The parts of the service. -/
structure Assembly where
  link : Link
  /-- How long the engine may take, in milliseconds. -/
  deadlineMs : UInt64
  /-- Where readings are scraped. -/
  metricsAddress : Option SocketAddress

/-- Why the service cannot be put together. -/
inductive AssemblyError where
  | metricsAddress (value : String)
  | engine (failure : EngineFailure)
  deriving DecidableEq, Repr

/-- The words for an error. -/
def AssemblyError.message : AssemblyError → String
  | .metricsAddress value => "invalid metrics address '" ++ value ++ "'"
  | .engine failure => failure.message

namespace Assembly

/-- Where readings are scraped, if they are measured. -/
def scrapeAddress (s : ObservabilitySettings) : Except AssemblyError (Option SocketAddress) :=
  if s.metricsEnabled then
    match SocketAddress.parse? s.metricsAddress with
    | some address => .ok (some address)
    | none => .error (.metricsAddress s.metricsAddress)
  else .ok none

/-- The parts of the service. -/
def ofSettings (s : Settings) : Except AssemblyError Assembly :=
  match scrapeAddress s.observability with
  | .error e => .error e
  | .ok address =>
    match Link.open? s.engine.host s.engine.port with
    | .error failure => .error (.engine failure)
    | .ok link => .ok ⟨link, s.engine.deadlineMs, address⟩

end Assembly

end OrderRelay
