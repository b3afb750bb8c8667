import OrderRelay.Service.Assembly

/-!
# Starting the service

What keeps the readings for scraping comes from elsewhere. It is asked for with the limits of the
latency buckets, and may refuse.

* `Services.start`: everything that serves, or the first reason why it does not start. What keeps
  the readings is built after their address has been looked at and before the link is opened.
-/

namespace OrderRelay

/-- The upper limits of the latency buckets, in ten-thousandths of a second. -/
def latencyBuckets : List Nat :=
  [5, 10, 25, 50, 100, 250, 500, 1000, 2500, 5000, 10000, 25000, 50000]

/-- Why the service does not start. -/
inductive StartupError where
  /-- What keeps the readings has been refused. -/
  | exporter (reason : String)
  | assembly (e : AssemblyError)
  deriving DecidableEq, Repr

/-- The words for an error. -/
def StartupError.message : StartupError → String
  | .exporter reason => "failed to build metrics exporter: " ++ reason
  | .assembly e => e.message

/-- Where readings are scraped, and what they are rendered from. -/
structure ScrapeEndpoint (Handle : Type) where
  address : SocketAddress
  handle : Handle

/-- Everything that serves. -/
structure Services (Handle : Type) where
  link : Link
  /-- How long the engine may take, in milliseconds. -/
  deadlineMs : UInt64
  endpoint : Option (ScrapeEndpoint Handle)

namespace Services

variable {Handle : Type} (build : List Nat → Except String Handle)

/-- Where readings are scraped, if they are measured. -/
def endpointFor (s : ObservabilitySettings) :
    Except StartupError (Option (ScrapeEndpoint Handle)) :=
  match Assembly.scrapeAddress s with
  | .error e => .error (.assembly e)
  | .ok none => .ok none
  | .ok (some address) =>
    match build latencyBuckets with
    | .error reason => .error (.exporter reason)
    | .ok handle => .ok (some ⟨address, handle⟩)

/-- Everything that serves. -/
def start (s : Settings) : Except StartupError (Services Handle) :=
  match endpointFor build s.observability with
  | .error e => .error e
  | .ok endpoint =>
    match Link.open? s.engine.host s.engine.port with
    | .error failure => .error (.assembly (.engine failure))
    | .ok link => .ok ⟨link, s.engine.deadlineMs, endpoint⟩

/-- The parts that do not depend on what keeps the readings. -/
def assembly (v : Services Handle) : Assembly :=
  ⟨v.link, v.deadlineMs, v.endpoint.map (·.address)⟩

end Services

end OrderRelay
