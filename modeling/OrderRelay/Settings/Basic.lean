import OrderRelay.Text.Case

/-!
# Settings

Everything that can be set from outside, each with its default. Times and sizes are 64-bit numbers
and ports 16-bit numbers, so no setting can be outside its range.
-/

namespace OrderRelay

/-- Where callers are listened to. -/
structure ListenerSettings where
  bindAddress : String := "0.0.0.0:8080"
  deriving DecidableEq, Repr

/-- Where the engine is and how long it may take. -/
structure EngineSettings where
  host : String := "localhost"
  port : UInt16 := 50051
  connectTimeoutMs : UInt64 := 5000
  deadlineMs : UInt64 := 5000
  deriving DecidableEq, Repr

/-- How long a caller's request may take. -/
structure TimeoutSettings where
  requestSecs : UInt64 := 30
  deriving DecidableEq, Repr

/-- What is logged and measured. -/
structure ObservabilitySettings where
  logLevel : String := "info"
  metricsEnabled : Bool := true
  metricsAddress : String := "0.0.0.0:9090"
  deriving DecidableEq, Repr

/-- What is refused. -/
structure SecuritySettings where
  maxBodySize : UInt64 := 65536
  deriving DecidableEq, Repr

/-- All settings. -/
structure Settings where
  listener : ListenerSettings := {}
  engine : EngineSettings := {}
  timeouts : TimeoutSettings := {}
  observability : ObservabilitySettings := {}
  security : SecuritySettings := {}
  deriving DecidableEq, Repr

/-- Which log lines are written unless the environment says otherwise: the same level for the
service and for its HTTP layers. -/
def ObservabilitySettings.directive (s : ObservabilitySettings) : String :=
  let level := lowerAscii s.logLevel
  "order_gateway=" ++ level ++ ",tower_http=" ++ level

end OrderRelay
