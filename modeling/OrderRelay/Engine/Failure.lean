/-!
# Failures of the order engine

A call to the engine can fail before any answer exists. `EngineFailure` names the causes and
`EngineFailure.ofStatus` sorts the status codes of remote calls under them.
-/

namespace OrderRelay

/-- The status codes of remote calls. -/
inductive RpcCode where
  | ok
  | cancelled
  | unknown
  | invalidArgument
  | deadlineExceeded
  | notFound
  | alreadyExists
  | permissionDenied
  | resourceExhausted
  | failedPrecondition
  | aborted
  | outOfRange
  | unimplemented
  | internal
  | unavailable
  | dataLoss
  | unauthenticated
  deriving DecidableEq, Repr

namespace RpcCode

/-- The codes in the order of their numbers, from zero. -/
def all : List RpcCode :=
  [.ok, .cancelled, .unknown, .invalidArgument, .deadlineExceeded, .notFound, .alreadyExists,
    .permissionDenied, .resourceExhausted, .failedPrecondition, .aborted, .outOfRange,
    .unimplemented, .internal, .unavailable, .dataLoss, .unauthenticated]

/-- The code of a number; a number without a code is unknown. -/
def ofInt (n : Int) : RpcCode := if n < 0 then .unknown else all[n.toNat]?.getD .unknown

/-- The name of a code. -/
def name : RpcCode → String
  | .ok => "Ok"
  | .cancelled => "Cancelled"
  | .unknown => "Unknown"
  | .invalidArgument => "InvalidArgument"
  | .deadlineExceeded => "DeadlineExceeded"
  | .notFound => "NotFound"
  | .alreadyExists => "AlreadyExists"
  | .permissionDenied => "PermissionDenied"
  | .resourceExhausted => "ResourceExhausted"
  | .failedPrecondition => "FailedPrecondition"
  | .aborted => "Aborted"
  | .outOfRange => "OutOfRange"
  | .unimplemented => "Unimplemented"
  | .internal => "Internal"
  | .unavailable => "Unavailable"
  | .dataLoss => "DataLoss"
  | .unauthenticated => "Unauthenticated"

end RpcCode

/-- Why a call to the engine came to nothing. -/
inductive EngineFailure where
  /-- The engine cannot be reached. -/
  | unavailable (reason : String)
  /-- The engine gave up in time. -/
  | deadlineExceeded
  /-- The link to the engine has been closed on this side. -/
  | linkClosed
  /-- The address of the engine is no address. -/
  | invalidEndpoint (endpoint reason : String)
  /-- The call ended with any other status. -/
  | rpc (code : RpcCode) (reason : String)
  deriving DecidableEq, Repr

namespace EngineFailure

/-- The failure that a status stands for. -/
def ofStatus (code : RpcCode) (reason : String) : EngineFailure :=
  match code with
  | .unavailable => .unavailable reason
  | .deadlineExceeded => .deadlineExceeded
  | code => .rpc code reason

/-- The words for a failure. -/
def message : EngineFailure → String
  | .unavailable reason => "backend unavailable: " ++ reason
  | .deadlineExceeded => "backend deadline exceeded"
  | .linkClosed => "backend channel is closed"
  | .invalidEndpoint endpoint reason => "invalid backend endpoint '" ++ endpoint ++ "': " ++ reason
  | .rpc code reason => "backend call failed (" ++ code.name ++ "): " ++ reason

end EngineFailure

end OrderRelay
