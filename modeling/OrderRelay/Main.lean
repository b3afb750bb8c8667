import OrderRelay.Client.Report
import OrderRelay.Front.Exchange
import OrderRelay.Http.Connection
import OrderRelay.Http.Text
import OrderRelay.Rpc.Remote
import OrderRelay.Service.Run
import OrderRelay.Text.Uuid

/-!
# The two programs

The first word `client` chooses the client; without it the service runs. Neither opens a connection of
its own: the service answers the requests that arrive on its standard input, and the client writes its
request to its standard output and waits for the response on its standard input. What they say about
themselves goes to standard error.
-/

namespace OrderRelay.Programs

open Http

/-- All octets up to the end of a stream. -/
partial def readAll (input : IO.FS.Stream) (acc : ByteArray) : IO ByteArray := do
  let chunk ← input.read 65536
  if chunk.isEmpty then return acc else readAll input (acc ++ chunk)

/-- Writes octets to a stream. -/
def writeOctets (output : IO.FS.Stream) (bs : Bytes) : IO Unit := do
  output.write ⟨bs.toArray⟩
  output.flush

/-- The document at a path. -/
def readDocument (path : String) : IO Source := do
  try return .document (← IO.FS.readFile ⟨path⟩)
  catch _ => return .unreadable

/-- The variables of the environment that the service looks at. -/
def readEnvironment : IO Environment := do
  return ⟨← IO.getEnv "ORDERENGINE_HOST", ← IO.getEnv "ORDERENGINE_PORT",
    ← IO.getEnv "ORDER_GATEWAY_BIND"⟩

/-- A fresh id for a request. -/
def freshId : IO Bytes := do
  let random ← (List.range 32).foldlM (fun n _ => return 16 * n + (← IO.rand 0 15)) 0
  return Utf8.encode (Uuid.version4 random)

/-- Answers the requests in a sequence of octets one after another. -/
partial def answerAll (front : Front) (relay : Relay) (output : IO.FS.Stream) (bs : Bytes) :
    IO Unit := do
  match Request.ofOctets? bs with
  | none => return
  | some (request, rest) =>
    match (front.exchange relay (← freshId) none request).response with
    | none => return
    | some response =>
      writeOctets output (response.over request).octets
      if !request.closes then answerAll front relay output rest

/-- Serves with the parts that settings have made. -/
def serve (s : Settings) (a : Assembly) : IO Unit := do
  let front : Front := ⟨s.timeouts.requestSecs.toNat, s.security.maxBodySize.toNat, false, a.link⟩
  let relay : Relay := ⟨a.deadlineMs.toNat, Rpc.engine .empty a.link⟩
  let input ← readAll (← IO.getStdin) .empty
  answerAll front relay (← IO.getStdout) input.toList

/-- The words for a start that has failed. -/
def failureText : ServiceStart → Option String
  | .stopped (.usage _) => some "error: the command line cannot be understood"
  | .unloaded e => some ("Error: " ++ e.message)
  | .unassembled _ e => some ("Error: " ++ e.message)
  | _ => none

/-- Runs the service. -/
def service (ws : List String) : IO UInt32 := do
  let source ← match ServiceLine.ofWords ws with
    | .ok ⟨some path, _⟩ => readDocument path
    | _ => pure .none
  let start := ServiceStart.ofWords (fun _ => source) (← readEnvironment) ws
  let notes ← IO.getStderr
  (start.settingsLine.toList ++ (failureText start).toList).forM notes.putStrLn
  if let .serving s a := start then
    serve s a
    (start.stopLines .terminate).forM notes.putStrLn
  return UInt32.ofNat start.exitCode

/-- Runs the client. -/
def client (ws : List String) : IO UInt32 := do
  match ClientLine.ofWords (← IO.getEnv "ORDER_GATEWAY_URL") ws with
  | .error stop => return UInt32.ofNat stop.exitCode
  | .ok line =>
    match line.request? with
    | none => return 1
    | some request =>
      writeOctets (← IO.getStdout) request.octets
      let input ← readAll (← IO.getStdin) .empty
      match Response.ofOctets? input.toList with
      | none => return 1
      | some response =>
        let report := Report.ofResponse response
        (report.notes ++ [report.text]).forM (← IO.getStderr).putStrLn
        return UInt32.ofNat report.exitCode

end OrderRelay.Programs

/-- Runs the client if the first word says so, and else the service. -/
def main (ws : List String) : IO UInt32 :=
  match ws with
  | "client" :: ws => OrderRelay.Programs.client ws
  | ws => OrderRelay.Programs.service ws
