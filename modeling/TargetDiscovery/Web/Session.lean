import TargetDiscovery.Http
import TargetDiscovery.Log
import TargetDiscovery.Loop
import TargetDiscovery.Query.Answer

/-!
# Sessions

A session answers the requests of one client one after the other. It goes on as long as the client
asks to keep the connection and the server is not stopping; both are looked at when a request is
answered. A read or a write that fails ends it as well.
-/

set_option autoImplicit false

namespace TargetDiscovery.Web

/-- What a client does in one round: the request and the time from which it can be read, whether the
connection is to be kept, and the errors that reading the request or writing the response ends
with. -/
structure Call where
  due : Nat
  request : Http.Request
  keepAlive : Bool
  readError : Option Bytes
  writeError : Option Bytes
  deriving DecidableEq, Repr

structure Response where
  status : Nat
  version : Nat
  keepAlive : Bool
  fields : Http.Fields
  body : Json

namespace Response

def commonFields : Http.Fields :=
  SortedMap.ofList
    [(ascii "Server", Http.program), (ascii "Content-Type", Answer.contentType)]

/-- The header of a response; a refused method comes with the one that is allowed. -/
def fieldsFor (status : Nat) : Http.Fields :=
  if status = 405 then commonFields.insert (ascii "Allow") Answer.method else commonFields

def ofAnswer (a : Answer) (version : Nat) (keepAlive : Bool) : Response :=
  ⟨a.status, version, keepAlive, fieldsFor a.status, a.body⟩

end Response

/-- A session: what its client has not been answered yet. -/
structure Session where
  calls : List Call
  deriving DecidableEq, Repr

namespace Session

/-- How long a session waits for a request, in milliseconds. -/
def patience : Nat := 30000

def endOfStream : Bytes := ascii "end of stream"

def outOfTime : Bytes := ascii "The socket was closed due to a timeout"

def canceled : Bytes := ascii "Operation canceled"

def isQuiet (reason : Bytes) : Bool := [endOfStream, outOfTime, canceled].contains reason

inductive Task
  | read
  | arrived
  | failed (reason : Bytes)
  | written (keepAlive : Bool) (error : Option Bytes)
  deriving DecidableEq, Repr

inductive Entry
  | line (l : LogLine)
  /-- A response is handed over for writing, which ends with an error if there is one. -/
  | response (r : Response) (error : Option Bytes)
  | closed

namespace Entry

def isClosed : Entry → Bool
  | closed => true
  | _ => false

def delivered? : Entry → Option Response
  | response r none => some r
  | _ => none

end Entry

abbrev Orders := List (Order Task Entry)

def readEnd (now : Nat) : List Call → Nat × Task
  | [] => (0, .failed endOfStream)
  | c :: _ =>
    if c.due - now < patience then
      (c.due - now,
        match c.readError with
        | some reason => .failed reason
        | none => .arrived)
    else (patience, .failed outOfTime)

def beginRead (s : Session) (now : Nat) : Orders :=
  let (delay, task) := readEnd now s.calls
  [.after delay task]

def complaint (what reason : Bytes) : Order Task Entry :=
  .emit (.line ⟨.debug, ascii "session " ++ what ++ ascii ": " ++ reason⟩)

def respond (answer : Bytes → Bytes → Answer) (stopping : Bool) (c : Call) : Response :=
  .ofAnswer (answer c.request.method c.request.target) c.request.version
    (c.keepAlive && !stopping)

/-- Handles a task; `answer` gives the answer to a method and a target. -/
def handle (answer : Bytes → Bytes → Answer) (stopping : Bool) (now : Nat) (s : Session) :
    Task → Session × Orders
  | .read => (s, s.beginRead now)
  | .arrived =>
    match s.calls with
    | [] => (s, [])
    | c :: rest =>
      let r := respond answer stopping c
      (⟨rest⟩, [.emit (.response r c.writeError), .post (.written r.keepAlive c.writeError)])
  | .failed reason =>
    (s, (if isQuiet reason then [] else [complaint (ascii "read") reason]) ++ [.emit .closed])
  | .written _ (some reason) => (s, [complaint (ascii "write") reason, .emit .closed])
  | .written true none => (s, s.beginRead now)
  | .written false none => (s, [.emit .closed])

end Session

end TargetDiscovery.Web
