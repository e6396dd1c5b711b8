import TargetDiscovery.Http
import TargetDiscovery.Loop
import TargetDiscovery.Net.Endpoint
import TargetDiscovery.Registry.Response

/-!
# Exchanges with a registry

A fetch goes through four stages: it resolves the name, connects, writes the request and reads the
answer. One deadline bounds all of them. When it passes, the stage under way is cancelled, and its
end is then reported as a timeout; no later stage begins.
-/

set_option autoImplicit false

namespace TargetDiscovery

inductive Stage
  | resolve | connect | write | read
  deriving DecidableEq, Repr, Inhabited

namespace Stage

def name : Stage → Bytes
  | resolve => ascii "resolve"
  | connect => ascii "connect"
  | write => ascii "write"
  | read => ascii "read"

def next? : Stage → Option Stage
  | resolve => some connect
  | connect => some write
  | write => some read
  | read => none

end Stage

/-- How a stage goes: how long it takes, unless it never ends, and the error it ends with. -/
structure StageCourse where
  delay : Option Nat := some 0
  error : Option Bytes := none
  deriving DecidableEq, Repr, Inhabited

/-- How the network and the registry take part in one fetch. -/
structure Exchange where
  resolve : StageCourse := {}
  connect : StageCourse := {}
  write : StageCourse := {}
  read : StageCourse := {}
  status : Nat := 200
  headers : List (Bytes × Bytes) := []
  body : Bytes := []
  deriving DecidableEq, Repr, Inhabited

namespace Exchange

def course (x : Exchange) : Stage → StageCourse
  | .resolve => x.resolve
  | .connect => x.connect
  | .write => x.write
  | .read => x.read

def refused : Exchange := { connect := { error := some (ascii "Connection refused") } }

def certificateHeader : Bytes := ascii "X-Registry-Certificate"

def bodyLimit : Nat := 64 * 1024 * 1024

def conclusion [Json.Reader] (x : Exchange) : FetchResult :=
  if x.status ≠ 200 then
    .ok (.error ⟨.status, ascii "registry answered HTTP " ++ Bytes.decimal x.status⟩)
  else .ofResponse x.body (Http.header? certificateHeader x.headers)

def request (endpoint : Endpoint) (since : UInt64) : Http.Request :=
  { method := ascii "GET"
    target := endpoint.basePath ++ ascii "/registry?since=" ++ Bytes.decimal since.toNat
    version := Http.version
    fields := SortedMap.ofList
      [(ascii "Host", endpoint.host), (ascii "User-Agent", Http.program),
        (ascii "Accept", ascii "application/json")] }

/-! ## The course of an exchange -/

/-- Where an exchange stands: the stage under way, the stages begun, whether the deadline has
passed, and the outcome. -/
structure Progress where
  stage : Stage
  begun : List Stage
  timedOut : Bool
  outcome : Option FetchResult

inductive Task
  | ended
  | cancelled
  | deadline
  deriving DecidableEq, Repr

def beginStage (x : Exchange) (p : Progress) (s : Stage) : Progress × List (Order Task Unit) :=
  let orders :=
    match (x.course s).delay with
    | some d => [.after d .ended]
    | none => []
  ({ p with stage := s, begun := p.begun ++ [s] }, orders)

def stageError (p : Progress) (text : Bytes) : FetchError :=
  if p.timedOut then ⟨.timeout, p.stage.name ++ ascii ": deadline exceeded"⟩
  else ⟨.transport, p.stage.name ++ ascii ": " ++ text⟩

/-- Ends the exchange; its deadline no longer matters. -/
def conclude (p : Progress) (outcome : FetchResult) :
    Progress × List (Order Task Unit) :=
  ({ p with outcome := some outcome }, [.cancel .deadline .cancelled])

def canceledText : Bytes := ascii "Operation canceled"

def handle [Json.Reader] (x : Exchange) (p : Progress) (task : Task) :
    Progress × List (Order Task Unit) :=
  if p.outcome.isSome then (p, [])
  else
    match task with
    | .ended =>
      match (x.course p.stage).error with
      | some text => conclude p (.ok (.error (stageError p text)))
      | none =>
        match p.stage.next? with
        | some s => beginStage x p s
        | none => conclude p x.conclusion
    | .cancelled => conclude p (.ok (.error (stageError p canceledText)))
    | .deadline =>
      ({ p with timedOut := true },
        .cancel .ended .cancelled ::
          if (x.course p.stage).delay.isNone then [.post .cancelled] else [])

def machine [Json.Reader] (x : Exchange) : Machine Progress Task Unit := ⟨fun _ p t => handle x p t⟩

def begin (x : Exchange) (timeout : Nat) : Run Progress Task Unit :=
  ((Run.start ⟨.resolve, [], false, none⟩).obey (.after timeout .deadline)).command fun p =>
    beginStage x p .resolve

/-- More tasks than an exchange has: its stages, the deadline and a cancelled stage. -/
def taskBound : Nat := 8

def isOpen (p : Progress) : Bool := p.outcome.isNone

def finish [Json.Reader] (x : Exchange) (timeout : Nat) : Run Progress Task Unit :=
  (begin x timeout).continueWhile (machine x) none isOpen taskBound

structure Trace where
  stages : List Stage
  host : Bytes
  port : Bytes
  request : Option Http.Request
  bodyLimit : Nat
  deriving DecidableEq, Repr

def trace (endpoint : Endpoint) (since : UInt64) (begun : List Stage) : Trace :=
  { stages := begun
    host := endpoint.host
    port := endpoint.port
    request := if begun.contains .write then some (request endpoint since) else none
    bodyLimit := if begun.contains .read then bodyLimit else 0 }

/-- The outcome of an exchange; one that has none is still reading. -/
def outcomeOf (p : Progress) : FetchResult :=
  match p.outcome with
  | some outcome => outcome
  | none => .ok (.error (stageError { p with timedOut := true } canceledText))

end Exchange

/-- The answer to a fetch and how long it takes, unless it never comes. -/
structure Reply where
  delay : Option Nat
  result : FetchResult

namespace Exchange

def reply [Json.Reader] (x : Exchange) (timeout : Nat) : Reply :=
  let r := finish x timeout
  ⟨some r.loop.now, outcomeOf r.state⟩

end Exchange

end TargetDiscovery
