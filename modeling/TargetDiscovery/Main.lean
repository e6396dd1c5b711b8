import Std.Async.DNS
import Std.Async.Signal
import Std.Async.TCP
import Std.Async.Timer
import TargetDiscovery.Command.Probe
import TargetDiscovery.Command.Serve
import TargetDiscovery.Http.Message
import TargetDiscovery.Json.Writer

/-!
# The command line

`probe <config.json> <instance>` runs one cycle of an instance, `serve <config.json>` runs the
service until it is interrupted. This module reads files, carries bytes over connections, looks at
the clock and prints; what is done with all that is decided elsewhere.
-/

set_option autoImplicit false

namespace TargetDiscovery.CommandLine

open Std.Async

/-! ## Text, time and files -/

def text (b : Bytes) : String := (String.fromUTF8? ⟨b.toArray⟩).getD "?"

def bytes (s : String) : Bytes := s.toUTF8.toList

def epochNow : IO Int := do
  return (← Std.Time.Timestamp.now).toMillisecondsSinceUnixEpoch.toInt

def readFile? (path : Bytes) : IO (Option Bytes) := do
  try
    return some (← IO.FS.readBinFile (text path)).toList
  catch _ => return none

def readFiles (path : Bytes) : IO Files := do
  let config ← readFile? path
  let keys ← (Config.keyPaths (Path.directory path) (config.getD [])).mapM fun key => do
    return (key, ← readFile? key)
  return Files.ofReadings ((path, config) :: keys)

/-- The status of an exit; a fault is told on standard error. -/
def statusOf (program : Bytes) : Command.Exit → IO UInt32
  | .ok status => return status.toUInt32
  | .error fault => do
    IO.eprintln (text (program ++ ascii ": " ++ fault.text))
    return 134

def printLine (threshold : LogLevel) (l : LogLine) : IO Unit := do
  if threshold.admits l.level then
    IO.println ("[" ++ text l.level.name ++ "] " ++ text l.text)

/-! ## Exchanges with registries -/

/-- Runs an action up to a time; tells its course as a stage, and its result. -/
def runStage {α : Type} (deadline : Nat) (action : Async α) :
    Async (StageCourse × Option α) := do
  let begun ← IO.monoMsNow
  let attempt : Async (Option (Except IO.Error α)) := do
    try return some (.ok (← action)) catch e => return some (.error e)
  let limit : Async (Option (Except IO.Error α)) := do
    sleep (.ofNat (deadline - begun))
    return none
  let outcome ← Async.race attempt limit
  let delay := (← IO.monoMsNow) - begun
  match outcome with
  | some (.ok a) => return (⟨some delay, none⟩, some a)
  | some (.error e) => return (⟨some delay, some (bytes e.toString)⟩, none)
  | none => return (⟨none, none⟩, none)

def socketAddress (address : Std.Net.IPAddr) (port : Nat) : Std.Net.SocketAddress :=
  match address with
  | .v4 a => .v4 ⟨a, port.toUInt16⟩
  | .v6 a => .v6 ⟨a, port.toUInt16⟩

def connectTo (port : Nat) : List Std.Net.IPAddr → Async TCP.Socket.Client
  | [] => throw (IO.userError "no address")
  | address :: rest => do
    try
      let socket ← TCP.Socket.Client.mk
      socket.connect (socketAddress address port)
      return socket
    catch e => if rest.isEmpty then throw e else connectTo port rest

partial def receive (socket : TCP.Socket.Client) (otherwise : Http.Framing) (received : Bytes)
    (closed : Bool) : Async (Http.Head × Bytes × Bytes) := do
  match Http.Head.cut? received with
  | some (head, rest) =>
    match Http.Body.ofText (head.framing otherwise) closed rest with
    | .whole body rest => return (head, body, rest)
    | .broken => throw (IO.userError "bad chunk")
    | .partly => more
  | none => more
where
  more : Async (Http.Head × Bytes × Bytes) := do
    if closed then
      throw (IO.userError (if received.isEmpty then "end of stream" else "partial message"))
    else if Exchange.bodyLimit < received.length then
      throw (IO.userError "body limit exceeded")
    else
      match ← socket.recv? 65536 with
      | some data => receive socket otherwise (received ++ data.toList) false
      | none => receive socket otherwise received true

def exchange (e : Endpoint) (since : UInt64) (timeout : Nat) : Async Exchange := do
  let deadline := (← IO.monoMsNow) + timeout
  let (resolve, addresses) ← runStage deadline (DNS.getAddrInfo (text e.host) (text e.port))
  let some addresses := addresses | return { resolve := resolve }
  let port := (Bytes.decimal? e.port).getD 80
  let (connect, socket) ← runStage deadline (connectTo port addresses.toList)
  let some socket := socket | return { resolve := resolve, connect := connect }
  let request := (Exchange.request e since).text
  let (write, written) ← runStage deadline (socket.send ⟨request.toArray⟩)
  let some _ := written | return { resolve := resolve, connect := connect, write := write }
  let (read, message) ← runStage deadline (receive socket .endOfStream [] false)
  let (status, headers, body) :=
    match message with
    | some (head, body, _) => (head.status?.getD 0, head.headers, body)
    | none => (0, [], [])
  return ⟨resolve, connect, write, read, status, headers, body⟩

/-! ## The probe -/

def probe (arguments : List String) : IO UInt32 := do
  let arguments := arguments.map bytes
  let path := arguments.headD []
  let files ← readFiles path
  let start := Command.Start.load Verifier.ofPem (fun _ => []) files path
  let wanted : Option Definition :=
    match start.result, arguments with
    | .ok (_, definitions), [_, name] => definitions.find? fun d => d.name = name
    | _, _ => none
  let exchanges ←
    match wanted with
    | some d => do
      let x ← (exchange d.endpoint 0 d.timing.timeout).block
      pure (SortedMap.ofList [(d.endpoint.host, [x])])
    | none => pure SortedMap.empty
  let network : Hosts := ⟨exchanges, SortedMap.empty⟩
  let p := Command.Probe.ofArguments Verifier.ofPem files network (← epochNow) arguments
  for l in p.lines do printLine p.start.level l.entry
  IO.print (text p.output)
  if let some groups := p.groups? then
    IO.println (text ((Answer.groupsBody groups).text Json.Layout.indented))
  IO.eprint (text p.complaint)
  statusOf Command.Probe.program p.exit

/-! ## The service -/

/-- A service that answers and fetches over connections. -/
structure Desk where
  definitions : List Definition
  level : LogLevel
  origin : Nat
  run : IO.Ref (Run (Service Unit) Service.Task Service.Entry)
  inbox : IO.Ref (List Service.Task)

namespace Desk

def fuel : Nat := 1000000

partial def serveClient (desk : Desk) (socket : TCP.Socket.Client) (received : Bytes) :
    Async Unit := do
  let deadline := (← IO.monoMsNow) + Web.Session.patience
  let (course, message) ← runStage deadline (receive socket (.length 0) received false)
  match message with
  | none =>
    let reason := (course.error).getD Web.Session.outOfTime
    if !Web.Session.isQuiet reason then
      printLine desk.level ⟨.debug, ascii "session read: " ++ reason⟩
  | some (head, _, rest) =>
    match head.request? with
    | none => printLine desk.level ⟨.debug, ascii "session read: bad request"⟩
    | some request =>
      let service := (← desk.run.get).state
      let call : Web.Call := ⟨0, request, head.keepsAlive request.version, none, none⟩
      let r := Web.Session.respond service.answer service.web.stopping call
      let body := r.body.text Json.Layout.compact
      let reply := Http.responseText r.status r.version r.keepAlive r.fields body
      try
        socket.send ⟨reply.toArray⟩
        if r.keepAlive then serveClient desk socket rest
      catch e =>
        printLine desk.level ⟨.debug, ascii "session write: " ++ bytes e.toString⟩

def fetch (desk : Desk) (position number : Nat) (since : UInt64) (timeout : Nat) : Async Unit := do
  if let some d := desk.definitions[position]? then
    let x ← exchange d.endpoint since timeout
    let task : Poller.Task := .reply number (x.reply timeout).result
    desk.inbox.modify (· ++ [.slot ⟨position, .poll task⟩])

/-- Moves the service on to the present; gives what has happened. -/
def turn (desk : Desk) : IO (List (Stamped Service.Entry)) := do
  let now := (← IO.monoMsNow) - desk.origin
  let tasks ← desk.inbox.modifyGet fun l => (l, [])
  desk.run.modifyGet fun r =>
    let machine := Service.machine Network.silent
    let r := r.advanceTo machine fuel now
    let r := (r.obeyAll (tasks.map Order.post)).settle machine fuel
    (r.entriesSince 0, { r with journal := [] })

def carryOut (desk : Desk) (entry : Service.Entry) : IO Unit := do
  if let some l := entry.line? then printLine desk.level l
  if let .slot ⟨some position, .call since timeout⟩ := entry then
    let service := (← desk.run.get).state
    if let some slot := service.supervisor.slots[position]? then
      discard (desk.fetch position slot.poller.fetches since timeout).toIO

partial def acceptAll (desk : Desk) (listener : TCP.Socket.Server) : IO Unit := do
  try
    if let some socket ← listener.tryAccept then
      discard (desk.serveClient socket []).toIO
      desk.acceptAll listener
  catch e => printLine desk.level ⟨.warning, ascii "accept failed: " ++ bytes e.toString⟩

/-- Runs the service until it has been stopped and all instances have come to their end. -/
partial def loop (desk : Desk) (listener : TCP.Socket.Server)
    (signals : List (AsyncTask Int)) : IO Unit := do
  for entry in ← desk.turn do desk.carryOut entry.entry
  let service := (← desk.run.get).state
  if !service.web.stopping then
    for s in signals do
      if ← IO.hasFinished s then
        desk.inbox.modify (· ++ [.signal (← s.block).toNat])
    desk.acceptAll listener
  if !(service.web.stopping && service.supervisor.isDone) then
    IO.sleep 10
    desk.loop listener signals

end Desk

def literalAddress? (address : Bytes) : Option Std.Net.IPAddr :=
  ((Std.Net.IPv4Addr.ofString (text address)).map .v4).orElse fun _ =>
    (Std.Net.IPv6Addr.ofString (text address)).map .v6

def openListener (address : Bytes) (port : Nat) :
    IO (Except Web.ListenError (TCP.Socket.Server × Nat)) := do
  let refused (step : Web.ListenStep) (e : IO.Error) : Web.ListenError :=
    .refused step address port (bytes e.toString)
  match literalAddress? address with
  | none => return .error (.notLiteral address)
  | some literal =>
    let listener ← TCP.Socket.Server.mk
    try listener.bind (socketAddress literal port)
    catch e => return .error (refused .binding e)
    try listener.listen 128
    catch e => return .error (refused .listening e)
    try
      match ← listener.getSockName with
      | .v4 a => return .ok (listener, a.port.toNat)
      | .v6 a => return .ok (listener, a.port.toNat)
    catch e => return .error (refused .naming e)

def serveConfig (level : LogLevel) (c : Config) (definitions : List Definition) : IO UInt32 := do
  match ← openListener c.address c.port with
  | .error e =>
    printLine level (Command.Serve.deafLine e)
    return 1
  | .ok (listener, port) =>
    let signals ← [Signal.sigint, Signal.sigterm].mapM fun s => do
      (← Signal.Waiter.mk s false).wait
    let seed := (← IO.rand 0 (UInt64.size - 1)).toUInt64
    let service := Command.Serve.service c definitions () (← epochNow) seed port []
    let desk : Desk :=
      { definitions := definitions
        level := level
        origin := ← IO.monoMsNow
        run := ← IO.mkRef ((Run.start service).command Service.start)
        inbox := ← IO.mkRef [] }
    desk.loop listener signals
    printLine level Command.Serve.farewell
    return 0

def serve (arguments : List String) : IO UInt32 := do
  match arguments.map bytes with
  | [path] =>
    let start := Command.Start.load Verifier.ofPem Command.Serve.greeting (← readFiles path) path
    for l in start.lines do printLine start.level l
    match start.result with
    | .ok (c, definitions) => serveConfig start.level c definitions
    | .error r =>
      IO.eprint (text (r.message Command.Serve.program))
      statusOf Command.Serve.program r.exit
  | _ =>
    let r : Command.Refusal := .usage Command.Serve.parameters
    IO.eprint (text (r.message Command.Serve.program))
    statusOf Command.Serve.program r.exit

end TargetDiscovery.CommandLine

def main : List String → IO UInt32
  | "probe" :: arguments => TargetDiscovery.CommandLine.probe arguments
  | "serve" :: arguments => TargetDiscovery.CommandLine.serve arguments
  | _ => do
    IO.eprintln "usage: probe <config.json> <instance> | serve <config.json>"
    return 2
