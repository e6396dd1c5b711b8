import TargetDiscovery.Command.Start
import TargetDiscovery.Service
import TargetDiscovery.Web.Listening

/-!
# The server command

The server command runs the service with all instances of a configuration until a signal comes and
the loop is at rest. It ends with status one if it cannot listen.
-/

set_option autoImplicit false

namespace TargetDiscovery.Command

namespace Serve

def program : Bytes := ascii "msd_server"

def parameters : Bytes := ascii "<config.json>"

/-- The world around the service: the hosts of registries, the host of its listener, its clients,
the time of the epoch at its start, and the signal that ends it. -/
structure World where
  network : Hosts
  host : Web.Host
  visits : List Web.Visit
  epoch : Int
  seed : UInt64
  signal : Nat
  signalAfter : Nat

abbrev ServiceRun := Run (Service Hosts) Service.Task Service.Entry

def greeting (c : Config) : List LogLine :=
  [⟨.info, ascii "msd_server " ++ Http.versionText ++ ascii " starting with " ++
    Bytes.decimal c.entries.length ++ ascii " instance(s)"⟩]

def service {κ : Type} (c : Config) (definitions : List Definition) (network : κ) (epoch : Int)
    (seed : UInt64) (port : Nat) (visits : List Web.Visit) : Service κ :=
  ⟨Supervisor.new c.restarts (definitions.map Definition.toSetup) network epoch seed,
    .new port visits⟩

/-- The service at rest; `fuel` bounds the number of tasks. The signal is waited for before
anything starts. -/
def run [Json.Reader] (fuel : Nat) (c : Config) (definitions : List Definition) (w : World)
    (port : Nat) : ServiceRun :=
  let service := service c definitions w.network w.epoch w.seed port w.visits
  let waiting := (Run.start service).obey (.after w.signalAfter (.signal w.signal))
  (waiting.command Service.start).drain
    (Service.machine (Network.ofEndpoints (definitions.map Definition.endpoint))) fuel

def farewell : LogLine := ⟨.info, ascii "msd_server stopped"⟩

def deafLine (e : Web.ListenError) : LogLine :=
  ⟨.critical, ascii "cannot listen: " ++ e.message⟩

end Serve

/-- The server command at its end: the start, and the service at rest, if it came to run. -/
structure Serve where
  start : Start
  result : Except Refusal (Except Web.ListenError Serve.ServiceRun)

namespace Serve

def ofArguments [Json.Reader] (readKey : Bytes → Except KeyError Check) (fuel : Nat)
    (files : Files) (w : World) : List Bytes → Serve
  | [path] =>
    let start := Start.load readKey greeting files path
    match start.result with
    | .ok (c, definitions) =>
      ⟨start, .ok ((w.host.listen c.address c.port).map (run fuel c definitions w))⟩
    | .error r => ⟨start, .error r⟩
  | _ => ⟨.refused (.usage parameters), .error (.usage parameters)⟩

def exit (s : Serve) : Exit :=
  match s.result with
  | .ok (.ok _) => .ok 0
  | .ok (.error _) => .ok 1
  | .error r => r.exit

def complaint (s : Serve) : Bytes :=
  match s.result with
  | .ok _ => []
  | .error r => r.message program

def run? (s : Serve) : Option ServiceRun :=
  match s.result with
  | .ok (.ok r) => some r
  | _ => none

def webEntries (s : Serve) : List (Stamped Web.Server.Entry) :=
  match s.run? with
  | some r => Stamped.choose Service.Entry.web? (r.entriesSince 0)
  | none => []

def endTime (s : Serve) : Nat :=
  match s.run? with
  | some r => r.loop.now
  | none => 0

def runLines (s : Serve) : List (Stamped LogLine) :=
  match s.result with
  | .ok (.ok r) =>
    Stamped.choose Service.Entry.line? (r.entriesSince 0) ++ [⟨r.loop.now, farewell⟩]
  | .ok (.error e) => [⟨0, deafLine e⟩]
  | .error _ => []

def lines (s : Serve) : List (Stamped LogLine) := s.start.lines.map (⟨0, ·⟩) ++ s.runLines

end Serve

end TargetDiscovery.Command
