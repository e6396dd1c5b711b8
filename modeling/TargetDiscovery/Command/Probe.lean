import TargetDiscovery.Command.Start
import TargetDiscovery.Catalog
import TargetDiscovery.Poller.Solo

/-!
# The probe

The probe runs one cycle of one instance with its own registry and verifier, and tells the outcome
and, if there is a snapshot then, the groups of its targets. Its status is zero if the cycle
published. A fault in the cycle ends the probe, and nothing is told then.
-/

set_option autoImplicit false

namespace TargetDiscovery.Command

/-- What a probe found: how the cycle ended, and all that it left behind. -/
structure Finding where
  name : Bytes
  outcome : Except Fault Outcome
  store : Store
  lines : List (Stamped LogLine)
  network : Hosts

namespace Finding

def snapshot? (f : Finding) : Option Snapshot := Catalog.snapshot? [f.store] f.name

def groups? (f : Finding) : Option (List Group) :=
  match f.outcome with
  | .ok _ => f.snapshot?.map fun _ => Catalog.groups [f.store] {}
  | .error _ => none

def snapshotText (s : Snapshot) : Bytes :=
  ascii "version " ++ Bytes.decimal s.version.toNat ++ ascii ", " ++
    Bytes.decimal s.targets.length ++ ascii " target(s), " ++ Bytes.decimal s.skipped ++
    ascii " skipped\n"

def text (f : Finding) : Bytes :=
  match f.outcome with
  | .ok o =>
    ascii "instance " ++ f.name ++ ascii ": " ++ o.name ++ ascii "\n" ++
      ((f.snapshot?.map snapshotText).getD [])
  | .error _ => []

def exit (f : Finding) : Exit := f.outcome.map fun o => if o = .published then 0 else 1

end Finding

namespace Probe

def program : Bytes := ascii "msd_probe"

def parameters : Bytes := ascii "<config.json> <instance>"

/-- More tasks than a single cycle has: its begin, the deadline, the reply and what follows it. -/
def taskBound : Nat := 8

def run [Json.Reader] (d : Definition) (network : Hosts) (epoch : Int) :
    Run (Solo Hosts) Poller.Task Mark :=
  let solo := Solo.new (Poller.new d.toSetup (Store.new d.name) 0) network epoch
  ((Run.start solo).command Solo.beginCycle).drain
    (Solo.machine (Network.ofEndpoints [d.endpoint])) taskBound

def find [Json.Reader] (d : Definition) (network : Hosts) (epoch : Int) : Finding :=
  let r := run d network epoch
  { name := d.name
    outcome := r.state.result.getD (.error .foreign)
    store := r.state.poller.store
    lines := Stamped.choose Mark.line? (r.entriesSince 0)
    network := r.state.network }

def findNamed [Json.Reader] (definitions : List Definition) (name : Bytes) (network : Hosts)
    (epoch : Int) : Except Refusal Finding :=
  match definitions.find? fun d => d.name = name with
  | some d => .ok (find d network epoch)
  | none => .error (.unknownInstance name)

end Probe

/-- A probe at its end: the start, and what it found. -/
structure Probe where
  start : Start
  result : Except Refusal Finding

namespace Probe

/-- Runs a probe with its arguments; `readKey` makes a check from the text of a key file. -/
def ofArguments [Json.Reader] (readKey : Bytes → Except KeyError Check) (files : Files)
    (network : Hosts) (epoch : Int) : List Bytes → Probe
  | [path, name] =>
    let start := Start.load readKey (fun _ => []) files path
    match start.result with
    | .ok (_, definitions) => ⟨start, findNamed definitions name network epoch⟩
    | .error r => ⟨start, .error r⟩
  | _ => ⟨.refused (.usage parameters), .error (.usage parameters)⟩

def exit (p : Probe) : Exit :=
  match p.result with
  | .ok f => f.exit
  | .error r => r.exit

def output (p : Probe) : Bytes :=
  match p.result with
  | .ok f => f.text
  | .error _ => []

def groups? (p : Probe) : Option (List Group) :=
  match p.result with
  | .ok f => f.groups?
  | .error _ => none

def complaint (p : Probe) : Bytes :=
  match p.result with
  | .ok _ => []
  | .error r => r.message program

def lines (p : Probe) : List (Stamped LogLine) :=
  p.start.lines.map (⟨0, ·⟩) ++
    match p.result with
    | .ok f => f.lines
    | .error _ => []

end Probe

end TargetDiscovery.Command
