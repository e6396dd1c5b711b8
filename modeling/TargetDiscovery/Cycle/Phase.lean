import TargetDiscovery.Cycle.Event

/-!
# Phases of a poller

The phase is what can be seen of a poller from outside. A mark is one thing that a poller does:
it enters a phase, asks the registry, writes a line or reports a cycle.
-/

set_option autoImplicit false

namespace TargetDiscovery

inductive Phase
  | idle | fetching | verifying | building | publishing | backoffWait | stopped
  deriving DecidableEq, Repr, Inhabited

namespace Phase

def name : Phase → Bytes
  | idle => ascii "idle"
  | fetching => ascii "fetching"
  | verifying => ascii "verifying"
  | building => ascii "building"
  | publishing => ascii "publishing"
  | backoffWait => ascii "backoff_wait"
  | stopped => ascii "stopped"

def after (o : Outcome) : Phase := if o.isFailure then backoffWait else idle

end Phase

inductive Mark
  | phase (p : Phase)
  | call (since : UInt64) (timeout : Nat)
  | line (l : LogLine)
  | event (e : CycleEvent)
  deriving DecidableEq, Repr

namespace Mark

def line? : Mark → Option LogLine
  | line l => some l
  | event e => some e.line
  | phase _ | call _ _ => none

def phase? : Mark → Option Phase
  | phase p => some p
  | _ => none

def event? : Mark → Option CycleEvent
  | event e => some e
  | _ => none

def lastPhase (before : Phase) (marks : List Mark) : Phase :=
  ((marks.filterMap phase?).getLast?).getD before

end Mark

end TargetDiscovery
