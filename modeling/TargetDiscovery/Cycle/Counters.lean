import TargetDiscovery.SortedMap
import TargetDiscovery.Cycle.Event

/-!
# Counters

For each instance the ledger counts cycles by their outcome, the records they skipped, and the
restarts of the instance, in words of 64 bits, and keeps the last results. An instance that nothing
was recorded for has all counters at zero.
-/

set_option autoImplicit false

namespace TargetDiscovery

structure Counters where
  polls : UInt64 := 0
  pollFailures : UInt64 := 0
  verificationFailures : UInt64 := 0
  buildFailures : UInt64 := 0
  decodeSkips : UInt64 := 0
  lastSkipped : UInt64 := 0
  targets : UInt64 := 0
  restarts : UInt64 := 0
  lastSyncOk : Bool := false
  lastLoadOk : Bool := false
  degraded : Bool := false
  deriving DecidableEq, Repr, Inhabited

namespace Counters

def addSkips (c : Counters) (skipped : UInt64) : Counters :=
  { c with decodeSkips := c.decodeSkips + skipped, lastSkipped := skipped }

def loaded (c : Counters) (ok : Bool) : Counters := { c with lastSyncOk := true, lastLoadOk := ok }

def record (c : Counters) (e : CycleEvent) : Counters :=
  let c := { c with polls := c.polls + 1 }
  match e.outcome with
  | .fetchFailed => { c with pollFailures := c.pollFailures + 1, lastSyncOk := false }
  | .verificationFailed =>
    { c with verificationFailures := c.verificationFailures + 1 }.loaded false
  | .buildFailed =>
    ({ c with buildFailures := c.buildFailures + 1 }.addSkips e.skipped).loaded false
  | .published => ({ c with targets := e.targets }.addSkips e.skipped).loaded true
  | .stale => (c.addSkips e.skipped).loaded true
  | .unchanged => { c with lastSyncOk := true }

/-- The counters after a restart, or after the decision not to restart any more. -/
def recordRestart (c : Counters) (degraded : Bool) : Counters :=
  if degraded then { c with degraded := true } else { c with restarts := c.restarts + 1 }

end Counters

abbrev Ledger := Dict Counters

namespace Ledger

def counters (l : Ledger) (name : Bytes) : Counters := (l.get? name).getD {}

def record (l : Ledger) (e : CycleEvent) : Ledger :=
  l.alter e.owner fun c => (c.getD {}).record e

def recordRestart (l : Ledger) (name : Bytes) (degraded : Bool) : Ledger :=
  l.alter name fun c => (c.getD {}).recordRestart degraded

end Ledger

end TargetDiscovery
