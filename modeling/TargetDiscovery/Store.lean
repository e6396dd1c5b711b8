import TargetDiscovery.Target

/-!
# Published snapshots

A store holds the current snapshot of one instance. A snapshot of that instance becomes current
when its version is greater than the current one, so the version that readers see never falls.
The store counts how its offers were answered, in words of 64 bits.
-/

set_option autoImplicit false

namespace TargetDiscovery

/-- The targets of an instance at a version; the time is in milliseconds of the epoch. -/
structure Snapshot where
  owner : Bytes
  version : UInt64
  targets : List Target
  fetchedAt : Int
  skipped : Nat
  deriving DecidableEq, Repr, Inhabited

inductive Verdict
  | installed | stale | rejected
  deriving DecidableEq, Repr

namespace Verdict

def name : Verdict → Bytes
  | installed => ascii "installed"
  | stale => ascii "stale"
  | rejected => ascii "rejected"

end Verdict

structure Tally where
  installs : UInt64 := 0
  stale : UInt64 := 0
  rejected : UInt64 := 0
  deriving DecidableEq, Repr, Inhabited

namespace Tally

def count (t : Tally) : Verdict → Tally
  | .installed => { t with installs := t.installs + 1 }
  | .stale => { t with stale := t.stale + 1 }
  | .rejected => { t with rejected := t.rejected + 1 }

end Tally

structure Store where
  name : Bytes
  current : Option Snapshot
  tally : Tally
  deriving DecidableEq, Repr, Inhabited

namespace Store

def new (name : Bytes) : Store := ⟨name, none, {}⟩

/-- The current version; zero stands for none. -/
def version (s : Store) : UInt64 :=
  match s.current with
  | some snapshot => snapshot.version
  | none => 0

def isNewer (s : Store) (next : Snapshot) : Bool :=
  match s.current with
  | some snapshot => decide (snapshot.version.toNat < next.version.toNat)
  | none => true

def judge (s : Store) : Option Snapshot → Verdict
  | none => .rejected
  | some next =>
    if next.owner ≠ s.name then .rejected
    else if s.isNewer next then .installed
    else .stale

/-- The answer to an offer, and the store after it. -/
def publish (s : Store) (next : Option Snapshot) : Verdict × Store :=
  let verdict := s.judge next
  (verdict,
    { s with
      current := if verdict = .installed then next else s.current
      tally := s.tally.count verdict })

theorem publish_name (s : Store) (next : Option Snapshot) : (s.publish next).2.name = s.name := rfl

theorem publish_current (s : Store) (next : Option Snapshot) :
    (s.publish next).2.current = if s.judge next = .installed then next else s.current := rfl

end Store

end TargetDiscovery
