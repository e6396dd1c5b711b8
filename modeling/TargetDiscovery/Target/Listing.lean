import TargetDiscovery.Log
import TargetDiscovery.Target.Conversion

/-!
# The targets of a whole state

The records of a state are converted one by one; those that are no targets are skipped and
counted. The targets are listed in the order of their identities, and two of one identity make
the whole state unusable.
-/

set_option autoImplicit false

namespace TargetDiscovery

/-- The targets of a state in the order of their identities, and the number of records skipped. -/
structure Listing where
  targets : List Target
  skipped : Nat
  deriving DecidableEq, Repr

/-- Two records of one identity: its job and address, and the number of records skipped. -/
structure Collision where
  job : Bytes
  address : Bytes
  skipped : Nat
  deriving DecidableEq, Repr

namespace Collision

def message (c : Collision) : Bytes :=
  ascii "duplicate target " ++ c.job ++ ascii "/" ++ c.address

end Collision

namespace Conversion

def accepted (c : Conversion) (records : List NodeRecord) : List Target :=
  records.filterMap fun r => (c.convert r).toOption

def rejected (c : Conversion) (records : List NodeRecord) : List (NodeRecord × RecordError) :=
  records.filterMap fun r =>
    match c.convert r with
    | .error e => some (r, e)
    | .ok _ => none

def firstRepeated : List Target → Option Target
  | t :: u :: rest => if t.identity = u.identity then some t else firstRepeated (u :: rest)
  | _ => none

def listing (c : Conversion) (records : List NodeRecord) : Except Collision Listing :=
  let targets := (c.accepted records).mergeSort Target.upTo
  let skipped := (c.rejected records).length
  match firstRepeated targets with
  | some t => .error ⟨t.job, t.address, skipped⟩
  | none => .ok ⟨targets, skipped⟩

def skipLine (owner : Bytes) (r : NodeRecord) (e : RecordError) : LogLine :=
  ⟨.debug, owner ++ ascii ": skipping record node_id='" ++ r.nodeId ++ ascii "' address='" ++
    r.address ++ ascii "' (" ++ e.name ++ ascii ")"⟩

def skipLines (c : Conversion) (records : List NodeRecord) : List LogLine :=
  (c.rejected records).map fun (r, e) => skipLine c.owner r e

end Conversion

end TargetDiscovery
