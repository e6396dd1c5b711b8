import TargetDiscovery.Naming
import TargetDiscovery.Net.Address
import TargetDiscovery.Registry.State
import TargetDiscovery.Target

/-!
# From records to targets

A record becomes a target of its instance when it is well formed, its role has a job, its address
is valid, and none of its features has a name that is no label name or one of the three labels
that every target carries. The first of these conditions that fails is the one reported.
-/

set_option autoImplicit false

namespace TargetDiscovery

abbrev JobRules := Dict Bytes

namespace JobRules

def standard : JobRules := SortedMap.ofList
  [(ascii "replica", ascii "replica"),
    (ascii "api_boundary", ascii "api_boundary_node"),
    (ascii "boundary", ascii "boundary_node"),
    (ascii "unassigned", ascii "unassigned_node")]

end JobRules

inductive RecordError
  | malformed | unknownRole | badAddress | badLabel
  deriving DecidableEq, Repr

namespace RecordError

def name : RecordError → Bytes
  | malformed => ascii "malformed"
  | unknownRole => ascii "unknown_role"
  | badAddress => ascii "bad_address"
  | badLabel => ascii "bad_label"

end RecordError

/-- The instance that targets are made for, and its jobs. -/
structure Conversion where
  owner : Bytes
  rules : JobRules
  deriving DecidableEq, Repr

namespace Conversion

def isFeatureName (name : Bytes) : Bool :=
  Naming.isLabelName name && !Naming.isReservedLabel name

def ownLabels (owner job subnet : Bytes) : Labels :=
  let labels := SortedMap.ofList [(Naming.job, job), (Naming.owner, owner)]
  if subnet.isEmpty then labels else labels.insert Naming.subnet subnet

def addFeatures (labels : Labels) (features : Dict Bytes) : Labels :=
  features.entries.foldl (fun d e => d.insertIfNew e.1 e.2) labels

def convert (c : Conversion) (r : NodeRecord) : Except RecordError Target :=
  if r.malformed then .error .malformed
  else
    match c.rules.get? r.role with
    | none => .error .unknownRole
    | some job =>
      if !Address.isValid r.address then .error .badAddress
      else if r.features.keys.all isFeatureName then
        .ok ⟨c.owner, job, r.address,
          addFeatures (ownLabels c.owner job r.subnet) r.features⟩
      else .error .badLabel

end Conversion

end TargetDiscovery
