import TargetDiscovery.Naming
import TargetDiscovery.Store

/-!
# The catalog of all instances

The catalog is the list of stores in the order of the configuration. A query may ask for one job,
one instance, or both; the targets it finds are grouped by equal label sets.
-/

set_option autoImplicit false

namespace TargetDiscovery

structure Filter where
  job : Option Bytes := none
  owner : Option Bytes := none
  deriving DecidableEq, Repr, Inhabited

namespace Filter

def admits (wanted : Option Bytes) (value : Bytes) : Bool :=
  match wanted with
  | some w => w == value
  | none => true

def accepts (f : Filter) (t : Target) : Bool := admits f.job t.job && admits f.owner t.owner

end Filter

structure Group where
  addresses : List Bytes
  labels : Labels
  deriving DecidableEq, Repr

namespace Group

abbrev Partition := SortedMap Labels (List Bytes)

def Partition.add (p : Partition) (t : Target) : Partition :=
  p.alter t.labels fun old => t.address :: old.getD []

def partition (targets : List Target) : Partition :=
  targets.foldl Partition.add SortedMap.empty

/-- The groups of targets in the order of their label sets, addresses in byte order. -/
def ofTargets (targets : List Target) : List Group :=
  (partition targets).entries.map fun (labels, addresses) =>
    ⟨addresses.mergeSort Ranked.upTo, labels⟩

end Group

abbrev Catalog := List Store

namespace Catalog

def names (c : Catalog) : List Bytes := c.map Store.name

def hasInstance (c : Catalog) (name : Bytes) : Bool := c.any fun s => s.name == name

def snapshot? (c : Catalog) (name : Bytes) : Option Snapshot :=
  match c.find? fun s => s.name == name with
  | some s => s.current
  | none => none

def contribution (f : Filter) (s : Store) : List Target :=
  match s.current with
  | some snapshot => snapshot.targets.filter f.accepts
  | none => []

/-- The targets that a filter accepts; stores of other instances are not looked at. -/
def targets (c : Catalog) (f : Filter) : List Target :=
  (c.filter fun s => Filter.admits f.owner s.name).flatMap (contribution f)

def groups (c : Catalog) (f : Filter) : List Group := Group.ofTargets (c.targets f)

end Catalog

end TargetDiscovery
