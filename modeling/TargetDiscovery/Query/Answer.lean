import TargetDiscovery.Catalog
import TargetDiscovery.Cycle.Counters
import TargetDiscovery.Json.Value
import TargetDiscovery.Query.Parameters

/-!
# Answers to queries

Three resources can be read: the instances with their counters, the target groups of all
instances, and those of one instance. A request is answered from the catalog and the ledger alone
and changes neither.
-/

set_option autoImplicit false

namespace TargetDiscovery

/-- An answer: its status and the JSON value of its body. -/
structure Answer where
  status : Nat
  body : Json

namespace Answer

def contentType : Bytes := ascii "application/json"

def method : Bytes := ascii "GET"

/-! ## Bodies -/

def natural (n : Nat) : Json := .number (.integer n)

def word (n : UInt64) : Json := natural n.toNat

def error (status : Nat) (message : Bytes) : Answer :=
  ⟨status, .object [(ascii "error", .string message)]⟩

def labelsBody (labels : Labels) : Json :=
  .object (labels.entries.map fun (name, value) => (name, .string value))

def groupBody (g : Group) : Json :=
  .object
    [(ascii "targets", .array (g.addresses.map Json.string)), (ascii "labels", labelsBody g.labels)]

def groupsBody (groups : List Group) : Json := .array (groups.map groupBody)

def countersBody (c : Counters) : Json :=
  .object
    [(ascii "polls", word c.polls),
      (ascii "poll_failures", word c.pollFailures),
      (ascii "verification_failures", word c.verificationFailures),
      (ascii "build_failures", word c.buildFailures),
      (ascii "decode_skips", word c.decodeSkips),
      (ascii "last_skipped", word c.lastSkipped),
      (ascii "restarts", word c.restarts),
      (ascii "last_sync_ok", .bool c.lastSyncOk),
      (ascii "last_load_ok", .bool c.lastLoadOk)]

/-- Whole seconds of a time in milliseconds; parts of a second are cut off. -/
def seconds (time : Int) : Json := .number (.integer (time.tdiv 1000))

def snapshotMembers : Option Snapshot → List (Bytes × Json)
  | some s =>
    [(ascii "version", word s.version), (ascii "fetched_at", seconds s.fetchedAt),
      (ascii "targets", natural s.targets.length)]
  | none =>
    [(ascii "version", .null), (ascii "fetched_at", .null), (ascii "targets", natural 0)]

def instanceBody (catalog : Catalog) (ledger : Ledger) (name : Bytes) : Json :=
  let counters := ledger.counters name
  .object
    ((ascii "name", .string name) :: snapshotMembers (catalog.snapshot? name) ++
      [(ascii "degraded", .bool counters.degraded), (ascii "counters", countersBody counters)])

/-! ## Resources -/

inductive Resource
  | instances
  | targets
  | targetsOf (escaped : Bytes)
  | unknown
  deriving DecidableEq, Repr

namespace Resource

def instancesPath : Bytes := ascii "/instances"

def targetsPath : Bytes := ascii "/targets"

/-- The part of a path between `/instances/` and `/targets`, which is not empty. -/
def instancePart? (path : Bytes) : Option Bytes :=
  match Bytes.without? (instancesPath ++ ascii "/") path with
  | none => none
  | some rest =>
    match Bytes.without? targetsPath.reverse rest.reverse with
    | some name => if name.isEmpty then none else some name.reverse
    | none => none

def ofPath (path : Bytes) : Resource :=
  if path = instancesPath ∨ path = instancesPath ++ ascii "/" then instances
  else if path = targetsPath ∨ path = targetsPath ++ ascii "/" then targets
  else
    match instancePart? path with
    | some escaped => targetsOf escaped
    | none => unknown

end Resource

def filterOf (p : Parameters) : Filter := ⟨p.get? Naming.job, p.get? Naming.owner⟩

def listInstances (catalog : Catalog) (ledger : Ledger) : Answer :=
  ⟨200, .array (catalog.names.map (instanceBody catalog ledger))⟩

def listTargets (catalog : Catalog) (f : Filter) : Answer := ⟨200, groupsBody (catalog.groups f)⟩

/-- The targets of the instance in the path, whatever instance the parameters name. -/
def listTargetsOf (catalog : Catalog) (name : Bytes) (p : Parameters) : Answer :=
  if catalog.hasInstance name then
    listTargets catalog { filterOf p with owner := some name }
  else error 404 (ascii "unknown instance '" ++ name ++ ascii "'")

def ofResource (catalog : Catalog) (ledger : Ledger) (p : Parameters) : Resource → Answer
  | .instances => listInstances catalog ledger
  | .targets => listTargets catalog (filterOf p)
  | .targetsOf escaped =>
    match Escape.decode escaped with
    | some name => listTargetsOf catalog name p
    | none => error 400 (ascii "malformed instance name")
  | .unknown => error 404 (ascii "no such endpoint")

/-- The answer to a request: its method, and its target, which is a path with a query behind the
first question mark. -/
def answer (catalog : Catalog) (ledger : Ledger) (method target : Bytes) : Answer :=
  if method ≠ Answer.method then error 405 (ascii "method not allowed")
  else
    let (path, query) := Bytes.cut (byte '?') target
    match Parameters.parse? (query.getD []) with
    | none => error 400 (ascii "malformed query string")
    | some p => ofResource catalog ledger p (Resource.ofPath path)

end Answer

end TargetDiscovery
