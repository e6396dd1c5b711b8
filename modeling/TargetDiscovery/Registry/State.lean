import TargetDiscovery.Fault
import TargetDiscovery.SortedMap

/-!
# What a registry says

A registry lists nodes under a version. A fetched state keeps the exact bytes it was read from and
the certificate over them, if there is one. A fetch that brings no state fails in one of four ways.
-/

set_option autoImplicit false

namespace TargetDiscovery

structure NodeRecord where
  nodeId : Bytes
  address : Bytes
  subnet : Bytes
  role : Bytes
  features : Dict Bytes
  malformed : Bool
  deriving DecidableEq, Repr, Inhabited

structure RegistryState where
  version : UInt64
  records : List NodeRecord
  payload : Bytes
  certificate : Option Bytes
  deriving DecidableEq, Repr, Inhabited

namespace RegistryState

def certified? (s : RegistryState) : Option (Bytes × Bytes) :=
  match s.certificate with
  | some c => if c.isEmpty then none else some (s.payload, c)
  | none => none

end RegistryState

inductive FetchFailure
  | transport | timeout | status | protocol
  deriving DecidableEq, Repr

namespace FetchFailure

def name : FetchFailure → Bytes
  | transport => ascii "transport"
  | timeout => ascii "timeout"
  | status => ascii "http_status"
  | protocol => ascii "protocol"

end FetchFailure

structure FetchError where
  failure : FetchFailure
  message : Bytes
  deriving DecidableEq, Repr

namespace FetchError

def reason (e : FetchError) : Bytes := e.failure.name ++ ascii ": " ++ e.message

end FetchError

abbrev FetchResult := Except Fault (Except FetchError RegistryState)

end TargetDiscovery
