import TargetDiscovery.Fault
import TargetDiscovery.Registry.State
import TargetDiscovery.Trust.PublicKey

/-!
# Trust in a fetched state

An instance either checks the certificate of every state or is set up to trust all of them; there
is no way from the one to the other. A check is any function of payload and certificate, and it may
end in a fault.
-/

set_option autoImplicit false

namespace TargetDiscovery

abbrev Check := Bytes → Bytes → Except Fault Bool

inductive Verifier
  | insecure
  | checked (check : Check)

namespace Verifier

/-- Whether a state is trusted; where certificates are checked, one must be there. -/
def trusts : Verifier → RegistryState → Except Fault Bool
  | insecure, _ => .ok true
  | checked check, s =>
    match s.certified? with
    | some (payload, certificate) => check payload certificate
    | none => .ok false

def isInsecure : Verifier → Bool
  | insecure => true
  | checked _ => false

def ofPem (text : Bytes) : Except KeyError Check :=
  match PublicKey.ofPem text with
  | .ok key => .ok (PublicKey.certifies key)
  | .error e => .error e

end Verifier

end TargetDiscovery
