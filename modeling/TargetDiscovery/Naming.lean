import TargetDiscovery.Bytes

/-!
# Names

The two name grammars of the service: names of configured instances, and label names of the
scrape pipeline, of which three are taken by the labels that every target carries.
-/

set_option autoImplicit false

namespace TargetDiscovery.Naming

def isInstanceName (s : Bytes) : Bool :=
  2 ≤ s.length && s.length ≤ 64 &&
    s.all fun b => Bytes.isAlphanumeric b || b == byte '_' || b == byte '-'

def job : Bytes := ascii "job"

def owner : Bytes := ascii "instance"

def subnet : Bytes := ascii "subnet_id"

/-- Label names are identifiers; two leading underscores belong to the scrape pipeline. -/
def isLabelName (s : Bytes) : Bool :=
  match s with
  | [] => false
  | first :: rest =>
    !(first == byte '_' && rest.head? == some (byte '_')) &&
      (first == byte '_' || Bytes.isLetter first) &&
      s.all fun b => b == byte '_' || Bytes.isAlphanumeric b

def isReservedLabel (s : Bytes) : Bool := s == job || s == owner || s == subnet

end TargetDiscovery.Naming
