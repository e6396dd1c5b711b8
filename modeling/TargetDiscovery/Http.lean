import TargetDiscovery.SortedMap

/-!
# HTTP messages

What the registry client and the query server have in common: header fields, whose names ignore
case, requests, and the name under which this program speaks.
-/

set_option autoImplicit false

namespace TargetDiscovery.Http

abbrev Fields := Dict Bytes

def version : Nat := 11

def program : Bytes := ascii "msd/0.3.0"

def versionText : Bytes := ascii "0.3.0"

/-- The value of the first header of a name; none if it is empty. -/
def header? (name : Bytes) (headers : List (Bytes × Bytes)) : Option Bytes :=
  let lower := name.map Bytes.toLower
  match headers.find? fun h => h.1.map Bytes.toLower == lower with
  | some h => if h.2.isEmpty then none else some h.2
  | none => none

structure Request where
  method : Bytes
  target : Bytes
  version : Nat
  fields : Fields
  deriving DecidableEq, Repr

end TargetDiscovery.Http
