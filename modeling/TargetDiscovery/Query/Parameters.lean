import TargetDiscovery.SortedMap
import TargetDiscovery.Query.Escape

/-!
# Query parameters

A query string is cut at `&` into pieces, empty ones being ignored, and a piece at its first `=`
into name and value. Of several pieces with one name the first counts.
-/

set_option autoImplicit false

namespace TargetDiscovery

abbrev Parameters := Dict Bytes

namespace Parameters

/-- Name and value of one piece; the value is empty when there is no `=`. -/
def piece? (piece : Bytes) : Option (Bytes × Bytes) :=
  let (name, value) := Bytes.cut (byte '=') piece
  match Escape.decode name, Escape.decode (value.getD []) with
  | some k, some v => some (k, v)
  | _, _ => none

def pieces (query : Bytes) : List Bytes :=
  (Bytes.pieces (byte '&') query).filter fun p => !p.isEmpty

/-- The parameters of a query string; nothing if an escape in it is malformed. -/
def parse? (query : Bytes) : Option Parameters :=
  (pieces query).foldlM (fun d p => (piece? p).map fun (k, v) => d.insertIfNew k v) SortedMap.empty

end Parameters

end TargetDiscovery
