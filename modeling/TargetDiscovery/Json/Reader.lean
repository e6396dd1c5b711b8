import TargetDiscovery.Fault
import TargetDiscovery.Json.Value

/-!
# Readers of documents

Documents are read by a reader that is made elsewhere. It gives the value of a text, or reports what
is wrong with the text, or ends in a fault. Where it is strict, no object may have a name twice.
Values stand inside each other up to a fixed depth; a document with a deeper one is where a reader
ends in a fault.
-/

set_option autoImplicit false

namespace TargetDiscovery.Json

/-- What a reader has instead of a value: its report, or a fault. -/
inductive Failure
  | malformed (report : Bytes)
  | thrown (fault : Fault)
  deriving DecidableEq, Repr

class Reader where
  read (strict : Bool) (text : Bytes) : Except Failure Json

/-- The depth of the deepest value that is read; the value of the document has depth one. -/
def maxDepth : Nat := 1000

def depthFault : Fault := .standard (ascii "Exceeded stackLimit in readValue().")

end TargetDiscovery.Json
