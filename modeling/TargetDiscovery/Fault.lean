import TargetDiscovery.Bytes

/-!
# Faults

A fault is what ends a computation instead of an answer: a failure that says what it is, or one
of a foreign kind that says nothing.
-/

set_option autoImplicit false

namespace TargetDiscovery

inductive Fault
  | standard (what : Bytes)
  | foreign
  deriving DecidableEq, Repr

namespace Fault

def text : Fault → Bytes
  | standard what => what
  | foreign => ascii "non-standard exception"

end Fault

instance decidableEqResult {ε α : Type} [DecidableEq ε] [DecidableEq α] :
    DecidableEq (Except ε α)
  | .ok a, .ok b => decidable_of_iff (a = b) ⟨congrArg _, Except.ok.inj⟩
  | .error a, .error b => decidable_of_iff (a = b) ⟨congrArg _, Except.error.inj⟩
  | .ok _, .error _ => isFalse nofun
  | .error _, .ok _ => isFalse nofun

end TargetDiscovery
