import TargetDiscovery.SortedMap
import TargetDiscovery.Double

/-!
# JSON values

The values of a JSON document. A number without a fraction or exponent that fits into 64 bits is
an integer, every other number is the nearest double; where a natural number is asked for, both
kinds serve if their value is one. An object keeps its members as written: a name may occur
twice, the last occurrence counts, and `distinctNames` says that this never happens at any depth.
-/

set_option autoImplicit false

namespace TargetDiscovery

inductive Number
  | integer (value : Int)
  | real (value : Float)

namespace Number

def integer? : Number → Option Int
  | integer n => some n
  | real x => Double.integer? x

def toFloat : Number → Float
  | integer n => Float.ofInt n
  | real x => x

end Number

inductive Json
  | null
  | bool (value : Bool)
  | number (value : Number)
  | string (value : Bytes)
  | array (items : List Json)
  | object (members : List (Bytes × Json))

namespace Json

instance : Inhabited Json := ⟨null⟩

def lastMember (name : Bytes) : List (Bytes × Json) → Option Json
  | [] => none
  | m :: rest =>
    match lastMember name rest with
    | some v => some v
    | none => if m.1 = name then some m.2 else none

def member? (name : Bytes) : Json → Option Json
  | object members => lastMember name members
  | _ => none

def memberDict : Json → Dict Json
  | object members => SortedMap.ofList members
  | _ => SortedMap.empty

def string? : Json → Option Bytes
  | string s => some s
  | _ => none

def bool? : Json → Option Bool
  | bool b => some b
  | _ => none

def natBelow? (bound : Nat) : Json → Option Nat
  | number n =>
    match n.integer? with
    | some (.ofNat k) => if k < bound then some k else none
    | _ => none
  | _ => none

def word64? (j : Json) : Option UInt64 := (j.natBelow? UInt64.size).map Nat.toUInt64

def isObject : Json → Bool
  | object _ => true
  | _ => false

mutual

def distinctNames : Json → Bool
  | null | bool _ | number _ | string _ => true
  | array items => distinctItems items
  | object members => distinctMembers members

def distinctItems : List Json → Bool
  | [] => true
  | j :: rest => distinctNames j && distinctItems rest

def distinctMembers : List (Bytes × Json) → Bool
  | [] => true
  | m :: rest =>
    !(rest.any fun other => other.1 == m.1) && distinctNames m.2 && distinctMembers rest

end

end Json

end TargetDiscovery
