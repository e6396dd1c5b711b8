import TargetDiscovery.Bytes

/-!
# Address literals

IPv4 literals are four decimal parts up to 255 without leading zeros. IPv6 literals are eight
groups of one to four hexadecimal digits, where an IPv4 literal may stand for the last two, and
one `::` may stand for one or more groups of zeros.
-/

set_option autoImplicit false

namespace TargetDiscovery.Literal

def isOctet (s : Bytes) : Bool :=
  match Bytes.decimal? s with
  | some n => n ≤ 255 && (s.length == 1 || s.head? != some (byte '0'))
  | none => false

def isIPv4 (s : Bytes) : Bool :=
  let parts := Bytes.pieces (byte '.') s
  parts.length == 4 && parts.all isOctet

def isGroup (s : Bytes) : Bool :=
  1 ≤ s.length && s.length ≤ 4 && s.all fun b => (Bytes.hexValue b).isSome

/-- The number of 16-bit units in a list of groups that an IPv4 literal may end. -/
def units? : List Bytes → Option Nat
  | [] => some 0
  | [last] => if isGroup last then some 1 else if isIPv4 last then some 2 else none
  | group :: rest => if isGroup group then (units? rest).map (· + 1) else none

def cutDouble : Bytes → Option (Bytes × Bytes)
  | a :: b :: rest =>
    if a = byte ':' ∧ b = byte ':' then some ([], rest)
    else (cutDouble (b :: rest)).map fun (before, after) => (a :: before, after)
  | _ => none

def side (s : Bytes) : List Bytes := if s.isEmpty then [] else Bytes.pieces (byte ':') s

def isIPv6 (s : Bytes) : Bool :=
  match cutDouble s with
  | none => units? (Bytes.pieces (byte ':') s) == some 8
  | some (before, after) =>
    (side before).all isGroup &&
      match units? (side after) with
      | some n => (side before).length + n ≤ 7
      | none => false

end TargetDiscovery.Literal
