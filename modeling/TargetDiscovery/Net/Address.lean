import TargetDiscovery.Net.Literal

/-!
# Scrape addresses

A scrape address is `host:port`. The host is an IPv4 literal, a bracketed IPv6 literal or a host
name; the port is written with one to five digits and lies in 1 to 65535. A literal is read up to
the first zero byte of the host.
-/

set_option autoImplicit false

namespace TargetDiscovery.Address

def maxHostLength : Nat := 253

def port? (s : Bytes) : Option Nat :=
  match Bytes.decimal? s with
  | some n => if n ≠ 0 ∧ n ≤ 65535 then some n else none
  | none => none

def isHostLabel (s : Bytes) : Bool :=
  1 ≤ s.length && s.length ≤ 63 && s.head? != some (byte '-') && s.getLast? != some (byte '-') &&
    s.all fun b => Bytes.isAlphanumeric b || b == byte '-'

/-- Host names are dot-separated labels; digits and dots alone are none. -/
def isHostName (s : Bytes) : Bool :=
  !s.isEmpty && s.length ≤ maxHostLength &&
    !(s.all fun b => b == byte '.' || Bytes.isDigit b) &&
    (Bytes.pieces (byte '.') s).all isHostLabel

def isPort (s : Bytes) : Bool := s.length ≤ 5 && (port? s).isSome

/-- Host and port of a bracketed address, taken apart at the first closing bracket. -/
def bracketed? (s : Bytes) : Option (Bytes × Bytes) :=
  match Bytes.cut (byte ']') s with
  | (host, some (colon :: port)) => if colon = byte ':' then some (host, port) else none
  | _ => none

def isValid (address : Bytes) : Bool :=
  address.length ≤ maxHostLength + 8 &&
    match address with
    | [] => false
    | first :: rest =>
      if first = byte '[' then
        match bracketed? rest with
        | some (host, port) => isPort port && !host.isEmpty && Literal.isIPv6 (Bytes.toNul host)
        | none => false
      else
        match Bytes.cutLast (byte ':') address with
        | some (host, port) =>
          !host.contains (byte ':') && isPort port && !host.isEmpty &&
            (Literal.isIPv4 (Bytes.toNul host) || isHostName host)
        | none => false

end TargetDiscovery.Address
