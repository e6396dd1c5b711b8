import TargetDiscovery.Bytes

/-!
# Escapes in query strings

In a query string `+` stands for a space, `%` and two hexadecimal digits stand for a byte, and
every other byte stands for itself. A `%` without its two digits makes the whole text malformed.
-/

set_option autoImplicit false

namespace TargetDiscovery.Escape

/-- The bytes that an escaped text stands for; nothing if an escape is malformed. -/
def decode : Bytes → Option Bytes
  | [] => some []
  | b :: hi :: lo :: rest =>
    if b = byte '+' then (decode (hi :: lo :: rest)).map (byte ' ' :: ·)
    else if b = byte '%' then
      match Bytes.hexValue hi, Bytes.hexValue lo with
      | some h, some l => (decode rest).map ((h * 16 + l).toUInt8 :: ·)
      | _, _ => none
    else (decode (hi :: lo :: rest)).map (b :: ·)
  | b :: rest =>
    if b = byte '+' then (decode rest).map (byte ' ' :: ·)
    else if b = byte '%' then none
    else (decode rest).map (b :: ·)

end TargetDiscovery.Escape
