import TargetDiscovery.Json.Value

/-!
# Writing JSON

A value is written on one line, or with one part on each line. Control bytes, quotes and
backslashes of a string are escaped, all other bytes stand for themselves. A number is written
exactly.
-/

set_option autoImplicit false

namespace TargetDiscovery

namespace Double.Parts

/-- The exact decimal text of the parts: an integer, or one with a negative power of ten. -/
def text (p : Parts) : Bytes :=
  let sign := if p.negative then ascii "-" else []
  if 1075 ≤ p.exponent then sign ++ Bytes.decimal (p.mantissa * Nat.pow 2 (p.exponent - 1075))
  else
    let places := 1075 - p.exponent
    sign ++ Bytes.decimal (p.mantissa * Nat.pow 5 places) ++ ascii "e-" ++ Bytes.decimal places

end Double.Parts

/-- The text of a number; a double that is no number is written as `null`. -/
def Number.text : Number → Bytes
  | integer n => Bytes.signedDecimal n
  | real x =>
    match Double.parts? x with
    | some p => p.text
    | none => ascii "null"

namespace Json

/-- What is written between the parts of a value: a gap that depends on the depth, and the sign
between a name and its value. -/
structure Layout where
  gap : Nat → Bytes
  colon : Bytes

namespace Layout

def compact : Layout := ⟨fun _ => [], ascii ":"⟩

def indented : Layout := ⟨fun depth => 10 :: List.replicate (2 * depth) 32, ascii " : "⟩

end Layout

def hexDigit (n : Nat) : UInt8 := byte (Nat.digitChar n)

def escape (b : UInt8) : Bytes :=
  if b = byte '"' ∨ b = byte '\\' then [byte '\\', b]
  else if b < 32 then ascii "\\u00" ++ [hexDigit (b.toNat / 16), hexDigit (b.toNat % 16)]
  else [b]

def quoted (s : Bytes) : Bytes := byte '"' :: s.flatMap escape ++ [byte '"']

def joined (gap : Bytes) : List Bytes → Bytes
  | [] => []
  | [part] => gap ++ part
  | part :: rest => gap ++ part ++ byte ',' :: joined gap rest

def enclosed (l : Layout) (depth : Nat) (first last : Char) (parts : List Bytes) : Bytes :=
  if parts.isEmpty then [byte first, byte last]
  else byte first :: joined (l.gap (depth + 1)) parts ++ l.gap depth ++ [byte last]

mutual

def write (l : Layout) (depth : Nat) : Json → Bytes
  | .null => ascii "null"
  | .bool b => if b then ascii "true" else ascii "false"
  | .number n => n.text
  | .string s => quoted s
  | .array items => enclosed l depth '[' ']' (writeItems l (depth + 1) items)
  | .object members => enclosed l depth '\x7b' '\x7d' (writeMembers l (depth + 1) members)

def writeItems (l : Layout) (depth : Nat) : List Json → List Bytes
  | [] => []
  | item :: rest => write l depth item :: writeItems l depth rest

def writeMembers (l : Layout) (depth : Nat) : List (Bytes × Json) → List Bytes
  | [] => []
  | member :: rest =>
    (quoted member.1 ++ l.colon ++ write l depth member.2) :: writeMembers l depth rest

end

def text (l : Layout) (j : Json) : Bytes := write l 0 j

end Json

end TargetDiscovery
