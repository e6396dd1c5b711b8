import TargetDiscovery.Bytes
import TargetDiscovery.Fault

/-!
# Base64

Certificates arrive as padded base64. A block decoder reads groups of four characters; it skips
blanks in front, drops blanks, line ends and hyphens behind, and takes `=` for zero bits anywhere.
It is told the length of a text as a signed word and reads no more than that says. `decode` asks in
addition for a positive length divisible by four. The block decoder fills a buffer from the front,
and the buffer is then brought to the number of bytes that were filled less the padding, which is
counted in the last two characters of the text.
-/

set_option autoImplicit false

namespace TargetDiscovery.Base64

/-- The six bits of a character of the alphabet; the padding character counts as zero. -/
def sextet? (b : UInt8) : Option Nat :=
  if Bytes.isUpper b then some (b.toNat - 65)
  else if Bytes.isLower b then some (b.toNat - 71)
  else if Bytes.isDigit b then some (b.toNat + 4)
  else if b = byte '+' then some 62
  else if b = byte '/' then some 63
  else if b = byte '=' then some 0
  else none

def triple (a b c d : Nat) : Bytes :=
  let n := ((a * 64 + b) * 64 + c) * 64 + d
  [(n / 65536).toUInt8, (n / 256).toUInt8, n.toUInt8]

def groups? : Bytes → Option Bytes
  | [] => some []
  | a :: b :: c :: d :: rest =>
    match sextet? a, sextet? b, sextet? c, sextet? d with
    | some w, some x, some y, some z => (groups? rest).map (triple w x y z ++ ·)
    | _, _, _, _ => none
  | _ => none

def isBlank (b : UInt8) : Bool := b == byte ' ' || b == 9

/-- What the block decoder drops behind the text: blanks, line ends and hyphens. -/
def isTrailer (b : UInt8) : Bool := isBlank b || b == 13 || b == 10 || b == byte '-'

def dropTrailers : Bytes → Bytes
  | [] => []
  | b :: rest => if 3 ≤ rest.length && isTrailer b then dropTrailers rest else b :: rest

def trim (s : Bytes) : Bytes := (dropTrailers (s.dropWhile isBlank).reverse).reverse

/-- What the block decoder makes of a text, of which it reads as much as the word for its length
says: nothing where that is negative. -/
def block? (s : Bytes) : Option Bytes :=
  if Bytes.intLength s < 0 then if Bytes.intLength s % 4 = 0 then some [] else none
  else groups? (trim (s.take (Bytes.intLength s).toNat))

def padding (s : Bytes) : Nat := (s.reverse.take 2).countP (· == byte '=')

/-- Three zero bytes for every four characters of a text. -/
def buffer (s : Bytes) : Bytes := List.replicate (s.length / 4 * 3) 0

/-- Bytes written into a buffer from the front. -/
def overwrite (t out : Bytes) : Bytes := out ++ t.drop out.length

/-- No buffer is longer than this. -/
def maxLength : UInt64 := 9223372036854775806

def lengthFault : Fault := .standard (ascii "basic_string::_M_replace_aux")

/-- A buffer brought to a length: cut, or filled up with zero bytes. -/
def resize (t : Bytes) (n : UInt64) : Except Fault Bytes :=
  if maxLength < n then .error lengthFault
  else .ok (t.take n.toNat ++ List.replicate (n.toNat - t.length) 0)

/-- The length that a buffer is brought to, a difference of unsigned words. -/
def cutLength (s out : Bytes) : UInt64 := .ofNat out.length - .ofNat (padding s)

def decode (s : Bytes) : Except Fault (Option Bytes) :=
  if s.isEmpty || s.length % 4 != 0 then .ok none
  else
    match block? s with
    | none => .ok none
    | some out => (resize (overwrite (buffer s) out) (cutLength s out)).map some

/-- What is decoded of a text, where decoding ends at all. -/
def decode? (s : Bytes) : Option Bytes :=
  match decode s with
  | .ok out => out
  | .error _ => none

end TargetDiscovery.Base64
