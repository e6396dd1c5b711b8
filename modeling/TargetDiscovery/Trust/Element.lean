import TargetDiscovery.Bytes

/-!
# Tagged elements

The content of a key block is written in elements, each a tag, a length and that many bytes; some
hold further elements.
-/

set_option autoImplicit false

namespace TargetDiscovery

/-- A tag, the contents it covers, and what follows. -/
structure Element where
  tag : UInt8
  contents : Bytes
  rest : Bytes

namespace Element

def numberOf (s : Bytes) : Nat := s.foldl (fun n b => n * 256 + b.toNat) 0

def first? : Bytes → Option Element
  | tag :: size :: rest =>
    let extra := if size < 128 then 0 else size.toNat - 128
    let length := if size < 128 then size.toNat else numberOf (rest.take extra)
    let behind := rest.drop extra
    if size = 128 ∨ rest.length < extra ∨ behind.length < length then none
    else some ⟨tag, behind.take length, behind.drop length⟩
  | _ => none

def tagged? (tag : UInt8) (s : Bytes) : Option (Bytes × Bytes) :=
  match first? s with
  | some e => if e.tag = tag then some (e.contents, e.rest) else none
  | none => none

def sequenceTag : UInt8 := 0x30
def identifierTag : UInt8 := 0x06
def bitsTag : UInt8 := 0x03
def bytesTag : UInt8 := 0x04
def integerTag : UInt8 := 0x02

/-- The elements of a text, with nothing left over; `size` bounds their number. -/
def allOf? : Nat → Bytes → Option (List Element)
  | _, [] => some []
  | 0, _ => none
  | size + 1, s =>
    match first? s with
    | some e => (allOf? size e.rest).map (e :: ·)
    | none => none

def all? (s : Bytes) : Option (List Element) := allOf? s.length s

def number? (e : Element) : Option Bytes := if e.tag = integerTag then some e.contents else none

/-- The contents of all numbers of a text that is a sequence of numbers and nothing else. -/
def numbers? (s : Bytes) : Option (List Bytes) := do
  let (contents, _) ← tagged? sequenceTag s
  (← all? contents).mapM number?

/-- Whether the contents of a number are as short as they can be: the first byte does more than
repeat the sign. -/
def isShortest : Bytes → Bool
  | first :: second :: _ => !(first == 0 && second < 128) && !(first == 255 && 128 ≤ second)
  | _ => true

end Element

end TargetDiscovery
