/-!
# Byte strings

Everything the service reads, compares and prints is a byte string: no encoding is assumed
anywhere, and text of the library itself is ASCII. This module holds the type, the ASCII
character classes, decimal text, and the ways a byte string is cut at a separator.
-/

set_option autoImplicit false

namespace TargetDiscovery

abbrev Bytes := List UInt8

def ascii (text : String) : Bytes := text.toList.map fun c => c.toNat.toUInt8

def byte (c : Char) : UInt8 := c.toNat.toUInt8

/-- A word stands for the number that it holds. -/
instance coeWord : Coe UInt64 Nat := ⟨UInt64.toNat⟩

namespace Bytes

/-! ## Character classes -/

def isDigit (b : UInt8) : Bool := byte '0' ≤ b && b ≤ byte '9'

def isUpper (b : UInt8) : Bool := byte 'A' ≤ b && b ≤ byte 'Z'

def isLower (b : UInt8) : Bool := byte 'a' ≤ b && b ≤ byte 'z'

def isLetter (b : UInt8) : Bool := isUpper b || isLower b

def isAlphanumeric (b : UInt8) : Bool := isDigit b || isLetter b

def hexValue (b : UInt8) : Option Nat :=
  if isDigit b then some (b.toNat - 48)
  else if byte 'a' ≤ b && b ≤ byte 'f' then some (b.toNat - 87)
  else if byte 'A' ≤ b && b ≤ byte 'F' then some (b.toNat - 55)
  else none

/-- An ASCII capital becomes the small letter; every other byte stays. -/
def toLower (b : UInt8) : UInt8 := if isUpper b then b + 32 else b

/-! ## Decimal text -/

def decimal (n : Nat) : Bytes := (Nat.toDigits 10 n).map byte

def signedDecimal : Int → Bytes
  | .ofNat n => decimal n
  | .negSucc n => byte '-' :: decimal (n + 1)

def valueFrom (value : Nat) : Bytes → Nat
  | [] => value
  | d :: rest => valueFrom (value * 10 + (d.toNat - 48)) rest

/-- The number a non-empty run of decimal digits denotes; leading zeros are allowed. -/
def decimal? (s : Bytes) : Option Nat :=
  if s.isEmpty then none else if s.all isDigit then some (valueFrom 0 s) else none

/-! ## Cutting at a separator -/

def cut (sep : UInt8) : Bytes → Bytes × Option Bytes
  | [] => ([], none)
  | b :: rest =>
    if b = sep then ([], some rest)
    else let (before, after) := cut sep rest; (b :: before, after)

def cutLast (sep : UInt8) : Bytes → Option (Bytes × Bytes)
  | [] => none
  | b :: rest =>
    match cutLast sep rest with
    | some (before, after) => some (b :: before, after)
    | none => if b = sep then some ([], rest) else none

/-- All parts between the separators, empty ones included; there is at least one. -/
def pieces (sep : UInt8) : Bytes → List Bytes
  | [] => [[]]
  | b :: rest =>
    if b = sep then [] :: pieces sep rest
    else
      match pieces sep rest with
      | [] => [[b]]
      | piece :: more => (b :: piece) :: more

def without? : Bytes → Bytes → Option Bytes
  | [], s => some s
  | _ :: _, [] => none
  | p :: start, b :: s => if p = b then without? start s else none

def dropTrailing (b : UInt8) (s : Bytes) : Bytes :=
  (s.reverse.dropWhile (· == b)).reverse

def toNul (s : Bytes) : Bytes := s.takeWhile (· != 0)

/-! ## Lengths as signed words -/

/-- The length as a word of 32 bits says it: a length of `2 ^ 31` and more is another number. -/
def intLength (s : Bytes) : Int := (Int32.ofNat s.length).toInt

/-! ## Laws of cutting -/

theorem cut_append (sep : UInt8) (s : Bytes) :
    s = (cut sep s).1 ++ ((cut sep s).2.map (sep :: ·)).getD [] := by
  induction s with
  | nil => rfl
  | cons b rest ih =>
    by_cases h : b = sep
    · simp [cut, h]
    · simp only [cut, h, ↓reduceIte, List.cons_append]
      rw [← ih]

theorem pieces_ne_nil (sep : UInt8) (s : Bytes) : pieces sep s ≠ [] := by
  cases s with
  | nil => simp [pieces]
  | cons b rest =>
    simp only [pieces]
    split
    · simp
    · split <;> simp

theorem without?_eq_some_iff {start s rest : Bytes} :
    without? start s = some rest ↔ s = start ++ rest := by
  induction start generalizing s with
  | nil => simp [without?]
  | cons p start ih =>
    cases s with
    | nil => simp [without?]
    | cons b s =>
      rw [without?]
      by_cases hb : p = b
      · rw [if_pos hb, ih, hb, List.cons_append, List.cons.injEq, and_iff_right rfl]
      · rw [if_neg hb]
        simp [Ne.symm hb]

end Bytes

end TargetDiscovery
