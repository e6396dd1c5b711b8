/-!
# Random words

A twisted shift register with a state of 312 words of 64 bits. Each draw computes the next word
of the sequence from three earlier ones, moves the window on by one, and tempers the new word.
-/

set_option autoImplicit false

namespace TargetDiscovery

/-- The last 312 words of the sequence, the oldest first. -/
structure Random where
  window : List UInt64
  deriving DecidableEq, Repr

namespace Random

def size : Nat := 312

/-- The distance of the second word that a step reads from the oldest. -/
def middle : Nat := 156

def upperMask : UInt64 := 0xFFFFFFFF80000000

def lowerMask : UInt64 := 0x7FFFFFFF

def twist : UInt64 := 0xB5026F5AA96619E9

def seedFrom (last : UInt64) : Nat → Nat → List UInt64
  | 0, _ => []
  | count + 1, index =>
    let next := (6364136223846793005 : UInt64) * (last ^^^ (last >>> 62)) + index.toUInt64
    next :: seedFrom next count (index + 1)

def ofSeed (seed : UInt64) : Random := ⟨seed :: seedFrom seed (size - 1) 1⟩

def following (window : List UInt64) : UInt64 :=
  let oldest := (window[0]?).getD 0
  let second := (window[1]?).getD 0
  let mixed := (oldest &&& upperMask) ||| (second &&& lowerMask)
  let twisted := (mixed >>> 1) ^^^ (if mixed &&& 1 = 1 then twist else 0)
  (window[middle]?).getD 0 ^^^ twisted

def temper (x : UInt64) : UInt64 :=
  let x := x ^^^ ((x >>> 29) &&& 0x5555555555555555)
  let x := x ^^^ ((x <<< 17) &&& 0x71D67FFFEDA60000)
  let x := x ^^^ ((x <<< 37) &&& 0xFFF7EEE000000000)
  x ^^^ (x >>> 43)

def draw (r : Random) : UInt64 × Random :=
  let next := following r.window
  (temper next, ⟨r.window.drop 1 ++ [next]⟩)

def belowOne : Float := Float.ofBits 0x3FEFFFFFFFFFFFFF

def unit (word : UInt64) : Float :=
  let x := word.toFloat / 18446744073709551616.0
  if 1.0 ≤ x then belowOne else x

def between (low high : Float) (r : Random) : Float × Random :=
  let (word, r) := r.draw
  (unit word * (high - low) + low, r)

end Random

end TargetDiscovery
