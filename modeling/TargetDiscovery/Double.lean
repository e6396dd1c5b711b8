/-!
# Doubles as fractions

A finite double is a sign, a natural number and a power of two. Whether it is an integer, and
which integer is nearest, is decided on these parts.
-/

set_option autoImplicit false

namespace TargetDiscovery.Double

/-- A finite double `mantissa * 2 ^ (exponent - 1075)` with its sign. -/
structure Parts where
  negative : Bool
  mantissa : Nat
  exponent : Nat
  deriving DecidableEq, Repr

/-- The parts of a double; an infinite or undefined one has none. -/
def parts? (x : Float) : Option Parts :=
  let bits := x.toBits.toNat
  let exponent := bits / Nat.pow 2 52 % Nat.pow 2 11
  let fraction := bits % Nat.pow 2 52
  let negative := decide (bits / Nat.pow 2 63 = 1)
  if exponent = 2047 then none
  else if exponent = 0 then some ⟨negative, fraction, 1⟩
  else some ⟨negative, fraction + Nat.pow 2 52, exponent⟩

namespace Parts

def signed (p : Parts) (magnitude : Nat) : Int :=
  if p.negative then -(magnitude : Int) else magnitude

def integer? (p : Parts) : Option Int :=
  if 1075 ≤ p.exponent then some (p.signed (p.mantissa * Nat.pow 2 (p.exponent - 1075)))
  else if p.mantissa % Nat.pow 2 (1075 - p.exponent) = 0 then
    some (p.signed (p.mantissa / Nat.pow 2 (1075 - p.exponent)))
  else none

/-- The nearest integer; a half goes away from zero. -/
def nearest (p : Parts) : Int :=
  if 1075 ≤ p.exponent then p.signed (p.mantissa * Nat.pow 2 (p.exponent - 1075))
  else
    let unit := Nat.pow 2 (1075 - p.exponent)
    p.signed ((p.mantissa + unit / 2) / unit)

end Parts

def integer? (x : Float) : Option Int :=
  match parts? x with
  | some p => p.integer?
  | none => none

/-- The integer nearest to a finite double; a half goes away from zero. -/
def nearest? (x : Float) : Option Int := (parts? x).map Parts.nearest

end TargetDiscovery.Double
