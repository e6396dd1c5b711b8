import TargetDiscovery.Bytes

/-!
# The Edwards curve of the signature scheme

The twisted Edwards curve over the field of size 2^255 - 19 with coefficients -1 and
-121665/121666, whose group law is complete. Points are kept in projective coordinates and
written in 32 bytes: the second coordinate and the parity of the first.
-/

set_option autoImplicit false

namespace TargetDiscovery.Edwards

def fieldSize : Nat := Nat.pow 2 255 - 19

theorem fieldSize_pos : 0 < fieldSize := by decide

abbrev Field := Fin fieldSize

namespace Field

def of (n : Nat) : Field := ⟨n % fieldSize, Nat.mod_lt n fieldSize_pos⟩

/-- Powers by squaring; `bits` bounds the length of the exponent. -/
def powerOf : Nat → Field → Nat → Field
  | 0, _, _ => of 1
  | bits + 1, x, n =>
    let rest := powerOf bits (x * x) (n / 2)
    if n % 2 = 1 then x * rest else rest

def power (x : Field) (n : Nat) : Field := powerOf 256 x n

/-- The reciprocal; zero has zero. -/
def inverse (x : Field) : Field := power x (fieldSize - 2)

def imaginary : Field := power (of 2) ((fieldSize - 1) / 4)

def rootOfRatio? (u v : Field) : Option Field :=
  let x := u * power v 3 * power (u * power v 7) ((fieldSize - 5) / 8)
  if v * x * x = u then some x
  else if v * x * x + u = of 0 then some (x * imaginary)
  else none

end Field

def coefficient : Field :=
  Field.of 0 - Field.of 121665 * Field.inverse (Field.of 121666)

structure Point where
  x : Field
  y : Field
  z : Field

namespace Point

def neutral : Point := ⟨Field.of 0, Field.of 1, Field.of 1⟩

def negate (p : Point) : Point := { p with x := Field.of 0 - p.x }

def add (p q : Point) : Point :=
  let a := p.z * q.z
  let b := a * a
  let c := p.x * q.x
  let d := p.y * q.y
  let e := coefficient * c * d
  let f := b - e
  let g := b + e
  ⟨a * f * ((p.x + p.y) * (q.x + q.y) - c - d), a * g * (d + c), f * g⟩

/-- `n` times a point, by doubling; `bits` bounds the length of `n`. -/
def timesOf : Nat → Nat → Point → Point
  | 0, _, _ => neutral
  | bits + 1, n, p =>
    let rest := timesOf bits (n / 2) (p.add p)
    if n % 2 = 1 then p.add rest else rest

def times (n : Nat) (p : Point) : Point := timesOf 256 n p

end Point

/-! ## Written form -/

def littleEndian : Bytes → Nat
  | [] => 0
  | b :: rest => b.toNat + 256 * littleEndian rest

def toLittleEndian (size n : Nat) : Bytes :=
  (List.range size).map fun i => (n / Nat.pow 256 i).toUInt8

namespace Point

def ofCoordinate? (y : Field) (odd : Bool) : Option Point :=
  let square := y * y
  match Field.rootOfRatio? (square - Field.of 1) (coefficient * square + Field.of 1) with
  | none => none
  | some x =>
    let x := if decide (x.val % 2 = 1) == odd then x else Field.of 0 - x
    some ⟨x, y, Field.of 1⟩

/-- Reads a point; the coordinate is taken modulo the field size, and zero has either sign. -/
def read? (text : Bytes) : Option Point :=
  let n := littleEndian text
  if text.length = 32 then
    ofCoordinate? (Field.of (n % Nat.pow 2 255)) (decide (n / Nat.pow 2 255 = 1))
  else none

def write (p : Point) : Bytes :=
  let scale := Field.inverse p.z
  let x := p.x * scale
  let y := p.y * scale
  toLittleEndian 32 (y.val + x.val % 2 * Nat.pow 2 255)

/-- The point that generates the group of the scheme: its second coordinate is 4/5. -/
def base : Point :=
  (ofCoordinate? (Field.of 4 * Field.inverse (Field.of 5)) false).getD neutral

/-- The number of points that the base point generates. -/
def order : Nat := Nat.pow 2 252 + 27742317777372353535851937790883648493

end Point

end TargetDiscovery.Edwards
