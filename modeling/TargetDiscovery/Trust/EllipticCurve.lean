import TargetDiscovery.Trust.Element

/-!
# Keys on elliptic curves

A key for an elliptic curve names the curve, or describes it, and gives one point of it: both
coordinates, or the first one and the parity of the second. Such a key is of no use here, but it is
told apart from a text whose point is on no curve.
-/

set_option autoImplicit false

namespace TargetDiscovery

/-- The curve of the points with `y ^ 2 = x ^ 3 + a * x + b` modulo a prime. -/
structure EllipticCurve where
  modulus : Nat
  a : Nat
  b : Nat
  deriving DecidableEq, Repr

namespace EllipticCurve

open Element

def square (c : EllipticCurve) (x : Nat) : Nat := (x * x * x + c.a * x + c.b) % c.modulus

def holds (c : EllipticCurve) (x y : Nat) : Bool :=
  x < c.modulus && y < c.modulus && y * y % c.modulus == c.square x

/-- A power modulo a number, by squaring; `bits` bounds the length of the exponent. -/
def powerOf (modulus : Nat) : Nat → Nat → Nat → Nat
  | 0, _, _ => 1
  | bits + 1, x, n =>
    let rest := powerOf modulus bits (x * x % modulus) (n / 2)
    if n % 2 = 1 then x * rest % modulus else rest

def isSquare (c : EllipticCurve) (n : Nat) : Bool :=
  n == 0 || powerOf c.modulus (c.modulus.log2 + 1) n (c.modulus / 2) == 1

def width (c : EllipticCurve) : Nat := c.modulus.log2 / 8 + 1

/-- Whether a text is a point; its first byte says how it is written. -/
def isPoint (c : EllipticCurve) : Bytes → Bool
  | [] => false
  | form :: rest =>
    let x := numberOf (rest.take c.width)
    let y := numberOf (rest.drop c.width)
    if form = 2 ∨ form = 3 then
      rest.length == c.width && x < c.modulus && c.isSquare (c.square x)
    else if form = 4 then rest.length == 2 * c.width && c.holds x y
    else if form = 6 ∨ form = 7 then
      rest.length == 2 * c.width && c.holds x y && y % 2 == form.toNat - 6
    else false

/-! ## Curves -/

def minusThree (modulus b : Nat) : EllipticCurve := ⟨modulus, modulus - 3, b⟩

def named : List (Bytes × EllipticCurve) :=
  [([0x2A, 0x86, 0x48, 0xCE, 0x3D, 0x03, 0x01, 0x01],
      minusThree 0xFFFFFFFFFFFFFFFFFFFFFFFFFFFFFFFEFFFFFFFFFFFFFFFF
        0x64210519E59C80E70FA7E9AB72243049FEB8DEECC146B9B1),
    ([0x2B, 0x81, 0x04, 0x00, 0x21],
      minusThree 0xFFFFFFFFFFFFFFFFFFFFFFFFFFFFFFFF000000000000000000000001
        0xB4050A850C04B3ABF54132565044B0B7D7BFD8BA270B39432355FFB4),
    ([0x2A, 0x86, 0x48, 0xCE, 0x3D, 0x03, 0x01, 0x07],
      minusThree 0xFFFFFFFF00000001000000000000000000000000FFFFFFFFFFFFFFFFFFFFFFFF
        0x5AC635D8AA3A93E7B3EBBD55769886BC651D06B0CC53B0F63BCE3C3E27D2604B),
    ([0x2B, 0x81, 0x04, 0x00, 0x22],
      minusThree
        0xFFFFFFFFFFFFFFFFFFFFFFFFFFFFFFFFFFFFFFFFFFFFFFFFFFFFFFFFFFFFFFFEFFFFFFFF0000000000000000FFFFFFFF
        0xB3312FA7E23EE7E4988E056BE3F82D19181D9C6EFE8141120314088F5013875AC656398D8A2ED19D2A85C8EDD3EC2AEF),
    ([0x2B, 0x81, 0x04, 0x00, 0x23],
      minusThree (Nat.pow 2 521 - 1)
        0x51953EB9618E1C9A1F929A21A0B68540EEA2DA725B99B315F3B8B489918EF109E156193951EC7E937B1652C0BD3BB1BF073573DF883D2C34F1EF451FD46B503F00),
    ([0x2B, 0x81, 0x04, 0x00, 0x0A],
      ⟨0xFFFFFFFFFFFFFFFFFFFFFFFFFFFFFFFFFFFFFFFFFFFFFFFFFFFFFFFEFFFFFC2F, 0, 7⟩)]

/-- Further curves: what their identifiers begin with, and the last bytes that are in use. -/
def furtherNames : List (Bytes × List UInt8) :=
  [([0x2B, 0x81, 0x04, 0x00],
      [1, 2, 3, 4, 5, 6, 7, 8, 9, 15, 16, 17, 22, 23, 24, 25, 26, 27, 28, 29, 30, 31, 32, 36, 37,
        38, 39]),
    ([0x2A, 0x86, 0x48, 0xCE, 0x3D, 0x03, 0x00],
      [1, 2, 3, 4, 5, 6, 7, 10, 11, 12, 13, 16, 17, 18, 19, 20]),
    ([0x2A, 0x86, 0x48, 0xCE, 0x3D, 0x03, 0x01], [2, 3, 4, 5, 6]),
    ([0x2B, 0x24, 0x03, 0x03, 0x02, 0x08, 0x01, 0x01],
      [1, 2, 3, 4, 5, 6, 7, 8, 9, 10, 11, 12, 13, 14]),
    ([0x67, 0x2B, 0x01, 0x04], [1, 3, 4, 5, 6, 7, 8, 9, 10, 11, 12]),
    ([0x2A, 0x81, 0x1C, 0xCF, 0x55, 0x01, 0x82], [0x2D])]

def isFurther (name : Bytes) : Bool :=
  furtherNames.any fun n => n.1 == name.dropLast && n.2.any fun last => name.getLast? == some last

def primeField : Bytes := [0x2A, 0x86, 0x48, 0xCE, 0x3D, 0x01, 0x01]

def isOptional (tag : UInt8) (s : Bytes) : Bool :=
  s.isEmpty || (tagged? tag s).any fun (_, rest) => rest.isEmpty

def described? (contents : Bytes) : Option EllipticCurve := do
  let (_, rest) ← tagged? integerTag contents
  let (field, rest) ← tagged? sequenceTag rest
  let (kind, field) ← tagged? identifierTag field
  let (modulus, _) ← tagged? integerTag field
  let (coefficients, rest) ← tagged? sequenceTag rest
  let (a, coefficients) ← tagged? bytesTag coefficients
  let (b, seed) ← tagged? bytesTag coefficients
  let (point, rest) ← tagged? bytesTag rest
  let (_, cofactor) ← tagged? integerTag rest
  let curve : EllipticCurve := ⟨numberOf modulus, numberOf a, numberOf b⟩
  if kind = primeField ∧ isOptional bitsTag seed ∧ isOptional integerTag cofactor ∧
      curve.isPoint point then
    some curve
  else none

/-- Whether parameters and a point make a key; of a point on one of the further curves only the
form is looked at. -/
def isKey (parameters key : Bytes) : Bool :=
  match first? parameters with
  | some e =>
    if e.tag = identifierTag then
      match named.find? fun n => n.1 == e.contents with
      | some n => n.2.isPoint key
      | none => isFurther e.contents && key.head?.any fun form => 2 ≤ form && form ≤ 7
    else if e.tag = sequenceTag then (described? e.contents).any fun c => c.isPoint key
    else false
  | none => false

end EllipticCurve

end TargetDiscovery
