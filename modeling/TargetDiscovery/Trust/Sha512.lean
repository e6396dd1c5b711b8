import TargetDiscovery.Bytes

/-!
# SHA-512

The hash under the signature scheme. The constants are those the standard derives from the
primes: the first 64 bits of the fractional parts of square and cube roots.
-/

set_option autoImplicit false

namespace TargetDiscovery.Sha512

/-! ## Constants -/

/-- The largest `r` with `r ^ degree ≤ n`, found one bit at a time from bit `bits - 1` down. -/
def root (degree n : Nat) : Nat → Nat → Nat
  | 0, found => found
  | bits + 1, found =>
    let next := found + Nat.pow 2 bits
    root degree n bits (if Nat.pow next degree ≤ n then next else found)

def fraction (degree n : Nat) : UInt64 :=
  (root degree (n * Nat.pow 2 (64 * degree)) 70 0).toUInt64

def isPrime (n : Nat) : Bool :=
  2 ≤ n && (List.range n).all fun k => k < 2 || n % k != 0

def primes : List Nat := (List.range 410).filter isPrime

def roundConstants : List UInt64 := primes.map (fraction 3)

/-! ## Compression -/

structure State where
  a : UInt64
  b : UInt64
  c : UInt64
  d : UInt64
  e : UInt64
  f : UInt64
  g : UInt64
  h : UInt64

namespace State

def words (s : State) : List UInt64 := [s.a, s.b, s.c, s.d, s.e, s.f, s.g, s.h]

def initial : State :=
  ⟨fraction 2 2, fraction 2 3, fraction 2 5, fraction 2 7, fraction 2 11, fraction 2 13,
    fraction 2 17, fraction 2 19⟩

def add (s t : State) : State :=
  ⟨s.a + t.a, s.b + t.b, s.c + t.c, s.d + t.d, s.e + t.e, s.f + t.f, s.g + t.g, s.h + t.h⟩

end State

def rotate (n x : UInt64) : UInt64 := (x >>> n) ||| (x <<< (64 - n))

def round (s : State) (kw : UInt64) : State :=
  let sum1 := rotate 14 s.e ^^^ rotate 18 s.e ^^^ rotate 41 s.e
  let choice := (s.e &&& s.f) ^^^ (~~~s.e &&& s.g)
  let t1 := s.h + sum1 + choice + kw
  let sum0 := rotate 28 s.a ^^^ rotate 34 s.a ^^^ rotate 39 s.a
  let majority := (s.a &&& s.b) ^^^ (s.a &&& s.c) ^^^ (s.b &&& s.c)
  ⟨t1 + sum0 + majority, s.a, s.b, s.c, s.d + t1, s.e, s.f, s.g⟩

def nextWord (window : List UInt64) : UInt64 :=
  let item (i : Nat) := (window[i]?).getD 0
  let sigma0 (x : UInt64) := rotate 1 x ^^^ rotate 8 x ^^^ (x >>> 7)
  let sigma1 (x : UInt64) := rotate 19 x ^^^ rotate 61 x ^^^ (x >>> 6)
  sigma1 (item 14) + item 9 + sigma0 (item 1) + item 0

def rounds : List UInt64 → List UInt64 → State → State
  | [], _, s => s
  | k :: ks, window, s =>
    rounds ks (window.drop 1 ++ [nextWord window]) (round s (k + (window.head?).getD 0))

def words : Nat → Bytes → List UInt64
  | 0, _ => []
  | n + 1, s =>
    (s.take 8).foldl (fun w b => w * 256 + b.toUInt64) 0 :: words n (s.drop 8)

def compress (s : State) (block : Bytes) : State :=
  (rounds roundConstants (words 16 block) s).add s

def compressAll : Nat → Bytes → State → State
  | 0, _, s => s
  | n + 1, text, s => compressAll n (text.drop 128) (compress s (text.take 128))

def bigEndian (size n : Nat) : Bytes :=
  (List.range size).reverse.map fun i => (n / Nat.pow 256 i).toUInt8

def pad (text : Bytes) : Bytes :=
  let zeros := (128 + 111 - text.length % 128) % 128
  text ++ 0x80 :: List.replicate zeros 0 ++ bigEndian 16 (8 * text.length)

def digest (text : Bytes) : Bytes :=
  let padded := pad text
  (compressAll (padded.length / 128) padded State.initial).words.flatMap fun w =>
    bigEndian 8 w.toNat

end TargetDiscovery.Sha512
