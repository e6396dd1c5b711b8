import Mathlib.Algebra.Group.Nat.Defs
import Mathlib.Data.List.Basic
import TargetDiscovery.Bytes

/-!
# Rows of bits

A number is written as a row of bits, the highest of them first. Two rows that stand behind each
other are one row of the number that they make together, and a row of whole bytes is cut into these
bytes. Bits at the end that make no whole byte are dropped.
-/

set_option autoImplicit false

namespace TargetDiscovery.Bits

def row : Nat → Nat → List Bool
  | 0, _ => []
  | width + 1, n => row width (n / 2) ++ [n % 2 == 1]

def number (bits : List Bool) : Nat := bits.foldl (fun n bit => n * 2 + bit.toNat) 0

/-- The whole bytes of a row, from the front. -/
def octets (bits : List Bool) : Bytes :=
  (List.range (bits.length / 8)).map fun i => (number ((bits.drop (8 * i)).take 8)).toUInt8

theorem length_row (width n : Nat) : (row width n).length = width := by
  induction width generalizing n with
  | zero => rfl
  | succ width ih => rw [row, List.length_append, ih, List.length_singleton]

theorem row_append (m : Nat) {n b : Nat} (a : Nat) (hb : b < 2 ^ n) :
    row m a ++ row n b = row (m + n) (a * 2 ^ n + b) := by
  induction n generalizing b with
  | zero =>
    rw [Nat.pow_zero] at hb
    rw [Nat.lt_one_iff.mp hb, Nat.pow_zero, Nat.mul_one, row, List.append_nil]
    rfl
  | succ n ih =>
    rw [Nat.pow_succ] at hb
    have hhalf : (a * 2 ^ (n + 1) + b) / 2 = a * 2 ^ n + b / 2 := by
      rw [Nat.pow_succ, ← Nat.mul_assoc]
      omega
    have hlast : (a * 2 ^ (n + 1) + b) % 2 = b % 2 := by
      rw [Nat.pow_succ, ← Nat.mul_assoc]
      omega
    rw [row, ← List.append_assoc, ih (b := b / 2) (by omega), ← Nat.add_assoc, row, hhalf, hlast]

theorem number_row {width n : Nat} (h : n < 2 ^ width) : number (row width n) = n := by
  induction width generalizing n with
  | zero => exact (Nat.lt_one_iff.mp h).symm
  | succ width ih =>
    have hhalf : number (row width (n / 2)) = n / 2 := ih (by rw [Nat.pow_succ] at h; omega)
    rw [number] at hhalf
    rw [row, number, List.foldl_append, hhalf, List.foldl_cons, List.foldl_nil]
    rcases Nat.mod_two_eq_zero_or_one n with hbit | hbit
    · rw [hbit]
      show n / 2 * 2 + 0 = n
      omega
    · rw [hbit]
      show n / 2 * 2 + 1 = n
      omega

theorem row_three (a b c : UInt8) :
    row 8 a.toNat ++ (row 8 b.toNat ++ row 8 c.toNat) =
      row 24 ((a.toNat * 256 + b.toNat) * 256 + c.toNat) := by
  rw [← List.append_assoc, row_append 8 _ b.toNat_lt, row_append 16 _ c.toNat_lt]
  rfl

theorem row_four {w x y z : Nat} (hx : x < 64) (hy : y < 64) (hz : z < 64) :
    row 6 w ++ (row 6 x ++ (row 6 y ++ row 6 z)) =
      row 24 (((w * 64 + x) * 64 + y) * 64 + z) := by
  rw [← List.append_assoc, ← List.append_assoc, row_append (n := 6) 6 w hx,
    row_append (n := 6) 12 _ hy, row_append (n := 6) 18 _ hz]
  rfl

/-! ## Cutting into bytes -/

theorem length_octets (bits : List Bool) : (octets bits).length = bits.length / 8 := by
  rw [octets, List.length_map, List.length_range]

/-- A byte at the front of a row is the first of its bytes. -/
theorem octets_byte (b : UInt8) (bits : List Bool) :
    octets (row 8 b.toNat ++ bits) = b :: octets bits := by
  have hlength : (row 8 b.toNat ++ bits).length / 8 = bits.length / 8 + 1 := by
    rw [List.length_append, length_row]
    omega
  have hfirst : (row 8 b.toNat ++ bits).take 8 = row 8 b.toNat := List.take_left' (length_row _ _)
  have hrest : (row 8 b.toNat ++ bits).drop 8 = bits := List.drop_left' (length_row _ _)
  rw [octets, hlength, List.range_succ_eq_map, List.map_cons, List.map_map, octets]
  refine List.cons_eq_cons.mpr ⟨?_, List.map_congr_left fun i _ => ?_⟩
  · rw [Nat.mul_zero, List.drop_zero, hfirst, number_row b.toNat_lt]
    exact UInt8.ofNat_toNat
  · show (number (((row 8 b.toNat ++ bits).drop (8 * (i + 1))).take 8)).toUInt8 = _
    rw [show 8 * (i + 1) = 8 + 8 * i by omega, ← List.drop_drop, hrest]

theorem length_bytes (s : Bytes) : (s.flatMap fun b => row 8 b.toNat).length = 8 * s.length := by
  induction s with
  | nil => rfl
  | cons b s ih =>
    rw [List.flatMap_cons, List.length_append, length_row, ih, List.length_cons]
    omega

theorem octets_bytes (s : Bytes) : octets (s.flatMap fun b => row 8 b.toNat) = s := by
  induction s with
  | nil => rfl
  | cons b s ih => rw [List.flatMap_cons, octets_byte, ih]

theorem octets_three {n : Nat} (h : n < 2 ^ 24) (bits : List Bool) :
    octets (row 24 n ++ bits) =
      (n / 65536).toUInt8 :: (n / 256).toUInt8 :: n.toUInt8 :: octets bits := by
  have hbytes : n = ((n / 65536).toUInt8.toNat * 256 + (n / 256).toUInt8.toNat) * 256 +
      n.toUInt8.toNat := by
    simp only [Nat.toUInt8_eq, UInt8.toNat_ofNat']
    omega
  have hrow := row_three (n / 65536).toUInt8 (n / 256).toUInt8 n.toUInt8
  rw [← hbytes] at hrow
  rw [← hrow, List.append_assoc, List.append_assoc, octets_byte, octets_byte, octets_byte]

/-- What stands behind a row changes none of its bytes. -/
theorem take_octets_append (front back : List Bool) :
    (octets (front ++ back)).take (front.length / 8) = octets front := by
  rw [octets, octets, ← List.map_take, List.take_range]
  have hle : front.length / 8 ≤ (front ++ back).length / 8 :=
    Nat.div_le_div_right (by rw [List.length_append]; omega)
  rw [Nat.min_eq_left hle]
  refine List.map_congr_left fun i hi => ?_
  rw [List.mem_range] at hi
  rw [List.drop_append_of_le_length (by omega),
    List.take_append_of_le_length (by rw [List.length_drop]; omega)]

/-- Fewer than eight bits behind whole bytes are dropped. -/
theorem octets_append {front back : List Bool} (hfront : 8 ∣ front.length)
    (hback : back.length < 8) : octets (front ++ back) = octets front := by
  rw [← take_octets_append front back, List.take_of_length_le]
  rw [length_octets, List.length_append]
  omega

end TargetDiscovery.Bits
