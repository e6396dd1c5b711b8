import Mathlib.Algebra.Order.Ring.Int
import Mathlib.Tactic.Linarith
import TargetDiscovery.Timing

/-!
# Laws of backoff delays

The nominal delay is the minimum of the doubled base and the maximum, computed without overflow for
any pair of 64-bit numbers. Within the bounds of a configuration every delay lies between zero and
the maximum, and without jitter it is the nominal one.
-/

set_option autoImplicit false

namespace TargetDiscovery

/-! ## Shifts -/

theorem toNat_shift {s : Nat} (h : s ≤ 32) : (s.toInt64.toBitVec.smod 64).toNat = s := by
  have hall : ∀ k : Fin 33, (k.val.toInt64.toBitVec.smod 64).toNat = k.val := by decide
  exact hall ⟨s, by omega⟩

theorem toInt_shiftRight (x : Int64) {s : Nat} (h : s ≤ 32) :
    (x >>> s.toInt64).toInt = x.toInt / 2 ^ s := by
  rw [← Int64.toInt_toBitVec, Int64.toBitVec_shiftRight, BitVec.sshiftRight_eq', toNat_shift h,
    BitVec.toInt_sshiftRight, Int.shiftRight_eq_div_pow]
  push_cast
  rfl

theorem toInt_shiftLeft {x : Int64} (hx : 0 ≤ x.toInt) {s : Nat} (h : s ≤ 32)
    (hfits : x.toInt * 2 ^ s < 2 ^ 63) : (x <<< s.toInt64).toInt = x.toInt * 2 ^ s := by
  have hnat : (x.toBitVec.toNat : Int) = x.toInt := by
    have hmsb := BitVec.toInt_eq_toNat_cond x.toBitVec
    have hlt := x.toBitVec.isLt
    rw [Int64.toInt_toBitVec] at hmsb
    split at hmsb
    · exact hmsb.symm
    · omega
  have hnonneg : 0 ≤ x.toInt * 2 ^ s := Int.mul_nonneg hx (by positivity)
  rw [← Int64.toInt_toBitVec, Int64.toBitVec_shiftLeft, BitVec.shiftLeft_eq', toNat_shift h,
    BitVec.toInt_shiftLeft, Nat.shiftLeft_eq]
  push_cast
  rw [hnat, Int.bmod_eq_of_le]
  · omega
  · omega

theorem mul_two_pow_le {x : Int} (hx : 0 ≤ x) {m n : Nat} (h : m ≤ n) : x * 2 ^ m ≤ x * 2 ^ n := by
  have hpow : (2 : Int) ^ m ≤ 2 ^ n := by exact_mod_cast Nat.pow_le_pow_right (by decide) h
  exact Int.mul_le_mul_of_nonneg_left hpow hx

/-! ## Nominal delays -/

namespace Backoff.Policy

/-- The shifted maximum is below the base exactly if the maximum is below the shifted base: what the
shift to the right cuts off decides nothing. -/
theorem shiftRight_lt_iff (p : Policy) {s : Nat} (h : s ≤ 32) :
    p.max >>> s.toInt64 < p.base ↔ p.max.toInt < p.base.toInt * 2 ^ s := by
  rw [Int64.lt_iff_toInt_lt, toInt_shiftRight _ h, Int.ediv_lt_iff_lt_mul (by positivity)]

theorem toInt_nominal (p : Policy) (attempt : Nat) :
    (p.nominal attempt).toInt =
      if p.base.toInt ≤ 0 then 0
      else min (p.base.toInt * 2 ^ min attempt maxShift) p.max.toInt := by
  have hshift : min attempt maxShift ≤ 32 := Nat.min_le_right _ _
  have hzero : p.base ≤ 0 ↔ p.base.toInt ≤ 0 := Int64.le_iff_toInt_le
  simp only [nominal, hzero]
  split
  · rfl
  · rename_i hbase
    have hguard := p.shiftRight_lt_iff hshift
    by_cases hover : p.max.toInt < p.base.toInt * 2 ^ min attempt maxShift
    · rw [if_pos (hguard.mpr hover)]
      omega
    -- The shifted base is no larger than the maximum here, so the shift loses nothing.
    · have hmax := p.max.toInt_lt
      have hdoubled := toInt_shiftLeft (x := p.base) (by omega) hshift (by omega)
      rw [if_neg (mt hguard.mp hover)]
      split
      · rw [hdoubled]
        omega
      · rename_i hlt
        rw [Int64.lt_iff_toInt_lt, hdoubled] at hlt
        omega

/-- If the largest shift of any base reaches the maximum, the bound on the shift is not seen. -/
theorem toInt_nominal_of_reached {p : Policy} (hbase : 0 < p.base.toInt)
    (hmax : p.max.toInt ≤ 2 ^ maxShift) (attempt : Nat) :
    (p.nominal attempt).toInt = min (p.base.toInt * 2 ^ attempt) p.max.toInt := by
  rw [toInt_nominal, if_neg (by omega)]
  rcases Nat.le_total attempt maxShift with hs | hs
  · rw [Nat.min_eq_left hs]
  · have hmul := mul_two_pow_le (Int.le_of_lt hbase) hs
    have hlarge : 1 * 2 ^ maxShift ≤ p.base.toInt * 2 ^ maxShift :=
      Int.mul_le_mul_of_nonneg_right (by omega) (by positivity)
    rw [Nat.min_eq_right hs]
    omega

theorem clamp_mem {p : Policy} (hmax : 0 ≤ p.max.toInt) (delay : Int64) :
    0 ≤ (p.clamp delay).toInt ∧ (p.clamp delay).toInt ≤ p.max.toInt := by
  have hzero : delay < 0 ↔ delay.toInt < 0 := Int64.lt_iff_toInt_lt
  simp only [clamp, hzero, Int64.lt_iff_toInt_lt]
  split
  · exact ⟨Int.le_refl _, hmax⟩
  · split
    · exact ⟨hmax, Int.le_refl _⟩
    · omega

/-! ## Jitter -/

theorem spread_of_even {p : Policy} (h : p.jitter ≤ 0.0) (delay : Int64) (random : Random) :
    p.spread delay random = (delay, random) := if_pos h

theorem spread_mem {p : Policy} {delay : Int64} (hzero : 0 ≤ delay.toInt)
    (hmax : delay.toInt ≤ p.max.toInt) (random : Random) :
    0 ≤ (p.spread delay random).1.toInt ∧ (p.spread delay random).1.toInt ≤ p.max.toInt := by
  rw [spread]
  split
  · exact ⟨hzero, hmax⟩
  · exact clamp_mem (Int.le_trans hzero hmax) _

end Backoff.Policy

/-! ## Delays of a configuration -/

namespace Backoff

/-- The base and the maximum of delays that a configuration admits. -/
structure Admitted (base max : Nat) : Prop where
  positive : 1 ≤ base
  ordered : base ≤ max
  bounded : max ≤ Timing.longest

/-- The delay after some failures in a row, without jitter. -/
def delay (base max failures : Nat) : Nat := min (base * 2 ^ (failures - 1)) max

/-- The count of as many attempts, which stops at its largest number. -/
def counted (attempts : Nat) : Nat := min attempts maxAttempts

theorem counted_succ (attempts : Nat) :
    counted (attempts + 1) =
      if counted attempts < maxAttempts then counted attempts + 1 else counted attempts := by
  by_cases h : attempts < maxAttempts
  · rw [counted, counted, Nat.min_eq_left h, Nat.min_eq_left (Nat.le_of_lt h), if_pos h]
  · have hmax : maxAttempts ≤ attempts := Nat.le_of_not_lt h
    rw [counted, counted, Nat.min_eq_right hmax, Nat.min_eq_right (Nat.le_succ_of_le hmax),
      if_neg (Nat.lt_irrefl _)]

theorem delay_counted {base max : Nat} (h : Admitted base max) (failures : Nat) :
    min (base * 2 ^ counted failures) max = min (base * 2 ^ failures) max := by
  rcases Nat.le_total failures maxAttempts with hle | hle
  · rw [counted, Nat.min_eq_left hle]
  -- As many doublings exceed every maximum, however long they go on.
  · have hlarge : ∀ k, 32 ≤ k → max ≤ base * 2 ^ k := by
      intro k hk
      have hpow : 2 ^ 32 ≤ 2 ^ k := Nat.pow_le_pow_right (by decide) hk
      have hmul : 1 * 2 ^ 32 ≤ base * 2 ^ k := Nat.mul_le_mul h.positive hpow
      have hmax := h.bounded
      simp only [Timing.longest] at hmax
      omega
    simp only [maxAttempts] at hle
    rw [counted, maxAttempts, Nat.min_eq_right hle, Nat.min_eq_right (hlarge _ (by decide)),
      Nat.min_eq_right (hlarge _ (by omega))]

theorem toInt_nominal_of_admitted {base max : Nat} (h : Admitted base max) (jitter : Float)
    (attempts : Nat) :
    ((⟨base.toInt64, max.toInt64, jitter⟩ : Policy).nominal attempts).toInt =
      (min (base * 2 ^ attempts) max : Nat) := by
  have hmax := h.bounded
  have hbase := h.positive
  have hle := h.ordered
  simp only [Timing.longest] at hmax
  have hword : ∀ k, k ≤ max → k.toInt64.toInt = k :=
    fun k hk => Int64.toInt_ofNat_of_lt (by omega)
  have hbase' := hword base hle
  have hmax' := hword max (Nat.le_refl _)
  rw [Policy.toInt_nominal_of_reached (by rw [hbase']; omega)
    (by rw [hmax', Policy.maxShift]; omega), hbase', hmax']
  push_cast
  rfl

/-- A delay behind as many attempts stays within its bounds; without jitter it is exact. -/
structure Delays (base max : Nat) (jitter : Float) (failures : Nat) (w : Int) : Prop where
  nonneg : 0 ≤ w
  le_max : w ≤ max
  exact : jitter ≤ 0.0 → w = delay base max failures

theorem next_delays {base max : Nat} (h : Admitted base max) {jitter : Float} {b : Backoff}
    (hp : b.policy = ⟨base.toInt64, max.toInt64, jitter⟩) {failures : Nat}
    (ha : b.attempts = counted failures) :
    Delays base max jitter (failures + 1) b.next.1.toInt := by
  have hnominal : (b.policy.nominal b.attempts).toInt = (min (base * 2 ^ failures) max : Nat) := by
    rw [hp, ha, toInt_nominal_of_admitted h, delay_counted h]
  have hlongest := h.bounded
  have hmax : b.policy.max.toInt = max := by
    rw [hp]
    simp only [Timing.longest] at hlongest
    exact Int64.toInt_ofNat_of_lt (by omega)
  have hmem : 0 ≤ b.next.1.toInt ∧ b.next.1.toInt ≤ b.policy.max.toInt :=
    Policy.spread_mem (by omega) (by omega) b.random
  rw [hmax] at hmem
  refine ⟨hmem.1, hmem.2, fun hjitter => ?_⟩
  have heven : b.policy.jitter ≤ 0.0 := by rw [hp]; exact hjitter
  simp only [next, Policy.spread_of_even heven, hnominal]
  rfl

theorem attempts_next_counted {b : Backoff} {failures : Nat} (ha : b.attempts = counted failures) :
    b.next.2.attempts = counted (failures + 1) := by
  rw [attempts_next, ha, counted_succ]

theorem policy_next (b : Backoff) : b.next.2.policy = b.policy := rfl

end Backoff

end TargetDiscovery
