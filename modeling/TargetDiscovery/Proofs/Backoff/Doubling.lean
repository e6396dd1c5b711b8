import Mathlib.Data.Nat.Find
import TargetDiscovery.Proofs.Backoff
import TargetDiscovery.Proofs.Config.Layering

/-!
# Doubling without overflow

The base of a policy is doubled by a shift to the left. The shift is guarded by the maximum shifted
to the right, and it goes no further than 32 places. For any pair of 64-bit numbers the guard lets
no shift through that loses a bit, and for the pairs that a configuration admits neither the guard
nor the bound on the shift is seen in the delays.
-/

set_option autoImplicit false

namespace TargetDiscovery

namespace Backoff

namespace Policy

/-! ## Shifts that lose nothing -/

/-- The numbers that a signed word of 64 bits can hold. -/
def IsWord (n : Int) : Prop := -2 ^ 63 ≤ n ∧ n < 2 ^ 63

instance (n : Int) : Decidable (IsWord n) := inferInstanceAs (Decidable (_ ∧ _))

/-- The shift to the left, without a result where the product is no word. -/
def shiftLeft? (x : Int64) (s : Nat) : Option Int64 :=
  if IsWord (x.toInt * 2 ^ s) then some (x <<< s.toInt64) else none

/-- The nominal delay by any shift to the left. The shift is an effect, so it counts whether it is
evaluated, and of what. -/
def nominalBy {m : Type → Type} [Monad m] (shiftLeft : Int64 → Nat → m Int64) (p : Policy)
    (attempt : Nat) : m Int64 :=
  let shift := min attempt maxShift
  if p.base ≤ 0 then pure 0
  else if p.max >>> shift.toInt64 < p.base then pure p.max
  else do
    let doubled ← shiftLeft p.base shift
    pure (if doubled < p.max then doubled else p.max)

theorem nominalBy_plain (p : Policy) (attempt : Nat) :
    Id.run (p.nominalBy (fun x s => pure (x <<< s.toInt64)) attempt) = p.nominal attempt := by
  rw [nominalBy, nominal]
  split
  · rfl
  · split <;> rfl

/-- Behind the guard the shifted base is at most the maximum, which is a word. -/
theorem nominalBy_shiftLeft? (p : Policy) (attempt : Nat) :
    p.nominalBy shiftLeft? attempt = some (p.nominal attempt) := by
  rw [nominalBy, nominal]
  split
  · rfl
  · rename_i hbase
    split
    · rfl
    · rename_i hguard
      rw [Int64.le_iff_toInt_le, Int.not_le] at hbase
      rw [p.shiftRight_lt_iff (s := min attempt maxShift) (Nat.min_le_right _ _)] at hguard
      have hmax := p.max.toInt_lt
      have hnonneg : 0 ≤ p.base.toInt * 2 ^ min attempt maxShift :=
        Int.mul_nonneg (Int.le_of_lt hbase) (by positivity)
      have hword : IsWord (p.base.toInt * 2 ^ min attempt maxShift) := ⟨by omega, by omega⟩
      rw [shiftLeft?, if_pos hword]
      rfl

theorem toInt_nominal_mono (p : Policy) {m n : Nat} (h : m ≤ n) :
    (p.nominal m).toInt ≤ (p.nominal n).toInt := by
  have hmin : min m maxShift ≤ min n maxShift := by omega
  rw [toInt_nominal, toInt_nominal]
  split
  · exact Int.le_refl 0
  · have hmul := mul_two_pow_le (x := p.base.toInt) (by omega) hmin
    omega

/-- What holds of the nominal delays of any two words: the base is shifted to the left only where
nothing of it is lost, and what shifts and guard come to is the minimum of whole numbers. -/
structure Doubles (p : Policy) : Prop where
  plain : ∀ n, Id.run (p.nominalBy (fun x s => pure (x <<< s.toInt64)) n) = p.nominal n
  fits : ∀ n, p.nominalBy shiftLeft? n = some (p.nominal n)
  guard : ∀ n, p.max >>> (min n 32).toInt64 < p.base ↔ p.max.toInt < p.base.toInt * 2 ^ min n 32
  toInt : ∀ n, (p.nominal n).toInt =
    if p.base.toInt ≤ 0 then 0 else min (p.base.toInt * 2 ^ min n 32) p.max.toInt
  mono : ∀ m n, m ≤ n → (p.nominal m).toInt ≤ (p.nominal n).toInt

theorem doubles (p : Policy) : p.Doubles where
  plain := p.nominalBy_plain
  fits := p.nominalBy_shiftLeft?
  guard := fun _ => p.shiftRight_lt_iff (Nat.min_le_right _ _)
  toInt := p.toInt_nominal
  mono := fun _ _ => p.toInt_nominal_mono

/-- The nominal delays climb from the base to the maximum and stay there. They come to it at some
attempt, and at the latest after 27 doublings. -/
structure Climbs (base max : Nat) (p : Policy) : Prop where
  toInt : ∀ n, (p.nominal n).toInt = (min (base * 2 ^ n) max : Nat)
  reaches : ∃ first ≤ 27, ∀ n, (p.nominal n).toInt = max ↔ first ≤ n

end Policy

theorem Admitted.climbs {base max : Nat} (h : Admitted base max) (jitter : Float) :
    Policy.Climbs base max ⟨base.toInt64, max.toInt64, jitter⟩ := by
  have hbase := h.positive
  have hmax := h.bounded
  simp only [Timing.longest] at hmax
  have hlast : max ≤ base * 2 ^ 27 := by omega
  have hreached : ∃ n, max ≤ base * 2 ^ n := ⟨27, hlast⟩
  refine ⟨toInt_nominal_of_admitted h jitter, Nat.find hreached, Nat.find_min' hreached hlast, ?_⟩
  intro n
  rw [toInt_nominal_of_admitted h, Nat.cast_inj, min_eq_right_iff, Nat.find_le_iff]
  constructor
  · exact fun hn => ⟨n, Nat.le_refl n, hn⟩
  · rintro ⟨m, hle, hm⟩
    exact Nat.le_trans hm (Nat.mul_le_mul_left _ (Nat.pow_le_pow_right (by decide) hle))

end Backoff

/-! ## Delays of a configuration -/

theorem InRange.admitted {base max : Nat} (hbase : InRange base) (hmax : InRange max)
    (hordered : base ≤ max) : Backoff.Admitted base max := ⟨hbase.1, hordered, hmax.2⟩

theorem IsSound.admitted {t : Timing} (h : IsSound t) : Backoff.Admitted t.base t.max := by
  have hdurations := h.durations
  simp only [List.forall_mem_cons] at hdurations
  obtain ⟨-, -, hbase, hmax, -⟩ := hdurations
  exact hbase.admitted hmax h.ordered

theorem admitted_of_given {document : Json} {r : RestartRule}
    (h : document.Given (ascii "supervisor") RestartRule.standard IsRestarts r) :
    Backoff.Admitted r.base r.max := by
  rcases Json.given_iff.mp h with ⟨-, rfl⟩ | ⟨v, -, hv⟩
  · exact ⟨by decide, by decide, by decide⟩
  · exact (inRange_of_given hv.base ⟨by decide, by decide⟩).admitted
      (inRange_of_given hv.max ⟨by decide, by decide⟩) hv.ordered

/-- Every pair of a base and a maximum in a configuration: the one for restarts, and one for each
instance. -/
structure Config.IsAdmitted (c : Config) : Prop where
  restarts : Backoff.Admitted c.restarts.base c.restarts.max
  entries : ∀ e ∈ c.entries, Backoff.Admitted e.timing.base e.timing.max

theorem Describes.isAdmitted {files : Files} {directory : Bytes} {document : Json} {c : Config}
    (h : Describes files directory document c) : c.IsAdmitted := by
  refine ⟨admitted_of_given h.restarts, fun e he => ?_⟩
  obtain ⟨defaults, _, hdefaults, -, hinstances⟩ := h.instances
  obtain ⟨items, -, hentries⟩ := hinstances.items
  obtain ⟨i, hi, rfl⟩ := List.getElem_of_mem he
  have hitem := hentries.get (hentries.length_eq ▸ hi) hi
  exact (hitem.timing.isSound (inRange_defaults hdefaults)).admitted

namespace Backoff.Policy

/-- Doubling loses nothing on any two words. On two numbers that a configuration admits it is exact
for every number of attempts, and a configuration has no other ones. -/
theorem doubled_exactly [Json.Reader] :
    (∀ p : Policy, p.Doubles) ∧
      (∀ base max : Nat, Admitted base max → ∀ jitter : Float,
        Climbs base max ⟨base.toInt64, max.toInt64, jitter⟩) ∧
        ∀ files directory text c, Config.parse files directory text = .ok (.ok c) →
          c.IsAdmitted := by
  refine ⟨doubles, fun _ _ => Admitted.climbs, ?_⟩
  intro files directory text c hparse
  obtain ⟨document, -, hdescribes⟩ := Config.parse_eq_ok.mp hparse
  exact hdescribes.isAdmitted

/-- One instance, with the least base and the largest maximum there are. -/
def steepText : Bytes :=
  ascii "\x7b\"instances\":[\x7b\"name\":\"a1\",\"registry_url\":\"http://r1\"," ++
    ascii "\"insecure\":true,\"backoff_base_ms\":1,\"backoff_max_ms\":86400000\x7d]\x7d"

/-- Whether a text was accepted, and its instances have that base and that maximum. -/
def isSteep : Except Fault (Except ConfigError Config) → Bool
  | .ok (.ok c) => c.entries.map (fun e => (e.timing.base, e.timing.max)) = [(1, 86400000)]
  | _ => false

theorem doubled_steeply :
    ∃ c e, Config.parse (.ofReadings []) [] steepText = .ok (.ok c) ∧ c.entries = [e] ∧
      Admitted e.timing.base e.timing.max ∧
        (e.timing.policy.nominal 26).toInt = 67108864 ∧
          (e.timing.policy.nominal 4294967295).toInt = 86400000 := by
  have hparse : isSteep (Config.parse (.ofReadings []) [] steepText) = true := by decide +kernel
  unfold isSteep at hparse
  split at hparse
  · rename_i c hc
    obtain ⟨e, hentries, htiming⟩ := List.map_eq_singleton_iff.mp (of_decide_eq_true hparse)
    obtain ⟨hbase, hmax⟩ := Prod.mk.inj htiming
    have hadmitted := (doubled_exactly.2.2 _ _ _ c hc).entries e (hentries ▸ List.mem_cons_self)
    have hclimbs := doubled_exactly.2.1 _ _ hadmitted e.timing.jitter
    obtain ⟨first, hfirst, hreaches⟩ := hclimbs.reaches
    refine ⟨c, e, hc, hentries, hadmitted, ?_, ?_⟩
    · refine (hclimbs.toInt 26).trans ?_
      rw [hbase, hmax]
      rfl
    · refine ((hreaches 4294967295).mpr (by omega)).trans ?_
      rw [hmax]
      rfl
  · cases hparse

/-- Shifted by one place, the base would be the first number that is no word. -/
example : ((⟨4611686018427387904, 9223372036854775807, 0.2⟩ : Policy).nominal 1).toInt =
    9223372036854775807 := by decide

end Backoff.Policy

end TargetDiscovery
