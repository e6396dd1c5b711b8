import TargetDiscovery.Double
import TargetDiscovery.Random

/-!
# Delays after failures

After `n` failures in a row the nominal delay is the base doubled `n` times, but at most the
maximum. Jitter spreads the delay around its nominal value; the result stays between zero and the
maximum. Delays are in milliseconds.
-/

set_option autoImplicit false

namespace TargetDiscovery

namespace Backoff

/-- How delays grow: from `base` to `max`, spread by the relative `jitter`. -/
structure Policy where
  base : Int64
  max : Int64
  jitter : Float

instance : Inhabited Policy := ⟨1000, 60000, 0.2⟩

namespace Policy

def maxShift : Nat := 32

/-- The delay after `attempt` failures, without jitter. The comparison with the shifted maximum
comes before the base is shifted, so that no bit of it is lost. -/
def nominal (p : Policy) (attempt : Nat) : Int64 :=
  let shift := (min attempt maxShift).toInt64
  if p.base ≤ 0 then 0
  else if p.max >>> shift < p.base then p.max
  else
    let doubled := p.base <<< shift
    if doubled < p.max then doubled else p.max

/-- The 64-bit integer nearest to a double; the least one stands for a double out of range. -/
def roundToWord (x : Float) : Int64 :=
  match Double.nearest? x with
  | some n =>
    if Int64.minValue.toInt ≤ n ∧ n ≤ Int64.maxValue.toInt then Int64.ofInt n
    else Int64.minValue
  | none => Int64.minValue

/-- A delay brought between zero and the maximum; the lower bound is looked at first. -/
def clamp (p : Policy) (delay : Int64) : Int64 :=
  if delay < 0 then 0 else if p.max < delay then p.max else delay

/-- A nominal delay spread by the jitter; without jitter nothing is drawn. -/
def spread (p : Policy) (delay : Int64) (random : Random) : Int64 × Random :=
  if p.jitter ≤ 0.0 then (delay, random)
  else
    let (factor, random) := random.between (1.0 - p.jitter) (1.0 + p.jitter)
    (p.clamp (roundToWord (delay.toFloat * factor)), random)

end Policy

end Backoff

/-- The failures in a row so far, and what the next delay needs. -/
structure Backoff where
  policy : Backoff.Policy
  random : Random
  attempts : Nat

namespace Backoff

/-- The number at which the count of attempts stops. -/
def maxAttempts : Nat := 4294967295

def start (policy : Policy) (seed : UInt64) : Backoff := ⟨policy, Random.ofSeed seed, 0⟩

def next (b : Backoff) : Int64 × Backoff :=
  let (delay, random) := b.policy.spread (b.policy.nominal b.attempts) b.random
  let attempts := if b.attempts < maxAttempts then b.attempts + 1 else b.attempts
  (delay, { b with random := random, attempts := attempts })

def reset (b : Backoff) : Backoff := { b with attempts := 0 }

theorem attempts_next (b : Backoff) :
    b.next.2.attempts = if b.attempts < maxAttempts then b.attempts + 1 else b.attempts := rfl

theorem attempts_reset (b : Backoff) : b.reset.attempts = 0 := rfl

end Backoff

end TargetDiscovery
