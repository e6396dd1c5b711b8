import TargetDiscovery.Backoff

/-!
# Timing

How often an instance is polled, how long a fetch may take, and how delays grow after failures.
All durations are in milliseconds.
-/

set_option autoImplicit false

namespace TargetDiscovery

structure Timing where
  interval : Nat
  timeout : Nat
  base : Nat
  max : Nat
  jitter : Float

namespace Timing

def standard : Timing := ⟨30000, 10000, 1000, 60000, 0.2⟩

instance : Inhabited Timing := ⟨standard⟩

def policy (t : Timing) : Backoff.Policy := ⟨t.base.toInt64, t.max.toInt64, t.jitter⟩

/-- The longest duration that may be configured: a day. -/
def longest : Nat := 86400000

end Timing

/-- How often a crashed instance is restarted, and how the delays before that grow. -/
structure RestartRule where
  limit : Nat
  base : Nat
  max : Nat
  jitter : Float

namespace RestartRule

def standard : RestartRule := ⟨5, 1000, 30000, 0.2⟩

instance : Inhabited RestartRule := ⟨standard⟩

def policy (r : RestartRule) : Backoff.Policy := ⟨r.base.toInt64, r.max.toInt64, r.jitter⟩

end RestartRule

end TargetDiscovery
