import TargetDiscovery.Log

/-!
# Poll cycles and their events

A cycle fetches, verifies, lists and publishes the state of one instance, and ends with one of six
outcomes. Its event says what it did.
-/

set_option autoImplicit false

namespace TargetDiscovery

inductive Outcome
  | published | unchanged | stale | fetchFailed | verificationFailed | buildFailed
  deriving DecidableEq, Repr, Inhabited

namespace Outcome

def name : Outcome → Bytes
  | published => ascii "published"
  | unchanged => ascii "unchanged"
  | stale => ascii "stale"
  | fetchFailed => ascii "fetch_failed"
  | verificationFailed => ascii "verification_failed"
  | buildFailed => ascii "build_failed"

def all : List Outcome :=
  [published, unchanged, stale, fetchFailed, verificationFailed, buildFailed]

def ofName? (s : Bytes) : Option Outcome := all.find? fun o => o.name = s

def isFailure : Outcome → Bool
  | fetchFailed | verificationFailed | buildFailed => true
  | published | unchanged | stale => false

end Outcome

structure CycleEvent where
  owner : Bytes
  outcome : Outcome
  version : UInt64 := 0
  targets : UInt64 := 0
  skipped : UInt64 := 0
  reason : Bytes := []
  deriving DecidableEq, Repr, Inhabited

namespace CycleEvent

def number (n : UInt64) : Bytes := Bytes.decimal n.toNat

def line (e : CycleEvent) : LogLine :=
  let line (level : LogLevel) (text : Bytes) : LogLine := ⟨level, e.owner ++ ascii ": " ++ text⟩
  match e.outcome with
  | .published =>
    line .info (ascii "published version " ++ number e.version ++ ascii " (" ++ number e.targets ++
      ascii " targets, " ++ number e.skipped ++ ascii " records skipped)")
  | .stale => line .info (ascii "discarded stale version " ++ number e.version)
  | .unchanged => line .debug (ascii "registry unchanged at version " ++ number e.version)
  | .verificationFailed =>
    line .warning (ascii "verification failed for version " ++ number e.version ++ ascii ": " ++
      e.reason)
  | .fetchFailed | .buildFailed =>
    line .warning (e.outcome.name ++ ascii ": " ++ e.reason)

end CycleEvent

end TargetDiscovery
