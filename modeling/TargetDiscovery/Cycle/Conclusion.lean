import TargetDiscovery.Cycle.Phase
import TargetDiscovery.Registry.Exchange
import TargetDiscovery.Store
import TargetDiscovery.Target.Listing
import TargetDiscovery.Timing
import TargetDiscovery.Trust.Verifier

/-!
# The conclusion of a cycle

What a cycle does with the answer to its fetch: a new state is verified, its records are listed,
and the listing is offered to the store as a snapshot. The first step that fails ends the cycle,
and only an offer that is installed changes the current snapshot. Every outcome is reported by one
event; a fault ends the cycle without any.
-/

set_option autoImplicit false

namespace TargetDiscovery

/-- What belongs to an instance, apart from where its registry is. -/
structure Setup where
  name : Bytes
  timing : Timing
  rules : JobRules
  verifier : Verifier

/-- How a cycle ends: the store then, what was done on the way, and the outcome. -/
structure Conclusion where
  store : Store
  marks : List Mark
  result : Except Fault Outcome

namespace Conclusion

def ofEvent (store : Store) (e : CycleEvent) : Conclusion := ⟨store, [.event e], .ok e.outcome⟩

def behind (marks : List Mark) (c : Conclusion) : Conclusion := { c with marks := marks ++ c.marks }

end Conclusion

namespace Setup

def conversion (s : Setup) : Conversion := ⟨s.name, s.rules⟩

def snapshot (s : Setup) (time : Int) (state : RegistryState) (l : Listing) : Snapshot :=
  ⟨s.name, state.version, l.targets, time, l.skipped⟩

def outcomeOf : Verdict → Outcome
  | .installed => .published
  | .stale => .stale
  | .rejected => .buildFailed

def offerEvent (s : Setup) (state : RegistryState) (l : Listing) (v : Verdict) : CycleEvent :=
  { owner := s.name
    outcome := outcomeOf v
    version := state.version
    targets := l.targets.length.toUInt64
    skipped := l.skipped.toUInt64
    reason := if v = .rejected then ascii "snapshot rejected by store" else [] }

def offer (s : Setup) (store : Store) (time : Int) (state : RegistryState) (l : Listing) :
    Conclusion :=
  let (verdict, store) := store.publish (some (s.snapshot time state l))
  .behind [.phase .publishing] (.ofEvent store (s.offerEvent state l verdict))

def list (s : Setup) (store : Store) (time : Int) (state : RegistryState) : Conclusion :=
  let begin := .phase .building :: (s.conversion.skipLines state.records).map Mark.line
  .behind begin <|
    match s.conversion.listing state.records with
    | .ok l => s.offer store time state l
    | .error c =>
      .ofEvent store
        { owner := s.name, outcome := .buildFailed, version := state.version
          skipped := c.skipped.toUInt64, reason := c.message }

def distrust (state : RegistryState) : Bytes :=
  if state.certificate.isSome then ascii "certificate rejected" else ascii "missing certificate"

def verify (s : Setup) (store : Store) (time : Int) (state : RegistryState) : Conclusion :=
  .behind [.phase .verifying] <|
    match s.verifier.trusts state with
    | .error f => ⟨store, [], .error f⟩
    | .ok true => s.list store time state
    | .ok false =>
      .ofEvent store
        { owner := s.name, outcome := .verificationFailed, version := state.version
          reason := distrust state }

/-- Ends a cycle that began with the current snapshot `known`. -/
def conclude (s : Setup) (known : Option Snapshot) (store : Store) (time : Int) :
    FetchResult → Conclusion
  | .error f => ⟨store, [], .error f⟩
  | .ok (.error e) =>
    .ofEvent store { owner := s.name, outcome := .fetchFailed, reason := e.reason }
  | .ok (.ok state) =>
    if known.any fun k => k.version = state.version then
      .ofEvent store { owner := s.name, outcome := .unchanged, version := state.version }
    else s.verify store time state

def timeoutResult (s : Setup) : FetchResult :=
  .ok (.error
    ⟨.timeout, ascii "no response within " ++ Bytes.decimal s.timing.timeout ++ ascii " ms"⟩)

end Setup

end TargetDiscovery
