import TargetDiscovery.Proofs.Cycle.Classification
import TargetDiscovery.Proofs.Cycle.Recording
import TargetDiscovery.Proofs.Schedule
import TargetDiscovery.Proofs.Words

/-!
# The books of an instance

What happened to an instance is booked twice: its counters take over the events of its cycles, and
its store counts how offers were answered. Each way for a cycle to end keeps both in agreement with
the history.
-/

set_option autoImplicit false

namespace TargetDiscovery

/-! ## Counting outcomes -/

namespace Counters

/-- The second counters have counted some more outcomes than the first ones. -/
structure Counted (c c' : Counters) (more : List Outcome) : Prop where
  polls : c'.polls = c.polls + more.length.toUInt64
  pollFailures : c'.pollFailures = c.pollFailures + (more.count .fetchFailed).toUInt64
  verificationFailures :
    c'.verificationFailures = c.verificationFailures + (more.count .verificationFailed).toUInt64
  buildFailures : c'.buildFailures = c.buildFailures + (more.count .buildFailed).toUInt64
  restarts : c'.restarts = c.restarts
  degraded : c'.degraded = c.degraded

theorem Counted.refl (c : Counters) : Counted c c [] where
  polls := (add_toUInt64_zero _).symm
  pollFailures := (add_toUInt64_zero _).symm
  verificationFailures := (add_toUInt64_zero _).symm
  buildFailures := (add_toUInt64_zero _).symm
  restarts := rfl
  degraded := rfl

theorem Counted.trans {c d e : Counters} {os more : List Outcome} (h : Counted c d os)
    (k : Counted d e more) : Counted c e (os ++ more) := by
  constructor
  case polls => rw [k.polls, h.polls, List.length_append, add_toUInt64_add]
  case pollFailures => rw [k.pollFailures, h.pollFailures, List.count_append, add_toUInt64_add]
  case verificationFailures =>
    rw [k.verificationFailures, h.verificationFailures, List.count_append, add_toUInt64_add]
  case buildFailures => rw [k.buildFailures, h.buildFailures, List.count_append, add_toUInt64_add]
  case restarts => rw [k.restarts, h.restarts]
  case degraded => rw [k.degraded, h.degraded]

theorem record_counted (c : Counters) (e : CycleEvent) : Counted c (c.record e) [e.outcome] := by
  rw [record_eq]
  cases e.outcome with
  | _ => exact ⟨rfl, rfl, rfl, rfl, rfl, rfl⟩

theorem recordAll_counted (c : Counters) (events : List CycleEvent) :
    Counted c (events.foldl record c) (events.map CycleEvent.outcome) := by
  induction events generalizing c with
  | nil => exact .refl c
  | cons e events ih => exact (c.record_counted e).trans (ih _)

end Counters

def Conclusion.outcomes (c : Conclusion) : List Outcome := c.result.toOption.toList

theorem outcomes_ends (t : Nat) (c : Conclusion) (h : History) :
    TargetDiscovery.outcomes (⟨t, .ends c⟩ :: h) = c.outcomes ++ TargetDiscovery.outcomes h := by
  rw [Conclusion.outcomes]
  cases hc : c.result with
  | error f => exact outcomes_of_error h hc
  | ok o => exact outcomes_of_ok h hc

/-! ## Skipped records -/

/-- The records of the state that a fetch brought, if it brought one. -/
def recordsIn : FetchResult → List NodeRecord
  | .ok (.ok state) => state.records
  | _ => []

/-- The number of targets that are current. -/
def Store.size (s : Store) : Nat :=
  match s.current with
  | some snapshot => snapshot.targets.length
  | none => 0

namespace Setup

/-- The number of records that a cycle skipped. Only a cycle that comes to listing looks at them. -/
def skippedBy (s : Setup) (fetched : FetchResult) (c : Conclusion) : Nat :=
  if .phase .building ∈ c.marks then (s.conversion.rejected (recordsIn fetched)).length else 0

/-- The number of records skipped when a cycle ends, which is the one begun last. -/
def skippedAt (s : Setup) : Incident → History → Nat
  | .ends c, ⟨_, .begins _ reply⟩ :: _ => s.skippedBy (s.fetched reply) c
  | _, _ => 0

/-- The number of records that all cycles have skipped. -/
def skips (s : Setup) : History → Nat
  | [] => 0
  | e :: h => s.skippedAt e.entry h + s.skips h

variable {s : Setup} {known : Option Snapshot} {store store' : Store} {time : Int}
  {fetched : FetchResult} {events : List CycleEvent} {result : Except Fault Outcome}

/-- A cycle comes to listing with a new state that is trusted. -/
theorem builds_iff : Mark.phase .building ∈ (s.conclude known store time fetched).marks ↔
    ∃ state, fetched = .ok (.ok state) ∧ (∀ k, known = some k → k.version ≠ state.version) ∧
      s.verifier.trusts state = .ok true := by
  match fetched with
  | .error f => simp [conclude]
  | .ok (.error e) => simp [conclude, Conclusion.ofEvent]
  | .ok (.ok state) =>
    cases hk : known.any fun k => decide (k.version = state.version) with
    | true =>
      obtain ⟨k, rfl, hv⟩ := (Option.any_eq_true _ _).mp hk
      have hsame : k.version = state.version := by simpa using hv
      simp [conclude, Conclusion.ofEvent, hsame]
    | false =>
      have hne : ∀ k, known = some k → k.version ≠ state.version := by
        rintro k rfl
        simpa using hk
      rw [conclude, hk]
      cases ht : s.verifier.trusts state with
      | error f => simp [verify, ht, Conclusion.behind]
      | ok trusted =>
        cases trusted with
        | true => simpa [verify, ht, Conclusion.behind, list] using hne
        | false => simp [verify, ht, Conclusion.behind, Conclusion.ofEvent]

theorem skippedBy_of_builds {state : RegistryState}
    (hk : ∀ k, known = some k → k.version ≠ state.version)
    (ht : s.verifier.trusts state = .ok true) :
    s.skippedBy (.ok (.ok state)) (s.conclude known store time (.ok (.ok state))) =
      (s.conversion.rejected state.records).length :=
  if_pos (builds_iff.mpr ⟨state, rfl, hk, ht⟩)

theorem skippedBy_of_not_builds (h : ∀ state, fetched = .ok (.ok state) →
    (∀ k, known = some k → k.version ≠ state.version) → s.verifier.trusts state ≠ .ok true) :
    s.skippedBy fetched (s.conclude known store time fetched) = 0 := by
  refine if_neg fun hbuilds => ?_
  obtain ⟨state, hstate, hk, ht⟩ := builds_iff.mp hbuilds
  exact h state hstate hk ht

theorem skipped_of_ok {c : Conversion} {records : List NodeRecord} {l : Listing}
    (h : c.listing records = .ok l) : l.skipped = (c.rejected records).length := by
  rw [Conversion.listing_eq] at h
  split at h
  · cases h
  · cases h
    rfl

theorem skipped_of_error {c : Conversion} {records : List NodeRecord} {e : Collision}
    (h : c.listing records = .error e) : e.skipped = (c.rejected records).length := by
  rw [Conversion.listing_eq] at h
  split at h
  · cases h
    rfl
  · cases h

/-! ## Every way to end -/

theorem Ends.outcomes (h : Ends s known store time fetched store' events result) :
    events.map CycleEvent.outcome = result.toOption.toList := by
  have hreports := h.reports
  cases result with
  | error f =>
    rw [show events = [] from hreports]
    rfl
  | ok o =>
    obtain ⟨e, rfl, _, rfl⟩ := hreports
    rfl

theorem Ends.targets (h : Ends s known store time fetched store' events result) {k : Counters}
    (hk : k.targets = store.size.toUInt64) :
    (events.foldl Counters.record k).targets = store'.size.toUInt64 := by
  cases h with
  | installed => rfl
  | _ => exact hk

/-- An offer under the name of the store is installed or stale, as the outcome says. -/
theorem Ends.tally (h : Ends s known store time fetched store' events result)
    (hname : store.name = s.name) :
    store'.tally.installs =
        store.tally.installs + (result.toOption.toList.count .published).toUInt64 ∧
      store'.tally.stale = store.tally.stale + (result.toOption.toList.count .stale).toUInt64 ∧
      store'.tally.rejected = store.tally.rejected := by
  have hkept : ∀ w : UInt64, w = w + (0 : Nat).toUInt64 := fun w => (add_toUInt64_zero w).symm
  cases h with
  | rejected _ _ _ hne => exact absurd hname.symm hne
  | installed => exact ⟨rfl, hkept _, rfl⟩
  | stale => exact ⟨hkept _, rfl, rfl⟩
  | _ => exact ⟨hkept _, hkept _, rfl⟩

/-- The events of a cycle add what it skipped. -/
theorem conclude_skips (s : Setup) (known : Option Snapshot) (store : Store) (time : Int)
    (fetched : FetchResult) (k : Counters) :
    ((s.conclude known store time fetched).events.foldl Counters.record k).decodeSkips =
      k.decodeSkips +
        (s.skippedBy fetched (s.conclude known store time fetched)).toUInt64 := by
  have hends := s.conclude_ends known store time fetched
  generalize (s.conclude known store time fetched).store = store' at hends
  generalize (s.conclude known store time fetched).events = events at hends ⊢
  generalize (s.conclude known store time fetched).result = result at hends
  have hzero : (∀ state, fetched = .ok (.ok state) →
      (∀ k, known = some k → k.version ≠ state.version) → s.verifier.trusts state ≠ .ok true) →
      k.decodeSkips =
        k.decodeSkips + (s.skippedBy fetched (s.conclude known store time fetched)).toUInt64 := by
    intro hnot
    rw [skippedBy_of_not_builds hnot]
    exact (UInt64.add_zero _).symm
  cases hends with
  | fetchFaulted => exact hzero fun _ h => nomatch h
  | fetchFailed => exact hzero fun _ h => nomatch h
  | unchanged hk hv =>
    refine hzero ?_
    rintro _ ⟨⟩ hne
    exact absurd hv (hne _ hk)
  | checkFaulted hk ht =>
    refine hzero ?_
    rintro _ ⟨⟩ _ htrue
    exact nomatch ht.symm.trans htrue
  | distrusted hk ht =>
    refine hzero ?_
    rintro _ ⟨⟩ _ htrue
    exact nomatch ht.symm.trans htrue
  | collided hk ht hl =>
    rw [skippedBy_of_builds hk ht, ← skipped_of_error hl]
    rfl
  | installed hk ht hl =>
    rw [skippedBy_of_builds hk ht, ← skipped_of_ok hl]
    rfl
  | stale hk ht hl =>
    rw [skippedBy_of_builds hk ht, ← skipped_of_ok hl]
    rfl
  | rejected hk ht hl =>
    rw [skippedBy_of_builds hk ht, ← skipped_of_ok hl]
    rfl

end Setup

/-! ## The books -/

/-- The counters and the statistics of the store of an instance agree with its history. -/
structure Booked (s : Setup) (store : Store) (k : Counters) (h : History) : Prop where
  named : store.name = s.name
  polls : k.polls = (outcomes h).length.toUInt64
  pollFailures : k.pollFailures = ((outcomes h).count .fetchFailed).toUInt64
  verificationFailures :
    k.verificationFailures = ((outcomes h).count .verificationFailed).toUInt64
  buildFailures : k.buildFailures = ((outcomes h).count .buildFailed).toUInt64
  targets : k.targets = store.size.toUInt64
  decodeSkips : k.decodeSkips = (s.skips h).toUInt64
  installs : store.tally.installs = ((outcomes h).count .published).toUInt64
  stale : store.tally.stale = ((outcomes h).count .stale).toUInt64
  rejected : store.tally.rejected = 0

namespace Booked

variable {s : Setup} {store : Store} {k : Counters} {h : History}

theorem new (s : Setup) : Booked s (Store.new s.name) {} [] :=
  ⟨rfl, rfl, rfl, rfl, rfl, rfl, rfl, rfl, rfl, rfl⟩

/-- The beginning of a cycle or of a loop books nothing. -/
theorem cons (hb : Booked s store k h) {t : Nat} {x : Incident} (hx : ∀ c, x ≠ .ends c) :
    Booked s store k (⟨t, x⟩ :: h) := by
  have houtcomes : outcomes (⟨t, x⟩ :: h) = outcomes h := by
    cases x with
    | ends c => exact absurd rfl (hx c)
    | _ => rfl
  have hskips : s.skips (⟨t, x⟩ :: h) = s.skips h := by
    cases x with
    | ends c => exact absurd rfl (hx c)
    | _ => exact Nat.zero_add _
  constructor
  case named => exact hb.named
  case targets => exact hb.targets
  case decodeSkips => rw [hskips, hb.decodeSkips]
  case rejected => exact hb.rejected
  case polls => rw [houtcomes, hb.polls]
  case pollFailures => rw [houtcomes, hb.pollFailures]
  case verificationFailures => rw [houtcomes, hb.verificationFailures]
  case buildFailures => rw [houtcomes, hb.buildFailures]
  case installs => rw [houtcomes, hb.installs]
  case stale => rw [houtcomes, hb.stale]

theorem recordRestart (hb : Booked s store k h) (degraded : Bool) :
    Booked s store (k.recordRestart degraded) h := by
  cases degraded with
  | _ =>
    exact ⟨hb.named, hb.polls, hb.pollFailures, hb.verificationFailures, hb.buildFailures,
      hb.targets, hb.decodeSkips, hb.installs, hb.stale, hb.rejected⟩

/-- The end of a cycle is booked alike by the counters and by the store. -/
theorem concludes {b : Nat} {first : Store} {reply : Reply}
    (hb : Booked s store k (⟨b, .begins first reply⟩ :: h)) {known : Option Snapshot} {time : Int}
    {c : Conclusion} (hc : c = s.conclude known store time (s.fetched reply)) (t : Nat) :
    Booked s c.store (c.events.foldl Counters.record k)
      (⟨t, .ends c⟩ :: ⟨b, .begins first reply⟩ :: h) := by
  have hends := s.conclude_ends known store time (s.fetched reply)
  have hskips := s.conclude_skips known store time (s.fetched reply) k
  rw [← hc] at hends hskips
  have hcounted := k.recordAll_counted c.events
  rw [show c.events.map CycleEvent.outcome = c.outcomes from hends.outcomes] at hcounted
  obtain ⟨hinstalls, hstale, hrejected⟩ := hends.tally hb.named
  have houtcomes := outcomes_ends t c (⟨b, .begins first reply⟩ :: h)
  constructor
  case named => rw [hends.name, hb.named]
  case polls =>
    rw [hcounted.polls, hb.polls, houtcomes, List.length_append, Nat.add_comm, toUInt64_add]
  case pollFailures =>
    rw [hcounted.pollFailures, hb.pollFailures, houtcomes, List.count_append, Nat.add_comm,
      toUInt64_add]
  case verificationFailures =>
    rw [hcounted.verificationFailures, hb.verificationFailures, houtcomes, List.count_append,
      Nat.add_comm, toUInt64_add]
  case buildFailures =>
    rw [hcounted.buildFailures, hb.buildFailures, houtcomes, List.count_append, Nat.add_comm,
      toUInt64_add]
  case targets => exact hends.targets hb.targets
  case decodeSkips =>
    have hsum : s.skips (⟨t, .ends c⟩ :: ⟨b, .begins first reply⟩ :: h) =
        s.skippedBy (s.fetched reply) c + s.skips (⟨b, .begins first reply⟩ :: h) := rfl
    rw [hskips, hb.decodeSkips, hsum, Nat.add_comm, toUInt64_add]
  case installs =>
    rw [hinstalls, hb.installs, houtcomes, List.count_append, Nat.add_comm, toUInt64_add]
    rfl
  case stale =>
    rw [hstale, hb.stale, houtcomes, List.count_append, Nat.add_comm, toUInt64_add]
    rfl
  case rejected => rw [hrejected, hb.rejected]

end Booked

end TargetDiscovery
