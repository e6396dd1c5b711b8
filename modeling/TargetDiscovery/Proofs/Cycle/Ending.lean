import TargetDiscovery.Cycle.Conclusion

/-!
# The endings of a cycle

A cycle has nine ways to end. Each of them determines what becomes of the store, which events are
reported and what the result is, and nothing else about the answer matters.
-/

set_option autoImplicit false

namespace TargetDiscovery

namespace Store

theorem publish_installed {s : Store} {next : Snapshot} (hname : next.owner = s.name)
    (hnew : s.isNewer next = true) :
    s.publish (some next) =
      (.installed, { s with current := some next, tally := s.tally.count .installed }) := by
  have hjudge : s.judge (some next) = .installed := by simp [judge, hname, hnew]
  simp [publish, hjudge]

theorem publish_stale {s : Store} {next : Snapshot} (hname : next.owner = s.name)
    (hold : s.isNewer next = false) :
    s.publish (some next) = (.stale, { s with tally := s.tally.count .stale }) := by
  have hjudge : s.judge (some next) = .stale := by simp [judge, hname, hold]
  simp [publish, hjudge]

theorem publish_rejected {s : Store} {next : Snapshot} (hname : next.owner ≠ s.name) :
    s.publish (some next) = (.rejected, { s with tally := s.tally.count .rejected }) := by
  have hjudge : s.judge (some next) = .rejected := by simp [judge, hname]
  simp [publish, hjudge]

end Store

/-- What a mark asks of the network: since which version, and within which time. -/
def Mark.call? : Mark → Option (UInt64 × Nat)
  | call since timeout => some (since, timeout)
  | _ => none

namespace Conclusion

def events (c : Conclusion) : List CycleEvent := c.marks.filterMap Mark.event?

theorem events_behind {marks : List Mark} (h : ∀ m ∈ marks, m.event? = none) (c : Conclusion) :
    (c.behind marks).events = c.events := by
  have hnone : marks.filterMap Mark.event? = [] := List.filterMap_eq_nil_iff.mpr h
  simp [events, behind, hnone]

def calls (c : Conclusion) : List (UInt64 × Nat) := c.marks.filterMap Mark.call?

theorem calls_behind {marks : List Mark} (h : ∀ m ∈ marks, m.call? = none) (c : Conclusion) :
    (c.behind marks).calls = c.calls := by
  have hnone : marks.filterMap Mark.call? = [] := List.filterMap_eq_nil_iff.mpr h
  simp [calls, behind, hnone]

end Conclusion

namespace Setup

/-- The ways in which a cycle ends that began with the snapshot `known`, by the result of its fetch:
the store then, the events reported, and the result of the cycle. -/
inductive Ends (s : Setup) (known : Option Snapshot) (store : Store) (time : Int) :
    FetchResult → Store → List CycleEvent → Except Fault Outcome → Prop
  | fetchFaulted {f : Fault} : Ends s known store time (.error f) store [] (.error f)
  | fetchFailed {e : FetchError} : Ends s known store time (.ok (.error e)) store
      [{ owner := s.name, outcome := .fetchFailed, reason := e.reason }] (.ok .fetchFailed)
  | unchanged {state : RegistryState} {k : Snapshot} (hk : known = some k)
      (hv : k.version = state.version) : Ends s known store time (.ok (.ok state)) store
      [{ owner := s.name, outcome := .unchanged, version := state.version }] (.ok .unchanged)
  | checkFaulted {state : RegistryState} {f : Fault} (hk : ∀ k, known = some k →
      k.version ≠ state.version) (ht : s.verifier.trusts state = .error f) :
      Ends s known store time (.ok (.ok state)) store [] (.error f)
  | distrusted {state : RegistryState} (hk : ∀ k, known = some k → k.version ≠ state.version)
      (ht : s.verifier.trusts state = .ok false) : Ends s known store time (.ok (.ok state)) store
      [{ owner := s.name, outcome := .verificationFailed, version := state.version
         reason := distrust state }] (.ok .verificationFailed)
  | collided {state : RegistryState} {c : Collision} (hk : ∀ k, known = some k →
      k.version ≠ state.version) (ht : s.verifier.trusts state = .ok true)
      (hl : s.conversion.listing state.records = .error c) :
      Ends s known store time (.ok (.ok state)) store
      [{ owner := s.name, outcome := .buildFailed, version := state.version
         skipped := c.skipped.toUInt64, reason := c.message }] (.ok .buildFailed)
  | installed {state : RegistryState} {l : Listing} (hk : ∀ k, known = some k →
      k.version ≠ state.version) (ht : s.verifier.trusts state = .ok true)
      (hl : s.conversion.listing state.records = .ok l) (hname : s.name = store.name)
      (hnew : store.isNewer (s.snapshot time state l) = true) :
      Ends s known store time (.ok (.ok state))
      { store with
        current := some (s.snapshot time state l)
        tally := store.tally.count .installed }
      [s.offerEvent state l .installed] (.ok .published)
  | stale {state : RegistryState} {l : Listing} (hk : ∀ k, known = some k →
      k.version ≠ state.version) (ht : s.verifier.trusts state = .ok true)
      (hl : s.conversion.listing state.records = .ok l) (hname : s.name = store.name)
      (hold : store.isNewer (s.snapshot time state l) = false) :
      Ends s known store time (.ok (.ok state)) { store with tally := store.tally.count .stale }
      [s.offerEvent state l .stale] (.ok .stale)
  | rejected {state : RegistryState} {l : Listing} (hk : ∀ k, known = some k →
      k.version ≠ state.version) (ht : s.verifier.trusts state = .ok true)
      (hl : s.conversion.listing state.records = .ok l) (hname : s.name ≠ store.name) :
      Ends s known store time (.ok (.ok state)) { store with tally := store.tally.count .rejected }
      [s.offerEvent state l .rejected] (.ok .buildFailed)

section

variable (s : Setup) (known : Option Snapshot) (store : Store) (time : Int)

theorem offer_ends {state : RegistryState} {l : Listing}
    (hk : ∀ k, known = some k → k.version ≠ state.version)
    (ht : s.verifier.trusts state = .ok true)
    (hl : s.conversion.listing state.records = .ok l) :
    Ends s known store time (.ok (.ok state)) (s.offer store time state l).store
      (s.offer store time state l).events (s.offer store time state l).result := by
  by_cases hname : s.name = store.name
  · have howner : (s.snapshot time state l).owner = store.name := hname
    by_cases hnew : store.isNewer (s.snapshot time state l) = true
    · rw [offer, Store.publish_installed howner hnew]
      exact .installed hk ht hl hname hnew
    · have hold : store.isNewer (s.snapshot time state l) = false := by simpa using hnew
      rw [offer, Store.publish_stale howner hold]
      exact .stale hk ht hl hname hold
  · have howner : (s.snapshot time state l).owner ≠ store.name := hname
    rw [offer, Store.publish_rejected howner]
    exact .rejected hk ht hl hname

theorem list_ends {state : RegistryState} (hk : ∀ k, known = some k → k.version ≠ state.version)
    (ht : s.verifier.trusts state = .ok true) :
    Ends s known store time (.ok (.ok state)) (s.list store time state).store
      (s.list store time state).events (s.list store time state).result := by
  have hsilent : ∀ m ∈ Mark.phase .building ::
      (s.conversion.skipLines state.records).map Mark.line, m.event? = none := by
    intro m hm
    rcases List.mem_cons.mp hm with rfl | hm
    · rfl
    · obtain ⟨line, _, rfl⟩ := List.mem_map.mp hm
      rfl
  rw [list, Conclusion.events_behind hsilent]
  cases hl : s.conversion.listing state.records with
  | ok l => exact offer_ends s known store time hk ht hl
  | error c => exact .collided hk ht hl

theorem verify_ends {state : RegistryState}
    (hk : ∀ k, known = some k → k.version ≠ state.version) :
    Ends s known store time (.ok (.ok state)) (s.verify store time state).store
      (s.verify store time state).events (s.verify store time state).result := by
  have hsilent : ∀ m ∈ [Mark.phase .verifying], m.event? = none := by
    intro m hm
    obtain rfl := List.mem_singleton.mp hm
    rfl
  rw [verify, Conclusion.events_behind hsilent]
  cases ht : s.verifier.trusts state with
  | error f => exact .checkFaulted hk ht
  | ok trusted =>
    cases trusted with
    | true => exact list_ends s known store time hk ht
    | false => exact .distrusted hk ht

/-- A cycle ends in one of these ways. -/
theorem conclude_ends (result : FetchResult) :
    Ends s known store time result (s.conclude known store time result).store
      (s.conclude known store time result).events (s.conclude known store time result).result := by
  match result with
  | .error f => exact .fetchFaulted
  | .ok (.error e) => exact .fetchFailed
  | .ok (.ok state) =>
    rw [conclude]
    split
    · rename_i h
      cases known with
      | none => cases h
      | some k => exact .unchanged rfl (by simpa using h)
    · rename_i h
      apply verify_ends
      intro k hk hv
      simp [hk, hv] at h

theorem conclude_calls (result : FetchResult) :
    (s.conclude known store time result).calls = [] := by
  have hlist : ∀ state, (s.list store time state).calls = [] := by
    intro state
    have hsilent : ∀ m ∈ Mark.phase .building ::
        (s.conversion.skipLines state.records).map Mark.line, m.call? = none := by
      intro m hm
      rcases List.mem_cons.mp hm with rfl | hm
      · rfl
      · obtain ⟨line, _, rfl⟩ := List.mem_map.mp hm
        rfl
    rw [list, Conclusion.calls_behind hsilent]
    split
    · rfl
    · rfl
  match result with
  | .error f => rfl
  | .ok (.error e) => rfl
  | .ok (.ok state) =>
    rw [conclude]
    split
    · rfl
    · rw [verify, Conclusion.calls_behind (by simp [Mark.call?])]
      split
      · rfl
      · exact hlist state
      · rfl

end

theorem Ends.name {s : Setup} {known : Option Snapshot} {store store' : Store} {time : Int}
    {fetched : FetchResult} {events : List CycleEvent} {result : Except Fault Outcome}
    (h : Ends s known store time fetched store' events result) : store'.name = store.name := by
  cases h with
  | _ => rfl

theorem Ends.owner {s : Setup} {known : Option Snapshot} {store store' : Store} {time : Int}
    {fetched : FetchResult} {events : List CycleEvent} {result : Except Fault Outcome}
    (h : Ends s known store time fetched store' events result) : ∀ e ∈ events, e.owner = s.name := by
  cases h with
  | fetchFaulted => simp
  | checkFaulted => simp
  | _ => simp [offerEvent]

/-- The current snapshot changes only by the installation of a listed, trusted state. -/
theorem Ends.current {s : Setup} {known : Option Snapshot} {store store' : Store} {time : Int}
    {fetched : FetchResult} {events : List CycleEvent} {result : Except Fault Outcome}
    (h : Ends s known store time fetched store' events result) :
    store'.current = store.current ∨ ∃ state l, fetched = .ok (.ok state) ∧
      s.verifier.trusts state = .ok true ∧ s.conversion.listing state.records = .ok l ∧
      store'.current = some (s.snapshot time state l) := by
  cases h with
  | installed _ ht hl => exact .inr ⟨_, _, rfl, ht, hl, rfl⟩
  | _ => exact .inl rfl

end Setup

end TargetDiscovery
