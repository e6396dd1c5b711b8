import TargetDiscovery.Proofs.Backoff
import TargetDiscovery.Proofs.Poller.Reaction
import TargetDiscovery.Supervisor.Slot

/-!
# Turns apart from the time of day

The time of day goes into a snapshot and comes out nowhere else, and without jitter the random words
of a backoff are never drawn. What an instance does is therefore the same whatever these are.
-/

set_option autoImplicit false

namespace TargetDiscovery

def Snapshot.untimed (s : Snapshot) : Snapshot := { s with fetchedAt := 0 }

def Store.untimed (s : Store) : Store := { s with current := s.current.map Snapshot.untimed }

def Backoff.unseeded (b : Backoff) : Backoff := { b with random := ⟨[]⟩ }

namespace Poller

def untimedActivity : Activity → Activity
  | .fetching known answer => .fetching (known.map Snapshot.untimed) answer
  | .idle => .idle
  | .sleeping => .sleeping

def untimed (p : Poller) : Poller :=
  { p with
    store := p.store.untimed
    backoff := p.backoff.unseeded
    activity := untimedActivity p.activity }

end Poller

def Poller.Reaction.untimed (r : Poller.Reaction) : Poller.Reaction :=
  { r with poller := r.poller.untimed }

def Conclusion.untimed (c : Conclusion) : Conclusion := { c with store := c.store.untimed }

namespace Slot

/-- The instance without the time of its snapshot and without random words. -/
def untimed (s : Slot) : Slot :=
  { s with poller := s.poller.untimed, restartBackoff := s.restartBackoff.unseeded }

def Turn.untimed (u : Turn) : Turn := { u with slot := u.slot.untimed }

/-- No delay of the instance has jitter. -/
structure Even (s : Slot) : Prop where
  poll : s.poller.backoff.policy.jitter ≤ 0.0
  restart : s.restartBackoff.policy.jitter ≤ 0.0

end Slot

/-! ## Cycles -/

theorem Store.version_untimed (s : Store) : s.untimed.version = s.version := by
  cases hc : s.current <;> simp [version, untimed, hc, Snapshot.untimed]

theorem Store.isNewer_untimed (s : Store) (next : Snapshot) :
    s.untimed.isNewer next.untimed = s.isNewer next := by
  simp only [isNewer, untimed]
  cases s.current with
  | none => rfl
  | some k => rfl

theorem Store.judge_untimed (s : Store) (next : Snapshot) :
    s.untimed.judge (some next.untimed) = s.judge (some next) := by
  simp only [judge, isNewer_untimed]
  rfl

theorem Store.publish_untimed (s : Store) (next : Snapshot) :
    s.untimed.publish (some next.untimed) =
      ((s.publish (some next)).1, (s.publish (some next)).2.untimed) := by
  rw [publish, judge_untimed]
  by_cases hv : s.judge (some next) = .installed
  · simp [publish, untimed, hv]
  · simp [publish, untimed, hv]

namespace Setup

variable (s : Setup) (known : Option Snapshot) (store : Store) (time : Int)

theorem offer_untimed (state : RegistryState) (l : Listing) :
    s.offer store.untimed 0 state l = (s.offer store time state l).untimed := by
  have hsnapshot : s.snapshot 0 state l = (s.snapshot time state l).untimed := rfl
  rw [offer, hsnapshot, Store.publish_untimed]
  rfl

theorem list_untimed (state : RegistryState) :
    s.list store.untimed 0 state = (s.list store time state).untimed := by
  simp only [list]
  cases s.conversion.listing state.records with
  | ok l =>
    simp only [s.offer_untimed store time]
    rfl
  | error c => rfl

theorem verify_untimed (state : RegistryState) :
    s.verify store.untimed 0 state = (s.verify store time state).untimed := by
  simp only [verify]
  cases s.verifier.trusts state with
  | error f => rfl
  | ok trusted =>
    cases trusted with
    | true =>
      simp only [s.list_untimed store time]
      rfl
    | false => rfl

theorem conclude_untimed (result : FetchResult) :
    s.conclude (known.map Snapshot.untimed) store.untimed 0 result =
      (s.conclude known store time result).untimed := by
  match result with
  | .error f => rfl
  | .ok (.error e) => rfl
  | .ok (.ok state) =>
    have hknown : ((known.map Snapshot.untimed).any fun k => k.version = state.version) =
        known.any fun k => k.version = state.version := by
      cases known with
      | none => rfl
      | some k => rfl
    simp only [conclude, hknown, s.verify_untimed store time]
    split
    · rfl
    · rfl

end Setup

/-! ## Backoffs -/

theorem Backoff.next_unseeded {b : Backoff} (h : b.policy.jitter ≤ 0.0) :
    b.unseeded.next = (b.next.1, b.next.2.unseeded) := by
  simp only [next, unseeded, Policy.spread_of_even h]
  rfl

/-! ## Reactions -/

namespace Poller

variable {p : Poller}

theorem leaveWait_untimed (p : Poller) : p.untimed.leaveWait = p.leaveWait.untimed := by
  have hversion : p.untimed.store.version = p.store.version := p.store.version_untimed
  cases hs : p.stopRequested with
  | true =>
    rw [leaveWait_of_stop hs, leaveWait_of_stop (p := p.untimed) hs]
    rfl
  | false =>
    rw [leaveWait_of_go hs, leaveWait_of_go (p := p.untimed) hs, hversion]
    rfl

theorem delayAfter_untimed (h : p.backoff.policy.jitter ≤ 0.0) (o : Outcome) :
    p.untimed.delayAfter o = ((p.delayAfter o).1, (p.delayAfter o).2.untimed) := by
  have hnext : p.untimed.backoff.next = (p.backoff.next.1, p.backoff.next.2.unseeded) :=
    Backoff.next_unseeded h
  simp only [delayAfter, hnext]
  cases o.isFailure with
  | true => rfl
  | false => rfl

theorem rest_untimed (h : p.backoff.policy.jitter ≤ 0.0) (o : Outcome) :
    p.untimed.rest o = (p.rest o).untimed := by
  have hstop : (p.delayAfter o).2.untimed.stopRequested = (p.delayAfter o).2.stopRequested := rfl
  simp only [rest, delayAfter_untimed h, hstop]
  cases (p.delayAfter o).2.stopRequested with
  | true => rfl
  | false => rfl

theorem afterCycle_untimed (h : p.backoff.policy.jitter ≤ 0.0) (result : Except Fault Outcome) :
    p.untimed.afterCycle result = (p.afterCycle result).untimed := by
  have hlooping : p.untimed.looping = p.looping := rfl
  cases result with
  | error f => rfl
  | ok o =>
    simp only [afterCycle, hlooping, rest_untimed h]
    cases p.looping with
    | true => rfl
    | false => rfl

theorem endCycle_untimed (h : p.backoff.policy.jitter ≤ 0.0) (time : Int)
    (known : Option Snapshot) (result : FetchResult) :
    p.untimed.endCycle 0 (known.map Snapshot.untimed) result =
      (p.endCycle time known result).untimed := by
  have hc := p.setup.conclude_untimed known p.store time result
  have hsetup : p.untimed.setup = p.setup := rfl
  have hstore : p.untimed.store = p.store.untimed := rfl
  have hafter : ∀ (store : Store) (phase : Phase) (r : Except Fault Outcome),
      { p.untimed with store := store.untimed, phase := phase, activity := .idle }.afterCycle r =
        ({ p with store := store, phase := phase, activity := .idle }.afterCycle r).untimed :=
    fun store phase r =>
      afterCycle_untimed (p := { p with store := store, phase := phase, activity := .idle }) h r
  simp only [endCycle, hsetup, hstore, hc, Conclusion.untimed]
  exact congrArg (Reaction.behind _) (hafter _ _ _)

theorem react_untimed (h : p.backoff.policy.jitter ≤ 0.0) (time : Int) (t : Task) :
    p.untimed.react 0 t = (p.react time t).untimed := by
  have hfetches : p.untimed.fetches = p.fetches := rfl
  have hactivity : p.untimed.activity = untimedActivity p.activity := rfl
  have htimeout : p.untimed.setup.timeoutResult = p.setup.timeoutResult := rfl
  cases t with
  | begin => exact leaveWait_untimed { p with looping := true }
  | once =>
    have hversion : p.untimed.store.version = p.store.version := p.store.version_untimed
    simp only [react, beginCycle, hversion]
    rfl
  | interrupt => rfl
  | wake =>
    simp only [react, hactivity]
    cases p.activity with
    | sleeping => exact leaveWait_untimed p
    | _ => rfl
  | reply n result =>
    simp only [react, hactivity, hfetches]
    cases p.activity with
    | fetching known answer =>
      cases answer with
      | none =>
        by_cases hn : n = p.fetches
        · simp only [untimedActivity, if_pos hn]
          rfl
        · simp only [untimedActivity, if_neg hn]
          rfl
      | some answer => rfl
    | _ => rfl
  | deadline n | resume n =>
    simp only [react, hactivity, hfetches, htimeout]
    cases p.activity with
    | fetching known answer =>
      by_cases hn : n = p.fetches
      · simp only [untimedActivity, if_pos hn]
        exact endCycle_untimed h time known _
      · simp only [untimedActivity, if_neg hn]
        rfl
    | _ => rfl

end Poller

/-! ## Turns -/

namespace Slot

variable {s : Slot} (rule : RestartRule) (stopping : Bool)

theorem onExit_untimed (h : s.restartBackoff.policy.jitter ≤ 0.0) (fault : Option Fault) :
    s.untimed.onExit rule stopping fault = (s.onExit rule stopping fault).untimed := by
  have hnext : s.untimed.restartBackoff.next =
      (s.restartBackoff.next.1, s.restartBackoff.next.2.unseeded) := Backoff.next_unseeded h
  have hrestarts : s.untimed.restarts = s.restarts := rfl
  cases fault with
  | none => rfl
  | some fault =>
    simp only [onExit, scheduleRestart, hnext, hrestarts]
    cases stopping with
    | true => rfl
    | false =>
      by_cases hlimit : rule.limit ≤ s.restarts
      · simp only [if_pos hlimit]
        rfl
      · simp only [if_neg hlimit]
        rfl

theorem accept_untimed (ask : UInt64 × Nat → Reply) (h : s.Even) (r : Poller.Reaction) :
    s.untimed.accept rule stopping ask r.untimed =
      (s.accept rule stopping ask r).untimed := by
  have hafter : afterReaction rule stopping { s.untimed with poller := r.poller.untimed } r.next =
      (afterReaction rule stopping { s with poller := r.poller } r.next).untimed := by
    cases r.next with
    | exited fault =>
      exact onExit_untimed (s := { s with poller := r.poller }) rule stopping h.restart fault
    | _ => rfl
  simp only [accept, Poller.Reaction.untimed, hafter]
  rfl

theorem turn_untimed (ask : UInt64 × Nat → Reply) (h : s.Even) (time : Int) (t : SlotTask) :
    s.untimed.turn rule stopping 0 ask t = (s.turn rule stopping time ask t).untimed := by
  cases t with
  | poll task =>
    have hreact : s.untimed.poller.react 0 task = (s.poller.react time task).untimed :=
      Poller.react_untimed h.poll time task
    simp only [turn, hreact]
    exact accept_untimed rule stopping ask h _
  | restart =>
    have hstop : s.untimed.poller.stopRequested = s.poller.stopRequested := rfl
    simp only [turn, restart, hstop]
    cases s.poller.stopRequested with
    | true => rfl
    | false => rfl
  | restartDropped => rfl
  | dropRestart => rfl

/-! ## What no turn changes -/

/-- The second instance has the setup of the first one, and delays by the same policies. -/
def Same (s s' : Slot) : Prop :=
  Poller.Same s.poller s'.poller ∧ s'.restartBackoff.policy = s.restartBackoff.policy

theorem Same.name {s' : Slot} (h : Same s s') : s'.name = s.name := congrArg Setup.name h.1.1

theorem Same.even {s' : Slot} (h : Same s s') (he : s.Even) : s'.Even := by
  constructor
  · rw [h.1.2]
    exact he.poll
  · rw [h.2]
    exact he.restart

theorem onExit_same (s : Slot) (fault : Option Fault) :
    Same s (s.onExit rule stopping fault).slot := by
  cases fault with
  | none => exact ⟨⟨rfl, rfl⟩, rfl⟩
  | some fault =>
    simp only [onExit, Turn.behind]
    split
    · exact ⟨⟨rfl, rfl⟩, rfl⟩
    · split
      · exact ⟨⟨rfl, rfl⟩, rfl⟩
      · exact ⟨⟨rfl, rfl⟩, Backoff.policy_next _⟩

theorem accept_same (ask : UInt64 × Nat → Reply) {r : Poller.Reaction}
    (h : Poller.Same s.poller r.poller) : Same s (s.accept rule stopping ask r).slot := by
  have hslot : (s.accept rule stopping ask r).slot =
      (afterReaction rule stopping { s with poller := r.poller } r.next).slot := rfl
  rw [hslot]
  cases r.next with
  | exited fault =>
    have hexit := onExit_same rule stopping { s with poller := r.poller } fault
    exact ⟨⟨hexit.1.1.trans h.1, hexit.1.2.trans h.2⟩, hexit.2⟩
  | _ => exact ⟨h, rfl⟩

theorem turn_same (ask : UInt64 × Nat → Reply) (s : Slot) (time : Int) (t : SlotTask) :
    Same s (s.turn rule stopping time ask t).slot := by
  cases t with
  | poll task => exact accept_same rule stopping ask (Poller.react_reacts s.poller time task).same
  | restart =>
    simp only [turn, restart]
    split
    · exact ⟨⟨rfl, rfl⟩, rfl⟩
    · exact ⟨⟨rfl, rfl⟩, rfl⟩
  | restartDropped => exact ⟨⟨rfl, rfl⟩, rfl⟩
  | dropRestart => exact ⟨⟨rfl, rfl⟩, rfl⟩

theorem turn_owner (ask : UInt64 × Nat → Reply) (s : Slot) (time : Int) (t : SlotTask) :
    ∀ e ∈ (s.turn rule stopping time ask t).marks.filterMap Mark.event?, e.owner = s.name := by
  cases t with
  | poll task => exact (Poller.react_reacts s.poller time task).owner
  | restart =>
    simp only [turn, restart]
    split
    · simp [finish]
    · simp
  | restartDropped => simp [turn, finish]
  | dropRestart => simp [turn]

end Slot

end TargetDiscovery
