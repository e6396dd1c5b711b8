import TargetDiscovery.Poller
import TargetDiscovery.Proofs.Cycle.Ending

/-!
# Reactions of a poller

What a poller does when it leaves a wait and when it ends a cycle. In both cases a stop that was
requested ends the loop; otherwise it goes on to a fetch or to sleep. Nothing but the end of a
cycle touches the store.
-/

set_option autoImplicit false

namespace TargetDiscovery.Poller

theorem leaveWait_of_stop {p : Poller} (h : p.stopRequested = true) :
    p.leaveWait = ⟨{ p with phase := .stopped, activity := .idle },
      [.phase .idle, .phase .stopped], .exited none⟩ := by
  simp [leaveWait, proceed, h, halt, Reaction.behind]

theorem leaveWait_of_go {p : Poller} (h : p.stopRequested = false) :
    p.leaveWait = ⟨{ p with
        phase := .fetching
        fetches := p.fetches + 1
        activity := .fetching p.store.current none },
      [.phase .idle, .phase .fetching, .call p.store.version p.setup.timing.timeout],
      .fetch (p.fetches + 1) p.store.version p.setup.timing.timeout⟩ := by
  simp [leaveWait, proceed, h, beginCycle, Reaction.behind]

def conclusion (p : Poller) (time : Int) (known : Option Snapshot) (result : FetchResult) :
    Conclusion := p.setup.conclude known p.store time result

/-- The end of a cycle changes the store as concluded, and neither setup nor requests. -/
structure Concluded (p q : Poller) (c : Conclusion) : Prop where
  store : q.store = c.store
  setup : q.setup = p.setup
  fetches : q.fetches = p.fetches
  looping : q.looping = p.looping
  stopRequested : q.stopRequested = p.stopRequested

theorem endCycle_concluded (p : Poller) (time : Int) (known : Option Snapshot)
    (result : FetchResult) :
    Concluded p (p.endCycle time known result).poller (p.conclusion time known result) := by
  simp only [endCycle, Reaction.behind, conclusion]
  cases (p.setup.conclude known p.store time result).result with
  | error f => exact ⟨rfl, rfl, rfl, rfl, rfl⟩
  | ok o =>
    simp only [afterCycle]
    split
    · simp only [rest, delayAfter, Reaction.behind]
      split
      · exact ⟨rfl, rfl, rfl, rfl, rfl⟩
      · exact ⟨rfl, rfl, rfl, rfl, rfl⟩
    · exact ⟨rfl, rfl, rfl, rfl, rfl⟩

/-- Behind a cycle the loop ends, or it sleeps. -/
inductive Rests (r : Reaction) : Prop
  | exits (fault : Option Fault) (next : r.next = .exited fault)
      (activity : r.poller.activity = .idle)
  | sleeps (delay : Nat) (next : r.next = .sleep delay) (activity : r.poller.activity = .sleeping)

theorem endCycle_rests {p : Poller} (hl : p.looping = true) (time : Int)
    (known : Option Snapshot) (result : FetchResult) : Rests (p.endCycle time known result) := by
  simp only [endCycle, Reaction.behind]
  cases (p.setup.conclude known p.store time result).result with
  | error f => exact .exits (some f) (by simp [afterCycle, hl]) (by simp [afterCycle])
  | ok o =>
    simp only [afterCycle, hl, if_true, rest, delayAfter, Reaction.behind]
    by_cases hs : p.stopRequested = true
    · exact .exits none (by simp [hs, halt]) (by simp [hs, halt])
    · simp only [hs]
      exact .sleeps _ rfl rfl

/-- A poller that runs single cycles touches its store only when it finishes one. -/
theorem react_single {p : Poller} (hl : p.looping = false) (time : Int) {t : Task}
    (ht : t ≠ .begin) :
    (∃ result, (p.react time t).next = .finished result) ∨
      (p.react time t).poller.store = p.store ∧ (p.react time t).poller.looping = false := by
  have hend : ∀ known result, ∃ r, (p.endCycle time known result).next = .finished r := by
    intro known result
    simp only [endCycle, Reaction.behind]
    cases (p.setup.conclude known p.store time result).result with
    | error f => exact ⟨.error f, by simp [afterCycle, hl]⟩
    | ok o => exact ⟨.ok o, by simp [afterCycle, hl]⟩
  cases t with
  | begin => exact absurd rfl ht
  | once => exact .inr ⟨rfl, rfl⟩
  | reply number result =>
    right
    simp only [react]
    split
    · split
      · exact ⟨rfl, hl⟩
      · exact ⟨rfl, hl⟩
    · exact ⟨rfl, hl⟩
  | deadline number | resume number =>
    simp only [react]
    split
    · split
      · exact .inl (hend _ _)
      · exact .inr ⟨rfl, hl⟩
    · exact .inr ⟨rfl, hl⟩
  | wake =>
    right
    simp only [react]
    split
    · cases hs : p.stopRequested with
      | true =>
        rw [leaveWait_of_stop hs]
        exact ⟨rfl, hl⟩
      | false =>
        rw [leaveWait_of_go hs]
        exact ⟨rfl, hl⟩
    · exact ⟨rfl, hl⟩
  | interrupt => exact .inr ⟨rfl, hl⟩

/-! ## What no reaction changes -/

/-- The reactions of a poller. -/
inductive Reacts (p : Poller) (time : Int) : Reaction → Prop
  | ignores : Reacts p time p.ignore
  | leaves : Reacts p time p.leaveWait
  | launches : Reacts p time { p with looping := true }.leaveWait
  | begins : Reacts p time { p with looping := false }.beginCycle
  | settles (known : Option Snapshot) (result : FetchResult) (n : Nat) :
      Reacts p time ⟨{ p with activity := .fetching known (some result) }, [], .settle n⟩
  | ends (known : Option Snapshot) (result : FetchResult) :
      Reacts p time (p.endCycle time known result)
  | rouses : Reacts p time ⟨p, [], .rouse⟩

theorem react_reacts (p : Poller) (time : Int) (t : Task) : Reacts p time (p.react time t) := by
  cases t with
  | begin => exact .launches
  | once => exact .begins
  | interrupt => exact .rouses
  | wake =>
    simp only [react]
    split
    · exact .leaves
    · exact .ignores
  | reply n result =>
    simp only [react]
    split
    · split
      · exact .settles _ _ _
      · exact .ignores
    · exact .ignores
  | deadline n | resume n =>
    simp only [react]
    split
    · split
      · exact .ends _ _
      · exact .ignores
    · exact .ignores

def Same (p q : Poller) : Prop := q.setup = p.setup ∧ q.backoff.policy = p.backoff.policy

theorem leaveWait_same (p : Poller) : Same p p.leaveWait.poller := by
  cases hs : p.stopRequested with
  | true =>
    rw [leaveWait_of_stop hs]
    exact ⟨rfl, rfl⟩
  | false =>
    rw [leaveWait_of_go hs]
    exact ⟨rfl, rfl⟩

theorem afterCycle_same (p : Poller) (result : Except Fault Outcome) :
    Same p (p.afterCycle result).poller := by
  have hdelay : ∀ o, Same p (p.delayAfter o).2 := by
    intro o
    simp only [delayAfter]
    cases o.isFailure with
    | true => exact ⟨rfl, rfl⟩
    | false => exact ⟨rfl, rfl⟩
  cases result with
  | error f => exact ⟨rfl, rfl⟩
  | ok o =>
    simp only [afterCycle]
    split
    · simp only [rest, Reaction.behind]
      split
      · exact hdelay o
      · exact hdelay o
    · exact ⟨rfl, rfl⟩

theorem Reacts.same {p : Poller} {time : Int} {r : Reaction} (h : Reacts p time r) :
    Same p r.poller := by
  cases h with
  | leaves => exact leaveWait_same p
  | launches => exact leaveWait_same { p with looping := true }
  | ends known result => exact afterCycle_same _ _
  | _ => exact ⟨rfl, rfl⟩

def Reaction.events (r : Reaction) : List CycleEvent := r.marks.filterMap Mark.event?

theorem events_leaveWait (p : Poller) : p.leaveWait.events = [] := by
  cases hs : p.stopRequested with
  | true =>
    rw [leaveWait_of_stop hs]
    rfl
  | false =>
    rw [leaveWait_of_go hs]
    rfl

theorem events_afterCycle (p : Poller) (result : Except Fault Outcome) :
    (p.afterCycle result).events = [] := by
  cases result with
  | error f => rfl
  | ok o =>
    simp only [afterCycle]
    split
    · simp only [rest]
      split
      · rfl
      · rfl
    · rfl

theorem events_endCycle (p : Poller) (time : Int) (known : Option Snapshot) (result : FetchResult) :
    (p.endCycle time known result).events = (p.conclusion time known result).events := by
  have hafter := events_afterCycle
  simp only [Reaction.events] at hafter
  simp only [endCycle, Reaction.events, Reaction.behind, List.filterMap_append, hafter,
    List.append_nil]
  rfl

theorem Reacts.owner {p : Poller} {time : Int} {r : Reaction} (h : Reacts p time r) :
    ∀ e ∈ r.events, e.owner = p.setup.name := by
  cases h with
  | leaves => simp [events_leaveWait]
  | launches => simp [events_leaveWait]
  | ends known result =>
    rw [events_endCycle]
    exact (p.setup.conclude_ends known p.store time result).owner
  | _ => simp [Reaction.events, ignore, beginCycle, Mark.event?]

/-! ## The end of a loop without a fault -/

theorem stopped_of_leaveWait {p : Poller} (h : p.leaveWait.next = .exited none) :
    p.leaveWait.poller.phase = .stopped := by
  cases hs : p.stopRequested with
  | true =>
    rw [leaveWait_of_stop hs]
  | false =>
    rw [leaveWait_of_go hs] at h
    cases h

theorem stopped_of_rest {p : Poller} {o : Outcome} (h : (p.rest o).next = .exited none) :
    (p.rest o).poller.phase = .stopped := by
  simp only [rest, Reaction.behind] at h ⊢
  split at h
  · rename_i hs
    rw [if_pos hs]
    rfl
  · cases h

theorem stopped_of_afterCycle {p : Poller} {result : Except Fault Outcome}
    (h : (p.afterCycle result).next = .exited none) :
    (p.afterCycle result).poller.phase = .stopped := by
  cases result with
  | error f =>
    simp only [afterCycle] at h
    split at h
    · cases h
    · cases h
  | ok o =>
    simp only [afterCycle] at h ⊢
    split at h
    · rename_i hl
      rw [if_pos hl]
      exact stopped_of_rest h
    · cases h

/-- A loop that ends without a fault leaves the poller stopped. -/
theorem Reacts.stopped {p : Poller} {time : Int} {r : Reaction} (hr : Reacts p time r)
    (h : r.next = .exited none) : r.poller.phase = .stopped := by
  cases hr with
  | leaves => exact stopped_of_leaveWait h
  | launches => exact stopped_of_leaveWait h
  | ends => exact stopped_of_afterCycle h
  | _ => cases h

end TargetDiscovery.Poller
