import Mathlib.Data.List.Chain
import TargetDiscovery.Proofs.Schedule

/-!
# Phases of a poller

The changes of phase are a small graph. A cycle goes through it from fetching on as far as its
conclusion lets it, and a loop that leaves a wait passes idle. So the phases that one reaction shows
are a path in the graph, and the poller is left in the last of them.
-/

set_option autoImplicit false

namespace TargetDiscovery

namespace Phase

/-- Whether a cycle is under way. -/
def isWorking : Phase → Bool
  | fetching | verifying | building | publishing => true
  | idle | backoffWait | stopped => false

/-- The changes of phase. Fetching leads back to idle if the version is `unchanged`, and so does any
work of a loop that is begun `again`. -/
inductive Turns (unchanged again : Prop) : Phase → Phase → Prop
  | fetches : Turns unchanged again idle fetching
  | verifies : Turns unchanged again fetching verifying
  | builds : Turns unchanged again verifying building
  | publishes : Turns unchanged again building publishing
  | keeps (hu : unchanged) : Turns unchanged again fetching idle
  | rests : Turns unchanged again publishing idle
  | fails {p : Phase} (hp : p = fetching ∨ p = verifying ∨ p = building) :
      Turns unchanged again p backoffWait
  | wakes : Turns unchanged again backoffWait idle
  | stops {p : Phase} (hp : p = idle ∨ p = backoffWait) : Turns unchanged again p stopped
  | relaunches {p : Phase} (hp : p.isWorking = true) (ha : again) : Turns unchanged again p idle

/-- A phase stays as it is, or turns into another one. -/
def Steps (unchanged again : Prop) (p q : Phase) : Prop := p = q ∨ Turns unchanged again p q

section

variable {unchanged again : Prop} {p q : Phase}

theorem Steps.mono {unchanged' again' : Prop} (hu : unchanged → unchanged') (ha : again → again')
    (h : Steps unchanged again p q) : Steps unchanged' again' p q := by
  rcases h with rfl | h
  · exact .inl rfl
  right
  cases h with
  | fetches => exact .fetches
  | verifies => exact .verifies
  | builds => exact .builds
  | publishes => exact .publishes
  | keeps h => exact .keeps (hu h)
  | rests => exact .rests
  | fails hp => exact .fails hp
  | wakes => exact .wakes
  | stops hp => exact .stops hp
  | relaunches hp h => exact .relaunches hp (ha h)

/-- Nothing leads out of the stopped phase. -/
theorem Steps.stopped (h : Steps unchanged again .stopped q) : q = .stopped := by
  rcases h with h | h
  · exact h.symm
  · cases h with
    | fails hp => rcases hp with hp | hp | hp <;> cases hp
    | stops => rfl
    | relaunches hp => cases hp

theorem getLast?_of_stopped {walk : List Phase} (h : walk.IsChain (Steps unchanged again))
    (hs : stopped ∈ walk) : walk.getLast? = some stopped := by
  induction h with
  | nil => cases hs
  | singleton p => rw [List.mem_singleton.mp hs, List.getLast?_singleton]
  | cons_cons hstep _ ih =>
    rw [List.getLast?_cons_cons]
    apply ih
    rcases List.mem_cons.mp hs with rfl | hs
    · exact List.mem_cons.mpr (.inl hstep.stopped.symm)
    · exact hs

end

/-- The phases shown behind a cycle, where the loop goes to sleep, halts or fails. -/
def behind (stop : Bool) : Except Fault Outcome → List Phase
  | .ok o => after o :: if stop then [stopped] else []
  | .error _ => []

theorem after_eq (o : Outcome) : after o = idle ∨ after o = backoffWait := by
  rw [after]
  split
  · exact .inr rfl
  · exact .inl rfl

section

variable {stop : Bool} {result : Except Fault Outcome}

theorem backoffWait_mem_behind : backoffWait ∈ behind stop result ↔
    ∃ o, result = .ok o ∧ o.isFailure = true := by
  cases result with
  | error f => simp [behind]
  | ok o =>
    have hstop : backoffWait ∉ if stop then [stopped] else [] := by cases stop <;> simp
    cases ho : o.isFailure with
    | true => simp [behind, after, ho]
    | false => simp [behind, after, ho, hstop]

theorem working_not_mem_behind {p : Phase} (hp : p.isWorking = true) : p ∉ behind stop result := by
  cases result with
  | error f => exact List.not_mem_nil
  | ok o =>
    intro hmem
    rcases List.mem_cons.mp hmem with rfl | hmem
    · cases ho : o.isFailure <;> simp [after, ho, isWorking] at hp
    · cases stop with
      | false => cases hmem
      | true => cases List.mem_singleton.mp hmem; cases hp

theorem stop_of_stopped_mem_behind (h : stopped ∈ behind stop result) : stop = true := by
  cases stop with
  | true => rfl
  | false =>
    cases result with
    | error f => cases h
    | ok o => cases ho : o.isFailure <;> simp [behind, after, ho] at h

end

end Phase

namespace Mark

def phases (marks : List Mark) : List Phase := marks.filterMap phase?

theorem phases_append (marks more : List Mark) :
    phases (marks ++ more) = phases marks ++ phases more := List.filterMap_append

theorem phases_lines (lines : List LogLine) : phases (lines.map line) = [] := by
  refine List.filterMap_eq_nil_iff.mpr fun m hm => ?_
  obtain ⟨l, _, rfl⟩ := List.mem_map.mp hm
  rfl

theorem lastPhase_eq (p : Phase) (marks : List Mark) :
    lastPhase p marks = ((phases marks).getLast?).getD p := rfl

theorem lastPhase_append (p : Phase) (marks more : List Mark) :
    lastPhase p (marks ++ more) = lastPhase (lastPhase p marks) more := by
  rw [lastPhase_eq, lastPhase_eq, lastPhase_eq, phases_append, List.getLast?_append]
  cases (phases more).getLast? <;> rfl

end Mark

/-! ## The phases of a cycle -/

namespace Setup

/-- The fetch brought a state that the verifier trusts. -/
def Verified (s : Setup) (fetched : FetchResult) : Prop :=
  ∃ state, fetched = .ok (.ok state) ∧ s.verifier.trusts state = .ok true

/-- The phases that a cycle passes behind its fetch, by its result. -/
inductive Passes (s : Setup) (fetched : FetchResult) : List Phase → Except Fault Outcome → Prop
  | faulted {f : Fault} : Passes s fetched [] (.error f)
  | failed : Passes s fetched [] (.ok .fetchFailed)
  | unchanged : Passes s fetched [] (.ok .unchanged)
  | unchecked {f : Fault} : Passes s fetched [.verifying] (.error f)
  | distrusted : Passes s fetched [.verifying] (.ok .verificationFailed)
  | collided (ht : s.Verified fetched) : Passes s fetched [.verifying, .building] (.ok .buildFailed)
  | offered {o : Outcome} (ht : s.Verified fetched) (ho : o = .published ∨ o = .stale) :
      Passes s fetched [.verifying, .building, .publishing] (.ok o)

section

variable (s : Setup) {store : Store} (time : Int)

theorem list_passes {state : RegistryState} (hname : store.name = s.name)
    (ht : s.verifier.trusts state = .ok true) :
    s.Passes (.ok (.ok state)) (.verifying :: Mark.phases (s.list store time state).marks)
      (s.list store time state).result := by
  have hverified : s.Verified (.ok (.ok state)) := ⟨state, rfl, ht⟩
  have hbegin : Mark.phases (.phase .building :: (s.conversion.skipLines state.records).map
      Mark.line) = [.building] := congrArg (Phase.building :: ·) (Mark.phases_lines _)
  simp only [list, Conclusion.behind, Mark.phases_append, hbegin]
  cases s.conversion.listing state.records with
  | error c => exact .collided hverified
  | ok l =>
    -- The snapshot has the name of the store, so the store does not reject it.
    have howner : (s.snapshot time state l).owner = store.name := hname.symm
    cases hnew : store.isNewer (s.snapshot time state l) with
    | true =>
      simp only [offer, Store.publish_installed howner hnew]
      exact .offered hverified (.inl rfl)
    | false =>
      simp only [offer, Store.publish_stale howner hnew]
      exact .offered hverified (.inr rfl)

theorem verify_passes (state : RegistryState) (hname : store.name = s.name) :
    s.Passes (.ok (.ok state)) (Mark.phases (s.verify store time state).marks)
      (s.verify store time state).result := by
  simp only [verify, Conclusion.behind, Mark.phases_append]
  cases ht : s.verifier.trusts state with
  | error f => exact .unchecked
  | ok trusted =>
    cases trusted with
    | true => exact s.list_passes time hname ht
    | false => exact .distrusted

theorem conclude_passes (known : Option Snapshot) (fetched : FetchResult)
    (hname : store.name = s.name) :
    s.Passes fetched (Mark.phases (s.conclude known store time fetched).marks)
      (s.conclude known store time fetched).result := by
  match fetched with
  | .error f => exact .faulted
  | .ok (.error e) => exact .failed
  | .ok (.ok state) =>
    rw [conclude]
    split
    · exact .unchanged
    · exact s.verify_passes time state hname

end

section

variable {s : Setup} {fetched : FetchResult} {walk : List Phase} {result : Except Fault Outcome}

/-- From fetching a cycle goes on along the graph, to the phase behind it. -/
theorem Passes.steps (h : s.Passes fetched walk result) (stop : Bool) (again : Prop) :
    (Phase.fetching :: (walk ++ Phase.behind stop result)).IsChain
      (Phase.Steps (result = .ok .unchanged) again) := by
  have hbehind : ∀ p q : Phase, Phase.Turns (result = .ok .unchanged) again p q →
      q = .idle ∨ q = .backoffWait →
        (p :: q :: if stop then [Phase.stopped] else []).IsChain
          (Phase.Steps (result = .ok .unchanged) again) := by
    intro p q hpq hq
    refine .cons_cons (.inr hpq) ?_
    cases stop with
    | false => exact .singleton q
    | true => exact .cons_cons (.inr (.stops hq)) (.singleton _)
  cases h with
  | faulted => exact .singleton _
  | unchecked => exact .cons_cons (.inr .verifies) (.singleton _)
  | failed => exact hbehind _ _ (.fails (.inl rfl)) (.inr rfl)
  | unchanged => exact hbehind _ _ (.keeps rfl) (.inl rfl)
  | distrusted =>
    exact .cons_cons (.inr .verifies) (hbehind _ _ (.fails (.inr (.inl rfl))) (.inr rfl))
  | collided =>
    exact .cons_cons (.inr .verifies) (.cons_cons (.inr .builds)
      (hbehind _ _ (.fails (.inr (.inr rfl))) (.inr rfl)))
  | offered _ ho =>
    have hrests := hbehind .publishing .idle .rests (.inl rfl)
    rcases ho with rfl | rfl
    · exact .cons_cons (.inr .verifies) (.cons_cons (.inr .builds)
        (.cons_cons (.inr .publishes) hrests))
    · exact .cons_cons (.inr .verifies) (.cons_cons (.inr .builds)
        (.cons_cons (.inr .publishes) hrests))

theorem Passes.working (h : s.Passes fetched walk result) : ∀ p ∈ walk, p.isWorking = true := by
  cases h with
  | _ => simp [Phase.isWorking]

/-- A cycle that fails leaves the poller at work. -/
theorem Passes.working_of_error {f : Fault} (h : s.Passes fetched walk (.error f)) (stop : Bool) :
    (((walk ++ Phase.behind stop (.error f)).getLast?).getD .fetching).isWorking = true := by
  cases h with
  | faulted => rfl
  | unchecked => rfl

/-- Building and publishing are for states that are trusted. -/
theorem Passes.verified (h : s.Passes fetched walk result)
    (hb : .building ∈ walk ∨ .publishing ∈ walk) : s.Verified fetched := by
  cases h with
  | collided ht => exact ht
  | offered ht => exact ht
  | _ => simp at hb

end

end Setup

/-! ## The phases of a reaction -/

namespace Poller

def Reaction.phases (r : Reaction) : List Phase := Mark.phases r.marks

theorem phases_leaveWait (p : Poller) :
    p.leaveWait.phases = [.idle, if p.stopRequested then .stopped else .fetching] := by
  cases hs : p.stopRequested with
  | true =>
    rw [leaveWait_of_stop hs]
    rfl
  | false =>
    rw [leaveWait_of_go hs]
    rfl

theorem phases_endCycle {p : Poller} (hl : p.looping = true) (time : Int) (known : Option Snapshot)
    (result : FetchResult) :
    (p.endCycle time known result).phases =
      Mark.phases (p.conclusion time known result).marks ++
        Phase.behind p.stopRequested (p.conclusion time known result).result := by
  rw [endCycle_eq, Reaction.phases, Reaction.behind, Mark.phases_append]
  generalize p.conclusion time known result = c
  congr 1
  cases c.result with
  | error f => rfl
  | ok o =>
    have hafter : (p.closed c).afterCycle (.ok o) = (p.closed c).rest o := if_pos hl
    have hstop : (p.closed c).stopRequested = p.stopRequested := rfl
    rw [hafter, rest]
    simp only [delayAfter, Reaction.behind]
    cases hs : p.stopRequested with
    | true => simp [hstop, hs, halt, Phase.behind, Mark.phases, Mark.phase?]
    | false => simp [hstop, hs, Phase.behind, Mark.phases, Mark.phase?]

theorem lastPhase_leaveWait (p : Poller) :
    Mark.lastPhase p.phase p.leaveWait.marks = p.leaveWait.poller.phase := by
  cases hs : p.stopRequested with
  | true =>
    rw [leaveWait_of_stop hs]
    rfl
  | false =>
    rw [leaveWait_of_go hs]
    rfl

theorem lastPhase_afterCycle (p : Poller) (result : Except Fault Outcome) :
    Mark.lastPhase p.phase (p.afterCycle result).marks = (p.afterCycle result).poller.phase := by
  cases result with
  | error f => rfl
  | ok o =>
    simp only [afterCycle]
    split
    · simp only [rest, Reaction.behind]
      split
      · rfl
      · rfl
    · rfl

/-- A poller is left in the phase that it showed last. -/
theorem Reacts.lastPhase {p : Poller} {time : Int} {r : Reaction} (h : Reacts p time r) :
    Mark.lastPhase p.phase r.marks = r.poller.phase := by
  cases h with
  | leaves => exact lastPhase_leaveWait p
  | launches => exact lastPhase_leaveWait { p with looping := true }
  | ends known result =>
    rw [endCycle_eq, Reaction.behind, Mark.lastPhase_append]
    exact lastPhase_afterCycle (p.closed (p.conclusion time known result)) _
  | _ => rfl

end Poller

end TargetDiscovery
