import TargetDiscovery.Proofs.Poller.Cycle

/-!
# A cycle until the loop is empty

A single cycle that is begun on an empty loop, and run until nothing is left to be done, leaves
behind what the cycle came to: an answer that comes in later is dropped.
-/

set_option autoImplicit false

namespace TargetDiscovery.Solo

variable {κ : Type} {n : Network κ} {r r' : Run (Solo κ) Poller.Task Mark}

/-! ## Behind the cycle -/

/-- Between cycles, an answer changes nothing. -/
theorem Quiet.step_idle (hq : Quiet r) (hidle : r.state.poller.activity = .idle)
    (hstep : r.step? (machine n) = some r') : Quiet r' ∧ r'.state = r.state := by
  cases ht : r.loop.timers with
  | nil => simp [Run.step?, Loop.next?, hq.ready, ht] at hstep
  | cons t rest =>
    obtain ⟨number, result, htask, -⟩ := hq.timers t (by simp [ht])
    have hignore : r.state.poller.react (r.state.epoch + (max r.loop.now t.due : Nat)) t.task =
        r.state.poller.ignore := by
      rw [htask]
      simp only [Poller.react, hidle]
    rw [Run.step?_timer hq.ready ht, machine, command_accept] at hstep
    simp only [Run.onLoop, hignore] at hstep
    cases hstep
    refine ⟨⟨rfl, fun u hu => ?_⟩, rfl⟩
    have hmem : u ∈ rest := hu
    exact hq.timers u (by simp [ht, hmem])

theorem Quiet.drain_idle (hq : Quiet r) (hidle : r.state.poller.activity = .idle) (fuel : Nat) :
    (r.drain (machine n) fuel).state = r.state := by
  have hkept : Quiet (r.drain (machine n) fuel) ∧ (r.drain (machine n) fuel).state = r.state := by
    apply Run.continueWhile_induction
      (P := fun r' : Run (Solo κ) Poller.Task Mark => Quiet r' ∧ r'.state = r.state)
    · rintro r₁ r₂ ⟨hquiet, hstate⟩ - hstep
      obtain ⟨hnext, hsame⟩ := hquiet.step_idle (hstate ▸ hidle) hstep
      exact ⟨hnext, hsame.trans hstate⟩
    · exact ⟨hq, rfl⟩
  exact hkept.2

/-! ## From an empty loop -/

theorem drain_step (hstep : r.step? (machine n) = some r') (fuel : Nat) :
    r.drain (machine n) (fuel + 1) = r'.drain (machine n) fuel :=
  Run.continueWhile_step rfl hstep fuel

/-- A fetch is under way with these timers. -/
theorem onLoop_fetching {timers : List (Timer Poller.Task)}
    (h : (fetching n r).loop.timers = timers) :
    (fetching n r).onLoop ⟨r.loop.now, [], timers⟩ = fetching n r := by
  have hnow : (fetching n r).loop.now = r.loop.now := Loop.obeyAll_now _ _
  rw [← h, ← hnow, ← ready_fetching n r]
  rfl

/-- On a loop without timers, the deadline comes first if nothing is brought in time. -/
theorem timers_of_empty_late (htimers : r.loop.timers = [])
    (hw : (asked n r.state).1.within r.state.poller.setup.timing.timeout = none) :
    ∃ rest, (fetching n r).loop.timers = deadlineTimer r :: rest ∧
      ∀ t ∈ rest, ∃ number result, t.task = .reply number result ∧
        number ≤ r.state.poller.fetches + 1 := by
  rw [timers_fetching, htimers]
  rcases hreply : (asked n r.state).1 with ⟨_ | delay, result⟩
  · exact ⟨[], rfl, nofun⟩
  · rw [hreply] at hw
    have hlong := deadlineTimer_le (r := r) (Reply.within_eq_none_iff.mp hw delay rfl) result
    refine ⟨[replyTimer r delay result], ?_, ?_⟩
    · simp only [Loop.insertTimer, if_pos hlong]
    · intro t ht
      rw [List.mem_singleton.mp ht]
      exact ⟨_, _, rfl, Nat.le_refl _⟩

theorem timers_of_empty_within (htimers : r.loop.timers = []) {result : FetchResult}
    (hw : (asked n r.state).1.within r.state.poller.setup.timing.timeout = some result) :
    ∃ delay, (asked n r.state).1.delay = some delay ∧
      delay ≤ r.state.poller.setup.timing.timeout ∧
      (fetching n r).loop.timers = [replyTimer r delay result, deadlineTimer r] := by
  obtain ⟨delay, hreply, hlt⟩ := Reply.within_eq_some_iff.mp hw
  have hshort := Nat.not_le.mpr (replyTimer_lt (r := r) hlt result)
  refine ⟨delay, by rw [hreply], Nat.le_of_lt hlt, ?_⟩
  rw [timers_fetching, htimers, hreply]
  simp only [Loop.insertTimer, if_neg hshort]

/-- A cycle that is begun on an empty loop comes to an end, and this is what is left when nothing
more is to be done. -/
theorem cycled_of_drain (hready : r.loop.ready = []) (htimers : r.loop.timers = [])
    (hname : r.state.poller.setup.name = r.state.poller.store.name) (fuel : Nat) :
    ∃ r' result, Cycled n r r' result ∧
      ((opened r).drain (machine n) (fuel + 3)).state = r'.state := by
  rw [drain_step (step?_opened hready)]
  cases hw : (asked n r.state).1.within r.state.poller.setup.timing.timeout with
  | none =>
    obtain ⟨rest, hfetching, hrest⟩ := timers_of_empty_late htimers hw
    have htime := congrArg (r.loop.now + ·) (duration_of_late hw).symm
    obtain ⟨result, hcycled⟩ := cycled_closed hname hrest htime (.inr ⟨hw, rfl⟩)
    have hexpired := step?_expired (n := n) (r := r) (Nat.le_add_right _ _) rest
    rw [onLoop_fetching hfetching] at hexpired
    refine ⟨_, result, hcycled, ?_⟩
    rw [drain_step hexpired]
    exact hcycled.quiet.drain_idle rfl _
  | some fetched =>
    obtain ⟨delay, hdelay, hle, hfetching⟩ := timers_of_empty_within htimers hw
    have htime := congrArg (r.loop.now + ·) (duration_of_delay hdelay hle).symm
    have hnone : ∀ t ∈ ([] : List (Timer Poller.Task)), ∃ number result,
        t.task = .reply number result ∧ number ≤ r.state.poller.fetches + 1 := by simp
    obtain ⟨result, hcycled⟩ := cycled_closed hname hnone htime (.inl hw)
    have hlate : AreLate r ([] ++ []) := by simp [AreLate]
    have hanswered : ((fetching n r).onLoop ⟨r.loop.now, [], [replyTimer r delay fetched,
        deadlineTimer r]⟩).step? (machine n) =
        some ((settled (fetching n r) r.state.poller.store.current fetched).onLoop
          ⟨r.loop.now + delay, [.resume (r.state.poller.fetches + 1)], []⟩) :=
      step?_answered hlate (Nat.le_add_right _ _)
    rw [onLoop_fetching hfetching] at hanswered
    refine ⟨_, result, hcycled, ?_⟩
    rw [drain_step hanswered, drain_step (step?_resumed fetched [])]
    exact hcycled.quiet.drain_idle rfl _

end TargetDiscovery.Solo
