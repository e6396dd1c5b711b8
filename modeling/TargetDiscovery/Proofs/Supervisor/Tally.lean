import TargetDiscovery.Proofs.Supervisor.Course
import TargetDiscovery.Proofs.Supervisor.Stage

/-!
# What an instance counts

The failures in a row, the delay behind them, the restarts and the mark of being given up agree with
what happened to the instance. Successful cycles reset the failures and leave the restarts alone; a
crash does the opposite.
-/

set_option autoImplicit false

namespace TargetDiscovery

namespace Slot

/-- The second instance has counted what the first one has, and delays alike. -/
structure Keeps (s s' : Slot) : Prop where
  setup : s'.poller.setup = s.poller.setup
  backoff : s'.poller.backoff = s.poller.backoff
  failures : s'.poller.failures = s.poller.failures
  lastDelay : s'.poller.lastDelay = s.poller.lastDelay
  stopRequested : s'.poller.stopRequested = s.poller.stopRequested
  restartBackoff : s'.restartBackoff = s.restartBackoff
  restarts : s'.restarts = s.restarts
  degraded : s'.degraded = s.degraded

end Slot

namespace Strand

/-- The counts of the polls of an instance agree with its history. -/
structure Polls (p : Poller) (s : Setup) (h : History) : Prop where
  setup : p.setup = s
  policy : p.backoff.policy = s.timing.policy
  attempts : p.backoff.attempts = Backoff.counted (streak h)
  failures : p.failures = Backoff.counted (streak h)
  rests : s.timing.Rests h p.lastDelay

/-- The counts of the restarts of an instance agree with its history. Once a stop is requested they
stay what they are. -/
structure Restarts (rule : RestartRule) (s : Slot) (stopping : Bool) (h : History) : Prop where
  policy : s.restartBackoff.policy = rule.policy
  attempts : s.restartBackoff.attempts = Backoff.counted s.restarts
  limit : s.restarts ≤ rule.limit
  givenUp : s.degraded = true → s.restarts = rule.limit ∧ s.life = .ended
  counts : stopping = false → s.restarts = min (crashes h) rule.limit ∧
    (s.degraded = true ↔ rule.limit < crashes h) ∧ crashes h ≤ rule.limit + 1

structure Tallied (rule : RestartRule) (s : Setup) (v : Strand) (h : History) : Prop where
  stop : v.slot.poller.stopRequested = v.stopping
  polls : Polls v.slot.poller s h
  restarts : Restarts rule v.slot v.stopping h

variable {rule : RestartRule} {s : Setup} {v w : Strand} {h h' : History}

/-- The strand of an instance before its start, in front of any store. -/
def unstarted (rule : RestartRule) (s : Setup) (store : Store) (seed : UInt64) : Strand :=
  { fresh s rule seed with
    slot := { Slot.new s rule seed with poller := Poller.new s store seed } }

theorem unstarted_steady (rule : RestartRule) (s : Setup) (store : Store) (seed : UInt64) :
    (unstarted rule s store seed).Steady :=
  ⟨Loop.ordered_start, .dormant rfl rfl, ⟨fun _ => rfl, fun _ => rfl⟩, rfl⟩

theorem unstarted_tallied (rule : RestartRule) (s : Setup) (store : Store) (seed : UInt64) :
    Tallied rule s (unstarted rule s store seed) [] := by
  refine ⟨rfl, ⟨rfl, rfl, rfl, rfl, rfl⟩, ⟨rfl, rfl, Nat.zero_le _, nofun, ?_⟩⟩
  intro _
  refine ⟨(Nat.zero_min _).symm, ⟨nofun, fun hlt => ?_⟩, Nat.zero_le _⟩
  exact absurd hlt (Nat.not_lt_zero _)

theorem Polls.keep {p q : Poller} (hp : Polls p s h) (hs : q.setup = p.setup)
    (hb : q.backoff = p.backoff) (hf : q.failures = p.failures) (hd : q.lastDelay = p.lastDelay)
    (ho : outcomes h' = outcomes h) : Polls q s h' := by
  have hstreak : streak h' = streak h := by rw [streak, ho, streak]
  constructor
  case setup => exact hs.trans hp.setup
  case policy => rw [hb, hp.policy]
  case attempts => rw [hb, hp.attempts, hstreak]
  case failures => rw [hf, hp.failures, hstreak]
  case rests =>
    have hrests := hp.rests
    simp only [Timing.Rests, ho, hstreak, hd] at hrests ⊢
    exact hrests

theorem Restarts.keep {x y : Slot} {stopping : Bool} (hx : Restarts rule x stopping h)
    (hb : y.restartBackoff = x.restartBackoff) (hr : y.restarts = x.restarts)
    (hd : y.degraded = x.degraded) (hl : x.life = .ended → y.life = .ended)
    (hc : crashes h' = crashes h) : Restarts rule y stopping h' := by
  constructor
  case policy => rw [hb, hx.policy]
  case attempts => rw [hb, hr, hx.attempts]
  case limit =>
    rw [hr]
    exact hx.limit
  case givenUp =>
    rw [hd, hr]
    intro hdegraded
    obtain ⟨hlimit, hended⟩ := hx.givenUp hdegraded
    exact ⟨hlimit, hl hended⟩
  case counts =>
    rw [hr, hd, hc]
    exact hx.counts

theorem Tallied.keep (hv : Tallied rule s v h) (hk : v.slot.Keeps w.slot)
    (hs : w.stopping = v.stopping) (hl : v.slot.life = .ended → w.slot.life = .ended)
    (ho : outcomes h' = outcomes h) (hc : crashes h' = crashes h) : Tallied rule s w h' := by
  refine ⟨?_, ?_, ?_⟩
  · rw [hk.stopRequested, hs, hv.stop]
  · exact hv.polls.keep hk.setup hk.backoff hk.failures hk.lastDelay ho
  · rw [hs]
    exact hv.restarts.keep hk.restartBackoff hk.restarts hk.degraded hl hc

/-! ## The end of a cycle -/

theorem Polls.pause {p q : Poller} (hp : Polls p s h) (hs : q.setup = p.setup) {c : Conclusion}
    {o : Outcome} (hc : c.result = .ok o) (hq : p.Paused o q) (t : Nat) :
    Polls q s (⟨t, .ends c⟩ :: h) := by
  have hsetup := hs.trans hp.setup
  have hrests : ∀ w, s.timing.Rests (⟨t, .ends c⟩ :: h) w ↔
      if o.isFailure then Backoff.Admitted s.timing.base s.timing.max →
        Backoff.Delays s.timing.base s.timing.max s.timing.jitter (streak (⟨t, .ends c⟩ :: h)) w
      else w = s.timing.interval := by
    intro w
    rw [Timing.Rests, outcomes_of_ok h hc]
  cases ho : o.isFailure with
  | true =>
    have hb := hq.backoff
    rw [if_pos ho] at hb
    have hattempts := Backoff.attempts_next_counted hp.attempts
    rw [← streak_of_failure (t := t) h hc ho, ← hb] at hattempts
    refine ⟨hsetup, ?_, hattempts, hq.failures.trans hattempts, ?_⟩
    · rw [hb, Backoff.policy_next, hp.policy]
    · rw [hrests, if_pos ho, hq.lastDelay, if_pos ho, streak_of_failure h hc ho]
      exact fun hadmitted => Backoff.next_delays hadmitted hp.policy hp.attempts
  | false =>
    have hb := hq.backoff
    rw [ho] at hb
    have hattempts : q.backoff.attempts = Backoff.counted (streak (⟨t, .ends c⟩ :: h)) := by
      rw [hb, streak_of_success h hc ho]
      rfl
    refine ⟨hsetup, ?_, hattempts, hq.failures.trans hattempts, ?_⟩
    · rw [hb]
      exact hp.policy
    · rw [hrests, ho, hq.lastDelay, ho, hp.setup]
      rfl

theorem Restarts.schedule {x : Slot} (hx : Restarts rule x false h)
    (hlimit : x.restarts < rule.limit) {c : Conclusion} {f : Fault} (hc : c.result = .error f)
    (t : Nat) : Restarts rule x.scheduleRestart.slot false (⟨t, .ends c⟩ :: h) ∧
      rule.Waits (⟨t, .ends c⟩ :: h) x.restartBackoff.next.1.toInt := by
  obtain ⟨hrestarts, hdegraded, _⟩ := hx.counts rfl
  have hcrashes : crashes (⟨t, .ends c⟩ :: h) = x.restarts + 1 := by
    rw [crashes_of_error h hc]
    omega
  have hgone : x.degraded = false := by
    cases hd : x.degraded with
    | false => rfl
    | true =>
      have := hdegraded.mp hd
      omega
  constructor
  · refine ⟨hx.policy, Backoff.attempts_next_counted hx.attempts, hlimit, ?_, fun _ => ?_⟩
    · intro hd
      rw [show x.scheduleRestart.slot.degraded = x.degraded from rfl, hgone] at hd
      cases hd
    · rw [hcrashes]
      refine ⟨?_, ⟨fun hd => ?_, fun hlt => ?_⟩, by omega⟩
      · show x.restarts + 1 = _
        omega
      · rw [show x.scheduleRestart.slot.degraded = x.degraded from rfl, hgone] at hd
        cases hd
      · omega
  · rw [RestartRule.Waits, hcrashes]
    exact fun hadmitted => Backoff.next_delays hadmitted hx.policy hx.attempts

theorem Restarts.degrade {x : Slot} (hx : Restarts rule x false h) (hl : x.life = .running)
    (hlimit : rule.limit ≤ x.restarts) {c : Conclusion} {f : Fault} (hc : c.result = .error f)
    (t : Nat) : Restarts rule { x with degraded := true }.finish.slot false
      (⟨t, .ends c⟩ :: h) := by
  have hle := hx.limit
  obtain ⟨hrestarts, hdegraded, _⟩ := hx.counts rfl
  have hcrashes : crashes h = rule.limit := by
    have hnot : ¬ rule.limit < crashes h := by
      intro hlt
      have hended := (hx.givenUp (hdegraded.mpr hlt)).2
      rw [hl] at hended
      cases hended
    omega
  refine ⟨hx.policy, hx.attempts, hle, fun _ => ⟨Nat.le_antisymm hle hlimit, rfl⟩, fun _ => ?_⟩
  rw [crashes_of_error h hc, hcrashes]
  refine ⟨?_, ⟨fun _ => Nat.lt_succ_self _, fun _ => rfl⟩, Nat.le_refl _⟩
  show x.restarts = _
  omega

/-! ## Every move -/

section

variable {time : Int} {ask : UInt64 × Nat → Reply} {t : SlotTask} {loop : Loop SlotTask}
  {u : Slot.Turn}

/-- The end of a loop adds a crash, or none, to what was counted. -/
theorem Restarts.exit {x : Slot} {p : Poller} {stopping : Bool} {fault : Option Fault}
    (hx : Restarts rule x stopping h) (hl : x.life = .running)
    (hu : Slot.Exits rule stopping { x with poller := p } fault u) {c : Conclusion}
    (hc : (∃ o, c.result = .ok o ∧ fault = none) ∨ ∃ f, c.result = .error f ∧ fault = some f)
    (now : Nat) : Restarts rule u.slot stopping (⟨now, .ends c⟩ :: h) := by
  cases hu with
  | stops =>
    rcases hc with ⟨o, hc, _⟩ | ⟨f, _, hf⟩
    · exact hx.keep rfl rfl rfl (fun _ => rfl) (crashes_of_ok h hc)
    · cases hf
  -- After a stop nothing is counted any more, so a crash need not agree with anything.
  | fails hs =>
    subst hs
    exact ⟨hx.policy, hx.attempts, hx.limit, fun hd => ⟨(hx.givenUp hd).1, rfl⟩, nofun⟩
  | degrades hs hlimit =>
    rcases hc with ⟨_, _, hf⟩ | ⟨f, hc, _⟩
    · cases hf
    · subst hs
      have hkept : Restarts rule { x with poller := p } false h := hx.keep rfl rfl rfl id rfl
      exact hkept.degrade hl hlimit hc now
  | restarts hs hlimit =>
    rcases hc with ⟨_, _, hf⟩ | ⟨f, hc, _⟩
    · cases hf
    · subst hs
      have hkept : Restarts rule { x with poller := p } false h := hx.keep rfl rfl rfl id rfl
      exact (hkept.schedule hlimit hc now).1

/-- The end of a cycle finds the loop running, and is one of three. -/
theorem Steady.ending (hs : v.Steady) (ht : v.loop.Takes t loop) {known : Option Snapshot}
    {answer : Option FetchResult} (hc : v.slot.Closes known answer t) (time : Int) :
    v.slot.life = .running ∧ Poller.Ending v.slot.poller
      (v.slot.poller.conclusion time known (answer.getD v.slot.poller.setup.timeoutResult))
      (v.slot.cycleEnd time known answer) := by
  have hlooping := hs.stage.looping (by rw [hc.1]; exact nofun)
  refine ⟨?_, Poller.endCycle_ending hlooping time known _⟩
  rcases hs.taken ht with ⟨hd, _⟩ | ⟨hd, _⟩
  · exact (hd.running_of_closes hc).1
  · obtain ⟨_, rfl | rfl⟩ := hc
    · cases hd
    · cases hd

theorem Tallied.turn (hv : Tallied rule s v h) (hs : v.Steady) (ht : v.loop.Takes t loop)
    (hu : Slot.Does rule v.stopping time ask v.slot t u) (i : Nat) :
    Tallied rule s (v.taking i loop ask u)
      ((v.slot.incident? time ask t).toList.map (Stamped.mk loop.now) ++ h) := by
  cases hu with
  | ignores hno =>
    rw [Slot.incident?_of_not_fits hno]
    exact hv.keep ⟨rfl, rfl, rfl, rfl, rfl, rfl, rfl, rfl⟩ rfl id rfl rfl
  | rouses => exact hv.keep ⟨rfl, rfl, rfl, rfl, rfl, rfl, rfl, rfl⟩ rfl id rfl rfl
  | drops => exact hv.keep ⟨rfl, rfl, rfl, rfl, rfl, rfl, rfl, rfl⟩ rfl id rfl rfl
  | settles =>
    rw [Slot.incident?_of_reply]
    exact hv.keep ⟨rfl, rfl, rfl, rfl, rfl, rfl, rfl, rfl⟩ rfl id rfl rfl
  | fetches hl hgo =>
    rw [Slot.incident?_of_go hl hgo]
    exact hv.keep ⟨rfl, rfl, rfl, rfl, rfl, rfl, rfl, rfl⟩ rfl id rfl rfl
  | halts hl hstop =>
    rw [Slot.incident?_of_stop hl hstop]
    exact hv.keep ⟨rfl, rfl, rfl, rfl, rfl, rfl, rfl, rfl⟩ rfl (fun _ => rfl) rfl rfl
  | @sleeps _ known answer delay hc hn =>
    have hend := v.slot.cycleEnd_concluded time known answer
    rw [Slot.incident?_of_closes hc]
    obtain ⟨o, hok, _, _, hpaused⟩ := (hs.ending ht hc time).2.of_sleep hn
    refine ⟨hend.stopRequested.trans hv.stop, hv.polls.pause hend.setup hok hpaused _, ?_⟩
    exact hv.restarts.keep rfl rfl rfl id (crashes_of_ok h hok)
  | @exits _ known answer fault _ hc hn _ hu =>
    obtain ⟨hlife, hending⟩ := hs.ending ht hc time
    have hend := v.slot.cycleEnd_concluded time known answer
    have hpoller : u.slot.poller = (v.slot.cycleEnd time known answer).poller := by
      cases hu with
      | stops => rfl
      | fails => rfl
      | degrades => rfl
      | restarts => rfl
    rw [Slot.incident?_of_closes hc]
    have hstop : u.slot.poller.stopRequested = v.stopping := by
      rw [hpoller]
      exact hend.stopRequested.trans hv.stop
    have htallied : ∀ {x : Stamped Incident}, Polls (v.slot.cycleEnd time known answer).poller s
        (x :: h) → Restarts rule u.slot v.stopping (x :: h) →
          Tallied rule s (v.taking i loop ask u) (x :: h) :=
      fun hp hr => ⟨hstop, hpoller ▸ hp, hr⟩
    cases fault with
    | none =>
      obtain ⟨o, hok, _, hpaused⟩ := hending.of_halt hn
      exact htallied (hv.polls.pause hend.setup hok hpaused _)
        (hv.restarts.exit hlife hu (.inl ⟨o, hok, rfl⟩) loop.now)
    | some f =>
      obtain ⟨herror, hb, hf, hd⟩ := hending.of_fault hn
      exact htallied (hv.polls.keep hend.setup hb hf hd (outcomes_of_error h herror))
        (hv.restarts.exit hlife hu (.inr ⟨f, herror, rfl⟩) loop.now)
  | relaunches hgo =>
    have hwaiting : v.slot.life ≠ .ended := by
      rcases hs.taken ht with ⟨hd, _⟩ | ⟨hd, _⟩
      · exact (Life.ne_of_isActive hd.active).2
      · cases hd
    rw [Slot.incident?_of_relaunch hgo]
    exact hv.keep ⟨rfl, rfl, rfl, rfl, rfl, rfl, rfl, rfl⟩ rfl (fun hl => absurd hl hwaiting) rfl rfl
  | abandons hno =>
    rw [Slot.incident?_of_abandon hno]
    exact hv.keep ⟨rfl, rfl, rfl, rfl, rfl, rfl, rfl, rfl⟩ rfl (fun _ => rfl) rfl rfl

end

theorem Tallied.start (hv : Tallied rule s v h) (hs : v.Steady) (hstart : v.started = false) :
    Tallied rule s v.starting h := by
  have hfresh := hs.fresh.mp hstart
  refine hv.keep ⟨rfl, rfl, rfl, rfl, rfl, rfl, rfl, rfl⟩ rfl (fun hl => ?_) rfl rfl
  rw [hfresh] at hl
  cases hl

theorem Tallied.stopped (hv : Tallied rule s v h) : Tallied rule s v.stop h := by
  refine ⟨rfl, hv.polls.keep rfl rfl rfl rfl rfl, ?_⟩
  exact ⟨hv.restarts.policy, hv.restarts.attempts, hv.restarts.limit, hv.restarts.givenUp, nofun⟩

theorem Ticks.tallied {epoch : Int} {i : Nat} {more : History} (ht : Ticks rule epoch i v more w)
    (hs : v.Steady) (hv : Tallied rule s v h) : Tallied rule s w (more ++ h) := by
  cases ht with
  | start hstart => exact hv.start hs hstart
  | stop => exact hv.stopped
  | elapse => exact hv.keep ⟨rfl, rfl, rfl, rfl, rfl, rfl, rfl, rfl⟩ rfl id rfl rfl
  | turn ask ht =>
    rw [← taking_plain]
    exact hv.turn hs ht (hs.does rule ht _ ask) i

end Strand

end TargetDiscovery
