import TargetDiscovery.Proofs.Poller.Looping

/-!
# The polling schedule

A cycle lasts as long as its fetch, but no longer than the timeout. Behind a cycle that ended with
an outcome the next one begins, after the pause that the outcomes so far ask for.
-/

set_option autoImplicit false

namespace TargetDiscovery

/-- The pause behind the last outcome when there is no jitter. -/
def Timing.pause (t : Timing) (h : History) : Nat :=
  match outcomes h with
  | [] => 0
  | o :: _ => if o.isFailure then Backoff.delay t.base t.max (streak h) else t.interval

theorem Timing.Rests.eq_pause {t : Timing} {h : History} {w : Int} (hw : t.Rests h w)
    (hadmitted : Backoff.Admitted t.base t.max) (heven : t.jitter ≤ 0.0) : w = t.pause h := by
  rw [Timing.Rests] at hw
  rw [pause]
  cases ho : outcomes h with
  | nil =>
    rw [ho] at hw
    exact hw
  | cons o older =>
    rw [ho] at hw
    by_cases hfailure : o.isFailure = true
    · simp only [if_pos hfailure] at hw ⊢
      exact (hw hadmitted).exact heven
    · simp only [if_neg hfailure] at hw ⊢
      exact hw

theorem Timing.Rests.within {t : Timing} {h : History} {w : Int} (hw : t.Rests h w)
    (hadmitted : Backoff.Admitted t.base t.max) {o : Outcome} {older : List Outcome}
    (ho : outcomes h = o :: older) (hfailure : o.isFailure = true) : 0 ≤ w ∧ w ≤ t.max := by
  rw [Timing.Rests, ho] at hw
  have hdelays := (if_pos hfailure).mp hw hadmitted
  exact ⟨hdelays.nonneg, hdelays.le_max⟩

section

variable {rule : RestartRule} {s : Setup} {epoch : Int} {h : History} {e : Nat} {c : Conclusion}
  {o : Outcome}

/-- Behind an outcome the next incident is due at the end of a pause. -/
theorem Due.rested {t : Nat} (ht : Due rule s (⟨e, .ends c⟩ :: h) t) (hc : c.result = .ok o) :
    ∃ w, s.timing.Rests (⟨e, .ends c⟩ :: h) w ∧ t = e + w.toNat := by
  cases ht with
  | rests _ hw => exact ⟨_, hw, rfl⟩
  | waits herror => exact absurd (hc.symm.trans herror) nofun

/-- What follows an outcome is the next cycle. -/
theorem Follows.rested {x : Stamped Incident} (hx : Follows rule s epoch (⟨e, .ends c⟩ :: h) x)
    (hc : c.result = .ok o) :
    ∃ store reply, x.entry = .begins store reply ∧ Due rule s (⟨e, .ends c⟩ :: h) x.time := by
  cases hx with
  | next _ ht => exact ⟨_, _, rfl, ht⟩
  | relaunches herror => exact absurd (hc.symm.trans herror) nofun

theorem Follows.lasted {b : Nat} {store : Store} {reply : Reply} {x : Stamped Incident}
    (hx : Follows rule s epoch (⟨b, .begins store reply⟩ :: h) x) :
    ∃ c, x = ⟨b + Solo.duration s.timing.timeout reply.delay, .ends c⟩ := by
  cases hx with
  | ends ht =>
    cases ht
    exact ⟨_, rfl⟩

end

/-! ## The schedule of a poller -/

/-- A poller keeps to its schedule: what happened to it so far, how far its clock has gone, and what
it tells of its failures and of its last delay. -/
structure Polled (s : Setup) (now : Nat) (stopping : Bool) (p : Poller) (h : History) : Prop where
  /-- A cycle ends as soon as its fetch is answered, or at the end of the timeout. -/
  lasts : ∀ x b store reply older, x :: ⟨b, .begins store reply⟩ :: older <:+ h →
    ∃ c, x = ⟨b + Solo.duration s.timing.timeout reply.delay, .ends c⟩
  /-- The next cycle begins a pause later. -/
  spaced : s.timing.jitter ≤ 0.0 → ∀ x e c o b store reply older,
    x :: ⟨e, .ends c⟩ :: ⟨b, .begins store reply⟩ :: older <:+ h → c.result = .ok o →
      ∃ store' reply', x = ⟨b + (Solo.duration s.timing.timeout reply.delay +
        s.timing.pause (⟨e, .ends c⟩ :: ⟨b, .begins store reply⟩ :: older)), .begins store' reply'⟩
  /-- The clock does not go past the end of a cycle, -/
  ending : ∀ b store reply older, h = ⟨b, .begins store reply⟩ :: older →
    now ≤ b + Solo.duration s.timing.timeout reply.delay
  /-- nor before a stop past the beginning of the next one. -/
  beginning : s.timing.jitter ≤ 0.0 → stopping = false → ∀ e c o older,
    h = ⟨e, .ends c⟩ :: older → c.result = .ok o → now ≤ e + s.timing.pause h
  /-- The counter stops at its largest number. -/
  failures : p.failures = min (streak h) Backoff.maxAttempts
  lastDelay : s.timing.jitter ≤ 0.0 → p.lastDelay = s.timing.pause h
  /-- A crash leaves the failures in a row as they are, and so does beginning again behind it. -/
  passes : ∀ e c f older, c.result = .error f →
    (h = ⟨e, .ends c⟩ :: older ∨ ∃ t, h = ⟨t, .relaunches⟩ :: ⟨e, .ends c⟩ :: older) →
      p.failures = min (streak older) Backoff.maxAttempts
  /-- With any jitter the delay behind a failure stays within its bounds. -/
  within : ∀ o older, outcomes h = o :: older → o.isFailure = true →
    0 ≤ p.lastDelay ∧ p.lastDelay ≤ s.timing.max
  spread : ∀ x e c o older, x :: ⟨e, .ends c⟩ :: older <:+ h → c.result = .ok o →
    o.isFailure = true → e ≤ x.time ∧ x.time ≤ e + s.timing.max

theorem Strand.Kept.polled {rule : RestartRule} {s : Setup} {epoch : Int} {v : Strand} {h : History}
    (hv : Kept rule s epoch v h) (hadmitted : Backoff.Admitted s.timing.base s.timing.max) :
    Polled s v.loop.now v.stopping v.slot.poller h := by
  constructor
  case lasts =>
    intro x b store reply older hx
    exact (hv.regular.of_suffix hx).follows.lasted
  case spaced =>
    intro heven x e c o b store reply older hx hc
    have hregular := hv.regular.of_suffix hx
    obtain ⟨store', reply', hentry, ht⟩ := hregular.follows.rested hc
    obtain ⟨w, hrests, htime⟩ := ht.rested hc
    have hw := hrests.eq_pause hadmitted heven
    obtain ⟨c', hlast⟩ := (hregular.of_suffix (List.suffix_cons x _)).follows.lasted
    cases hlast
    refine ⟨store', reply', ?_⟩
    rw [← Nat.add_assoc, ← Int.toNat_natCast (s.timing.pause _), ← hw, ← htime, ← hentry]
  case ending =>
    rintro b store reply older rfl
    exact hv.paced.fetch_due hv.steady hv.tallied rfl
  case beginning =>
    rintro heven hgo e c o older rfl hc
    have hlimit : crashes (⟨e, .ends c⟩ :: older) ≤ rule.limit := by
      rw [crashes_of_ok older hc]
      exact hv.regular.crashes_tail
    obtain ⟨due, hdue, hnow⟩ := hv.paced.ahead hv.steady hv.tallied hgo nofun hlimit
    obtain ⟨w, hrests, rfl⟩ := hdue.rested hc
    rwa [hrests.eq_pause hadmitted heven] at hnow
  case failures => exact hv.tallied.polls.failures
  case lastDelay => exact fun heven => hv.tallied.polls.rests.eq_pause hadmitted heven
  case passes =>
    intro e c f older hc hh
    have hsame : streak h = streak older := by
      rcases hh with rfl | ⟨t, rfl⟩
      · exact streak_of_error older hc
      · exact streak_of_error older hc
    rw [← hsame]
    exact hv.tallied.polls.failures
  case within =>
    intro o older ho hfailure
    exact hv.tallied.polls.rests.within hadmitted ho hfailure
  case spread =>
    intro x e c o older hx hc hfailure
    obtain ⟨_, _, _, ht⟩ := (hv.regular.of_suffix hx).follows.rested hc
    obtain ⟨w, hrests, htime⟩ := ht.rested hc
    have hbounds := hrests.within hadmitted (outcomes_of_ok older hc) hfailure
    omega

/-- Every poller keeps to its schedule, under a supervisor and by itself, whatever its fetches bring
and however long they take. -/
theorem polled_of_course {κ : Type} (n : Network κ) {s : Setup}
    (hadmitted : Backoff.Admitted s.timing.base s.timing.max) :
    (∀ (rule : RestartRule) (setups : List Setup) (network : κ) (epoch : Int) (seed : UInt64)
      (h : List (Stamped Note)) (c : Chronicle κ) (i : Nat) (slot : Slot), setups[i]? = some s →
        Chronicle.Course n (.begin rule setups network epoch seed) h c →
          c.state.slots[i]? = some slot →
            Polled s c.loop.now c.state.stopping slot.poller (historyOf i h)) ∧
    ∀ (store : Store) (seed : UInt64) (network : κ) (epoch : Int) (h : History) (r : Solo.SoloRun κ),
      Solo.Course n (Solo.launched s store seed network epoch) h r →
        Polled s r.loop.now r.state.poller.stopRequested r.state.poller h := by
  constructor
  · intro rule setups network epoch seed h c i slot hs hc hslot
    obtain ⟨v, hv, rfl⟩ := Chronicle.strand?_of_slot hslot
    obtain ⟨s', hs', hkept⟩ := hc.kept hv
    rw [hs] at hs'
    cases hs'
    obtain ⟨_, _, _, _, hstopping⟩ := Chronicle.strand?_eq_some hv
    have hpolled := hkept.polled hadmitted
    rw [Chronicle.now_of_strand? hv, hstopping] at hpolled
    exact hpolled
  · intro store seed network epoch h r hc
    obtain ⟨v, hmirrors, hkept⟩ := hc.kept
    have hpolled := hkept.polled hadmitted
    rw [← hkept.tallied.stop, hmirrors.poller, hmirrors.loop] at hpolled
    exact hpolled

/-- An instance whose fetches are all refused after five milliseconds. -/
def refusedInstance : Chronicle (List Script) :=
  .begin .standard [.plain (ascii "a1")] [⟨[], { Reply.refused with delay := some 5 }⟩] 0 0

def refusedPoller : Solo.SoloRun (List Script) :=
  Solo.launched (.plain (ascii "a1")) (Store.new (ascii "a1")) 0
    [⟨[], { Reply.refused with delay := some 5 }⟩] 0

/-- Two refused cycles make for two failures and a delay of two seconds, under a supervisor and
without one. -/
theorem polled_refused :
    (∃ h c slot, Chronicle.Course Network.scripted refusedInstance h c ∧
      c.state.slots[0]? = some slot ∧ slot.poller.failures = 2 ∧ slot.poller.lastDelay = 2000 ∧
        Polled (.plain (ascii "a1")) c.loop.now c.state.stopping slot.poller (historyOf 0 h)) ∧
    ∃ h r, Solo.Course Network.scripted refusedPoller h r ∧ r.state.poller.failures = 2 ∧
      r.state.poller.lastDelay = 2000 ∧
        Polled (.plain (ascii "a1")) r.loop.now r.state.poller.stopRequested r.state.poller h := by
  have hadmitted : Backoff.Admitted (Setup.plain (ascii "a1")).timing.base
      (Setup.plain (ascii "a1")).timing.max := ⟨by decide, by decide, by decide⟩
  constructor
  · obtain ⟨h, fetches, hc⟩ := Chronicle.course_continueWhile Network.scripted (some 1010)
      (fun _ => true) 20 (c := refusedInstance.starting) Loop.ordered_start nofun
    generalize hr : refusedInstance.starting.run.continueWhile _ _ _ _ = r at hc
    have htold : (r.state.slots[0]?.any fun slot =>
        slot.poller.failures == 2 && slot.poller.lastDelay == 2000) = true := by
      rw [← hr]
      decide +kernel
    obtain ⟨slot, hslot, htold⟩ := (Option.any_eq_true _ _).mp htold
    obtain ⟨hfailures, hdelay⟩ := Bool.and_eq_true_iff.mp htold
    have hcourse : Chronicle.Course Network.scripted refusedInstance _ ⟨r, fetches⟩ :=
      Traced.trans (.tail .refl .start) hc
    exact ⟨_, _, slot, hcourse, hslot, by simpa using hfailures, by simpa using hdelay,
      (polled_of_course Network.scripted hadmitted).1 _ _ _ _ _ _ _ 0 slot rfl hcourse hslot⟩
  · obtain ⟨h, hc⟩ := Solo.course_continueWhile Network.scripted (some 1010) (fun _ => true) 20
      (r := refusedPoller) Loop.ordered_start nofun
    generalize hr : refusedPoller.continueWhile _ _ _ _ = r at hc
    refine ⟨h, r, hc, ?_, ?_, (polled_of_course Network.scripted hadmitted).2 _ _ _ _ _ _ hc⟩
    · rw [← hr]
      decide +kernel
    · rw [← hr]
      decide +kernel

end TargetDiscovery
