import TargetDiscovery.Proofs.Supervisor.Stopping

/-!
# Restarts over a whole run

Every crash up to the limit is answered by one restart, at a time that depends on how many crashes
there were, and on nothing else of what the cycles between them brought. The crash that exceeds the
limit is the last thing that happens to an instance.
-/

set_option autoImplicit false

namespace TargetDiscovery

namespace Strand

variable {rule : RestartRule} {s : Setup} {v : Strand} {h : History}

theorem dues_drivers (l : Loop SlotTask) : l.drivers.dues .restart = l.dues .restart := by
  refine Loop.dues_choose (fun u => ⟨fun hu => ?_, ?_⟩) l
  · exact SlotTask.driver?_injective u .restart .restart hu rfl
  · rintro rfl
    rfl

theorem Steady.dues_of_not_waiting (hs : v.Steady) (hl : v.slot.life ≠ .waiting) :
    v.loop.dues .restart = [] := by
  have hstage := hs.stage
  rw [← dues_drivers]
  generalize v.loop.drivers = l at hstage
  cases hstage with
  | waiting hwaiting => exact absurd hwaiting hl
  | _ => rfl

/-- A restart is set for nothing but a crash. -/
theorem Paced.crashed_of_due (hv : Paced rule v h) {due : Nat} (hdue : due ∈ v.loop.dues .restart) :
    ∃ e c f older, h = ⟨e, .ends c⟩ :: older ∧ c.result = .error f := by
  obtain ⟨e, c, f, _, hhead, hc, _⟩ := hv.pends due .restart (.inr (Loop.mem_dues.mp hdue))
  obtain ⟨older, rfl⟩ := List.head?_eq_some_iff.mp hhead
  exact ⟨e, c, f, older, rfl, hc⟩

/-- Before a stop one restart is set for a crash that does not exceed the limit. -/
theorem Paced.restart_due (hv : Paced rule v h) (hs : v.Steady) (hy : Tallied rule s v h)
    (hgo : v.stopping = false) {e : Nat} {c : Conclusion} {f : Fault}
    (hhead : h.head? = some ⟨e, .ends c⟩) (hc : c.result = .error f)
    (hlimit : crashes h ≤ rule.limit) :
    ∃ w, rule.Waits h w ∧ v.loop.dues .restart = [e + w.toNat] := by
  have hstop : v.slot.poller.stopRequested = false := hy.stop.trans hgo
  have htimed : ∀ {time t}, v.loop.drivers.Pends time t → v.slot.Timed rule h time t :=
    fun ht => (hv.timed_of_drivers ht).1
  have hstage := hs.stage
  rw [← dues_drivers]
  generalize v.loop.drivers = l at hstage htimed
  have hcrash : ∀ {e' : Nat} {c' : Conclusion} {o : Outcome}, h.head? = some ⟨e', .ends c'⟩ →
      c'.result ≠ .ok o := by
    intro e' c' o hhead' hok
    rw [hhead] at hhead'
    cases hhead'
    exact absurd (hc.symm.trans hok) nofun
  cases hstage with
  | dormant hl =>
    have hne : h ≠ [] := by
      rintro rfl
      cases hhead
    exact absurd (hl.symm.trans (hv.active_of_history hy hgo hne hlimit)) nofun
  | launched =>
    rcases htimed (.inl ⟨List.mem_singleton.mpr rfl, rfl⟩) with hnone | hhead'
    · exact absurd (hhead.symm.trans hnone) nofun
    · exact absurd (hhead.symm.trans hhead') nofun
  | racing _ _ ha | answered _ _ ha =>
    obtain ⟨_, _, hhead', _⟩ := hv.fetching _ _ ha
    exact absurd (hhead.symm.trans hhead') nofun
  | sleeping =>
    obtain ⟨_, _, _, hhead', hok, _⟩ := htimed (.inr (List.mem_singleton.mpr rfl))
    exact absurd hok (hcrash hhead')
  | roused =>
    obtain ⟨_, _, _, hhead', hok, _⟩ := htimed (.inl ⟨List.mem_singleton.mpr rfl, rfl⟩)
    exact absurd hok (hcrash hhead')
  | waiting =>
    obtain ⟨_, _, _, w, hhead', _, hwaits, htime⟩ := htimed (.inr (List.mem_singleton.mpr rfl))
    rw [hhead] at hhead'
    cases hhead'
    exact ⟨w, hwaits, by rw [← htime]; rfl⟩
  | dropped =>
    have hrequested : v.slot.poller.stopRequested = true :=
      htimed (.inl ⟨List.mem_singleton.mpr rfl, rfl⟩)
    rw [hstop] at hrequested
    cases hrequested

end Strand

section

variable {rule : RestartRule} {s : Setup} {epoch : Int} {h : History} {e : Nat} {c : Conclusion}
  {f : Fault}

theorem RestartRule.Waits.eq_delay {w : Int} (hw : rule.Waits h w)
    (hadmitted : Backoff.Admitted rule.base rule.max) (heven : rule.jitter ≤ 0.0) :
    w.toNat = Backoff.delay rule.base rule.max (crashes h) := by
  rw [(hw hadmitted).exact heven, Int.toNat_natCast]

/-- Behind a crash the next incident is due at the end of the delay, unless the limit is exceeded. -/
theorem Due.waited {t : Nat} (ht : Due rule s (⟨e, .ends c⟩ :: h) t) (hc : c.result = .error f) :
    crashes (⟨e, .ends c⟩ :: h) ≤ rule.limit ∧
      ∃ w, rule.Waits (⟨e, .ends c⟩ :: h) w ∧ t = e + w.toNat := by
  cases ht with
  | rests hok => exact absurd (hc.symm.trans hok) nofun
  | waits _ hn hw => exact ⟨hn, _, hw, rfl⟩

theorem Follows.waited {x : Stamped Incident} (hx : Follows rule s epoch (⟨e, .ends c⟩ :: h) x)
    (hc : c.result = .error f) :
    x.entry = .relaunches ∧ Due rule s (⟨e, .ends c⟩ :: h) x.time := by
  cases hx with
  | next hok => exact absurd (hc.symm.trans hok) nofun
  | relaunches _ ht => exact ⟨rfl, ht⟩

theorem Follows.launched {t : Nat} {x : Stamped Incident}
    (hx : Follows rule s epoch (⟨t, .relaunches⟩ :: h) x) :
    ∃ store reply, x = ⟨t, .begins store reply⟩ := by
  cases hx with
  | again ht =>
    cases ht
    exact ⟨_, _, rfl⟩

theorem Follows.crashed {t : Nat} (hx : Follows rule s epoch h ⟨t, .relaunches⟩) :
    ∃ e c f older, h = ⟨e, .ends c⟩ :: older ∧ c.result = .error f := by
  cases hx with
  | relaunches hc => exact ⟨_, _, _, _, rfl, hc⟩

end

namespace Chronicle

variable {κ : Type} {n : Network κ} {c d : Chronicle κ} {i : Nat}

/-- The times at which a restart of the instance at a position is due. -/
def restartsDue (c : Chronicle κ) (i : Nat) : List Nat := c.loop.dues ⟨i, .restart⟩

theorem restartsDue_eq {v : Strand} (hv : c.strand? i = some v) :
    c.restartsDue i = v.loop.dues .restart := by
  obtain ⟨_, hloop, _⟩ := strand?_eq_some hv
  rw [hloop, restartsDue]
  refine (Loop.dues_choose (fun u => ⟨fun hu => ?_, ?_⟩) c.loop).symm
  · exact Supervisor.Task.own_injective i u ⟨i, .restart⟩ .restart hu (by simp [Supervisor.Task.own])
  · rintro rfl
    simp [Supervisor.Task.own]

end Chronicle

/-- The restarts of an instance follow its crashes. -/
structure Restarted {κ : Type} (n : Network κ) (rule : RestartRule) (c : Chronicle κ) (i : Nat)
    (slot : Slot) (h : History) : Prop where
  limit : slot.restarts ≤ rule.limit
  givenUp : slot.degraded = true → slot.restarts = rule.limit
  /-- Before a stop every crash counts, whatever lies between them. -/
  counted : c.state.stopping = false → slot.restarts = min (crashes h) rule.limit ∧
    (slot.degraded = true ↔ rule.limit < crashes h)
  /-- Before a stop one restart is set for a crash up to the limit, and the clock does not pass it. -/
  scheduled : c.state.stopping = false → ∀ e k f older, h = ⟨e, .ends k⟩ :: older →
    k.result = .error f → crashes h ≤ rule.limit →
      c.restartsDue i = [e + Backoff.delay rule.base rule.max (crashes h)] ∧
        c.loop.now ≤ e + Backoff.delay rule.base rule.max (crashes h)
  /-- What follows a crash is that restart, at that time. -/
  relaunched : ∀ x e k f older, x :: ⟨e, .ends k⟩ :: older <:+ h → k.result = .error f →
    crashes (⟨e, .ends k⟩ :: older) ≤ rule.limit ∧
      x = ⟨e + Backoff.delay rule.base rule.max (crashes (⟨e, .ends k⟩ :: older)), .relaunches⟩
  /-- A restart begins a cycle at once. -/
  launched : ∀ x t older, x :: ⟨t, .relaunches⟩ :: older <:+ h →
    ∃ store reply, x = ⟨t, .begins store reply⟩
  launching : c.state.stopping = false → ∀ t older, h = ⟨t, .relaunches⟩ :: older → c.loop.now ≤ t
  /-- There is no restart but behind a crash, -/
  owed : ∀ t older, ⟨t, .relaunches⟩ :: older <:+ h →
    ∃ e k f rest, older = ⟨e, .ends k⟩ :: rest ∧ k.result = .error f
  /-- and none is set otherwise. -/
  unowed : c.restartsDue i ≠ [] → ∃ e k f older, h = ⟨e, .ends k⟩ :: older ∧ k.result = .error f
  /-- The crash that exceeds the limit gives the instance up. -/
  spent : c.state.stopping = false → rule.limit < crashes h →
    slot.degraded = true ∧ c.restartsDue i = []
  /-- An instance that was given up stays as it is. -/
  final : slot.degraded = true → ∀ more d, Chronicle.Course n c more d →
    historyOf i more = [] ∧ d.restartsDue i = [] ∧ ∃ later, d.state.slots[i]? = some later ∧
      later.degraded = true ∧ later.restarts = slot.restarts ∧
        later.poller.fetches = slot.poller.fetches ∧ later.poller.store = slot.poller.store
  /-- After a stop no cycle and no restart begins, and a crash does not count. -/
  stopped : c.state.stopping = true → ∀ more d, Chronicle.Course n c more d →
    (∀ x ∈ historyOf i more, ∃ k, x.entry = .ends k) ∧
      (historyOf i more ≠ [] → d.restartsDue i = []) ∧ ∃ later, d.state.slots[i]? = some later ∧
        later.degraded = slot.degraded ∧ later.restarts = slot.restarts ∧
          later.poller.fetches = slot.poller.fetches

namespace Strand

variable {rule : RestartRule} {s : Setup} {epoch : Int} {v : Strand} {h : History}

theorem Kept.scheduled (hv : Kept rule s epoch v h) (hadmitted : Backoff.Admitted rule.base rule.max)
    (heven : rule.jitter ≤ 0.0) (hgo : v.stopping = false) {e : Nat} {c : Conclusion} {f : Fault}
    (hhead : h.head? = some ⟨e, .ends c⟩) (hc : c.result = .error f)
    (hlimit : crashes h ≤ rule.limit) :
    v.loop.dues .restart = [e + Backoff.delay rule.base rule.max (crashes h)] ∧
      v.loop.now ≤ e + Backoff.delay rule.base rule.max (crashes h) := by
  obtain ⟨w, hwaits, hdues⟩ :=
    hv.paced.restart_due hv.steady hv.tallied hgo hhead hc hlimit
  rw [hwaits.eq_delay hadmitted heven] at hdues
  have hmem : e + Backoff.delay rule.base rule.max (crashes h) ∈ v.loop.dues .restart := by
    rw [hdues]
    exact List.mem_singleton.mpr rfl
  exact ⟨hdues, hv.paced.timely.now_le (.inr (Loop.mem_dues.mp hmem))⟩

theorem Kept.relaunched (hv : Kept rule s epoch v h)
    (hadmitted : Backoff.Admitted rule.base rule.max) (heven : rule.jitter ≤ 0.0)
    {x : Stamped Incident} {e : Nat} {c : Conclusion} {f : Fault} {older : History}
    (hx : x :: ⟨e, .ends c⟩ :: older <:+ h) (hc : c.result = .error f) :
    crashes (⟨e, .ends c⟩ :: older) ≤ rule.limit ∧
      x = ⟨e + Backoff.delay rule.base rule.max (crashes (⟨e, .ends c⟩ :: older)),
        .relaunches⟩ := by
  obtain ⟨hentry, hdue⟩ := (hv.regular.of_suffix hx).follows.waited hc
  obtain ⟨hlimit, w, hwaits, htime⟩ := hdue.waited hc
  refine ⟨hlimit, ?_⟩
  rw [← hwaits.eq_delay hadmitted heven, ← htime, ← hentry]

theorem Kept.launching (hv : Kept rule s epoch v h) (hgo : v.stopping = false) {t : Nat}
    {older : History} (hh : h = ⟨t, .relaunches⟩ :: older) : v.loop.now ≤ t := by
  subst hh
  have hlimit : crashes older ≤ rule.limit := hv.regular.crashes_tail
  obtain ⟨due, hdue, hnow⟩ := hv.paced.ahead hv.steady hv.tallied hgo nofun hlimit
  cases hdue
  exact hnow

theorem Kept.spent (hv : Kept rule s epoch v h) (hgo : v.stopping = false)
    (hlimit : rule.limit < crashes h) :
    v.slot.degraded = true ∧ v.loop.dues .restart = [] := by
  have hdegraded := (hv.tallied.restarts.counts hgo).2.1.mpr hlimit
  have hended := (hv.tallied.restarts.givenUp hdegraded).2
  exact ⟨hdegraded, hv.steady.dues_of_not_waiting (by rw [hended]; exact nofun)⟩

end Strand

/-- In every course the restarts of every instance follow its crashes, whatever its fetches bring and
whatever the other instances do. -/
theorem restarted_of_course {κ : Type} {n : Network κ} {rule : RestartRule} {setups : List Setup}
    {network : κ} {epoch : Int} {seed : UInt64} {h : List (Stamped Note)} {c : Chronicle κ} {i : Nat}
    {slot : Slot} (hadmitted : Backoff.Admitted rule.base rule.max) (heven : rule.jitter ≤ 0.0)
    (hc : Chronicle.Course n (.begin rule setups network epoch seed) h c)
    (hslot : c.state.slots[i]? = some slot) : Restarted n rule c i slot (historyOf i h) := by
  obtain ⟨v, hv, rfl⟩ := Chronicle.strand?_of_slot hslot
  obtain ⟨s, hs, hkept⟩ := hc.kept hv
  obtain ⟨_, _, _, _, hstopping⟩ := Chronicle.strand?_eq_some hv
  obtain ⟨hrule, hepoch, _⟩ := hc.strand Loop.ordered_start (Chronicle.strand?_begin hs)
  have hnow := Chronicle.now_of_strand? hv
  have hlater : ∀ {more d}, Chronicle.Course n c more d → ∃ w, d.strand? i = some w ∧
      v.Course rule epoch i (historyOf i more) w := by
    intro more d hd
    obtain ⟨_, _, w, hw, hcourse⟩ :=
      hd.strand (Chronicle.Leads.ordered hc.leads Loop.ordered_start) hv
    rw [hrule, hepoch] at hcourse
    exact ⟨w, hw, hcourse⟩
  have hdues := Chronicle.restartsDue_eq hv
  constructor
  case limit => exact hkept.tallied.restarts.limit
  case givenUp => exact fun hdegraded => (hkept.tallied.restarts.givenUp hdegraded).1
  case counted =>
    intro hgo
    obtain ⟨hrestarts, hdegraded, _⟩ := hkept.tallied.restarts.counts (hstopping.trans hgo)
    exact ⟨hrestarts, hdegraded⟩
  case scheduled =>
    intro hgo e k f older hh hk hlimit
    rw [hdues, ← hnow]
    exact hkept.scheduled hadmitted heven (hstopping.trans hgo) (by rw [hh]; rfl) hk hlimit
  case relaunched => exact fun x e k f older hx hk => hkept.relaunched hadmitted heven hx hk
  case launched => exact fun x t older hx => (hkept.regular.of_suffix hx).follows.launched
  case launching =>
    intro hgo t older hh
    rw [← hnow]
    exact hkept.launching (hstopping.trans hgo) hh
  case owed => exact fun t older hx => (hkept.regular.of_suffix hx).follows.crashed
  case unowed =>
    intro hne
    rw [hdues] at hne
    obtain ⟨due, hdue⟩ := List.exists_mem_of_ne_nil _ hne
    exact hkept.paced.crashed_of_due hdue
  case spent =>
    intro hgo hlimit
    rw [hdues]
    exact hkept.spent (hstopping.trans hgo) hlimit
  case final =>
    intro hdegraded more d hd
    obtain ⟨w, hw, hcourse⟩ := hlater hd
    have hended := (hkept.tallied.restarts.givenUp hdegraded).2
    have hstays := hcourse.stays hkept.steady hended
    have hlife : w.slot.life = .ended := (hstays.same Slot.life fun _ => rfl).trans hended
    refine ⟨hstays.none, ?_, w.slot, (Chronicle.strand?_eq_some hw).1,
      (hstays.same Slot.degraded fun _ => rfl).trans hdegraded, hstays.same Slot.restarts fun _ => rfl,
      hstays.same (fun x => x.poller.fetches) fun _ => rfl,
      hstays.same (fun x => x.poller.store) fun _ => rfl⟩
    rw [Chronicle.restartsDue_eq hw]
    exact (hcourse.kept hkept).steady.dues_of_not_waiting (by rw [hlife]; exact nofun)
  case stopped =>
    intro hstop more d hd
    obtain ⟨w, hw, hcourse⟩ := hlater hd
    have hhalts := hcourse.halts hkept (hstopping.trans hstop)
    refine ⟨hhalts.only, fun hne => ?_, w.slot, (Chronicle.strand?_eq_some hw).1, hhalts.degraded,
      hhalts.restarts, hhalts.fetches⟩
    rw [Chronicle.restartsDue_eq hw]
    exact (hcourse.kept hkept).steady.dues_of_not_waiting (by rw [hhalts.last hne]; exact nofun)

/-- One restart without jitter. -/
def RestartRule.once : RestartRule := { RestartRule.standard with limit := 1, jitter := 0.0 }

def crashingInstance : Chronicle (List Script) :=
  .begin .once [.plain (ascii "a1")] [⟨[], ⟨some 0, .error .foreign⟩⟩] 0 0

/-- An instance that crashes at every fetch is given up at its second crash. -/
theorem restarted_crashing :
    ∃ h c slot, Chronicle.Course Network.scripted crashingInstance h c ∧
      c.state.slots[0]? = some slot ∧ slot.degraded = true ∧ slot.restarts = 1 ∧
        Restarted Network.scripted .once c 0 slot (historyOf 0 h) := by
  obtain ⟨h, fetches, hc⟩ := Chronicle.course_continueWhile Network.scripted none (fun _ => true) 20
    (c := crashingInstance.starting) Loop.ordered_start nofun
  generalize hr : crashingInstance.starting.run.continueWhile _ _ _ _ = r at hc
  have htold : (r.state.slots[0]?.any fun slot => slot.degraded && slot.restarts == 1) = true := by
    rw [← hr]
    decide +kernel
  obtain ⟨slot, hslot, htold⟩ := (Option.any_eq_true _ _).mp htold
  obtain ⟨hdegraded, hrestarts⟩ := Bool.and_eq_true_iff.mp htold
  have hcourse : Chronicle.Course Network.scripted crashingInstance _ ⟨r, fetches⟩ :=
    Traced.trans (.tail .refl .start) hc
  have hadmitted : Backoff.Admitted RestartRule.once.base RestartRule.once.max :=
    ⟨by decide, by decide, by decide⟩
  exact ⟨_, _, slot, hcourse, hslot, hdegraded, by simpa using hrestarts,
    restarted_of_course hadmitted (by decide) hcourse hslot⟩

end TargetDiscovery
