import TargetDiscovery.Proofs.Supervisor.Activity
import TargetDiscovery.Proofs.Supervisor.Punctual

/-!
# Behind the end and behind a stop

Nothing happens any more to an instance that has ended. To one that is asked to stop all that still
happens is the end of the cycle under way, and with it the instance ends.
-/

set_option autoImplicit false

namespace TargetDiscovery

namespace Strand

variable {rule : RestartRule} {s : Setup} {epoch : Int} {i : Nat} {v w : Strand}
  {h more : History}

/-! ## Instances that have ended -/

/-- Nothing happened, and all that may have changed is that a stop is requested. -/
structure Stays (v : Strand) (more : History) (w : Strand) : Prop where
  none : more = []
  slot : w.slot.requestStop = v.slot.requestStop

theorem Stays.same (hw : Stays v more w) {α : Type} (f : Slot → α)
    (hf : ∀ x : Slot, f x.requestStop = f x) : f w.slot = f v.slot := by
  rw [← hf w.slot, hw.slot, hf v.slot]

theorem Steady.idle_of_ended (hs : v.Steady) (he : v.slot.life = .ended) :
    v.slot.poller.activity = .idle := by
  have hstage := hs.stage
  generalize v.loop.drivers = l at hstage
  cases hstage with
  | dormant _ ha => exact ha
  | launched hl | racing hl | answered hl | sleeping hl | roused hl | waiting hl | dropped hl =>
    rw [he] at hl
    cases hl

theorem Ticks.stays (ht : Ticks rule epoch i v more w) (hs : v.Steady)
    (he : v.slot.life = .ended) : Stays v more w := by
  cases ht with
  | start hstart =>
    have hfresh := hs.fresh.mp hstart
    rw [he] at hfresh
    cases hfresh
  | stop => exact ⟨rfl, rfl⟩
  | elapse => exact ⟨rfl, rfl⟩
  | @turn t loop ask ht ha =>
    rw [← taking_plain]
    have hdrives : t.drives = false := by
      rcases hs.taken ht with ⟨hd, _⟩ | ⟨hd, _⟩
      · exact absurd he (Life.ne_of_isActive hd.active).2
      · exact hd
    have hidle := hs.idle_of_ended he
    generalize (v.slot.turn rule v.stopping (epoch + loop.now) ask t).plain = u,
      hs.does rule ht (epoch + loop.now) ask = hu
    cases hu with
    | ignores hno => exact ⟨by rw [Slot.incident?_of_not_fits hno]; rfl, rfl⟩
    | rouses => exact ⟨rfl, rfl⟩
    | drops => exact ⟨rfl, rfl⟩
    | settles hfetching => exact absurd (hidle.symm.trans hfetching) nofun
    | fetches hl =>
      rw [hl.drives] at hdrives
      cases hdrives
    | halts hl =>
      rw [hl.drives] at hdrives
      cases hdrives
    | sleeps hc =>
      rw [hc.drives] at hdrives
      cases hdrives
    | exits hc =>
      rw [hc.drives] at hdrives
      cases hdrives
    | relaunches => cases hdrives
    | abandons hl =>
      rcases hl with rfl | ⟨rfl, _⟩
      · cases hdrives
      · cases hdrives

theorem Course.stays (hc : Course rule epoch i v more w) (hs : v.Steady)
    (he : v.slot.life = .ended) : Stays v more w := by
  suffices hall : Stays v more w ∧ w.Steady ∧ w.slot.life = .ended from hall.1
  induction hc with
  | refl => exact ⟨⟨rfl, rfl⟩, hs, he⟩
  | tail _ ht ih =>
    obtain ⟨hstays, hsteady, hended⟩ := ih
    have hstep := ht.stays hsteady hended
    refine ⟨⟨?_, hstep.slot.trans hstays.slot⟩, ht.goes.steady hsteady,
      ht.goes.ended hsteady hended⟩
    rw [hstep.none, hstays.none]
    rfl

/-! ## Instances that are asked to stop -/

/-- All that happened is the end of a cycle. It counts for nothing, and ends the instance. -/
structure Halts (v : Strand) (more : History) (w : Strand) : Prop where
  stopping : w.stopping = true
  only : ∀ x ∈ more, ∃ c, x.entry = .ends c
  last : more ≠ [] → w.slot.life = .ended
  restarts : w.slot.restarts = v.slot.restarts
  degraded : w.slot.degraded = v.slot.degraded
  fetches : w.slot.poller.fetches = v.slot.poller.fetches

theorem Ticks.halts (ht : Ticks rule epoch i v more w) (hv : Kept rule s epoch v h)
    (hstop : v.stopping = true) : Halts v more w := by
  have hs := hv.steady
  have hrequested : v.slot.poller.stopRequested = true := hv.tallied.stop.trans hstop
  have hgoing : ¬ v.slot.poller.stopRequested = false := by simp [hrequested]
  cases ht with
  | start _ hgo =>
    rw [hstop] at hgo
    cases hgo
  | stop => exact ⟨rfl, nofun, fun hne => absurd rfl hne, rfl, rfl, rfl⟩
  | elapse => exact ⟨hstop, nofun, fun hne => absurd rfl hne, rfl, rfl, rfl⟩
  | @turn t loop ask ht ha =>
    rw [← taking_plain]
    generalize (v.slot.turn rule v.stopping (epoch + loop.now) ask t).plain = u,
      hs.does rule ht (epoch + loop.now) ask = hu
    have hsame : v.slot.incident? (epoch + loop.now) ask t = none →
        u.slot.restarts = v.slot.restarts → u.slot.degraded = v.slot.degraded →
          u.slot.poller.fetches = v.slot.poller.fetches →
            Halts v ((v.slot.incident? (epoch + loop.now) ask t).toList.map (Stamped.mk loop.now))
              (v.taking i loop ask u) := by
      intro hnone hr hd hf
      rw [hnone]
      exact ⟨hstop, nofun, fun hne => absurd rfl hne, hr, hd, hf⟩
    cases hu with
    | ignores hno => exact hsame (Slot.incident?_of_not_fits hno) rfl rfl rfl
    | rouses => exact hsame rfl rfl rfl rfl
    | drops => exact hsame rfl rfl rfl rfl
    | settles => exact hsame (Slot.incident?_of_reply _ _) rfl rfl rfl
    | fetches _ hgo => exact absurd hgo hgoing
    | halts hl => exact hsame (Slot.incident?_of_stop hl hrequested) rfl rfl rfl
    | relaunches hgo => exact absurd hgo hgoing
    | abandons hno => exact hsame (Slot.incident?_of_abandon hno) rfl rfl rfl
    | sleeps hc hn =>
      obtain ⟨_, _, hgo, _⟩ := (hs.ending ht hc (epoch + loop.now)).2.of_sleep hn
      exact absurd hgo hgoing
    | @exits _ known answer fault _ hc hn _ hu =>
      have hend := v.slot.cycleEnd_concluded (epoch + loop.now) known answer
      rw [Slot.incident?_of_closes hc]
      cases hu with
      | stops => exact ⟨hstop, by simp, fun _ => rfl, rfl, rfl, hend.fetches⟩
      | fails => exact ⟨hstop, by simp, fun _ => rfl, rfl, rfl, hend.fetches⟩
      | degrades hgo | restarts hgo =>
        rw [hstop] at hgo
        cases hgo

theorem Course.halts (hc : Course rule epoch i v more w) (hv : Kept rule s epoch v h)
    (hstop : v.stopping = true) : Halts v more w := by
  induction hc with
  | refl => exact ⟨hstop, nofun, fun hne => absurd rfl hne, rfl, rfl, rfl⟩
  | @tail earlier latest x w hc ht ih =>
    have hkept := Course.kept hc hv
    have hstep := ht.halts hkept ih.stopping
    refine ⟨hstep.stopping, ?_, ?_, hstep.restarts.trans ih.restarts,
      hstep.degraded.trans ih.degraded, hstep.fetches.trans ih.fetches⟩
    · intro x hx
      rcases List.mem_append.mp hx with hx | hx
      · exact hstep.only x hx
      · exact ih.only x hx
    · intro hne
      by_cases hlatest : latest = []
      · subst hlatest
        exact ht.goes.ended hkept.steady (ih.last hne)
      · exact hstep.last hlatest

end Strand

end TargetDiscovery
