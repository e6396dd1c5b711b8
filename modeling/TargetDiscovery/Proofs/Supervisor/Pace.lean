import TargetDiscovery.Proofs.Supervisor.Tally

/-!
# The pace of an instance

Every task of an instance is pending for a time that fits what happened last: the deadline for the
end of the timeout, the wake for the end of the pause, and a restart for the end of its delay. So
the cycles of an instance and its restarts come at their due times.
-/

set_option autoImplicit false

namespace TargetDiscovery

namespace Slot

/-- The driving task that an instance stands by. -/
inductive Stands (s : Slot) : SlotTask → Prop
  | begin (hl : s.life = .running) : Stands s (.poll .begin)
  | deadline {known : Option Snapshot} (ha : s.poller.activity = .fetching known none) :
      Stands s (.poll (.deadline s.poller.fetches))
  | resume {known : Option Snapshot} {result : FetchResult}
      (ha : s.poller.activity = .fetching known (some result)) :
      Stands s (.poll (.resume s.poller.fetches))
  | wake (ha : s.poller.activity = .sleeping) : Stands s (.poll .wake)
  | restart (hl : s.life = .waiting) : Stands s .restart
  | dropped (hl : s.life = .waiting) : Stands s .restartDropped

theorem Stage.stands {s : Slot} {l : Loop SlotTask} (h : Stage s l) {time : Nat} {t : SlotTask}
    (ht : l.Pends time t) : Stands s t := by
  have hready : ∀ {now : Nat} {x : SlotTask}, Loop.Pends ⟨now, [x], []⟩ time t → t = x := by
    rintro now x (⟨h, _⟩ | h)
    · exact List.mem_singleton.mp h
    · cases h
  have htimer : ∀ {now due : Nat} {x : SlotTask}, Loop.Pends ⟨now, [], [⟨due, x⟩]⟩ time t →
      t = x := by
    rintro now due x (⟨h, _⟩ | h)
    · cases h
    · cases List.mem_singleton.mp h
      rfl
  cases h with
  | dormant => exact absurd ht Loop.not_pends_idle
  | launched hl =>
    rw [hready ht]
    exact .begin hl
  | racing _ _ ha =>
    rw [htimer ht]
    exact .deadline ha
  | answered _ _ ha =>
    rw [hready ht]
    exact .resume ha
  | sleeping _ _ ha =>
    rw [htimer ht]
    exact .wake ha
  | roused _ _ ha =>
    rw [hready ht]
    exact .wake ha
  | waiting hl =>
    rw [htimer ht]
    exact .restart hl
  | dropped hl =>
    rw [hready ht]
    exact .dropped hl

/-- The time for which a task is pending fits what happened last. -/
def Timed (rule : RestartRule) (s : Slot) (h : History) (time : Nat) : SlotTask → Prop
  | .poll .begin => h.head? = none ∨ h.head? = some ⟨time, .relaunches⟩
  | .poll (.deadline _) => ∃ b store reply, h.head? = some ⟨b, .begins store reply⟩ ∧
      time = b + s.poller.setup.timing.timeout
  | .poll (.resume _) => ∃ b store delay result known,
      h.head? = some ⟨b, .begins store ⟨some delay, result⟩⟩ ∧
        delay < s.poller.setup.timing.timeout ∧ time = b + delay ∧
          s.poller.activity = .fetching known (some result)
  | .poll .wake => ∃ e c o, h.head? = some ⟨e, .ends c⟩ ∧ c.result = .ok o ∧
      (s.poller.stopRequested = false → time = e + s.poller.lastDelay.toNat)
  | .restart => ∃ e c f w, h.head? = some ⟨e, .ends c⟩ ∧ c.result = .error f ∧ rule.Waits h w ∧
      time = e + w.toNat
  | .poll (.reply n result) => n ≤ s.poller.fetches ∧
      (n = s.poller.fetches → ∀ known, s.poller.activity = .fetching known none →
        ∃ b store delay, h.head? = some ⟨b, .begins store ⟨some delay, result⟩⟩ ∧
          time = b + delay)
  | .poll .interrupt | .dropRestart | .restartDropped => s.poller.stopRequested = true
  | .poll .once => True

/-- A task that does not drive stays in time when no fetch is awaited, or a newer one. -/
theorem Timed.left {rule : RestartRule} {s s' : Slot} {h h' : History} {time : Nat} {t : SlotTask}
    (ht : Timed rule s h time t) (hd : t.drives = false)
    (hf : s.poller.fetches ≤ s'.poller.fetches)
    (hq : ∀ known, s'.poller.activity = .fetching known none →
      s.poller.fetches < s'.poller.fetches)
    (hs : s'.poller.stopRequested = s.poller.stopRequested) : Timed rule s' h' time t := by
  cases t with
  | restart => cases hd
  | restartDropped => cases hd
  | dropRestart => exact hs.trans ht
  | poll t =>
    cases t with
    | reply n result =>
      refine ⟨Nat.le_trans ht.1 hf, fun hn known ha => ?_⟩
      have hlt := hq known ha
      have hle := ht.1
      omega
    | interrupt => exact hs.trans ht
    | _ => cases hd

end Slot

/-- A reply in front of the deadline of its fetch is due earlier. -/
def Outruns (t u : Timer SlotTask) : Prop :=
  ∀ n result, t.task = .poll (.reply n result) → u.task = .poll (.deadline n) → t.due < u.due

namespace Strand

theorem eq_of_driver? {t u : SlotTask} (h : u.driver? = some t) : u = t := by
  unfold SlotTask.driver? at h
  split at h
  · exact Option.some.inj h
  · cases h

theorem mem_timers_of_drivers {l : Loop SlotTask} {u : Timer SlotTask} (h : u ∈ l.drivers.timers) :
    u ∈ l.timers := by
  obtain ⟨w, hw, hwu⟩ := List.mem_filterMap.mp h
  obtain ⟨x, hx, rfl⟩ := Option.map_eq_some_iff.mp hwu
  rw [← eq_of_driver? hx]
  exact hw

theorem pends_of_drivers {l : Loop SlotTask} {time : Nat} {t : SlotTask}
    (h : l.drivers.Pends time t) : l.Pends time t := by
  rcases h with ⟨h, rfl⟩ | h
  · obtain ⟨u, hu, hut⟩ := List.mem_filterMap.mp h
    exact .inl ⟨eq_of_driver? hut ▸ hu, rfl⟩
  · exact .inr (mem_timers_of_drivers h)

theorem Steady.stands {v : Strand} (hv : v.Steady) {time : Nat} {t : SlotTask}
    (hd : t.drives = true) (ht : v.loop.Pends time t) : v.slot.Stands t :=
  hv.stage.stands (ht.choose (by simp [SlotTask.driver?, hd]))

theorem Steady.driven {v : Strand} (hv : v.Steady) {t : SlotTask} {loop : Loop SlotTask}
    (ht : v.loop.Takes t loop) (hd : t.drives = true) :
    v.slot.Driven t ∧ ∀ time x, loop.Pends time x → x.drives = false := by
  rcases hv.taken ht with ⟨hdriven, now, hidle⟩ | ⟨hno, _⟩
  · refine ⟨hdriven, fun time x hx => ?_⟩
    cases hxd : x.drives with
    | false => rfl
    | true =>
      have hdrivers := hx.choose (f := SlotTask.driver?) (x := x) (by simp [SlotTask.driver?, hxd])
      rw [show loop.choose SlotTask.driver? = _ from hidle] at hdrivers
      exact absurd hdrivers Loop.not_pends_idle
  · rw [hd] at hno
    cases hno

/-- The tasks of the strand are pending for their times, and its last cycle is on record. -/
structure Paced (rule : RestartRule) (v : Strand) (h : History) : Prop where
  timely : v.loop.Timely
  pends : ∀ time t, v.loop.Pends time t → v.slot.Timed rule h time t
  replies : ∀ n result, .poll (.reply n result) ∉ v.loop.ready
  race : v.loop.timers.Pairwise Outruns
  /-- A fetch that is to be answered will be. -/
  awaited : ∀ known b store reply delay, v.slot.poller.activity = .fetching known none →
    h.head? = some ⟨b, .begins store reply⟩ → reply.delay = some delay →
      ⟨b + delay, .poll (.reply v.slot.poller.fetches reply.result)⟩ ∈ v.loop.timers
  fetching : ∀ known answer, v.slot.poller.activity = .fetching known answer →
    ∃ b reply, h.head? = some ⟨b, .begins v.slot.poller.store reply⟩ ∧
      known = v.slot.poller.store.current
  underway : ∀ b store reply, h.head? = some ⟨b, .begins store reply⟩ →
    ∃ known answer, v.slot.poller.activity = .fetching known answer
  stored : ∀ e c, h.head? = some ⟨e, .ends c⟩ → v.slot.poller.store = c.store
  fresh : v.slot.life = .fresh → h = []
  ended : v.slot.life = .ended → v.stopping = false → v.slot.degraded = true

section

variable {rule : RestartRule} {s : Setup} {v w : Strand} {h h' : History} {t : SlotTask}
  {loop : Loop SlotTask}

theorem unstarted_paced (rule : RestartRule) (s : Setup) (store : Store) (seed : UInt64) :
    Paced rule (unstarted rule s store seed) [] := by
  constructor
  case timely => exact nofun
  case pends => exact fun time t ht => absurd ht Loop.not_pends_idle
  case replies => exact nofun
  case race => exact .nil
  case awaited => exact nofun
  case fetching => exact nofun
  case underway => exact nofun
  case stored => exact nofun
  case fresh => exact fun _ => rfl
  case ended => exact nofun

theorem Paced.numbers (hv : Paced rule v h) {u : Timer SlotTask} (hu : u ∈ v.loop.timers) {n : Nat}
    {result : FetchResult} (htask : u.task = .poll (.reply n result)) :
    n ≤ v.slot.poller.fetches := by
  cases u with
  | mk due task =>
    subst htask
    exact (hv.pends due _ (.inr hu)).1

theorem Paced.head_of_idle (hv : Paced rule v h)
    (hidle : ∀ known answer, v.slot.poller.activity ≠ .fetching known answer) :
    ∀ b store reply, h.head? ≠ some ⟨b, .begins store reply⟩ := by
  intro b store reply hhead
  obtain ⟨known, answer, hk⟩ := hv.underway b store reply hhead
  exact hidle known answer hk

/-! ## The end of the race -/

/-- A cycle ends at the due time of its fetch, with what the fetch brought in time. -/
theorem Paced.closes (hv : Paced rule v h) (hs : v.Steady) (ht : v.loop.Takes t loop)
    {known : Option Snapshot} {answer : Option FetchResult} (hc : v.slot.Closes known answer t) :
    ∃ b reply, h.head? = some ⟨b, .begins v.slot.poller.store reply⟩ ∧
      known = v.slot.poller.store.current ∧
      loop.now = b + Solo.duration v.slot.poller.setup.timing.timeout reply.delay ∧
      answer.getD v.slot.poller.setup.timeoutResult = v.slot.poller.setup.fetched reply := by
  have hpends := ht.pends hv.timely
  have htimed := hv.pends _ _ hpends
  obtain ⟨ha, rfl | rfl⟩ := hc
  · obtain ⟨b, reply, hhead, hknown⟩ := hv.fetching _ _ ha
    obtain ⟨_, _, _, hhead', hnow⟩ := htimed
    rw [hhead] at hhead'
    cases hhead'
    have hnone : answer = none := by
      cases hs.stands rfl hpends with
      | deadline hb => exact (Activity.fetching.inj (ha.symm.trans hb)).2
    subst hnone
    -- The timer of the reply is still there, so the clock has not gone past it.
    have hlate : reply.within v.slot.poller.setup.timing.timeout = none := by
      rw [Reply.within_eq_none_iff]
      intro delay hdelay
      have hmem := hv.awaited known b _ reply delay ha hhead hdelay
      have hle : loop.now ≤ b + delay :=
        ht.timely hs.ordered hv.timely _ (ht.mem_timers hmem fun h => by cases h)
      omega
    refine ⟨b, reply, hhead, hknown, ?_, ?_⟩
    · rw [Solo.duration_of_late hlate]
      exact hnow
    · rw [Setup.fetched, hlate]
  · obtain ⟨b, store, delay, result, _, hhead, hlt, hnow, ha'⟩ := htimed
    obtain ⟨b', reply, hhead', hknown⟩ := hv.fetching _ _ ha
    rw [hhead] at hhead'
    cases hhead'
    obtain ⟨_, rfl⟩ := Activity.fetching.inj (ha.symm.trans ha')
    refine ⟨b, _, hhead, hknown, ?_, ?_⟩
    · rw [hnow, Solo.duration, Nat.min_eq_left (Nat.le_of_lt hlt)]
    · simp only [Setup.fetched, Reply.within, if_pos hlt]

/-! ## Moves that leave the instance as it is -/

theorem Paced.keep (hv : Paced rule v h) (hslot : w.slot = v.slot) (hstop : w.stopping = v.stopping)
    (htimely : w.loop.Timely)
    (hpends : ∀ time t, w.loop.Pends time t → v.loop.Pends time t ∨ v.slot.Timed rule h time t)
    (hreplies : ∀ n result, .poll (.reply n result) ∈ w.loop.ready →
      .poll (.reply n result) ∈ v.loop.ready)
    (hrace : w.loop.timers.Pairwise Outruns)
    (hawaited : ∀ known, v.slot.poller.activity = .fetching known none → ∀ u ∈ v.loop.timers,
      ∀ result, u.task = .poll (.reply v.slot.poller.fetches result) → u ∈ w.loop.timers) :
    Paced rule w h := by
  constructor
  case timely => exact htimely
  case pends =>
    intro time t ht
    rw [hslot]
    exact (hpends time t ht).elim (hv.pends time t) id
  case replies => exact fun n result hr => hv.replies n result (hreplies n result hr)
  case race => exact hrace
  case awaited =>
    rw [hslot]
    intro known b store reply delay ha hhead hdelay
    exact hawaited known ha _ (hv.awaited known b store reply delay ha hhead hdelay) _ rfl
  case fetching =>
    rw [hslot]
    exact hv.fetching
  case underway =>
    rw [hslot]
    exact hv.underway
  case stored =>
    rw [hslot]
    exact hv.stored
  case fresh =>
    rw [hslot]
    exact hv.fresh
  case ended =>
    rw [hslot, hstop]
    exact hv.ended

theorem Paced.elapse (hv : Paced rule v h) {now : Nat} (ha : v.loop.Admits now) :
    Paced rule { v with loop := { v.loop with now := now } } h := by
  refine hv.keep rfl rfl (ha.timely hv.timely) ?_ (fun _ _ => id) hv.race fun _ _ u hu _ _ => hu
  exact fun time t ht => .inl (ha.pends_of ht)

/-- A task that is dropped, or that posts others for what it drops, leaves the times as they are. -/
theorem Paced.cancel (hv : Paced rule v h) (hs : v.Steady) (ht : v.loop.Takes t loop)
    (ha : v.loop.Admits loop.now) {x a : SlotTask} (hx : ∀ n result, x ≠ .poll (.reply n result))
    (hax : ∀ n result, a ≠ .poll (.reply n result)) (hfits : ∀ n result, t ≠ .poll (.reply n result))
    (htimed : ∀ due, ⟨due, x⟩ ∈ v.loop.timers → v.slot.Timed rule h loop.now a) :
    Paced rule { v with loop := loop.cancel x a } h := by
  apply hv.keep
  case hslot => rfl
  case hstop => rfl
  case htimely =>
    intro u hu
    exact ht.timely hs.ordered hv.timely u (Loop.mem_timers_cancel.mp hu).1
  case hpends =>
    intro time y hy
    rcases Loop.pends_cancel hy with hy | ⟨rfl, rfl, due, hdue⟩
    · exact .inl (ht.pends_of ha hy)
    · exact .inr (htimed due (ht.timers_subset hdue))
  case hreplies =>
    intro n result hr
    rcases Loop.mem_ready_cancel hr with hr | hr
    · exact ht.mem_ready hr
    · exact absurd hr.symm (hax n result)
  case hrace => exact (ht.pairwise hv.race).filter _
  case hawaited =>
    intro known _ u hu result htask
    refine Loop.mem_timers_cancel.mpr ⟨ht.mem_timers hu ?_, ?_⟩
    · rw [htask]
      exact (hfits _ _).symm
    · rw [htask]
      exact (hx _ _).symm

/-! ## Moves that drive the instance on -/

/-- After the driving task is taken only tasks are left that do not drive; what is pending in
addition has to be in time. -/
theorem Paced.drive (hv : Paced rule v h) (hs : v.Steady) (ht : v.loop.Takes t loop)
    (ha : v.loop.Admits loop.now) (hd : t.drives = true) (htimely : w.loop.Timely)
    (hpends : ∀ time x, w.loop.Pends time x → loop.Pends time x ∨ w.slot.Timed rule h' time x)
    (hreplies : ∀ n result, .poll (.reply n result) ∈ w.loop.ready →
      .poll (.reply n result) ∈ loop.ready)
    (hrace : w.loop.timers.Pairwise Outruns)
    (hf : v.slot.poller.fetches ≤ w.slot.poller.fetches)
    (hstop : w.slot.poller.stopRequested = v.slot.poller.stopRequested)
    (hq : ∀ known, w.slot.poller.activity = .fetching known none →
      v.slot.poller.fetches < w.slot.poller.fetches)
    (hawaited : ∀ known b store reply delay, w.slot.poller.activity = .fetching known none →
      h'.head? = some ⟨b, .begins store reply⟩ → reply.delay = some delay →
        ⟨b + delay, .poll (.reply w.slot.poller.fetches reply.result)⟩ ∈ w.loop.timers)
    (hfetching : ∀ known answer, w.slot.poller.activity = .fetching known answer →
      ∃ b reply, h'.head? = some ⟨b, .begins w.slot.poller.store reply⟩ ∧
        known = w.slot.poller.store.current)
    (hunderway : ∀ b store reply, h'.head? = some ⟨b, .begins store reply⟩ →
      ∃ known answer, w.slot.poller.activity = .fetching known answer)
    (hstored : ∀ e c, h'.head? = some ⟨e, .ends c⟩ → w.slot.poller.store = c.store)
    (hfresh : w.slot.life ≠ .fresh)
    (hended : w.slot.life = .ended → w.stopping = false → w.slot.degraded = true) :
    Paced rule w h' := by
  have hleft := (hs.driven ht hd).2
  constructor
  case timely => exact htimely
  case pends =>
    intro time x hx
    rcases hpends time x hx with hx | hx
    · exact (hv.pends time x (ht.pends_of ha hx)).left (hleft time x hx) hf hq hstop
    · exact hx
  case replies => exact fun n result hr => hv.replies n result (ht.mem_ready (hreplies n result hr))
  case race => exact hrace
  case awaited => exact hawaited
  case fetching => exact hfetching
  case underway => exact hunderway
  case stored => exact hstored
  case fresh => exact fun hl => absurd hl hfresh
  case ended => exact hended

theorem Paced.drive_idle (hv : Paced rule v h) (hs : v.Steady) (ht : v.loop.Takes t loop)
    (ha : v.loop.Admits loop.now) (hd : t.drives = true)
    (hidle : ∀ known answer, w.slot.poller.activity ≠ .fetching known answer)
    (hf : w.slot.poller.fetches = v.slot.poller.fetches)
    (hstop : w.slot.poller.stopRequested = v.slot.poller.stopRequested)
    (htimely : w.loop.Timely)
    (hpends : ∀ time x, w.loop.Pends time x → loop.Pends time x ∨ w.slot.Timed rule h' time x)
    (hreplies : ∀ n result, .poll (.reply n result) ∈ w.loop.ready →
      .poll (.reply n result) ∈ loop.ready)
    (hrace : w.loop.timers.Pairwise Outruns)
    (hhead : ∀ b store reply, h'.head? ≠ some ⟨b, .begins store reply⟩)
    (hstored : ∀ e c, h'.head? = some ⟨e, .ends c⟩ → w.slot.poller.store = c.store)
    (hfresh : w.slot.life ≠ .fresh)
    (hended : w.slot.life = .ended → w.stopping = false → w.slot.degraded = true) :
    Paced rule w h' := by
  refine hv.drive hs ht ha hd htimely hpends hreplies hrace (Nat.le_of_eq hf.symm) hstop ?_ ?_ ?_
    (fun b store reply hb => absurd hb (hhead b store reply)) hstored hfresh hended
  · exact fun known hk => absurd hk (hidle known none)
  · exact fun known _ _ _ _ hk => absurd hk (hidle known none)
  · exact fun known answer hk => absurd hk (hidle known answer)

theorem race_after {l : Loop SlotTask} (hl : l.timers.Pairwise Outruns) (ho : l.Ordered)
    {delay : Nat} {x : SlotTask} (hx : ∀ n, x ≠ .poll (.deadline n))
    (hr : ∀ n result, x ≠ .poll (.reply n result)) :
    (l.after delay x).timers.Pairwise Outruns := by
  refine Loop.insertTimer_pairwise hl ho ?_ ?_
  · intro u _ _ n result _ hdeadline
    exact absurd hdeadline (hx n)
  · intro u _ _ n result hreply
    exact absurd hreply (hr n result)

theorem race_fetchOrders {l : Loop SlotTask} (hl : l.timers.Pairwise Outruns) (ho : l.Ordered)
    {number timeout : Nat} (reply : Reply)
    (hn : ∀ u ∈ l.timers, ∀ result, u.task ≠ .poll (.reply number result)) :
    (l.obeyAll (Slot.fetchOrders number timeout reply)).timers.Pairwise Outruns := by
  have hdeadline : (l.after timeout (.poll (.deadline number))).timers.Pairwise Outruns := by
    refine Loop.insertTimer_pairwise hl ho ?_ ?_
    · intro u hu _ n result hreply htask
      cases htask
      exact absurd hreply (hn u hu result)
    · intro u _ _ n result hreply
      cases hreply
  rcases reply with ⟨_ | delay, result⟩
  · exact hdeadline
  -- A reply due with its deadline or later stands behind it.
  · refine Loop.insertTimer_pairwise hdeadline (Loop.insertTimer_sorted _ ho) ?_ ?_
    · intro u _ _ n result _ htask
      cases htask
    · intro u _ hlt n result _ _
      exact hlt

/-! ## Every move -/

variable {time : Int} {ask : UInt64 × Nat → Reply} {u : Slot.Turn}

/-- The reply that is taken for the fetch under way is that of its script, and came before the
deadline, if the deadline is still ahead. -/
theorem Paced.answer (hv : Paced rule v h) {known : Option Snapshot} {result : FetchResult}
    (ht : v.loop.Takes (.poll (.reply v.slot.poller.fetches result)) loop)
    (hk : v.slot.poller.activity = .fetching known none) :
    ∃ b store delay, h.head? = some ⟨b, .begins store ⟨some delay, result⟩⟩ ∧
      loop.now = b + delay ∧
        ∀ due, ⟨due, .poll (.deadline v.slot.poller.fetches)⟩ ∈ loop.timers →
          delay < v.slot.poller.setup.timing.timeout := by
  obtain ⟨b, store, delay, hhead, hnow⟩ := (hv.pends _ _ (ht.pends hv.timely)).2 rfl known hk
  refine ⟨b, store, delay, hhead, hnow, fun due hdue => ?_⟩
  obtain ⟨b', store', reply', hhead', hdeadline⟩ := hv.pends _ _ (.inr (ht.timers_subset hdue))
  rw [hhead] at hhead'
  cases hhead'
  generalize hx : SlotTask.poll (.reply v.slot.poller.fetches result) = x at ht
  cases ht with
  | ready hr =>
    have hmem : .poll (.reply v.slot.poller.fetches result) ∈ v.loop.ready := by
      rw [hr, hx]
      simp
    exact absurd hmem (hv.replies _ _)
  | @timer first rest hr =>
    have hrace := hv.race
    rw [hr] at hrace
    have hlt := (List.pairwise_cons.mp hrace).1 _ hdue _ _ hx.symm rfl
    have hfirst : v.loop.now ≤ first.due := hv.timely first (by simp [hr])
    simp only [Nat.max_eq_right hfirst] at hnow
    simp only at hlt
    omega

theorem Paced.settle (hv : Paced rule v h) (hs : v.Steady) (ha : v.loop.Admits loop.now)
    {known : Option Snapshot} {result : FetchResult}
    (ht : v.loop.Takes (.poll (.reply v.slot.poller.fetches result)) loop)
    (hk : v.slot.poller.activity = .fetching known none) :
    Paced rule
      { v with
        slot := { v.slot with poller := v.slot.poller.answered known result }
        loop := loop.cancel (.poll (.deadline v.slot.poller.fetches))
          (.poll (.resume v.slot.poller.fetches)) } h := by
  obtain ⟨b, store, delay, hhead, hnow, hearly⟩ := hv.answer ht hk
  constructor
  case timely =>
    intro x hx
    exact ht.timely hs.ordered hv.timely x (Loop.mem_timers_cancel.mp hx).1
  case pends =>
    intro time x hx
    rcases Loop.pends_cancel hx with hx | ⟨rfl, rfl, due, hdue⟩
    · have hold := ht.pends_of ha hx
      have htimed := hv.pends time x hold
      cases x with
      | poll x =>
        cases x with
        | reply n r => exact ⟨htimed.1, fun _ _ hnone => nomatch hnone⟩
        | resume n =>
          cases hs.stands rfl hold with
          | resume hr => exact absurd (hk.symm.trans hr) nofun
        | _ => exact htimed
      | _ => exact htimed
    · exact ⟨b, store, delay, result, known, hhead, hearly due hdue, hnow, rfl⟩
  case replies =>
    intro n r hr
    rcases Loop.mem_ready_cancel hr with hr | hr
    · exact hv.replies n r (ht.mem_ready hr)
    · cases hr
  case race => exact (ht.pairwise hv.race).filter _
  case awaited => exact fun _ _ _ _ _ hnone => nomatch hnone
  case fetching =>
    intro known' answer hsome
    cases hsome
    exact hv.fetching known none hk
  case underway => exact fun _ _ _ _ => ⟨known, some result, rfl⟩
  case stored => exact hv.stored
  case fresh => exact hv.fresh
  case ended => exact hv.ended

theorem pends_fetchOrders {l : Loop SlotTask} {number timeout : Nat} {reply : Reply} {time : Nat}
    {x : SlotTask} (hx : (l.obeyAll (Slot.fetchOrders number timeout reply)).Pends time x) :
    l.Pends time x ∨ x = .poll (.deadline number) ∧ time = l.now + timeout ∨
      ∃ delay, reply.delay = some delay ∧ x = .poll (.reply number reply.result) ∧
        time = l.now + delay := by
  rcases hx with ⟨hx, rfl⟩ | hx
  · rw [ready_fetchOrders] at hx
    exact .inl (.inl ⟨hx, Loop.obeyAll_now _ _⟩)
  · rcases mem_timers_fetchOrders hx with hx | ⟨delay, hdelay, hx⟩ | hx
    · cases hx
      exact .inr (.inl ⟨rfl, rfl⟩)
    · cases hx
      exact .inr (.inr ⟨delay, hdelay, rfl, rfl⟩)
    · exact .inl (.inr hx)

theorem Paced.fetch (hv : Paced rule v h) (hs : v.Steady) (ht : v.loop.Takes t loop)
    (ha : v.loop.Admits loop.now) (hd : t.drives = true) (reply : Reply) (fetches : List Fetch) :
    Paced rule
      { v with
        slot := { v.slot with poller := v.slot.poller.fetching }
        loop := loop.obeyAll (Slot.fetchOrders (v.slot.poller.fetches + 1)
          v.slot.poller.setup.timing.timeout reply)
        fetches := fetches }
      (⟨loop.now, .begins v.slot.poller.store reply⟩ :: h) := by
  have hactive := Life.ne_of_isActive (hs.driven ht hd).1.active
  have hnew : ∀ x ∈ loop.timers, ∀ result,
      x.task ≠ .poll (.reply (v.slot.poller.fetches + 1) result) := by
    intro x hx result htask
    have := hv.numbers (ht.timers_subset hx) htask
    omega
  apply hv.drive hs ht ha hd
  case htimely => exact Loop.obeyAll_timely (ht.timely hs.ordered hv.timely) _
  case hpends =>
    intro time x hx
    rcases pends_fetchOrders hx with hx | ⟨rfl, rfl⟩ | ⟨delay, hdelay, rfl, rfl⟩
    · exact .inl hx
    · exact .inr ⟨_, _, _, rfl, rfl⟩
    · refine .inr ⟨Nat.le_refl _, fun _ _ _ => ⟨loop.now, v.slot.poller.store, delay, ?_, rfl⟩⟩
      rw [← hdelay]
      rfl
  case hreplies =>
    intro n result hr
    rw [ready_fetchOrders] at hr
    exact hr
  case hrace => exact race_fetchOrders (ht.pairwise hv.race) (ht.ordered hs.ordered) reply hnew
  case hf => exact Nat.le_succ _
  case hstop => rfl
  case hq => exact fun _ _ => Nat.lt_succ_self _
  case hawaited =>
    intro known b store reply' delay _ hhead hdelay
    cases hhead
    rcases reply with ⟨_ | delay', result⟩
    · cases hdelay
    · cases hdelay
      exact Loop.mem_timers_after.mpr (.inl rfl)
  case hfetching =>
    intro known answer hk
    cases hk
    exact ⟨loop.now, reply, rfl, rfl⟩
  case hunderway => exact fun _ _ _ _ => ⟨v.slot.poller.store.current, none, rfl⟩
  case hstored =>
    intro e c hhead
    cases hhead
  case hfresh => exact hactive.1
  case hended => exact fun hl => absurd hl hactive.2

/-- The instance behind a cycle, with one more timer for what it waits for, if it waits. -/
theorem Paced.close (hv : Paced rule v h) (hs : v.Steady) (ht : v.loop.Takes t loop)
    (ha : v.loop.Admits loop.now) {known : Option Snapshot} {answer : Option FetchResult}
    (hc : v.slot.Closes known answer t) {x : Slot}
    (hx : x.poller = (v.slot.cycleEnd time known answer).poller)
    (hidle : ∀ known answer, x.poller.activity ≠ .fetching known answer) {l : Loop SlotTask}
    (htimely : l.Timely) (hready : l.ready = loop.ready)
    (hpends : ∀ due y, l.Pends due y → loop.Pends due y ∨
      x.Timed rule (⟨loop.now, .ends (v.slot.poller.conclusion time known
        (answer.getD v.slot.poller.setup.timeoutResult))⟩ :: h) due y)
    (hrace : l.timers.Pairwise Outruns) (hfresh : x.life ≠ .fresh)
    (hended : x.life = .ended → v.stopping = false → x.degraded = true) :
    Paced rule { v with slot := x, loop := l }
      (⟨loop.now, .ends (v.slot.poller.conclusion time known
        (answer.getD v.slot.poller.setup.timeoutResult))⟩ :: h) := by
  have hend := v.slot.cycleEnd_concluded time known answer
  apply hv.drive_idle hs ht ha hc.drives hidle
  case hf =>
    show x.poller.fetches = _
    rw [hx, hend.fetches]
  case hstop =>
    show x.poller.stopRequested = _
    rw [hx, hend.stopRequested]
  case htimely => exact htimely
  case hpends => exact hpends
  case hreplies =>
    intro n result hr
    rw [← hready]
    exact hr
  case hrace => exact hrace
  case hhead => exact nofun
  case hstored =>
    intro e c hhead
    cases hhead
    show x.poller.store = _
    rw [hx, hend.store]
  case hfresh => exact hfresh
  case hended => exact hended

theorem Paced.exit (hv : Paced rule v h) (hs : v.Steady) (hy : Tallied rule s v h)
    (ht : v.loop.Takes t loop) (ha : v.loop.Admits loop.now) {known : Option Snapshot}
    {answer : Option FetchResult} (hc : v.slot.Closes known answer t) {fault : Option Fault}
    (hn : (v.slot.cycleEnd time known answer).next = .exited fault)
    (hidle : (v.slot.cycleEnd time known answer).poller.activity = .idle)
    (hu : Slot.Exits rule v.stopping
      { v.slot with poller := (v.slot.cycleEnd time known answer).poller } fault u) :
    Paced rule { v with slot := u.slot, loop := loop.obeyAll u.orders }
      (⟨loop.now, .ends (v.slot.poller.conclusion time known
        (answer.getD v.slot.poller.setup.timeoutResult))⟩ :: h) := by
  have htimely := ht.timely hs.ordered hv.timely
  have hrace := ht.pairwise hv.race
  have hending := (hs.ending ht hc time).2
  have hnone : ∀ known' answer', (v.slot.cycleEnd time known answer).poller.activity ≠
      .fetching known' answer' := by
    intro known' answer' hk
    exact absurd (hidle.symm.trans hk) nofun
  cases hu with
  | stops =>
    refine hv.close hs ht ha hc rfl hnone htimely rfl (fun _ _ => .inl) hrace nofun ?_
    intro _ hgo
    obtain ⟨_, _, hstop, _⟩ := hending.of_halt hn
    exact absurd ((hy.stop.symm.trans hstop).symm.trans hgo) nofun
  | fails hstop =>
    refine hv.close hs ht ha hc rfl hnone htimely rfl (fun _ _ => .inl) hrace nofun ?_
    exact fun _ hgo => absurd (hstop.symm.trans hgo) nofun
  | degrades =>
    exact hv.close hs ht ha hc rfl hnone htimely rfl (fun _ _ => .inl) hrace nofun fun _ _ => rfl
  | restarts hgo hlimit =>
    have herror := (hending.of_fault hn).1
    have hrestarts := hy.restarts
    rw [hgo] at hrestarts
    have hwaits := (hrestarts.schedule hlimit herror loop.now).2
    have hlife : ∀ x : Slot, x.scheduleRestart.slot.life = .waiting := fun _ => rfl
    refine hv.close hs ht ha hc rfl hnone (Loop.after_timely htimely _ _) rfl ?_
      (race_after hrace (ht.ordered hs.ordered) nofun nofun)
      (by rw [hlife]; exact nofun) (by rw [hlife]; exact nofun)
    intro due y hpend
    rcases Loop.pends_after hpend with hpend | ⟨rfl, rfl⟩
    · exact .inl hpend
    · exact .inr ⟨_, _, _, _, rfl, herror, hwaits, rfl⟩

theorem Paced.sleep (hv : Paced rule v h) (hs : v.Steady) (ht : v.loop.Takes t loop)
    (ha : v.loop.Admits loop.now) {known : Option Snapshot} {answer : Option FetchResult}
    (hc : v.slot.Closes known answer t) {delay : Nat}
    (hn : (v.slot.cycleEnd time known answer).next = .sleep delay)
    (hsleeping : (v.slot.cycleEnd time known answer).poller.activity = .sleeping) :
    Paced rule
      { v with
        slot := { v.slot with poller := (v.slot.cycleEnd time known answer).poller }
        loop := loop.after delay (.poll .wake) }
      (⟨loop.now, .ends (v.slot.poller.conclusion time known
        (answer.getD v.slot.poller.setup.timeoutResult))⟩ :: h) := by
  have htimely := ht.timely hs.ordered hv.timely
  have hactive := Life.ne_of_isActive (hs.driven ht hc.drives).1.active
  obtain ⟨o, hok, _, hdelay, _⟩ := (hs.ending ht hc time).2.of_sleep hn
  refine hv.close hs ht ha hc rfl ?_ (Loop.after_timely htimely _ _) rfl ?_
    (race_after (ht.pairwise hv.race) (ht.ordered hs.ordered) nofun nofun) hactive.1
    fun hl => absurd hl hactive.2
  · intro known' answer' hk
    exact absurd (hsleeping.symm.trans hk) nofun
  · intro due y hpend
    rcases Loop.pends_after hpend with hpend | ⟨rfl, rfl⟩
    · exact .inl hpend
    · exact .inr ⟨_, _, _, rfl, hok, fun _ => by rw [hdelay]⟩

/-- After a stop an instance may end without another cycle. -/
theorem Paced.finish (hv : Paced rule v h) (hs : v.Steady) (hy : Tallied rule s v h)
    (ht : v.loop.Takes t loop) (ha : v.loop.Admits loop.now) (hd : t.drives = true)
    (hstop : v.slot.poller.stopRequested = true)
    (hidle : ∀ known answer, v.slot.poller.activity ≠ .fetching known answer) {x : Slot}
    (hx : x.poller.activity = .idle) (hf : x.poller.fetches = v.slot.poller.fetches)
    (hrequested : x.poller.stopRequested = v.slot.poller.stopRequested)
    (hstore : x.poller.store = v.slot.poller.store) (hlife : x.life = .ended) :
    Paced rule { v with slot := x, loop := loop } h := by
  apply hv.drive_idle hs ht ha hd
  case hidle =>
    intro known answer hk
    exact absurd (hx.symm.trans hk) nofun
  case hf => exact hf
  case hstop => exact hrequested
  case htimely => exact ht.timely hs.ordered hv.timely
  case hpends => exact fun _ _ => .inl
  case hreplies => exact fun _ _ hr => hr
  case hrace => exact ht.pairwise hv.race
  case hhead => exact hv.head_of_idle hidle
  case hstored => exact fun e c hhead => hstore.trans (hv.stored e c hhead)
  case hfresh => exact fun hfresh => absurd (hlife.symm.trans hfresh) nofun
  case hended => exact fun _ hgo => absurd ((hy.stop.symm.trans hstop).symm.trans hgo) nofun

theorem Paced.relaunch (hv : Paced rule v h) (hs : v.Steady) (ht : v.loop.Takes .restart loop)
    (ha : v.loop.Admits loop.now) :
    Paced rule { v with slot := { v.slot with life := .running }, loop := loop.post (.poll .begin) }
      (⟨loop.now, .relaunches⟩ :: h) := by
  have hidle := (hs.driven ht rfl).1.idle_of_restart (.inl rfl)
  apply hv.drive_idle hs ht ha rfl
  case hidle =>
    intro known answer hk
    exact absurd (hidle.symm.trans hk) nofun
  case hf => rfl
  case hstop => rfl
  case htimely => exact ht.timely hs.ordered hv.timely
  case hpends =>
    intro due y hpend
    rcases Loop.pends_post hpend with hpend | ⟨rfl, rfl⟩
    · exact .inl hpend
    · exact .inr (.inr rfl)
  case hreplies =>
    intro n result hr
    rcases List.mem_append.mp hr with hr | hr
    · exact hr
    · cases List.mem_singleton.mp hr
  case hrace => exact ht.pairwise hv.race
  case hhead => exact nofun
  case hstored => exact nofun
  case hfresh => exact nofun
  case hended => exact nofun

theorem Paced.turn (hv : Paced rule v h) (hs : v.Steady) (hy : Tallied rule s v h)
    (ht : v.loop.Takes t loop) (ha : v.loop.Admits loop.now)
    (hu : Slot.Does rule v.stopping time ask v.slot t u) (i : Nat) :
    Paced rule (v.taking i loop ask u)
      ((v.slot.incident? time ask t).toList.map (Stamped.mk loop.now) ++ h) := by
  have htimely := ht.timely hs.ordered hv.timely
  have hpends := ht.pends hv.timely
  cases hu with
  | ignores hno =>
    rw [Slot.incident?_of_not_fits hno]
    refine hv.keep rfl rfl htimely (fun _ _ hx => .inl (ht.pends_of ha hx))
      (fun _ _ hr => ht.mem_ready hr) (ht.pairwise hv.race) ?_
    intro known hk x hx result htask
    apply ht.mem_timers hx
    rintro rfl
    rw [htask] at hno
    exact hno ⟨rfl, known, hk⟩
  | rouses =>
    refine hv.cancel hs ht ha nofun nofun nofun fun due hdue => ?_
    have hstop : v.slot.poller.stopRequested = true := hv.pends _ _ hpends
    obtain ⟨e, c, o, hhead, hc, _⟩ := hv.pends _ _ (.inr hdue)
    exact ⟨e, c, o, hhead, hc, fun hgo => absurd (hstop.symm.trans hgo) nofun⟩
  | drops =>
    have hstop : v.slot.poller.stopRequested = true := hv.pends _ _ hpends
    exact hv.cancel hs ht ha nofun nofun nofun fun _ _ => hstop
  | settles hk =>
    rw [Slot.incident?_of_reply]
    exact hv.settle hs ha ht hk
  | fetches hl hgo =>
    rw [Slot.incident?_of_go hl hgo]
    exact hv.fetch hs ht ha hl.drives _ _
  | halts hl hstop =>
    rw [Slot.incident?_of_stop hl hstop]
    have hidle := (hs.driven ht hl.drives).1.not_fetching_of_leaves hl
    exact hv.finish hs hy ht ha hl.drives hstop hidle rfl rfl rfl rfl rfl
  | sleeps hc hn hsleeping =>
    rw [Slot.incident?_of_closes hc]
    exact hv.sleep hs ht ha hc hn hsleeping
  | exits hc hn hidle hu =>
    rw [Slot.incident?_of_closes hc]
    have hexit := hv.exit hs hy ht ha hc hn hidle hu
    cases hu with
    | stops => exact hexit
    | fails => exact hexit
    | degrades => exact hexit
    | restarts => exact hexit
  | relaunches hgo =>
    rw [Slot.incident?_of_relaunch hgo]
    exact hv.relaunch hs ht ha
  | abandons hno =>
    rw [Slot.incident?_of_abandon hno]
    have hrestart : t = .restart ∨ t = .restartDropped := hno.symm.imp_left And.left
    have hstop : v.slot.poller.stopRequested = true := by
      rcases hno with rfl | ⟨_, hstop⟩
      · exact hv.pends _ _ hpends
      · exact hstop
    have hd := SlotTask.drives_of_restart hrestart
    have hidle := (hs.driven ht hd).1.idle_of_restart hrestart
    refine hv.finish hs hy ht ha hd hstop ?_ hidle rfl rfl rfl rfl
    intro known answer hk
    exact absurd (hidle.symm.trans hk) nofun

theorem Paced.start (hv : Paced rule v h) (hs : v.Steady) (hstart : v.started = false) :
    Paced rule v.starting h := by
  have hfresh := hs.fresh.mp hstart
  have hnil := hv.fresh hfresh
  subst hnil
  have hidle : ∀ known answer, v.slot.poller.activity ≠ .fetching known answer := by
    intro known answer hk
    obtain ⟨b, reply, hhead, _⟩ := hv.fetching known answer hk
    cases hhead
  constructor
  case timely => exact hv.timely
  case pends =>
    intro time t ht
    have hold : v.loop.Pends time t ∨ t = .poll .begin ∧ time = v.loop.now := Loop.pends_post ht
    rcases hold with hold | ⟨rfl, _⟩
    · exact hv.pends time t hold
    · exact .inl rfl
  case replies =>
    intro n result hr
    have hold : .poll (.reply n result) ∈ v.loop.ready ++ [.poll .begin] := hr
    rcases List.mem_append.mp hold with hr | hr
    · exact hv.replies n result hr
    · cases List.mem_singleton.mp hr
  case race => exact hv.race
  case awaited => exact fun known _ _ _ _ hk => absurd hk (hidle known none)
  case fetching => exact fun known answer hk => absurd hk (hidle known answer)
  case underway => exact nofun
  case stored => exact hv.stored
  case fresh => exact nofun
  case ended => exact nofun

theorem Paced.stopped (hv : Paced rule v h) : Paced rule v.stop h := by
  have hpends : ∀ {time t}, v.stop.loop.Pends time t →
      v.loop.Pends time t ∨ t = .poll .interrupt ∨ t = .dropRestart := by
    intro time t ht
    rcases Loop.pends_post ht with ht | ⟨rfl, _⟩
    · rcases Loop.pends_post ht with ht | ⟨rfl, _⟩
      · exact .inl ht
      · exact .inr (.inl rfl)
    · exact .inr (.inr rfl)
  constructor
  case timely => exact hv.timely
  case pends =>
    intro time t ht
    rcases hpends ht with hold | rfl | rfl
    · have htimed := hv.pends time t hold
      cases t with
      | poll t =>
        cases t with
        | wake =>
          obtain ⟨e, c, o, hhead, hc, _⟩ := htimed
          exact ⟨e, c, o, hhead, hc, nofun⟩
        | interrupt => rfl
        | _ => exact htimed
      | restart => exact htimed
      | restartDropped => rfl
      | dropRestart => rfl
    · rfl
    · rfl
  case replies =>
    intro n result hr
    have hold : .poll (.reply n result) ∈ (v.loop.ready ++ [.poll .interrupt]) ++ [.dropRestart] := hr
    rcases List.mem_append.mp hold with hr | hr
    · rcases List.mem_append.mp hr with hr | hr
      · exact hv.replies n result hr
      · cases List.mem_singleton.mp hr
    · cases List.mem_singleton.mp hr
  case race => exact hv.race
  case awaited => exact hv.awaited
  case fetching => exact hv.fetching
  case underway => exact hv.underway
  case stored => exact hv.stored
  case fresh => exact hv.fresh
  case ended => exact nofun

theorem Ticks.paced {epoch : Int} {i : Nat} {more : History} (ht : Ticks rule epoch i v more w)
    (hs : v.Steady) (hy : Tallied rule s v h) (hv : Paced rule v h) : Paced rule w (more ++ h) := by
  cases ht with
  | start hstart => exact hv.start hs hstart
  | stop => exact hv.stopped
  | elapse ha => exact hv.elapse ha
  | turn ask ht ha =>
    rw [← taking_plain]
    exact hv.turn hs hy ht ha (hs.does rule ht _ ask) i

end

end Strand

end TargetDiscovery
