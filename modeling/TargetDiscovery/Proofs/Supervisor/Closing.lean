import TargetDiscovery.Proofs.Supervisor.Stopping

/-!
# Ousting an instance

A stop takes an instance out of every wait before the clock goes on, and leaves it a cycle that is
under way. So an instance that is still active is no more than its timeout behind the stop.
-/

set_option autoImplicit false

namespace TargetDiscovery

namespace Strand

variable {rule : RestartRule} {s : Setup} {epoch : Int} {i deadline : Nat} {v w : Strand}
  {h more : History}

/-! ## Ousting an instance -/

/-- A task is ready that takes the instance out of its wait, or that has one posted which does. -/
inductive Ousted (v : Strand) : Prop
  | drives {t : SlotTask} (ht : t ∈ v.loop.ready) (hd : t.drives = true)
  | rouses (ha : v.slot.poller.activity = .sleeping) (ht : .poll .interrupt ∈ v.loop.ready)
  | drops (hl : v.slot.life = .waiting) (ht : .dropRestart ∈ v.loop.ready)

theorem Ousted.ready_ne (ho : Ousted v) : v.loop.ready ≠ [] := by
  cases ho with
  | drives ht | rouses _ ht | drops _ ht => exact List.ne_nil_of_mem ht

/-- After a stop no cycle that is under way began later than by then, and an instance without one is
being ousted, at a time no later than that. -/
structure Closing (deadline : Nat) (v : Strand) (h : History) : Prop where
  begun : ∀ b store reply, h.head? = some ⟨b, .begins store reply⟩ → b ≤ deadline
  held : v.slot.life.isActive = true →
    (∀ known answer, v.slot.poller.activity ≠ .fetching known answer) →
      v.loop.now ≤ deadline ∧ Ousted v

theorem Closing.mono {later : Nat} (hc : Closing deadline v h) (hle : deadline ≤ later) :
    Closing later v h := by
  refine ⟨fun b store reply hb => Nat.le_trans (hc.begun b store reply hb) hle, ?_⟩
  intro hactive hidle
  obtain ⟨hnow, housted⟩ := hc.held hactive hidle
  exact ⟨Nat.le_trans hnow hle, housted⟩

/-- The clock stands still as long as an instance is being ousted. -/
theorem Closing.stands (hc : Closing deadline v h) (hactive : v.slot.life.isActive = true)
    (hidle : ∀ known answer, v.slot.poller.activity ≠ .fetching known answer) {now : Nat}
    (ha : v.loop.Admits now) : now ≤ deadline ∧ Ousted v := by
  obtain ⟨hnow, housted⟩ := hc.held hactive hidle
  rcases ha with rfl | ⟨_, hnone, _⟩
  · exact ⟨hnow, housted⟩
  · exact absurd hnone housted.ready_ne

theorem Kept.closing_stop (hv : Kept rule s epoch v h) : Closing v.loop.now v.stop h := by
  constructor
  · intro b store reply hhead
    obtain ⟨older, rfl⟩ := List.head?_eq_some_iff.mp hhead
    exact hv.past ⟨b, .begins store reply⟩ List.mem_cons_self
  · intro hactive hidle
    have hl : v.slot.life.isActive = true := hactive
    have hposted : ∀ t, t ∈ v.loop.ready ∨ t = .poll .interrupt ∨ t = .dropRestart →
        t ∈ v.stop.loop.ready := by
      intro t ht
      show t ∈ (v.loop.ready ++ [.poll .interrupt]) ++ [.dropRestart]
      simp only [List.mem_append, List.mem_singleton, or_assoc]
      exact ht
    have hdriver : ∀ t : SlotTask, t.drives = true → t ∈ v.loop.drivers.ready →
        t ∈ v.stop.loop.ready :=
      fun t hd ht => hposted t (.inl ((mem_ready_drivers hd).mpr ht))
    refine ⟨Nat.le_refl _, ?_⟩
    have hstage := hv.steady.stage
    generalize v.loop.drivers = l at hstage hdriver
    cases hstage with
    | dormant hno =>
      rw [hl] at hno
      cases hno
    | racing _ _ ha | answered _ _ ha => exact absurd ha (hidle _ _)
    | launched => exact .drives (hdriver _ rfl (List.mem_singleton.mpr rfl)) rfl
    | roused => exact .drives (hdriver _ rfl (List.mem_singleton.mpr rfl)) rfl
    | dropped => exact .drives (hdriver _ rfl (List.mem_singleton.mpr rfl)) rfl
    | sleeping _ _ ha => exact .rouses ha (hposted _ (.inr (.inl rfl)))
    | waiting hl => exact .drops hl (hposted _ (.inr (.inr rfl)))

/-! ## Every move -/

section

variable {t : SlotTask} {loop : Loop SlotTask}

/-- Where a wait is cancelled the task that takes the instance out of it is ready then. -/
theorem ready_of_cancel {x a : SlotTask} (ha : a.drives = true)
    (h : a ∈ loop.drivers.ready ∨ ∃ due, ⟨due, x⟩ ∈ loop.drivers.timers) :
    a ∈ (loop.cancel x a).ready := by
  rcases h with hready | ⟨due, hdue⟩
  · exact Loop.mem_ready_cancel_of_ready ((mem_ready_drivers ha).mpr hready)
  · exact Loop.mem_ready_cancel_of_timer (mem_timers_of_drivers hdue)

theorem Steady.roused (hs : v.Steady) (ht : v.loop.Takes (.poll .interrupt) loop)
    (ha : v.slot.poller.activity = .sleeping) :
    .poll .wake ∈ (loop.cancel (.poll .wake) (.poll .wake)).ready := by
  refine ready_of_cancel rfl ?_
  rcases hs.taken ht with ⟨hd, _⟩ | ⟨_, hstage⟩
  · exact absurd hd.drives nofun
  generalize loop.drivers = l at hstage
  cases hstage with
  | dormant _ hi | launched _ hi | waiting _ hi | dropped _ hi => exact nomatch ha.symm.trans hi
  | racing _ _ hi | answered _ _ hi => exact nomatch ha.symm.trans hi
  | sleeping => exact .inr ⟨_, List.mem_singleton.mpr rfl⟩
  | roused => exact .inl (List.mem_singleton.mpr rfl)

theorem Steady.dropped (hs : v.Steady) (ht : v.loop.Takes .dropRestart loop)
    (hl : v.slot.life = .waiting) :
    .restartDropped ∈ (loop.cancel .restart .restartDropped).ready := by
  refine ready_of_cancel rfl ?_
  rcases hs.taken ht with ⟨hd, _⟩ | ⟨_, hstage⟩
  · exact absurd hd.drives nofun
  generalize loop.drivers = l at hstage
  cases hstage with
  | dormant hi =>
    rw [hl] at hi
    cases hi
  | launched hi | racing hi | answered hi | sleeping hi | roused hi =>
    exact nomatch hl.symm.trans hi
  | waiting => exact .inr ⟨_, List.mem_singleton.mpr rfl⟩
  | dropped => exact .inl (List.mem_singleton.mpr rfl)

theorem Ousted.of_ready (ho : Ousted v)
    (hactivity : w.slot.poller.activity = v.slot.poller.activity)
    (hlife : w.slot.life = v.slot.life) (hready : ∀ x ∈ v.loop.ready, x ∈ w.loop.ready) :
    Ousted w := by
  cases ho with
  | drives ht hd => exact .drives (hready _ ht) hd
  | rouses ha ht => exact .rouses (hactivity.trans ha) (hready _ ht)
  | drops hl ht => exact .drops (hlife.trans hl) (hready _ ht)

/-- What ousts an instance is still there behind another task, and behind its own task the next one
is. -/
theorem Ousted.onward (ho : Ousted v) (hslot : w.slot = v.slot) (hd : t.drives = false)
    (hready : ∀ x ∈ v.loop.ready, x ≠ t → x ∈ w.loop.ready)
    (hrouses : t = .poll .interrupt → v.slot.poller.activity = .sleeping → Ousted w)
    (hdrops : t = .dropRestart → v.slot.life = .waiting → Ousted w) : Ousted w := by
  cases ho with
  | @drives x hx hxd =>
    refine .drives (hready x hx ?_) hxd
    rintro rfl
    rw [hd] at hxd
    cases hxd
  | rouses ha hx =>
    by_cases ht : t = .poll .interrupt
    · exact hrouses ht ha
    · exact .rouses (by rw [hslot]; exact ha) (hready _ hx (Ne.symm ht))
  | drops hl hx =>
    by_cases ht : t = .dropRestart
    · exact hdrops ht hl
    · exact .drops (by rw [hslot]; exact hl) (hready _ hx (Ne.symm ht))

/-- A turn after a stop leaves the instance being ousted, begins nothing, or ends it. -/
theorem Closing.turn (hc : Closing deadline v h) (hv : Kept rule s epoch v h)
    (hstop : v.stopping = true) (ht : v.loop.Takes t loop) (ha : v.loop.Admits loop.now)
    {time : Int} {ask : UInt64 × Nat → Reply} {u : Slot.Turn}
    (hu : Slot.Does rule v.stopping time ask v.slot t u) (hactive : u.slot.life.isActive = true)
    (hidle : ∀ known answer, u.slot.poller.activity ≠ .fetching known answer) :
    loop.now ≤ deadline ∧ Ousted (v.taking i loop ask u) := by
  have hs := hv.steady
  have hended : u.slot.life ≠ .ended := (Life.ne_of_isActive hactive).2
  have hgoing : ¬ v.slot.poller.stopRequested = false := by
    rw [hv.tallied.stop, hstop]
    exact nofun
  have hready : ∀ x ∈ v.loop.ready, x ≠ t → x ∈ loop.ready := fun x => ht.mem_ready_of_ne
  cases hu with
  | ignores hno =>
    obtain ⟨hle, housted⟩ := hc.stands hactive hidle ha
    have hd : t.drives = false := by
      rcases hs.taken ht with ⟨hd, _⟩ | ⟨hd, _⟩
      · exact absurd hd.fits hno
      · exact hd
    refine ⟨hle, housted.onward rfl hd hready ?_ ?_⟩
    · rintro rfl
      exact absurd trivial hno
    · rintro rfl
      exact absurd trivial hno
  | rouses =>
    obtain ⟨hle, housted⟩ := hc.stands hactive hidle ha
    refine ⟨hle, housted.onward rfl rfl
      (fun x hx hne => Loop.mem_ready_cancel_of_ready (hready x hx hne)) ?_ nofun⟩
    exact fun _ hsleeping => .drives (hs.roused ht hsleeping) rfl
  | drops =>
    obtain ⟨hle, housted⟩ := hc.stands hactive hidle ha
    refine ⟨hle, housted.onward rfl rfl
      (fun x hx hne => Loop.mem_ready_cancel_of_ready (hready x hx hne)) nofun ?_⟩
    exact fun _ hwaiting => .drives (hs.dropped ht hwaiting) rfl
  | settles => exact absurd rfl (hidle _ _)
  | fetches _ hgo => exact absurd hgo hgoing
  | halts => exact absurd rfl hended
  | sleeps hc hn =>
    obtain ⟨_, _, hgo, _⟩ := (hs.ending ht hc time).2.of_sleep hn
    exact absurd hgo hgoing
  | exits _ _ _ hu =>
    cases hu with
    | stops | fails => exact absurd rfl hended
    | degrades hgo | restarts hgo =>
      rw [hstop] at hgo
      cases hgo
  | relaunches hgo => exact absurd hgo hgoing
  | abandons => exact absurd rfl hended

theorem Ticks.closing (ht : Ticks rule epoch i v more w) (hv : Kept rule s epoch v h)
    (hstop : v.stopping = true) (hc : Closing deadline v h) : Closing deadline w (more ++ h) := by
  have hhalts := ht.halts hv hstop
  constructor
  case begun =>
    intro b store reply hhead
    cases more with
    | nil => exact hc.begun b store reply hhead
    | cons x more =>
      obtain ⟨c, hx⟩ := hhalts.only x List.mem_cons_self
      cases hhead
      cases hx
  case held =>
    intro hactive hidle
    cases ht with
    | start _ hgo =>
      rw [hstop] at hgo
      cases hgo
    | stop =>
      obtain ⟨hnow, housted⟩ := hc.held hactive hidle
      refine ⟨hnow, housted.of_ready rfl rfl fun x hx => ?_⟩
      exact List.mem_append.mpr (.inl (List.mem_append.mpr (.inl hx)))
    | elapse ha =>
      obtain ⟨hnow, housted⟩ := hc.stands hactive hidle ha
      exact ⟨hnow, housted.of_ready rfl rfl fun x hx => hx⟩
    | @turn t loop ask ht ha =>
      rw [← taking_plain] at hactive hidle ⊢
      have hu := hv.steady.does rule ht (epoch + loop.now) ask
      obtain ⟨hnow, housted⟩ := hc.turn hv hstop ht ha hu hactive hidle
      refine ⟨?_, housted⟩
      show (loop.obeyAll _).now ≤ deadline
      rw [Loop.obeyAll_now]
      exact hnow

end

theorem Course.closing (hvw : Course rule epoch i v more w) (hv : Kept rule s epoch v h)
    (hstop : v.stopping = true) (hc : Closing deadline v h) : Closing deadline w (more ++ h) := by
  induction hvw with
  | refl => exact hc
  | tail hvx ht ih =>
    rw [List.append_assoc]
    exact ht.closing (Course.kept hvx hv) (Course.halts hvx hv hstop).stopping ih

theorem Ticks.stopping_of_stopping (ht : Ticks rule epoch i v more w) (hgo : v.stopping = false)
    (hstop : w.stopping = true) : more = [] ∧ w = v.stop := by
  cases ht with
  | stop => exact ⟨rfl, rfl⟩
  | start =>
    have hsame : v.stopping = true := hstop
    rw [hgo] at hsame
    cases hsame
  | turn =>
    have hsame : v.stopping = true := hstop
    rw [hgo] at hsame
    cases hsame
  | elapse =>
    have hsame : v.stopping = true := hstop
    rw [hgo] at hsame
    cases hsame

/-- Whenever it was that a stop was requested, it was not later than now. -/
theorem Course.closing_of_stopping (hvw : Course rule epoch i v more w) (hv : Kept rule s epoch v h)
    (hgo : v.stopping = false) (hstop : w.stopping = true) : Closing w.loop.now w (more ++ h) := by
  induction hvw with
  | refl =>
    rw [hgo] at hstop
    cases hstop
  | @tail earlier latest x w hvx ht ih =>
    have hx := Course.kept hvx hv
    rw [List.append_assoc]
    cases hsx : x.stopping with
    | true => exact (ht.closing hx hsx (ih hsx)).mono ht.stamped.1
    | false =>
      obtain ⟨rfl, rfl⟩ := ht.stopping_of_stopping hsx hstop
      exact hx.closing_stop

/-- An instance that is still active is no more than its timeout behind the stop. -/
theorem Closing.bound (hc : Closing deadline v h) (hv : Kept rule s epoch v h)
    (hactive : v.slot.life.isActive = true) : v.loop.now ≤ deadline + s.timing.timeout := by
  by_cases hidle : ∀ known answer, v.slot.poller.activity ≠ .fetching known answer
  · exact Nat.le_add_right_of_le (hc.held hactive hidle).1
  · obtain ⟨known, hk⟩ := not_forall.mp hidle
    obtain ⟨answer, hk⟩ := not_forall_not.mp hk
    obtain ⟨b, reply, hhead, _⟩ := hv.paced.fetching known answer hk
    calc v.loop.now ≤ b + Solo.duration s.timing.timeout reply.delay :=
          hv.paced.fetch_due hv.steady hv.tallied hhead
      _ ≤ deadline + s.timing.timeout :=
          Nat.add_le_add (hc.begun _ _ _ hhead) (Solo.duration_le _ _)

end Strand

end TargetDiscovery
