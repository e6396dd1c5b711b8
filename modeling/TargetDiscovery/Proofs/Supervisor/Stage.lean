import TargetDiscovery.Proofs.Supervisor.Strand
import TargetDiscovery.Proofs.Supervisor.Turn

/-!
# Stages of an instance

Of the tasks on the loop some only bring news, and the others drive an instance on. Between turns
there is at most one that drives, and it fits what the instance waits for. So a loop that has ended
is not begun again but by a restart, and none that is under way is forgotten.
-/

set_option autoImplicit false

namespace TargetDiscovery

namespace SlotTask

def drives : SlotTask → Bool
  | .poll (.reply _ _) | .poll .interrupt | .dropRestart => false
  | _ => true

def driver? (t : SlotTask) : Option SlotTask := if t.drives then some t else none

theorem driver?_injective (t u x : SlotTask) (ht : t.driver? = some x) (hu : u.driver? = some x) :
    t = u := by
  unfold driver? at ht hu
  split at ht
  · split at hu
    · exact (Option.some.inj ht).trans (Option.some.inj hu).symm
    · cases hu
  · cases ht

theorem drives_of_restart {t : SlotTask} (h : t = .restart ∨ t = .restartDropped) :
    t.drives = true := by
  rcases h with rfl | rfl
  · rfl
  · rfl

end SlotTask

theorem Life.ne_of_isActive {l : Life} (h : l.isActive = true) : l ≠ .fresh ∧ l ≠ .ended := by
  constructor
  · rintro rfl
    cases h
  · rintro rfl
    cases h

def Loop.drivers (l : Loop SlotTask) : Loop SlotTask := l.choose SlotTask.driver?

abbrev driverOrder : Order SlotTask Mark → Option (Order SlotTask Mark) :=
  Loop.chooseOrder SlotTask.driver? fun _ => none

theorem Slot.Closes.drives {s : Slot} {known : Option Snapshot} {answer : Option FetchResult}
    {t : SlotTask} (hc : s.Closes known answer t) : t.drives = true := by
  obtain ⟨_, rfl | rfl⟩ := hc
  · rfl
  · rfl

theorem Slot.Leaves.drives {s : Slot} {t : SlotTask} (hl : s.Leaves t) : t.drives = true := by
  rcases hl with rfl | ⟨rfl, _⟩
  · rfl
  · rfl

/-- How far an instance is, and which task drives it on. -/
inductive Slot.Stage (s : Slot) : Loop SlotTask → Prop
  | dormant {now : Nat} (hl : s.life.isActive = false) (ha : s.poller.activity = .idle) :
      Stage s ⟨now, [], []⟩
  | launched {now : Nat} (hl : s.life = .running) (ha : s.poller.activity = .idle) :
      Stage s ⟨now, [.poll .begin], []⟩
  | racing {now due : Nat} {known : Option Snapshot} (hl : s.life = .running)
      (hp : s.poller.looping = true) (ha : s.poller.activity = .fetching known none) :
      Stage s ⟨now, [], [⟨due, .poll (.deadline s.poller.fetches)⟩]⟩
  | answered {now : Nat} {known : Option Snapshot} {result : FetchResult} (hl : s.life = .running)
      (hp : s.poller.looping = true) (ha : s.poller.activity = .fetching known (some result)) :
      Stage s ⟨now, [.poll (.resume s.poller.fetches)], []⟩
  | sleeping {now due : Nat} (hl : s.life = .running) (hp : s.poller.looping = true)
      (ha : s.poller.activity = .sleeping) : Stage s ⟨now, [], [⟨due, .poll .wake⟩]⟩
  | roused {now : Nat} (hl : s.life = .running) (hp : s.poller.looping = true)
      (ha : s.poller.activity = .sleeping) : Stage s ⟨now, [.poll .wake], []⟩
  | waiting {now due : Nat} (hl : s.life = .waiting) (ha : s.poller.activity = .idle) :
      Stage s ⟨now, [], [⟨due, .restart⟩]⟩
  | dropped {now : Nat} (hl : s.life = .waiting) (ha : s.poller.activity = .idle) :
      Stage s ⟨now, [.restartDropped], []⟩

namespace Slot.Stage

variable {s : Slot} {l l' : Loop SlotTask}

theorem looping (h : Stage s l) : s.poller.activity ≠ .idle → s.poller.looping = true := by
  intro hne
  cases h with
  | dormant _ ha | launched _ ha | waiting _ ha | dropped _ ha => exact absurd ha hne
  | racing _ hp | answered _ hp | sleeping _ hp | roused _ hp => exact hp

theorem elapse (h : Stage s l) (now : Nat) : Stage s { l with now := now } := by
  cases h with
  | dormant hl ha => exact .dormant hl ha
  | launched hl ha => exact .launched hl ha
  | racing hl hp ha => exact .racing hl hp ha
  | answered hl hp ha => exact .answered hl hp ha
  | sleeping hl hp ha => exact .sleeping hl hp ha
  | roused hl hp ha => exact .roused hl hp ha
  | waiting hl ha => exact .waiting hl ha
  | dropped hl ha => exact .dropped hl ha

theorem requestStop (h : Stage s l) : Stage s.requestStop l := by
  cases h with
  | dormant hl ha => exact .dormant hl ha
  | launched hl ha => exact .launched hl ha
  | racing hl hp ha => exact .racing (s := s.requestStop) hl hp ha
  | answered hl hp ha => exact .answered (s := s.requestStop) hl hp ha
  | sleeping hl hp ha => exact .sleeping hl hp ha
  | roused hl hp ha => exact .roused hl hp ha
  | waiting hl ha => exact .waiting hl ha
  | dropped hl ha => exact .dropped hl ha

end Slot.Stage

/-- The task is the one that drives the instance on. -/
inductive Slot.Driven (s : Slot) : SlotTask → Prop
  | begin (hl : s.life = .running) (ha : s.poller.activity = .idle) : Driven s (.poll .begin)
  | closes {t : SlotTask} {known : Option Snapshot} {answer : Option FetchResult}
      (hl : s.life = .running) (hp : s.poller.looping = true) (h : s.Closes known answer t) :
      Driven s t
  | wakes (hl : s.life = .running) (hp : s.poller.looping = true)
      (ha : s.poller.activity = .sleeping) : Driven s (.poll .wake)
  | restarts {t : SlotTask} (hl : s.life = .waiting) (ha : s.poller.activity = .idle)
      (ht : t = .restart ∨ t = .restartDropped) : Driven s t

namespace Slot.Driven

variable {s : Slot} {t : SlotTask}

theorem active (h : Driven s t) : s.life.isActive = true := by
  cases h with
  | begin hl | closes hl | wakes hl | restarts hl => rw [hl]; rfl

theorem fits (h : Driven s t) : s.Fits t := by
  cases h with
  | begin => trivial
  | closes _ _ h =>
    obtain ⟨ha, rfl | rfl⟩ := h
    · exact ⟨rfl, _, _, ha⟩
    · exact ⟨rfl, _, _, ha⟩
  | wakes _ _ ha => exact ha
  | restarts _ _ ht =>
    rcases ht with rfl | rfl
    · trivial
    · trivial

theorem drives (h : Driven s t) : t.drives = true := by
  cases h with
  | begin => rfl
  | closes _ _ h =>
    obtain ⟨_, rfl | rfl⟩ := h
    · rfl
    · rfl
  | wakes => rfl
  | restarts _ _ ht =>
    rcases ht with rfl | rfl
    · rfl
    · rfl

theorem ne_once (h : Driven s t) : t ≠ .poll .once := by
  rintro rfl
  cases h with
  | closes _ _ h => rcases h.2 with h | h <;> cases h
  | restarts _ _ ht => rcases ht with h | h <;> cases h

theorem idle_of_begin (h : Driven s (.poll .begin)) : s.poller.activity = .idle := by
  cases h with
  | begin _ ha => exact ha
  | closes _ _ hc => rcases hc.2 with h | h <;> cases h
  | restarts _ ha => exact ha

theorem idle_of_restart (h : Driven s t) (ht : t = .restart ∨ t = .restartDropped) :
    s.poller.activity = .idle := by
  cases h with
  | begin _ ha => exact ha
  | closes _ _ hc => rcases hc.2 with rfl | rfl <;> rcases ht with h | h <;> cases h
  | wakes => rcases ht with h | h <;> cases h
  | restarts _ ha => exact ha

/-- No fetch is under way where a task begins one. -/
theorem not_fetching_of_leaves (h : Driven s t) (ht : s.Leaves t) (known : Option Snapshot)
    (answer : Option FetchResult) : s.poller.activity ≠ .fetching known answer := by
  intro hk
  rcases ht with rfl | ⟨_, hsleeping⟩
  · exact absurd (h.idle_of_begin.symm.trans hk) nofun
  · exact absurd (hsleeping.symm.trans hk) nofun

theorem running_of_leaves (h : Driven s t) (ht : s.Leaves t) : s.life = .running := by
  cases h with
  | begin hl => exact hl
  | closes hl => exact hl
  | wakes hl => exact hl
  | restarts _ ha h =>
    rcases ht with rfl | ⟨rfl, _⟩
    · rcases h with h | h
      · cases h
      · cases h
    · rcases h with h | h
      · cases h
      · cases h

theorem running_of_closes (h : Driven s t) {known : Option Snapshot} {answer : Option FetchResult}
    (ht : s.Closes known answer t) : s.life = .running ∧ s.poller.looping = true := by
  cases h with
  | begin hl ha => exact absurd (ha.symm.trans ht.1) nofun
  | closes hl hp => exact ⟨hl, hp⟩
  | wakes hl hp => exact ⟨hl, hp⟩
  | restarts _ ha => exact absurd (ha.symm.trans ht.1) nofun

end Slot.Driven

namespace Slot.Stage

variable {s : Slot} {l l' : Loop SlotTask} {t : SlotTask}

theorem driven (h : Stage s l) (ht : l.Takes t l') :
    Driven s t ∧ ∃ now, l' = ⟨now, [], []⟩ := by
  cases ht with
  | @ready before after _ hr =>
    -- A list of one task leaves no room around it.
    have hone : ∀ x, [x] = before ++ t :: after → x = t ∧ before ++ after = [] := by
      intro x hx
      cases before with
      | nil =>
        obtain ⟨rfl, rfl⟩ := List.cons.inj hx
        exact ⟨rfl, rfl⟩
      | cons y before =>
        have := congrArg List.length hx
        simp at this
    cases h with
    | dormant => simp at hr
    | racing => simp at hr
    | sleeping => simp at hr
    | waiting => simp at hr
    | launched hl ha =>
      obtain ⟨rfl, hrest⟩ := hone _ hr
      exact ⟨.begin hl ha, _, by rw [hrest]⟩
    | answered hl hp ha =>
      obtain ⟨rfl, hrest⟩ := hone _ hr
      exact ⟨.closes hl hp ⟨ha, .inr rfl⟩, _, by rw [hrest]⟩
    | roused hl hp ha =>
      obtain ⟨rfl, hrest⟩ := hone _ hr
      exact ⟨.wakes hl hp ha, _, by rw [hrest]⟩
    | dropped hl ha =>
      obtain ⟨rfl, hrest⟩ := hone _ hr
      exact ⟨.restarts hl ha (.inr rfl), _, by rw [hrest]⟩
  | @timer u rest hr =>
    cases h with
    | dormant => simp at hr
    | launched => simp at hr
    | answered => simp at hr
    | roused => simp at hr
    | dropped => simp at hr
    | racing hl hp ha =>
      obtain ⟨rfl, rfl⟩ := List.cons.inj hr
      exact ⟨.closes hl hp ⟨ha, .inl rfl⟩, _, rfl⟩
    | sleeping hl hp ha =>
      obtain ⟨rfl, rfl⟩ := List.cons.inj hr
      exact ⟨.wakes hl hp ha, _, rfl⟩
    | waiting hl ha =>
      obtain ⟨rfl, rfl⟩ := List.cons.inj hr
      exact ⟨.restarts hl ha (.inl rfl), _, rfl⟩

end Slot.Stage

namespace Slot

/-- How a turn changes what is counted: it ends an active instance, or none. -/
inductive Counts (s : Slot) (u : Turn) : Prop
  | ends (he : u.ended = true) (ha : s.life.isActive = true) (hl : u.slot.life = .ended)
      (hn : u.slot.endings = s.endings + 1)
  | goes (he : u.ended = false)
      (hl : u.slot.life = s.life ∨ u.slot.life.isActive = true ∧ s.life.isActive = true)
      (hn : u.slot.endings = s.endings)

theorem Counts.fresh {s : Slot} {u : Turn} (h : Counts s u) :
    s.life = .fresh ↔ u.slot.life = .fresh := by
  cases h with
  | ends _ ha hl => exact iff_of_false (Life.ne_of_isActive ha).1 (by rw [hl]; exact nofun)
  | goes _ hl =>
    rcases hl with hl | ⟨hu, hs⟩
    · rw [hl]
    · exact iff_of_false (Life.ne_of_isActive hs).1 (Life.ne_of_isActive hu).1

theorem Counts.endings {s : Slot} {u : Turn} (h : Counts s u)
    (hs : s.endings = if s.life = .ended then 1 else 0) :
    u.slot.endings = if u.slot.life = .ended then 1 else 0 := by
  cases h with
  | ends _ ha hl hn => rw [hn, hs, hl, if_neg (Life.ne_of_isActive ha).2, if_pos rfl]
  | goes _ hl hn =>
    rcases hl with hl | ⟨hu, ha⟩
    · rw [hn, hs, hl]
    · rw [hn, hs, if_neg (Life.ne_of_isActive ha).2, if_neg (Life.ne_of_isActive hu).2]

section

variable {rule : RestartRule} {stopping : Bool} {time : Int} {ask : UInt64 × Nat → Reply}
  {s : Slot} {t : SlotTask} {u : Turn}

theorem Exits.turn {p : Poller} {fault : Option Fault} (hl : s.life = .running)
    (ha : p.activity = .idle) (h : Exits rule stopping { s with poller := p } fault u) (now : Nat) :
    Stage u.slot ((Loop.mk now [] []).obeyAll (u.orders.filterMap driverOrder)) ∧ Counts s u := by
  have hactive : s.life.isActive = true := by rw [hl]; rfl
  cases h with
  | stops => exact ⟨.dormant rfl ha, .ends rfl hactive rfl rfl⟩
  | fails => exact ⟨.dormant rfl ha, .ends rfl hactive rfl rfl⟩
  | degrades => exact ⟨.dormant rfl ha, .ends rfl hactive rfl rfl⟩
  | restarts => exact ⟨.waiting rfl ha, .goes rfl (.inr ⟨rfl, hactive⟩) rfl⟩

/-- The turn at the driving task leads to the next stage. -/
theorem Driven.turn (h : Driven s t) (hu : Does rule stopping time ask s t u) (now : Nat) :
    Stage u.slot ((Loop.mk now [] []).obeyAll (u.orders.filterMap driverOrder)) ∧ Counts s u := by
  cases hu with
  | ignores hno => exact absurd h.fits hno
  | rouses => exact absurd h.drives (by simp [SlotTask.drives])
  | drops => exact absurd h.drives (by simp [SlotTask.drives])
  | settles => exact absurd h.drives (by simp [SlotTask.drives])
  | fetches ht =>
    have hl := h.running_of_leaves ht
    refine ⟨?_, .goes rfl (.inl rfl) rfl⟩
    rcases ask (s.poller.store.version, s.poller.setup.timing.timeout) with ⟨_ | delay, result⟩
    · exact .racing hl rfl rfl
    · exact .racing hl rfl rfl
  | halts => exact ⟨.dormant rfl rfl, .ends rfl h.active rfl rfl⟩
  | @sleeps _ known answer delay ht hn ha =>
    obtain ⟨hl, hp⟩ := h.running_of_closes ht
    have hloop := (s.cycleEnd_concluded time known answer).looping.trans hp
    exact ⟨.sleeping hl hloop ha, .goes rfl (.inl rfl) rfl⟩
  | exits ht hn ha hu => exact hu.turn (h.running_of_closes ht).1 ha now
  | relaunches =>
    exact ⟨.launched rfl (h.idle_of_restart (.inl rfl)), .goes rfl (.inr ⟨rfl, h.active⟩) rfl⟩
  | abandons ht =>
    have hrestart : t = .restart ∨ t = .restartDropped := ht.symm.imp_left And.left
    exact ⟨.dormant rfl (h.idle_of_restart hrestart), .ends rfl h.active rfl rfl⟩

theorem Stage.rouse {l : Loop SlotTask} (h : Stage s l) :
    Stage s (l.cancel (.poll .wake) (.poll .wake)) := by
  cases h with
  | dormant hl ha => exact .dormant hl ha
  | launched hl ha => exact .launched hl ha
  | racing hl hp ha => exact .racing hl hp ha
  | answered hl hp ha => exact .answered hl hp ha
  | sleeping hl hp ha => exact .roused hl hp ha
  | roused hl hp ha => exact .roused hl hp ha
  | waiting hl ha => exact .waiting hl ha
  | dropped hl ha => exact .dropped hl ha

theorem Stage.dropWait {l : Loop SlotTask} (h : Stage s l) :
    Stage s (l.cancel .restart .restartDropped) := by
  cases h with
  | dormant hl ha => exact .dormant hl ha
  | launched hl ha => exact .launched hl ha
  | racing hl hp ha => exact .racing hl hp ha
  | answered hl hp ha => exact .answered hl hp ha
  | sleeping hl hp ha => exact .sleeping hl hp ha
  | roused hl hp ha => exact .roused hl hp ha
  | waiting hl ha => exact .dropped hl ha
  | dropped hl ha => exact .dropped hl ha

theorem Stage.settle {l : Loop SlotTask} (h : Stage s l) {known : Option Snapshot}
    (ha : s.poller.activity = .fetching known none) (result : FetchResult) :
    Stage { s with poller := s.poller.answered known result }
      (l.cancel (.poll (.deadline s.poller.fetches)) (.poll (.resume s.poller.fetches))) := by
  cases h with
  | dormant _ hi | launched _ hi | waiting _ hi | dropped _ hi =>
    exact absurd (hi.symm.trans ha) nofun
  | sleeping _ _ hi | roused _ _ hi => exact absurd (hi.symm.trans ha) nofun
  | answered _ _ hi => exact absurd (hi.symm.trans ha) nofun
  -- The deadline is the only timer of its kind, so one task is posted for it.
  | @racing now due _ hl hp =>
    have hcancel : ((Loop.mk now [] [⟨due, SlotTask.poll (.deadline s.poller.fetches)⟩]).cancel
        (SlotTask.poll (.deadline s.poller.fetches))
        (SlotTask.poll (.resume s.poller.fetches))) =
          ⟨now, [SlotTask.poll (.resume s.poller.fetches)], []⟩ := by
      simp [Loop.cancel]
    rw [hcancel]
    exact .answered hl hp rfl

/-- The turn at another task keeps the stage, or takes the wait out of it. -/
theorem Stage.turn_other {l : Loop SlotTask} (h : Stage s l) (ht : t.drives = false)
    (hu : Does rule stopping time ask s t u) :
    Stage u.slot (l.obeyAll (u.orders.filterMap driverOrder)) ∧ Counts s u := by
  have hleaves : ¬ s.Leaves t := by
    rintro (rfl | ⟨rfl, _⟩)
    · cases ht
    · cases ht
  have hcloses : ∀ known answer, ¬ s.Closes known answer t := by
    rintro known answer ⟨_, rfl | rfl⟩
    · cases ht
    · cases ht
  cases hu with
  | ignores => exact ⟨h, .goes rfl (.inl rfl) rfl⟩
  | rouses => exact ⟨h.rouse, .goes rfl (.inl rfl) rfl⟩
  | drops => exact ⟨h.dropWait, .goes rfl (.inl rfl) rfl⟩
  | @settles known result ha => exact ⟨h.settle ha result, .goes rfl (.inl rfl) rfl⟩
  | fetches hno => exact absurd hno hleaves
  | halts hno => exact absurd hno hleaves
  | sleeps hno => exact absurd hno (hcloses _ _)
  | exits hno => exact absurd hno (hcloses _ _)
  | relaunches => cases ht
  | abandons hno => rcases hno with rfl | ⟨rfl, _⟩ <;> cases ht

theorem Does.splits (h : Does rule stopping time ask s t u) :
    ∀ o ∈ u.orders, Loop.Splits SlotTask.driver? o := by
  intro o ho
  cases h with
  | ignores | halts | abandons => cases ho
  | rouses | drops | settles =>
    obtain rfl := List.mem_singleton.mp ho
    rfl
  | sleeps | relaunches =>
    obtain rfl := List.mem_singleton.mp ho
    trivial
  | fetches =>
    obtain ⟨delay, task, rfl⟩ := after_of_mem_fetchOrders ho
    trivial
  | exits _ _ _ hu =>
    cases hu with
    | stops | fails | degrades => cases ho
    | restarts =>
      obtain rfl := List.mem_singleton.mp ho
      trivial

end

end Slot

/-! ## The stage of a strand -/

namespace Strand

/-- What holds of the strand of an instance between turns. -/
structure Steady (v : Strand) : Prop where
  ordered : v.loop.Ordered
  stage : v.slot.Stage v.loop.drivers
  fresh : v.started = false ↔ v.slot.life = .fresh
  endings : v.slot.endings = if v.slot.life = .ended then 1 else 0

theorem drivers_obeyAll {l : Loop SlotTask} (h : l.Ordered) {orders : Slot.Orders}
    (hs : ∀ o ∈ orders, Loop.Splits SlotTask.driver? o) :
    (l.obeyAll orders).drivers = l.drivers.obeyAll (orders.filterMap driverOrder) :=
  Loop.choose_obeyAll SlotTask.driver?_injective (fun _ => none) h hs

theorem taking_plain (v : Strand) (i : Nat) (loop : Loop SlotTask) (ask : UInt64 × Nat → Reply)
    (u : Slot.Turn) : v.taking i loop ask u.plain = v.taking i loop ask u := by
  simp only [taking, Slot.Turn.plain, Loop.obeyAll_acts, Slot.Turn.fetch?]

theorem mem_timers_fetchOrders {l : Loop SlotTask} {number timeout : Nat} {reply : Reply}
    {u : Timer SlotTask} (h : u ∈ (l.obeyAll (Slot.fetchOrders number timeout reply)).timers) :
    u = ⟨l.now + timeout, .poll (.deadline number)⟩ ∨
      (∃ delay, reply.delay = some delay ∧
        u = ⟨l.now + delay, .poll (.reply number reply.result)⟩) ∨ u ∈ l.timers := by
  rcases reply with ⟨_ | delay, result⟩
  · rcases Loop.mem_timers_after.mp h with h | h
    · exact .inl h
    · exact .inr (.inr h)
  · rcases Loop.mem_timers_after.mp h with h | h
    · exact .inr (.inl ⟨delay, rfl, h⟩)
    · rcases Loop.mem_timers_after.mp h with h | h
      · exact .inl h
      · exact .inr (.inr h)

theorem deadline_mem_fetchOrders (l : Loop SlotTask) (number timeout : Nat) (reply : Reply) :
    ⟨l.now + timeout, .poll (.deadline number)⟩ ∈
      (l.obeyAll (Slot.fetchOrders number timeout reply)).timers := by
  rcases reply with ⟨_ | delay, result⟩
  · exact Loop.mem_timers_after.mpr (.inl rfl)
  · exact Loop.mem_timers_after.mpr (.inr (Loop.mem_timers_after.mpr (.inl rfl)))

theorem ready_fetchOrders (l : Loop SlotTask) (number timeout : Nat) (reply : Reply) :
    (l.obeyAll (Slot.fetchOrders number timeout reply)).ready = l.ready := by
  rcases reply with ⟨_ | delay, result⟩
  · rfl
  · rfl

section

variable {rule : RestartRule} {v : Strand} {t : SlotTask} {loop : Loop SlotTask}

/-- A task that is taken is the one that drives the instance, or does not drive. -/
theorem Steady.taken (hv : v.Steady) (ht : v.loop.Takes t loop) :
    v.slot.Driven t ∧ (∃ now, loop.drivers = ⟨now, [], []⟩) ∨
      t.drives = false ∧ v.slot.Stage loop.drivers := by
  by_cases hd : t.drives = true
  · have hdriver : t.driver? = some t := by simp [SlotTask.driver?, hd]
    exact .inl (hv.stage.driven (ht.choose hdriver))
  · have hnone : t.driver? = none := by simp [SlotTask.driver?, hd]
    refine .inr ⟨by simpa using hd, ?_⟩
    rw [Loop.drivers, ht.choose_none hnone]
    exact hv.stage.elapse _

theorem Steady.ne_once (hv : v.Steady) (ht : v.loop.Takes t loop) : t ≠ .poll .once := by
  rcases hv.taken ht with ⟨hd, _⟩ | ⟨hd, _⟩
  · exact hd.ne_once
  · rintro rfl
    cases hd

theorem Steady.does (rule : RestartRule) (hv : v.Steady) (ht : v.loop.Takes t loop) (time : Int)
    (ask : UInt64 × Nat → Reply) :
    Slot.Does rule v.stopping time ask v.slot t
      (v.slot.turn rule v.stopping time ask t).plain :=
  Slot.turn_does rule v.stopping ask time (hv.ne_once ht) hv.stage.looping

theorem Steady.turn (hv : v.Steady) (ht : v.loop.Takes t loop) {time : Int}
    {ask : UInt64 × Nat → Reply} {u : Slot.Turn}
    (hu : Slot.Does rule v.stopping time ask v.slot t u) :
    u.slot.Stage (loop.obeyAll u.orders).drivers ∧ v.slot.Counts u := by
  rw [drivers_obeyAll (ht.ordered hv.ordered) hu.splits]
  -- The stage knows the one task that drives. If it is taken, its turn sets the next one; any other
  -- turn has to leave it where it is.
  rcases hv.taken ht with ⟨hd, now, hrest⟩ | ⟨hd, hstage⟩
  · rw [hrest]
    exact hd.turn hu now
  · exact hstage.turn_other hd hu

end

theorem fresh_steady (setup : Setup) (rule : RestartRule) (seed : UInt64) :
    (fresh setup rule seed).Steady :=
  ⟨Loop.ordered_start, .dormant rfl rfl, ⟨fun _ => rfl, fun _ => rfl⟩, rfl⟩

theorem Steady.start {v : Strand} (hv : v.Steady) (hs : v.started = false) :
    v.starting.Steady := by
  have hfresh := hv.fresh.mp hs
  have hsplits : ∀ o ∈ v.slot.startOrders, Loop.Splits SlotTask.driver? o := by
    intro o ho
    rcases List.mem_cons.mp ho with rfl | ho
    · trivial
    · obtain rfl := List.mem_singleton.mp ho
      trivial
  refine ⟨Loop.obeyAll_ordered hv.ordered _, ?_, by simp [starting], ?_⟩
  · have hstage := hv.stage
    simp only [starting, drivers_obeyAll hv.ordered hsplits]
    generalize v.loop.drivers = l at hstage
    cases hstage with
    | dormant hl ha => exact .launched rfl ha
    | launched hl | racing hl | answered hl | sleeping hl | roused hl =>
      rw [hfresh] at hl
      cases hl
    | waiting hl | dropped hl =>
      rw [hfresh] at hl
      cases hl
  · have := hv.endings
    simpa [starting, hfresh] using this

theorem Steady.stop {v : Strand} (hv : v.Steady) : v.stop.Steady := by
  have hsplits : ∀ o ∈ Slot.stopOrders, Loop.Splits SlotTask.driver? o := by
    intro o ho
    rcases List.mem_cons.mp ho with rfl | ho
    · trivial
    · obtain rfl := List.mem_singleton.mp ho
      trivial
  refine ⟨Loop.obeyAll_ordered hv.ordered _, ?_, hv.fresh, hv.endings⟩
  simp only [Strand.stop, drivers_obeyAll hv.ordered hsplits]
  exact hv.stage.requestStop

/-- Every move of the strand keeps this. -/
theorem Goes.steady {rule : RestartRule} {i : Nat} {v w : Strand} (h : Goes rule i v w)
    (hv : v.Steady) : w.Steady := by
  cases h with
  | start hs => exact hv.start hs
  | stop => exact hv.stop
  | elapse => exact ⟨hv.ordered, hv.stage.elapse _, hv.fresh, hv.endings⟩
  | turn time ask ht =>
    rw [← taking_plain]
    obtain ⟨hstage, hcounts⟩ := hv.turn ht (hv.does _ ht time ask)
    exact ⟨Loop.obeyAll_ordered (ht.ordered hv.ordered) _, hstage,
      hv.fresh.trans hcounts.fresh, hcounts.endings hv.endings⟩

theorem Leads.steady {rule : RestartRule} {i : Nat} {v w : Strand} (h : Leads rule i v w)
    (hv : v.Steady) : w.Steady := by
  induction h with
  | refl => exact hv
  | tail _ hg ih => exact hg.steady ih

end Strand

theorem Chronicle.Reachable.steady {κ : Type} {n : Network κ} {c : Chronicle κ}
    (h : Reachable n c) {i : Nat} {v : Strand} (hv : c.strand? i = some v) : v.Steady := by
  obtain ⟨setup, seed, hl⟩ := h.strand hv
  exact hl.steady (Strand.fresh_steady setup _ seed)

end TargetDiscovery
