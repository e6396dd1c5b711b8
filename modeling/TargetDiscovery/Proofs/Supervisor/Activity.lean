import Mathlib.Algebra.Ring.Nat
import TargetDiscovery.Proofs.Supervisor.Stage

/-!
# The count of active instances

The supervisor counts down as instances end, and what waits for it looks at that number alone. It is
the number of instances whose loop is under way or whose restart is waited for: no end is counted
twice, none is missed, and an instance that has ended stays so.
-/

set_option autoImplicit false

namespace TargetDiscovery

namespace Strand

def loops (v : Strand) : Bool :=
  decide (.poll .begin ∈ v.loop.ready) ||
    match v.slot.poller.activity with
    | .idle => false
    | .fetching _ _ | .sleeping => true

/-- Whether a restart is waited for, or the end of the wait is still to be noticed. -/
def awaitsRestart (v : Strand) : Bool :=
  (v.loop.timers.any fun t => t.task = .restart) || decide (.restartDropped ∈ v.loop.ready)

def isBusy (v : Strand) : Bool := v.loops || v.awaitsRestart

theorem mem_ready_drivers {l : Loop SlotTask} {t : SlotTask} (ht : t.drives = true) :
    t ∈ l.ready ↔ t ∈ l.drivers.ready := by
  constructor
  · intro h
    exact List.mem_filterMap.mpr ⟨t, h, by simp [SlotTask.driver?, ht]⟩
  · intro h
    obtain ⟨u, hu, hut⟩ := List.mem_filterMap.mp h
    have hsame : u = t :=
      SlotTask.driver?_injective u t t hut (by simp [SlotTask.driver?, ht])
    rw [← hsame]
    exact hu

theorem any_timers_drivers {l : Loop SlotTask} {t : SlotTask} (ht : t.drives = true) :
    (l.timers.any fun u => u.task = t) = l.drivers.timers.any fun u => u.task = t := by
  simp only [Loop.drivers, Loop.choose]
  induction l.timers with
  | nil => rfl
  | cons u rest ih =>
    by_cases hu : u.task.drives = true
    · simp [Loop.chooseTimer, SlotTask.driver?, hu, ih]
    · have hne : u.task ≠ t := by
        rintro rfl
        exact hu ht
      simp [Loop.chooseTimer, SlotTask.driver?, hu, hne, ih]

theorem isBusy_drivers (v : Strand) : v.isBusy = { v with loop := v.loop.drivers }.isBusy := by
  have hbegin := mem_ready_drivers (l := v.loop) (t := .poll .begin) rfl
  have hdropped := mem_ready_drivers (l := v.loop) (t := .restartDropped) rfl
  have hrestart := any_timers_drivers (l := v.loop) (t := .restart) rfl
  simp only [isBusy, loops, awaitsRestart, hrestart, decide_eq_decide.mpr hbegin,
    decide_eq_decide.mpr hdropped]

theorem isBusy_of_stage {s : Slot} {l : Loop SlotTask} (h : s.Stage l) (v : Strand) :
    { v with slot := s, loop := l }.isBusy = s.life.isActive := by
  cases h with
  | dormant hl ha => simp [isBusy, loops, awaitsRestart, hl, ha]
  | launched hl => simp [isBusy, loops, awaitsRestart, hl, Life.isActive]
  | racing hl _ ha => simp [isBusy, loops, awaitsRestart, hl, ha, Life.isActive]
  | answered hl _ ha => simp [isBusy, loops, awaitsRestart, hl, ha, Life.isActive]
  | sleeping hl _ ha => simp [isBusy, loops, awaitsRestart, hl, ha, Life.isActive]
  | roused hl _ ha => simp [isBusy, loops, awaitsRestart, hl, ha, Life.isActive]
  | waiting hl => simp [isBusy, loops, awaitsRestart, hl, Life.isActive]
  | dropped hl => simp [isBusy, loops, awaitsRestart, hl, Life.isActive]

/-- An instance is counted as active as long as there is something to be done about it. -/
theorem Steady.isBusy {v : Strand} (hv : v.Steady) : v.isBusy = v.slot.life.isActive := by
  rw [isBusy_drivers]
  exact isBusy_of_stage hv.stage v

/-- What has ended is not begun again. -/
theorem Goes.ended {rule : RestartRule} {i : Nat} {v w : Strand} (h : Goes rule i v w)
    (hv : v.Steady) (he : v.slot.life = .ended) : w.slot.life = .ended := by
  cases h with
  | start hs =>
    have hfresh := hv.fresh.mp hs
    rw [he] at hfresh
    cases hfresh
  | stop => exact he
  | elapse => exact he
  | turn time ask ht =>
    rw [← taking_plain]
    have hidle : v.slot.life.isActive = false := by rw [he]; rfl
    cases (hv.turn ht (hv.does _ ht time ask)).2 with
    | ends _ ha =>
      rw [hidle] at ha
      cases ha
    | goes _ hl =>
      rcases hl with hl | ⟨_, ha⟩
      · exact hl.trans he
      · rw [hidle] at ha
        cases ha

theorem Leads.ended {rule : RestartRule} {i : Nat} {v w : Strand} (h : Leads rule i v w)
    (hv : v.Steady) (he : v.slot.life = .ended) : w.slot.life = .ended := by
  induction h with
  | refl => exact he
  | tail hl hg ih => exact hg.ended (Leads.steady hl hv) ih

end Strand

/-! ## Counting -/

namespace Slot

def isActive (s : Slot) : Bool := s.life.isActive

theorem isActive_requestStop (s : Slot) : s.requestStop.isActive = s.isActive := rfl

theorem countP_add_endings {slots : List Slot}
    (h : ∀ s ∈ slots, s.endings = if s.isActive then 0 else 1) :
    slots.countP isActive + (slots.map endings).sum = slots.length := by
  induction slots with
  | nil => rfl
  | cons s slots ih =>
    have hs := h s (by simp)
    have hrest := ih fun t ht => h t (by simp [ht])
    simp only [List.countP_cons, List.map_cons, List.sum_cons, List.length_cons]
    split at hs
    · rename_i ha
      rw [if_pos ha]
      omega
    · rename_i ha
      rw [if_neg ha]
      omega

end Slot

/-- A turn that ends an instance takes one from the number, and no other turn changes it. -/
theorem countP_set_of_counts {slots : List Slot} {i : Nat} {s : Slot} {u : Slot.Turn}
    (hs : slots[i]? = some s) (h : s.Counts u) :
    (slots.set i u.slot).countP Slot.isActive =
      if u.ended then slots.countP Slot.isActive - 1 else slots.countP Slot.isActive := by
  obtain ⟨hi, rfl⟩ := List.getElem?_eq_some_iff.mp hs
  rw [List.countP_set hi]
  cases h with
  | ends he ha hl =>
    have hu : u.slot.isActive = false := by simp [Slot.isActive, hl, Life.isActive]
    have hone : slots[i].isActive = true := ha
    rw [if_pos hone, hu, he]
    rfl
  | goes he hl =>
    have hsame : u.slot.isActive = slots[i].isActive := by
      rcases hl with hl | ⟨hu, ha⟩
      · simp [Slot.isActive, hl]
      · exact hu.trans ha.symm
    rw [he, hsame]
    by_cases ha : slots[i].isActive = true
    · have hpos : 0 < slots.countP Slot.isActive :=
        List.countP_pos_iff.mpr ⟨_, List.getElem_mem hi, ha⟩
      rw [if_pos ha]
      simp
      omega
    · rw [if_neg ha]
      rfl

theorem countP_eq_countP_range (p : Slot → Bool) (slots : List Slot) :
    slots.countP p = (List.range slots.length).countP fun i => slots[i]?.any p := by
  have hmap : slots.map p = (List.range slots.length).map fun i => slots[i]?.any p := by
    apply List.ext_getElem?
    intro i
    by_cases hi : i < slots.length
    · simp [hi]
    · simp [hi]
  have hcount := congrArg (List.countP id) hmap
  simpa only [List.countP_map, Function.id_comp] using hcount

namespace Chronicle

variable {κ : Type} {n : Network κ} {c d : Chronicle κ}

/-- Whether the loop of the instance at a position is under way or its restart waited for. -/
def isBusy (c : Chronicle κ) (i : Nat) : Bool := (c.strand? i).any Strand.isBusy

theorem Reachable.isBusy (h : Reachable n c) (i : Nat) :
    c.isBusy i = c.state.slots[i]?.any Slot.isActive := by
  cases hs : c.state.slots[i]? with
  | none => simp [Chronicle.isBusy, strand?, hs]
  | some slot =>
    obtain ⟨v, hv, rfl⟩ := strand?_of_slot hs
    simp [Chronicle.isBusy, hv, (h.steady hv).isBusy, Slot.isActive]

/-- The turn of an instance ends it, or leaves the count alone. -/
theorem Reachable.counts (h : Reachable n c) {task : Supervisor.Task}
    {loop : Loop Supervisor.Task} (ht : c.loop.Takes task loop) {slot : Slot}
    (hs : c.state.slots[task.slot]? = some slot) :
    slot.Counts (c.state.turn n loop.now task.slot slot task.task).plain := by
  obtain ⟨v, hv, rfl⟩ := strand?_of_slot hs
  have hown := takes_of_strand hv ht
  have hsteady := h.steady hv
  have hdoes := hsteady.does c.state.rule hown (c.state.epoch + loop.now)
    (answers n c.state task.slot)
  rw [turn_of_strand n hv]
  exact (hsteady.turn hown hdoes).2

theorem Move.active (h : Move n c d) (hc : Reachable n c)
    (ha : c.state.active = c.state.slots.countP Slot.isActive) :
    d.state.active = d.state.slots.countP Slot.isActive := by
  cases h with
  | start =>
    rw [state_starting, Supervisor.start]
    split
    · exact ha
    · have hall : ∀ s ∈ c.state.slots.map fun slot : Slot => { slot with life := .running },
          s.isActive = true := by
        intro s hs
        obtain ⟨slot, _, rfl⟩ := List.mem_map.mp hs
        rfl
      have := List.countP_eq_length.mpr hall
      simpa using this.symm
  | stop =>
    rw [state_stopping, Supervisor.stop]
    split
    · exact ha
    · simp only [List.countP_map, Function.comp_def, Slot.isActive_requestStop]
      exact ha
  | elapse => exact ha
  | @handle task loop ht =>
    rw [state_handling, Supervisor.handle]
    cases hs : c.state.slots[task.slot]? with
    | none => exact ha
    -- Other instances are left as they are, so the count changes by the turn of this one alone.
    | some slot =>
      have hcount := countP_set_of_counts hs (hc.counts ht hs)
      simp only [Supervisor.accept, ha]
      exact hcount.symm

theorem Reachable.active (h : Reachable n c) :
    c.state.active = c.state.slots.countP Slot.isActive := by
  obtain ⟨rule, setups, network, epoch, seed, hl⟩ := h
  induction hl with
  | refl =>
    symm
    apply List.countP_eq_zero.mpr
    intro s hs
    obtain ⟨setup, _, rfl⟩ := List.mem_map.mp hs
    simp [Slot.isActive, Slot.new, Life.isActive]
  | tail hl hm ih => exact hm.active ⟨rule, setups, network, epoch, seed, hl⟩ ih

/-! ## The books of the supervisor -/

/-- The count agrees with what is under way. -/
structure Balanced (n : Network κ) (c : Chronicle κ) : Prop where
  active : c.state.active = (List.range c.state.slots.length).countP c.isBusy
  done : c.state.isDone = true ↔ ∀ i, c.isBusy i = false
  once : ∀ slot ∈ c.state.slots, slot.endings ≤ 1
  /-- Every instance that was started is active or was counted as ended. -/
  total : c.state.started = true →
    c.state.active + (c.state.slots.map Slot.endings).sum = c.state.slots.length
  /-- A turn that ends an instance ends a busy one, and the count is not at zero then. -/
  guarded : ∀ task loop slot, c.loop.Takes task loop → c.state.slots[task.slot]? = some slot →
    (c.state.turn n loop.now task.slot slot task.task).ended = true →
      c.isBusy task.slot = true ∧ slot.endings = 0 ∧ 0 < c.state.active
  /-- An instance that was counted as ended is never busy again. -/
  final : ∀ i slot, c.state.slots[i]? = some slot → 0 < slot.endings → ∀ d, Leads n c d →
    d.isBusy i = false ∧ ∃ later, d.state.slots[i]? = some later ∧ later.endings = 1

theorem Reachable.endings (h : Reachable n c) {slot : Slot} (hs : slot ∈ c.state.slots) :
    slot.endings = if slot.life = .ended then 1 else 0 := by
  obtain ⟨i, hi⟩ := List.getElem?_of_mem hs
  obtain ⟨v, hv, rfl⟩ := strand?_of_slot hi
  exact (h.steady hv).endings

theorem Reachable.not_fresh (h : Reachable n c) (hstart : c.state.started = true) {slot : Slot}
    (hs : slot ∈ c.state.slots) : slot.life ≠ .fresh := by
  obtain ⟨i, hi⟩ := List.getElem?_of_mem hs
  obtain ⟨v, hv, rfl⟩ := strand?_of_slot hi
  obtain ⟨_, _, _, hstarted, _⟩ := strand?_eq_some hv
  intro hfresh
  have := (h.steady hv).fresh.mpr hfresh
  rw [hstarted, hstart] at this
  cases this

theorem Reachable.final (h : Reachable n c) {i : Nat} {slot : Slot}
    (hs : c.state.slots[i]? = some slot) (he : 0 < slot.endings) (hd : Leads n c d) :
    d.isBusy i = false ∧ ∃ later, d.state.slots[i]? = some later ∧ later.endings = 1 := by
  obtain ⟨v, hv, rfl⟩ := strand?_of_slot hs
  have hsteady := h.steady hv
  have hended : v.slot.life = .ended := by
    have hcount := hsteady.endings
    split at hcount
    · assumption
    · omega
  obtain ⟨_, w, hw, hl⟩ := hd.strand h.ordered hv
  have hlater := hl.ended hsteady hended
  obtain ⟨hslot, _⟩ := strand?_eq_some hw
  have hw' := (h.leads hd).steady hw
  constructor
  · rw [(h.leads hd).isBusy, hslot]
    simp [Slot.isActive, hlater, Life.isActive]
  · refine ⟨w.slot, hslot, ?_⟩
    rw [hw'.endings, if_pos hlater]

/-- In every reachable chronicle the books of the supervisor are balanced. -/
theorem balanced_of_reachable (h : Reachable n c) : Balanced n c := by
  have hactive : c.state.active = (List.range c.state.slots.length).countP c.isBusy := by
    rw [h.active, countP_eq_countP_range, funext h.isBusy]
  refine ⟨hactive, ?_, ?_, ?_, ?_, fun i slot hs he d hd => h.final hs he hd⟩
  · rw [Supervisor.isDone, beq_iff_eq, hactive, List.countP_eq_zero]
    constructor
    · intro hall i
      by_cases hi : i < c.state.slots.length
      · simpa using hall i (List.mem_range.mpr hi)
      · rw [h.isBusy, List.getElem?_eq_none (by omega)]
        rfl
    · intro hall i _
      simp [hall i]
  · intro slot hs
    rw [h.endings hs]
    split
    · exact Nat.le_refl _
    · exact Nat.zero_le _
  · intro hstart
    rw [h.active]
    apply Slot.countP_add_endings
    intro slot hs
    have hfresh := h.not_fresh hstart hs
    rw [h.endings hs]
    cases hlife : slot.life <;> simp_all [Slot.isActive, Life.isActive]
  · intro task loop slot ht hs hended
    cases h.counts ht hs with
    | goes he =>
      rw [Slot.Turn.plain] at he
      simp_all
    -- The instance that ends is still counted, so there is one to be taken away.
    | ends _ ha _ =>
      have hbusy : slot.isActive = true := ha
      refine ⟨by rw [h.isBusy, hs]; exact hbusy, ?_, ?_⟩
      · rw [h.endings (List.mem_of_getElem? hs), if_neg (Life.ne_of_isActive ha).2]
      · rw [h.active]
        exact List.countP_pos_iff.mpr ⟨slot, List.mem_of_getElem? hs, hbusy⟩

def stoppedPair : Chronicle Unit :=
  (begin .standard [.plain (ascii "a1"), .plain (ascii "b2")] () 0 0).starting.stopping

/-- Once the first of them has looked at the request, one is left. -/
theorem balanced_stoppedPair :
    let c := stoppedPair.handling Network.silent ⟨0, .poll .begin⟩
      { stoppedPair.loop with ready := stoppedPair.loop.ready.tail }
    Reachable Network.silent c ∧ c.state.active = 1 ∧ Balanced Network.silent c := by
  intro c
  have hpair : Reachable Network.silent stoppedPair :=
    ⟨_, _, _, _, _, .tail (.tail .refl .start) .stop⟩
  have htakes : stoppedPair.loop.Takes ⟨0, .poll .begin⟩
      { stoppedPair.loop with ready := stoppedPair.loop.ready.tail } :=
    @Loop.Takes.ready _ stoppedPair.loop [] _ _ rfl
  have hc : Reachable Network.silent c := hpair.leads (.single (.handle htakes))
  exact ⟨hc, by decide, balanced_of_reachable hc⟩

end Chronicle

end TargetDiscovery
