import TargetDiscovery.Proofs.Schedule
import TargetDiscovery.Proofs.Supervisor.Turn
import TargetDiscovery.Proofs.Supervisor.Strand

/-!
# Courses

A course is a chronicle that keeps to the clock, together with what happened to the instances on the
way. Time goes on only when nothing is ready, and not past a timer. Apart from that, start and stop
may be called at any moment, ready tasks are handled in any order, and every fetch may be answered
in any way. The course of an instance is its part of a course.
-/

set_option autoImplicit false

namespace TargetDiscovery

/-! ## What happens at a task -/

def Slot.incident? (s : Slot) (time : Int) (ask : UInt64 × Nat → Reply) : SlotTask → Option Incident
  | .poll task => s.poller.incident? time ask task
  | .restart => if s.poller.stopRequested then none else some .relaunches
  | .restartDropped | .dropRestart => none

namespace Slot

variable {s : Slot} {time : Int} {ask : UInt64 × Nat → Reply} {t : SlotTask}

theorem concluded?_of_not_fits {task : Poller.Task} (h : ¬ s.Fits (.poll task)) :
    s.poller.concluded? time task = none := by
  cases task with
  | deadline n | resume n =>
    cases ha : s.poller.activity with
    | fetching known answer =>
      have hn : n ≠ s.poller.fetches := fun hn => h ⟨hn, known, answer, ha⟩
      simp only [Poller.concluded?, ha, if_neg hn]
    | _ => simp only [Poller.concluded?, ha]
  | _ => rfl

theorem incident?_of_not_fits (h : ¬ s.Fits t) : s.incident? time ask t = none := by
  cases t with
  | poll task =>
    rw [incident?, Poller.incident?, concluded?_of_not_fits h, react_of_not_fits time h]
    rfl
  | _ => exact absurd trivial h

theorem incident?_of_closes {known : Option Snapshot} {answer : Option FetchResult}
    (h : s.Closes known answer t) :
    s.incident? time ask t = some (.ends (s.poller.conclusion time known
      (answer.getD s.poller.setup.timeoutResult))) := by
  obtain ⟨ha, rfl | rfl⟩ := h
  · simp [incident?, Poller.incident?, Poller.concluded?, ha]
  · simp [incident?, Poller.incident?, Poller.concluded?, ha]

theorem incident?_of_go (h : s.Leaves t) (hs : s.poller.stopRequested = false) :
    s.incident? time ask t = some (.begins s.poller.store
      (ask (s.poller.store.version, s.poller.setup.timing.timeout))) := by
  rcases h with rfl | ⟨rfl, ha⟩
  · have hgo := @Poller.leaveWait_of_go { s.poller with looping := true } hs
    simp [incident?, Poller.incident?, Poller.concluded?, Poller.react, hgo, Poller.Next.asked?]
  · have hgo := @Poller.leaveWait_of_go s.poller hs
    simp [incident?, Poller.incident?, Poller.concluded?, Poller.react, ha, hgo,
      Poller.Next.asked?]

theorem incident?_of_stop (h : s.Leaves t) (hs : s.poller.stopRequested = true) :
    s.incident? time ask t = none := by
  rcases h with rfl | ⟨rfl, ha⟩
  · have hstop := @Poller.leaveWait_of_stop { s.poller with looping := true } hs
    simp [incident?, Poller.incident?, Poller.concluded?, Poller.react, hstop, Poller.Next.asked?]
  · have hstop := @Poller.leaveWait_of_stop s.poller hs
    simp [incident?, Poller.incident?, Poller.concluded?, Poller.react, ha, hstop,
      Poller.Next.asked?]

theorem incident?_of_reply (n : Nat) (result : FetchResult) :
    s.incident? time ask (.poll (.reply n result)) = none := by
  simp only [incident?, Poller.incident?, Poller.concluded?, Poller.react]
  split
  · split
    · rfl
    · rfl
  · rfl

theorem incident?_of_relaunch (hs : s.poller.stopRequested = false) :
    s.incident? time ask .restart = some .relaunches := by
  rw [incident?, hs]
  rfl

theorem incident?_of_abandon
    (h : t = .restartDropped ∨ t = .restart ∧ s.poller.stopRequested = true) :
    s.incident? time ask t = none := by
  rcases h with rfl | ⟨rfl, hs⟩
  · rfl
  · rw [incident?, hs]
    rfl

end Slot

/-! ## The course of an instance -/

namespace Strand

/-- One move of the strand of the instance at a position that keeps to the clock. The epoch is the
time of day at which the clock started. -/
inductive Ticks (rule : RestartRule) (epoch : Int) (i : Nat) (v : Strand) :
    History → Strand → Prop
  | start (h : v.started = false) (hs : v.stopping = false) : Ticks rule epoch i v [] v.starting
  | stop : Ticks rule epoch i v [] v.stop
  | turn {t : SlotTask} {loop : Loop SlotTask} (ask : UInt64 × Nat → Reply)
      (h : v.loop.Takes t loop) (ha : v.loop.Admits loop.now) :
      Ticks rule epoch i v
        ((v.slot.incident? (epoch + loop.now) ask t).toList.map (Stamped.mk loop.now))
        (v.taking i loop ask (v.slot.turn rule v.stopping (epoch + loop.now) ask t))
  | elapse {now : Nat} (h : v.loop.Admits now) :
      Ticks rule epoch i v [] { v with loop := { v.loop with now := now } }

/-- The course from one strand to another, with what happened on the way. -/
def Course (rule : RestartRule) (epoch : Int) (i : Nat) : Strand → History → Strand → Prop :=
  Traced (Ticks rule epoch i)

theorem Ticks.goes {rule : RestartRule} {epoch : Int} {i : Nat} {v w : Strand} {h : History}
    (ht : Ticks rule epoch i v h w) : Goes rule i v w := by
  cases ht with
  | start h hs => exact .start h hs
  | stop => exact .stop
  | turn ask h => exact .turn _ ask h
  | elapse h => exact .elapse h.now_le

end Strand

/-! ## The course of a supervisor -/

/-- Something that happens to the instance at a position. -/
structure Note where
  slot : Nat
  incident : Incident

namespace Note

def own (i : Nat) (n : Note) : Option Incident := if n.slot = i then some n.incident else none

end Note

/-- What happened to the instance at a position. -/
def historyOf (i : Nat) (h : List (Stamped Note)) : History := Stamped.choose (Note.own i) h

theorem historyOf_append (i : Nat) (h more : List (Stamped Note)) :
    historyOf i (h ++ more) = historyOf i h ++ historyOf i more := List.filterMap_append

namespace Chronicle

variable {κ : Type}

def noteOf (n : Network κ) (now : Nat) (s : Supervisor κ) (t : Supervisor.Task) : Option Note :=
  s.slots[t.slot]?.bind fun slot =>
    (slot.incident? (s.epoch + now) (answers n s t.slot) t.task).map (Note.mk t.slot)

/-- One move of a chronicle that keeps to the clock. -/
inductive Tick (n : Network κ) (c : Chronicle κ) : List (Stamped Note) → Chronicle κ → Prop
  | start : Tick n c [] c.starting
  | stop : Tick n c [] c.stopping
  | handle {task : Supervisor.Task} {loop : Loop Supervisor.Task} (h : c.loop.Takes task loop)
      (ha : c.loop.Admits loop.now) :
      Tick n c ((noteOf n loop.now c.state task).toList.map (Stamped.mk loop.now))
        (c.handling n task loop)
  | elapse {now : Nat} (h : c.loop.Admits now) : Tick n c [] (c.waiting now)

/-- The course from one chronicle to another, with what happened on the way. -/
def Course (n : Network κ) : Chronicle κ → List (Stamped Note) → Chronicle κ → Prop :=
  Traced (Tick n)

theorem Tick.move {n : Network κ} {c d : Chronicle κ} {h : List (Stamped Note)}
    (ht : Tick n c h d) : Move n c d := by
  cases ht with
  | start => exact .start
  | stop => exact .stop
  | handle h => exact .handle h
  | elapse h => exact .elapse h.now_le

theorem Course.leads {n : Network κ} {c d : Chronicle κ} {h : List (Stamped Note)}
    (hc : Course n c h d) : Leads n c d := by
  induction hc with
  | refl => exact .refl
  | tail _ ht ih => exact ih.tail ht.move

theorem historyOf_note {n : Network κ} {now : Nat} {s : Supervisor κ} {task : Supervisor.Task}
    {slot : Slot} (h : s.slots[task.slot]? = some slot) (i : Nat) :
    historyOf i ((noteOf n now s task).toList.map (Stamped.mk now)) =
      if task.slot = i then
        ((slot.incident? (s.epoch + now) (answers n s i) task.task).toList.map (Stamped.mk now))
      else [] := by
  rw [noteOf, h, Option.bind_some]
  by_cases hi : task.slot = i
  · subst hi
    cases hx : slot.incident? (s.epoch + now) (answers n s task.slot) task.task with
    | none => simp [historyOf, Stamped.choose]
    | some x => simp [historyOf, Stamped.choose, Note.own]
  · cases hx : slot.incident? (s.epoch + now) (answers n s task.slot) task.task with
    | none => simp [historyOf, Stamped.choose, hi]
    | some x => simp [historyOf, Stamped.choose, Note.own, hi]

theorem historyOf_note_other {n : Network κ} {now : Nat} {s : Supervisor κ}
    {task : Supervisor.Task} {i : Nat} (hi : task.slot ≠ i) :
    historyOf i ((noteOf n now s task).toList.map (Stamped.mk now)) = [] := by
  cases hs : s.slots[task.slot]? with
  | none => simp [noteOf, hs, historyOf, Stamped.choose]
  | some slot => rw [historyOf_note hs, if_neg hi]

/-- Whatever moves a course moves that of an instance, or leaves it as it is. -/
theorem Tick.strand {n : Network κ} {c d : Chronicle κ} {h : List (Stamped Note)}
    (ht : Tick n c h d) (hc : c.loop.Ordered) {i : Nat} {v : Strand} (hv : c.strand? i = some v) :
    ∃ w, d.strand? i = some w ∧
      (w = v ∧ historyOf i h = [] ∨
        Strand.Ticks c.state.rule c.state.epoch i v (historyOf i h) w) := by
  obtain ⟨hslot, hloop, _, _, hstopping⟩ := strand?_eq_some hv
  have hnone : historyOf i [] = [] := rfl
  cases ht with
  | start =>
    refine ⟨_, strand?_starting hc hv, ?_⟩
    by_cases hs : (v.started || v.stopping) = true
    · rw [if_pos hs]
      exact .inl ⟨rfl, rfl⟩
    · rw [if_neg hs, hnone]
      exact .inr (.start (by simp_all) (by simp_all))
  | stop =>
    refine ⟨_, strand?_stopping hc hv, ?_⟩
    by_cases hs : v.stopping = true
    · rw [if_pos hs]
      exact .inl ⟨rfl, rfl⟩
    · rw [if_neg hs, hnone]
      exact .inr .stop
  | @handle task loop ht ha =>
    by_cases hi : task.slot = i
    · cases task with
      | mk j t =>
        subst hi
        have hadmits : v.loop.Admits (loop.choose (Supervisor.Task.own j)).now := by
          rw [hloop]
          exact ha.choose _
        refine ⟨_, strand?_handling_own n hc hv ht, .inr ?_⟩
        rw [historyOf_note hslot, if_pos rfl]
        exact .turn _ (takes_of_strand hv ht) hadmits
    -- What another instance does is time going by for this one.
    · refine ⟨_, strand?_handling_other n hc hv ht hi, .inr ?_⟩
      rw [historyOf_note_other hi]
      refine .elapse ?_
      rw [hloop]
      exact ha.choose _
  | @elapse now hnow =>
    refine ⟨_, strand?_waiting hv now, .inr (.elapse ?_)⟩
    rw [hloop]
    exact hnow.choose _

theorem Course.strand {n : Network κ} {c d : Chronicle κ} {h : List (Stamped Note)}
    (hcd : Course n c h d) (hc : c.loop.Ordered) {i : Nat} {v : Strand}
    (hv : c.strand? i = some v) :
    d.state.rule = c.state.rule ∧ d.state.epoch = c.state.epoch ∧
      ∃ w, d.strand? i = some w ∧
        v.Course c.state.rule c.state.epoch i (historyOf i h) w := by
  induction hcd with
  | refl => exact ⟨rfl, rfl, v, hv, .refl⟩
  | tail hcd ht ih =>
    obtain ⟨hrule, hepoch, w, hw, hl⟩ := ih
    obtain ⟨x, hx, hmove⟩ := ht.strand (Leads.ordered (Course.leads hcd) hc) hw
    rw [hrule, hepoch] at hmove
    obtain ⟨hrule', hepoch'⟩ := ht.move.constants
    refine ⟨hrule'.trans hrule, hepoch'.trans hepoch, x, hx, ?_⟩
    rw [historyOf_append]
    rcases hmove with ⟨rfl, hnone⟩ | hg
    · rw [hnone]
      exact hl
    · exact .tail hl hg

theorem Tick.timely {n : Network κ} {c d : Chronicle κ} {h : List (Stamped Note)}
    (hcd : Tick n c h d) (ho : c.loop.Ordered) (ht : c.loop.Timely) : d.loop.Timely := by
  cases hcd with
  | start => rw [loop_starting]; exact Loop.obeyAll_timely ht _
  | stop => rw [loop_stopping]; exact Loop.obeyAll_timely ht _
  | handle h => rw [loop_handling]; exact Loop.obeyAll_timely (h.timely ho ht) _
  | elapse h => exact h.timely ht

theorem Course.timely {n : Network κ} {c d : Chronicle κ} {h : List (Stamped Note)}
    (hcd : Course n c h d) (ho : c.loop.Ordered) (ht : c.loop.Timely) : d.loop.Timely := by
  induction hcd with
  | refl => exact ht
  | tail hcd hstep ih => exact hstep.timely (Leads.ordered (Course.leads hcd) ho) ih

/-! ## The event loop -/

theorem tick_of_step? {n : Network κ} {c : Chronicle κ}
    {r : Run (Supervisor κ) Supervisor.Task Supervisor.Entry}
    (h : c.run.step? (Supervisor.machine n) = some r) (ho : c.loop.Ordered)
    (ht : c.loop.Timely) : ∃ notes fetches, Tick n c notes ⟨r, fetches⟩ := by
  obtain ⟨task, loop, hn, rfl⟩ := Run.next?_of_step? h
  exact ⟨_, _, .handle (Loop.takes_of_next? hn) (Loop.admits_of_next? hn ho ht)⟩

theorem course_continueWhile (n : Network κ) (limit : Option Nat) (goOn : Supervisor κ → Bool)
    (fuel : Nat) {c : Chronicle κ} (ho : c.loop.Ordered) (ht : c.loop.Timely) :
    ∃ h fetches, Course n c h
      ⟨c.run.continueWhile (Supervisor.machine n) limit goOn fuel, fetches⟩ := by
  refine Run.continueWhile_induction (P := fun r => ∃ h fetches, Course n c h ⟨r, fetches⟩) ?_
    ⟨[], c.fetches, .refl⟩ fuel
  rintro r r' ⟨h, fetches, hc⟩ _ hr
  obtain ⟨notes, more, hm⟩ := tick_of_step? (c := ⟨r, fetches⟩) hr
    (Leads.ordered (Course.leads hc) ho) (hc.timely ho ht)
  exact ⟨_, more, .tail hc hm⟩

/-- What the event loop makes of a supervisor in some time is a course, if nothing that is due by
then is left. -/
theorem course_advanceTo (n : Network κ) (fuel time : Nat) {c : Chronicle κ}
    (ho : c.loop.Ordered) (ht : c.loop.Timely)
    (hready : (c.run.advanceTo (Supervisor.machine n) fuel time).loop.ready = [])
    (hdue : Loop.Timely (c.run.advanceTo (Supervisor.machine n) fuel time).loop) :
    ∃ h fetches, Course n c h ⟨c.run.advanceTo (Supervisor.machine n) fuel time, fetches⟩ := by
  obtain ⟨h, fetches, hc⟩ := course_continueWhile n (some time) (fun _ => true) fuel ho ht
  exact ⟨h, fetches, .tail hc (.elapse (.inr ⟨Nat.le_max_left _ _, hready, hdue⟩))⟩

end Chronicle

end TargetDiscovery
