import TargetDiscovery.Poller.Solo
import TargetDiscovery.Proofs.Supervisor.Punctual

/-!
# The loop of a poller by itself

A poller that runs its own loop behaves like the one instance of a supervisor that allows no
restart: its loop is the part of the strand that belongs to the poller. So it keeps to its schedule
as well.
-/

set_option autoImplicit false

namespace TargetDiscovery

/-- The rule that allows no restart. -/
def RestartRule.never : RestartRule := ⟨0, 0, 0, 0.0⟩

namespace Solo

variable {κ : Type}

def answers (n : Network κ) (s : Solo κ) : UInt64 × Nat → Reply :=
  fun q => (n.ask s.network 0 q.1 q.2).1

abbrev SoloRun (κ : Type) := Run (Solo κ) Poller.Task Mark

/-- One move of a poller on its loop that keeps to the clock. A stop may be requested at any moment. -/
inductive Tick (n : Network κ) (r : SoloRun κ) : History → SoloRun κ → Prop
  | handle {task : Poller.Task} {loop : Loop Poller.Task} (h : r.loop.Takes task loop)
      (ha : r.loop.Admits loop.now) :
      Tick n r
        ((r.state.poller.incident? (r.state.epoch + loop.now) (answers n r.state) task).toList.map
          (Stamped.mk loop.now))
        ((r.onLoop loop).command fun s => (machine n).handle loop.now s task)
  | stop : Tick n r [] (r.command Solo.stop)
  | elapse {now : Nat} (h : r.loop.Admits now) : Tick n r [] (r.onLoop { r.loop with now := now })

/-- The course of a poller on its loop, with what happened on the way. -/
def Course (n : Network κ) : SoloRun κ → History → SoloRun κ → Prop := Traced (Tick n)

/-- A poller whose loop was just begun. -/
def launched (s : Setup) (store : Store) (seed : UInt64) (network : κ) (epoch : Int) : SoloRun κ :=
  (Run.start (Solo.new (Poller.new s store seed) network epoch)).command Solo.start

/-! ## As an instance -/

abbrev polls (t : Poller.Task) : Option SlotTask := some (.poll t)

theorem polls_injective (t u : Poller.Task) (x : SlotTask) (ht : polls t = some x)
    (hu : polls u = some x) : t = u := by
  cases ht
  cases hu
  rfl

theorem acts_of_emits (marks : List Mark) :
    ((marks.map Order.emit).map (Order.map SlotTask.poll id)).filter Loop.acts = [] := by
  simp [Loop.acts, Order.map]

/-- Where no restart is allowed an instance acts by the orders of its poller alone. -/
theorem orders_acceptSlot (stopping : Bool) (ask : UInt64 × Nat → Reply) (s : Slot)
    (r : Poller.Reaction) :
    (s.accept .never stopping ask r).orders.filter Loop.acts =
      ((r.next.orders (r.next.asked?.map ask)).map (Order.map SlotTask.poll id)).filter
        Loop.acts := by
  have hexit : ∀ (x : Slot) (fault : Option Fault),
      (x.onExit .never stopping fault).orders.filter Loop.acts = [] := by
    intro x fault
    cases fault with
    | none => rfl
    | some fault =>
      have hlimit : RestartRule.never.limit ≤ x.restarts := Nat.zero_le _
      simp only [Slot.onExit, Slot.Turn.behind, if_pos hlimit]
      split
      · rfl
      · rfl
  simp only [Slot.accept, Slot.Turn.behind, List.map_append, List.filter_append,
    acts_of_emits, List.nil_append]
  cases r.next with
  | exited fault => exact hexit { s with poller := r.poller } fault
  | _ => exact List.append_nil _

theorem polls_chooseOrder (o : Order Poller.Task Mark) :
    Loop.chooseOrder polls some o = some (o.map .poll id) := by
  cases o <;> rfl

theorem epoch_accept (n : Network κ) (s : Solo κ) (r : Poller.Reaction) :
    (s.accept n r).1.epoch = s.epoch := by
  unfold accept
  cases r.next <;> rfl

theorem orders_accept (n : Network κ) (s : Solo κ) (r : Poller.Reaction) :
    (s.accept n r).2 = r.marks.map Order.emit ++
      r.next.orders (r.next.asked?.map (answers n s)) := by
  unfold accept
  cases r.next <;> rfl

/-- The strand mirrors the run of the poller. -/
structure Mirrors (v : Strand) (r : SoloRun κ) : Prop where
  poller : v.slot.poller = r.state.poller
  loop : v.loop = r.loop.choose polls
  ordered : r.loop.Ordered

theorem mirrors_handle (n : Network κ) {v : Strand} {r : SoloRun κ} (hv : Mirrors v r)
    {task : Poller.Task} {loop : Loop Poller.Task} (ht : r.loop.Takes task loop) :
    Mirrors
      (v.taking 0 (loop.choose polls) (answers n r.state)
        (v.slot.turn .never v.stopping (r.state.epoch + loop.now) (answers n r.state)
          (.poll task)))
      ((r.onLoop loop).command fun s => (machine n).handle loop.now s task) := by
  have hordered := ht.ordered hv.ordered
  have hturn : v.slot.turn .never v.stopping (r.state.epoch + loop.now) (answers n r.state)
      (.poll task) = v.slot.accept .never v.stopping (answers n r.state)
        (r.state.poller.react (r.state.epoch + loop.now) task) := by
    rw [← hv.poller]
    rfl
  rw [hturn]
  generalize hr : r.state.poller.react (r.state.epoch + loop.now) task = reaction
  have hcommand : ((r.onLoop loop).command fun s => (machine n).handle loop.now s task) =
      (r.onLoop loop).command fun s => s.accept n reaction := by
    rw [← hr]
    rfl
  rw [hcommand]
  constructor
  case poller =>
    rw [Run.state_command]
    exact (v.slot.poller_accept .never v.stopping (answers n r.state) reaction).trans
      (poller_accept n r.state reaction).symm
  case loop =>
    have hsplits : ∀ o ∈ (r.state.accept n reaction).2, Loop.Splits polls o := by
      intro o _
      cases o <;> trivial
    rw [Run.loop_command]
    show (loop.choose polls).obeyAll (v.slot.accept .never v.stopping _ reaction).orders =
      (loop.obeyAll (r.state.accept n reaction).2).choose polls
    rw [Loop.choose_obeyAll polls_injective some hordered hsplits, funext polls_chooseOrder,
      List.filterMap_eq_map', orders_accept, ← Loop.obeyAll_acts, orders_acceptSlot,
      ← Loop.obeyAll_acts _ (List.map _ _), List.map_append, List.filter_append, acts_of_emits,
      List.nil_append]
  case ordered =>
    rw [Run.loop_command]
    exact Loop.obeyAll_ordered hordered _

/-- The strand looks at the request to stop and drops a restart, of which there is none. -/
theorem mirrors_stop (epoch : Int) {v : Strand} {r : SoloRun κ} (hv : Mirrors v r) :
    ∃ w, Mirrors w (r.command Solo.stop) ∧ v.Course .never epoch 0 [] w := by
  have hloop : (r.command Solo.stop).loop = r.loop.post .interrupt := Run.loop_command _ _
  have hready : v.stop.loop.ready = (v.loop.ready ++ [.poll .interrupt]) ++ .dropRestart :: [] := rfl
  have htakes := Loop.Takes.ready hready
  have hnone : ∀ u ∈ v.loop.timers, u.task ≠ .restart := by
    intro u hu htask
    rw [hv.loop] at hu
    obtain ⟨x, _, hx⟩ := List.mem_filterMap.mp hu
    cases hx
    cases htask
  have hcancel : ∀ l : Loop SlotTask, l.timers = v.loop.timers →
      l.cancel .restart .restartDropped = l := by
    intro l hl
    have hfilter : (l.timers.filter fun u => u.task = .restart) = [] := by
      rw [hl]
      exact List.filter_eq_nil_iff.mpr fun u hu => by simpa using hnone u hu
    have hrest : (l.timers.filter fun u => u.task ≠ .restart) = l.timers := by
      rw [hl]
      exact List.filter_eq_self.mpr fun u hu => by simpa using hnone u hu
    simp only [Loop.cancel, hfilter, hrest, List.map_nil, List.append_nil]
  have hstop : v.Course .never epoch 0 [] v.stop := .single .stop
  have hdrop : Strand.Ticks .never epoch 0 v.stop [] _ :=
    .turn (fun _ => .refused) htakes (.inl rfl)
  refine ⟨_, ⟨?_, ?_, ?_⟩, hstop.trans (.single hdrop)⟩
  · rw [Run.state_command]
    exact congrArg Poller.requestStop hv.poller
  · refine (hcancel ⟨v.loop.now, (v.loop.ready ++ [.poll .interrupt]) ++ [], v.loop.timers⟩
      rfl).trans ?_
    rw [hloop, hv.loop, List.append_nil]
    simp [Loop.choose, Loop.post]
  · rw [hloop]
    exact hv.ordered

theorem Tick.mirrors {n : Network κ} {v : Strand} {r r' : SoloRun κ} {h : History}
    (ht : Tick n r h r') (hv : Mirrors v r) :
    r'.state.epoch = r.state.epoch ∧
      ∃ w, Mirrors w r' ∧ v.Course .never r.state.epoch 0 h w := by
  cases ht with
  | @handle task loop ht ha =>
    have hloop : v.loop.Takes (.poll task) (loop.choose polls) := by
      rw [hv.loop]
      exact ht.choose rfl
    have hadmits : v.loop.Admits (loop.choose polls).now := by
      rw [hv.loop]
      exact ha.choose polls
    have hepoch : ((r.onLoop loop).command fun s =>
        (machine n).handle loop.now s task).state.epoch = r.state.epoch := by
      rw [Run.state_command]
      exact epoch_accept n _ _
    refine ⟨hepoch, _, mirrors_handle n hv ht, ?_⟩
    rw [← hv.poller]
    exact .single (.turn (answers n r.state) hloop hadmits)
  | stop =>
    refine ⟨?_, mirrors_stop _ hv⟩
    rw [Run.state_command]
    rfl
  | @elapse now ha =>
    refine ⟨rfl, { v with loop := { v.loop with now := now } }, ⟨hv.poller, ?_, hv.ordered⟩, ?_⟩
    · show { v.loop with now := now } = _
      rw [hv.loop]
      rfl
    · refine .single (.elapse ?_)
      rw [hv.loop]
      exact ha.choose polls

/-- A poller on its loop keeps to the schedule, like an instance that is not restarted. -/
theorem Course.kept {n : Network κ} {s : Setup} {store : Store} {seed : UInt64} {network : κ}
    {epoch : Int} {r : SoloRun κ} {h : History}
    (hc : Course n (launched s store seed network epoch) h r) :
    ∃ v, Mirrors v r ∧ Strand.Kept .never s epoch v h := by
  have hstart : Mirrors (Strand.unstarted .never s store seed).starting
      (launched s store seed network epoch) := ⟨rfl, rfl, Loop.ordered_start⟩
  suffices hall : r.state.epoch = epoch ∧ ∃ v, Mirrors v r ∧ Strand.Kept .never s epoch v h from
    hall.2
  induction hc with
  | refl =>
    refine ⟨rfl, _, hstart, ?_⟩
    exact Strand.Ticks.kept (i := 0) (.start rfl rfl) (Strand.unstarted_kept _ _ _ _ _)
  | tail _ ht ih =>
    obtain ⟨hepoch, v, hv, hkept⟩ := ih
    obtain ⟨hsame, w, hw, hcourse⟩ := ht.mirrors hv
    rw [hepoch] at hcourse
    exact ⟨hsame.trans hepoch, w, hw, hcourse.kept hkept⟩

/-! ## On the event loop -/

theorem tick_of_step? {n : Network κ} {r r' : SoloRun κ} (h : r.step? (machine n) = some r')
    (ho : r.loop.Ordered) (ht : r.loop.Timely) : ∃ more, Tick n r more r' := by
  obtain ⟨task, loop, hn, rfl⟩ := Run.next?_of_step? h
  exact ⟨_, .handle (Loop.takes_of_next? hn) (Loop.admits_of_next? hn ho ht)⟩

theorem Tick.ordered {n : Network κ} {r r' : SoloRun κ} {h : History} (ht : Tick n r h r')
    (ho : r.loop.Ordered) : r'.loop.Ordered := by
  cases ht with
  | @handle _ loop ht => exact Run.ordered_command (r := r.onLoop loop) (ht.ordered ho) _
  | stop => exact Run.ordered_command ho _
  | elapse => exact ho

theorem Tick.timely {n : Network κ} {r r' : SoloRun κ} {h : History} (ht : Tick n r h r')
    (ho : r.loop.Ordered) (hd : r.loop.Timely) : r'.loop.Timely := by
  cases ht with
  | @handle _ loop ht => exact Run.timely_command (r := r.onLoop loop) (ht.timely ho hd) _
  | stop => exact Run.timely_command hd _
  | elapse ha => exact ha.timely hd

theorem Course.ordered {n : Network κ} {r r' : SoloRun κ} {h : History} (hc : Course n r h r')
    (ho : r.loop.Ordered) : r'.loop.Ordered := by
  induction hc with
  | refl => exact ho
  | tail _ ht ih => exact ht.ordered ih

theorem Course.timely {n : Network κ} {r r' : SoloRun κ} {h : History} (hc : Course n r h r')
    (ho : r.loop.Ordered) (hd : r.loop.Timely) : r'.loop.Timely := by
  induction hc with
  | refl => exact hd
  | tail hc ht ih => exact ht.timely (Course.ordered hc ho) ih

/-- What the event loop makes of a poller is a course. -/
theorem course_continueWhile (n : Network κ) (limit : Option Nat) (goOn : Solo κ → Bool)
    (fuel : Nat) {r : SoloRun κ} (ho : r.loop.Ordered) (hd : r.loop.Timely) :
    ∃ h, Course n r h (r.continueWhile (machine n) limit goOn fuel) := by
  refine Run.continueWhile_induction (P := fun q => ∃ h, Course n r h q) ?_ ⟨[], .refl⟩ fuel
  rintro q q' ⟨h, hc⟩ _ hq
  obtain ⟨more, ht⟩ := tick_of_step? hq (hc.ordered ho) (hc.timely ho hd)
  exact ⟨_, .tail hc ht⟩

end Solo

end TargetDiscovery
