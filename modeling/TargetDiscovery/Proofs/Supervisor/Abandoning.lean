import TargetDiscovery.Proofs.Poller.Lateness
import TargetDiscovery.Proofs.Supervisor.Isolation
import TargetDiscovery.Proofs.Supervisor.Turn

/-!
# Abandoned fetches under a supervisor

The late reply to a fetch of one instance may come while another one is at work, while the instance
itself fetches again, sleeps, waits for a restart or has ended. It is never heeded: the runs of two
networks that differ in late replies alone stay in step.
-/

set_option autoImplicit false

namespace TargetDiscovery

namespace Slot

/-! ## What a turn gives -/

/-- What an instance orders when its loop has ended: a report, or a restart. -/
def Parting (o : Order SlotTask Mark) : Prop := (∃ m, o = .emit m) ∨ ∃ d, o = .after d .restart

theorem onExit_parting (rule : RestartRule) (stopping : Bool) (s : Slot) (fault : Option Fault) :
    ∀ o ∈ (s.onExit rule stopping fault).orders, Parting o := by
  intro o ho
  cases fault with
  | none => exact .inl ⟨_, List.mem_singleton.mp ho⟩
  | some fault =>
    simp only [onExit, Turn.behind] at ho
    rcases List.mem_append.mp ho with ho | ho
    · exact .inl ⟨_, List.mem_singleton.mp ho⟩
    · split at ho
      · cases ho
      · split at ho
        · exact .inl ⟨_, List.mem_singleton.mp ho⟩
        · exact .inr ⟨_, List.mem_singleton.mp ho⟩

/-- The orders for the end of a loop, if it ends. -/
def exitOrders (rule : RestartRule) (stopping : Bool) (s : Slot) (next : Poller.Next) : Orders :=
  (afterReaction rule stopping s next).orders

theorem exitOrders_parting (rule : RestartRule) (stopping : Bool) (s : Slot)
    (next : Poller.Next) : ∀ o ∈ s.exitOrders rule stopping next, Parting o := by
  cases next with
  | exited fault => exact onExit_parting rule stopping s fault
  | _ =>
    intro o ho
    exact absurd ho List.not_mem_nil

theorem Parting.mild {o : Order SlotTask Mark} (h : Parting o) : Poller.Mild SlotTask.poll o := by
  rcases h with ⟨m, rfl⟩ | ⟨d, rfl⟩
  · exact ⟨trivial, nofun⟩
  · exact ⟨nofun, nofun⟩

theorem Parting.splits {o : Order SlotTask Mark} (h : Parting o) (live : SlotTask → Bool) :
    Loop.Splits (Option.guard live) o := by
  rcases h with ⟨m, rfl⟩ | ⟨d, rfl⟩
  · trivial
  · trivial

theorem orders_accept (rule : RestartRule) (stopping : Bool) (ask : UInt64 × Nat → Reply)
    (s : Slot) (r : Poller.Reaction) :
    (s.accept rule stopping ask r).orders =
      (r.marks.map Order.emit ++ r.next.orders (r.next.asked?.map ask)).map
        (Order.map SlotTask.poll id) ++
      Slot.exitOrders rule stopping { s with poller := r.poller } r.next := rfl

theorem asked_accept (rule : RestartRule) (stopping : Bool) (ask : UInt64 × Nat → Reply)
    (s : Slot) (r : Poller.Reaction) :
    (s.accept rule stopping ask r).asked = r.next.asked? := by
  have hasked : (s.accept rule stopping ask r).asked =
      (afterReaction rule stopping { s with poller := r.poller } r.next).asked := rfl
  rw [hasked]
  cases r.next with
  | exited fault =>
    cases fault with
    | none => rfl
    | some fault =>
      simp only [afterReaction, onExit, Turn.behind]
      split
      · rfl
      · split
        · rfl
        · rfl
  | _ => rfl

end Slot

namespace Supervisor

/-- The task of the poller at a position. -/
abbrev pollOf (i : Nat) (t : Poller.Task) : Task := ⟨i, .poll t⟩

theorem pollOf_injective (i : Nat) (a b : Poller.Task) (h : pollOf i a = pollOf i b) : a = b := by
  cases h
  rfl

theorem mild_ordersOf {orders : Slot.Orders}
    (h : ∀ o ∈ orders, Poller.Mild SlotTask.poll o) (i j : Nat) :
    ∀ o ∈ ordersOf j orders, Poller.Mild (pollOf i) o := by
  intro o ho
  obtain ⟨q, hq, rfl⟩ := List.mem_map.mp ho
  obtain ⟨hword, hdeadline⟩ := h q hq
  cases q with
  | emit m => exact ⟨trivial, nofun⟩
  | post t =>
    refine ⟨fun n result hsame => hword n result ?_, nofun⟩
    cases hsame
    rfl
  | after d t =>
    refine ⟨fun n result hsame => hword n result ?_, nofun⟩
    cases hsame
    rfl
  | cancel t a =>
    refine ⟨fun n result hsame => hword n result ?_, fun n b hsame => hdeadline n a ?_⟩
    · cases hsame
      rfl
    · cases hsame
      rfl

theorem mild_of_ne {i j : Nat} (h : j ≠ i) (orders : Slot.Orders) :
    ∀ o ∈ ordersOf j orders, Poller.Mild (pollOf i) o := by
  intro o ho
  obtain ⟨q, _, rfl⟩ := List.mem_map.mp ho
  cases q with
  | emit m => exact ⟨trivial, nofun⟩
  | post t => exact ⟨fun _ _ hsame => h (congrArg Task.slot hsame), nofun⟩
  | after d t => exact ⟨fun _ _ hsame => h (congrArg Task.slot hsame), nofun⟩
  | cancel t a =>
    refine ⟨fun _ _ hsame => h (congrArg Task.slot hsame), fun _ _ hsame => h ?_⟩
    exact congrArg Task.slot (Order.cancel.inj hsame).1

theorem ordersOf_accept (i : Nat) (rule : RestartRule) (stopping : Bool)
    (ask : UInt64 × Nat → Reply) (s : Slot) (r : Poller.Reaction) :
    ordersOf i (s.accept rule stopping ask r).orders =
      (r.marks.map Order.emit ++ r.next.orders (r.next.asked?.map ask)).map
        (Order.map (pollOf i) (Entry.mk (some i))) ++
      ordersOf i (Slot.exitOrders rule stopping { s with poller := r.poller } r.next) := by
  rw [Slot.orders_accept, ordersOf, List.map_append, List.map_map]
  congr 2
  funext o
  cases o <;> rfl

/-! ## What is kept of an instance -/

abbrev Fed (stream : Nat → Reply) (i : Nat) (slot : Slot) (scripts : List Script)
    (l : Loop Task) : Prop := Poller.Fed (pollOf i) stream i slot.poller scripts l

section

variable {stream : Nat → Reply} {i : Nat} {slot : Slot} {scripts : List Script}
  {l l' : Loop Task}

theorem fed_obeyAll (h : Fed stream i slot scripts l) {orders : Orders}
    (ho : ∀ o ∈ orders, Poller.Mild (pollOf i) o) : Fed stream i slot scripts (l.obeyAll orders) :=
  ⟨h.awaits.obeyAll ho, h.replies⟩

theorem fed_takes (h : Fed stream i slot scripts l) {x : Task} (ht : l.Takes x l')
    (hx : ∀ n, x ≠ pollOf i (.deadline n)) : Fed stream i slot scripts l' :=
  ⟨h.awaits.takes ht fun _ _ => hx _, h.replies⟩

theorem fed_other (h : Fed stream i slot scripts l) {j : Nat} (hj : j ≠ i)
    (q : Option (UInt64 × Nat)) : Fed stream i slot (Poller.scriptsBehind scripts j q) l := by
  refine ⟨h.awaits, fun k => ?_⟩
  cases q with
  | none => exact h.replies k
  | some q =>
    rw [Poller.scriptsBehind, Network.replyOf_ask_other scripts hj]
    exact h.replies k

/-- What is kept of an instance is kept by its turns. -/
theorem fed_turn (h : Fed stream i slot scripts l) (rule : RestartRule) (stopping : Bool)
    (time : Int) {t : SlotTask} (ht : l.Takes ⟨i, t⟩ l') {u : Slot.Turn}
    (hu : slot.turn rule stopping time (Poller.replyFrom scripts i) t = u) :
    Fed stream i u.slot (Poller.scriptsBehind scripts i u.asked)
      (l'.obeyAll (ordersOf i u.orders)) := by
  have hleft : (∀ n, t ≠ .poll (.deadline n)) → Fed stream i slot scripts l' := by
    intro hne
    refine fed_takes h ht fun n hsame => hne n ?_
    cases hsame
    rfl
  subst hu
  cases t with
  | restart =>
    simp only [Slot.turn, Slot.restart]
    split
    · exact hleft fun _ h => by cases h
    · have hheld : Fed stream i slot scripts l' := hleft fun _ h => by cases h
      refine fed_obeyAll hheld (mild_ordersOf ?_ i i)
      intro o ho
      rcases List.mem_cons.mp ho with rfl | ho
      · exact ⟨trivial, fun _ _ h => by cases h⟩
      · rw [List.mem_singleton.mp ho]
        exact ⟨fun _ _ h => (by cases h), fun _ _ h => by cases h⟩
  | restartDropped => exact hleft fun _ h => by cases h
  | dropRestart =>
    refine fed_obeyAll (hleft fun _ h => by cases h) (mild_ordersOf ?_ i i)
    intro o ho
    rw [List.mem_singleton.mp ho]
    exact ⟨fun _ _ h => (by cases h), fun _ _ h => by cases h⟩
  | poll t =>
    have hreact := h.react (pollOf_injective i) ht time (Entry.mk (some i))
    simp only [Slot.turn]
    generalize slot.poller.react time t = r at hreact ⊢
    rw [Slot.asked_accept, ordersOf_accept, Loop.obeyAll_append]
    apply fed_obeyAll
    case h =>
      rw [Fed, Slot.poller_accept]
      exact hreact
    case ho =>
      exact mild_ordersOf (fun o ho => (Slot.exitOrders_parting rule stopping _ r.next o ho).mild)
        i i

end

/-! ## In step -/

/-- Whether a task counts where late replies do not. -/
def Task.isLive (streams : Nat → Nat → Reply) (t : Task) : Bool :=
  match t.task with
  | .poll p => p.isLive (Poller.lateness (streams t.slot))
  | _ => true

/-- A supervisor apart from what answers its instances. -/
def unlinked {κ : Type} (s : Supervisor κ) : Supervisor Unit := { s with network := () }

/-- What a run keeps of the replies to its instances: they are those of streams, apart from late
ones. -/
structure Sound (streams : Nat → Nat → Reply) (r : ScriptedRun) : Prop where
  ordered : r.loop.Ordered
  timely : r.loop.Timely
  fed : ∀ i slot, r.state.slots[i]? = some slot → Fed (streams i) i slot r.state.network r.loop

section

variable {κ : Type} {n : Network κ} {s s' : Supervisor κ}

theorem eq_of_unlinked (h : s'.unlinked = s.unlinked) : s' = { s with network := s'.network } := by
  cases s
  cases s'
  cases h
  rfl

end

section

variable {streams : Nat → Nat → Reply} {r : ScriptedRun} {task : Task} {loop : Loop Task}

theorem Sound.handle (h : Sound streams r) (ht : r.loop.Takes task loop) (i : Nat) (slot : Slot)
    (hslot : (r.state.handle Network.scripted loop.now task).1.slots[i]? = some slot) :
    Fed (streams i) i slot (r.state.handle Network.scripted loop.now task).1.network
      (loop.obeyAll (r.state.handle Network.scripted loop.now task).2) := by
  cases task with
  | mk j t =>
    simp only [Supervisor.handle] at hslot ⊢
    cases hold : r.state.slots[j]? with
    | none =>
      simp only [hold] at hslot ⊢
      refine fed_takes (h.fed i slot hslot) ht fun n hsame => ?_
      cases hsame
      cases hold.symm.trans hslot
    | some old =>
      simp only [hold] at hslot ⊢
      generalize hu : r.state.turn Network.scripted loop.now j old t = u at hslot ⊢
      by_cases hj : j = i
      · subst hj
        have hlt := (List.getElem?_eq_some_iff.mp hold).1
        have hset : (r.state.slots.set j u.slot)[j]? = some u.slot := List.getElem?_set_self hlt
        cases hset.symm.trans hslot
        exact fed_turn (h.fed j old hold) r.state.rule r.state.stopping
          (r.state.epoch + loop.now) ht hu
      · have hsame : r.state.slots[i]? = some slot :=
          (List.getElem?_set_ne hj).symm.trans hslot
        have htaken := fed_takes (h.fed i slot hsame) ht fun n hn => hj (congrArg Task.slot hn)
        exact fed_obeyAll (fed_other htaken hj u.asked) (mild_of_ne hj u.orders)

theorem Sound.handling (h : Sound streams r) (ht : r.loop.Takes task loop) :
    Sound streams (r.handling (machine Network.scripted) task loop) := by
  constructor
  case ordered => exact Run.ordered_command (r := r.onLoop loop) (ht.ordered h.ordered) _
  case timely => exact Run.timely_command (r := r.onLoop loop) (ht.timely h.ordered h.timely) _
  case fed =>
    intro i slot hslot
    rw [Run.handling, Run.state_command] at hslot
    rw [Run.handling, Run.state_command, Run.loop_command]
    exact h.handle ht i slot hslot

theorem Sound.turn_idle (h : Sound streams r) {i : Nat} {t : SlotTask} {slot : Slot}
    (hslot : r.state.slots[i]? = some slot) (ht : r.loop.Takes ⟨i, t⟩ loop)
    (hi : Task.isLive streams ⟨i, t⟩ = false) :
    r.state.turn Network.scripted loop.now i slot t = { slot := slot } := by
  cases t with
  | poll t =>
    cases t with
    | reply number result =>
      have hlate : Poller.lateness (streams i) number = true := by
        simpa [Task.isLive, Poller.Task.isLive] using hi
      have hignores := (h.fed i slot hslot).awaits.ignores h.ordered ht hlate
        (r.state.epoch + loop.now)
      show slot.accept _ _ _ (slot.poller.react _ _) = _
      rw [hignores]
      rfl
    | _ => cases hi
  | _ => cases hi

/-- A late reply is ignored. -/
theorem Sound.handle_idle (h : Sound streams r) (ht : r.loop.Takes task loop)
    (hi : Task.isLive streams task = false) :
    r.state.handle Network.scripted loop.now task = (r.state, []) := by
  cases task with
  | mk i t =>
    rw [Supervisor.handle]
    cases hslot : r.state.slots[i]? with
    | none => rfl
    | some slot =>
      have hset : r.state.slots.set i slot = r.state.slots := by
        obtain ⟨hlt, rfl⟩ := List.getElem?_eq_some_iff.mp hslot
        exact List.set_getElem_self hlt
      simp only [h.turn_idle hslot ht hi, Supervisor.accept, hset]
      rfl

end

/-- What the instance makes of a task does not depend on its script, but for the reply. -/
theorem turn_ask (rule : RestartRule) (stopping : Bool) (time : Int)
    (ask ask' : UInt64 × Nat → Reply) (slot : Slot) (t : SlotTask) :
    { slot.turn rule stopping time ask' t with orders := [] } =
      { slot.turn rule stopping time ask t with orders := [] } := by
  cases t <;> rfl

theorem unlinked_accept {s s' : Supervisor (List Script)} (h : s'.unlinked = s.unlinked) (i : Nat)
    {u u' : Slot.Turn} (hu : { u' with orders := [] } = { u with orders := [] }) :
    (s'.accept Network.scripted i u').1.unlinked = (s.accept Network.scripted i u).1.unlinked := by
  rw [eq_of_unlinked h]
  cases u
  cases u'
  cases hu
  rfl

theorem splits_turn (streams : Nat → Nat → Reply) (i : Nat) (rule : RestartRule) (stopping : Bool)
    (time : Int) (ask : UInt64 × Nat → Reply) (slot : Slot) (t : SlotTask) :
    ∀ o ∈ (slot.turn rule stopping time ask t).orders,
      Loop.Splits (Option.guard fun t => Task.isLive streams ⟨i, t⟩) o := by
  intro o ho
  cases t with
  | restart =>
    simp only [Slot.turn, Slot.restart] at ho
    split at ho
    · cases ho
    · rcases List.mem_cons.mp ho with rfl | ho
      · trivial
      · rw [List.mem_singleton.mp ho]
        trivial
  | restartDropped => cases ho
  | dropRestart =>
    rw [List.mem_singleton.mp ho]
    simp [Loop.Splits, Task.isLive]
  | poll t =>
    rw [Slot.turn, Slot.orders_accept] at ho
    rcases List.mem_append.mp ho with ho | ho
    · obtain ⟨q, hq, rfl⟩ := List.mem_map.mp ho
      apply Loop.splits_map
      rcases List.mem_append.mp hq with hq | hq
      · obtain ⟨m, _, rfl⟩ := List.mem_map.mp hq
        trivial
      · exact Poller.splits_orders (Poller.lateness (streams i)) _ _ q hq
    · exact (Slot.exitOrders_parting rule stopping _ _ o ho).splits _

theorem filter_turn {streams : Nat → Nat → Reply} {i : Nat} {slot : Slot}
    {scripts scripts' : List Script} {l l' : Loop Task} (h : Fed (streams i) i slot scripts l)
    (h' : Fed (streams i) i slot scripts' l') (rule : RestartRule) (stopping : Bool)
    (time : Int) (t : SlotTask) :
    (ordersOf i (slot.turn rule stopping time (Poller.replyFrom scripts' i) t).orders).filter
        (Order.isLive (Task.isLive streams)) =
      (ordersOf i (slot.turn rule stopping time (Poller.replyFrom scripts i) t).orders).filter
        (Order.isLive (Task.isLive streams)) := by
  cases t with
  | poll t =>
    simp only [Slot.turn, ordersOf_accept, List.filter_append, Order.filter_isLive_map]
    congr 2
    congr 1
    exact Poller.Fed.filter_orders h h' time t
  | _ => rfl

/-- What a task does is the same in front of another network, apart from late replies. -/
theorem Sound.handle_seen {streams : Nat → Nat → Reply} {r r' : ScriptedRun} (h : Sound streams r)
    (h' : Sound streams r') (hs : r'.state.unlinked = r.state.unlinked) (now : Nat) (task : Task) :
    (r'.state.handle Network.scripted now task).1.unlinked =
        (r.state.handle Network.scripted now task).1.unlinked ∧
      (r'.state.handle Network.scripted now task).2.filter (Order.isLive (Task.isLive streams)) =
        (r.state.handle Network.scripted now task).2.filter
          (Order.isLive (Task.isLive streams)) := by
  have hsame := eq_of_unlinked hs
  have hslots : r'.state.slots = r.state.slots := by rw [hsame]
  cases task with
  | mk i t =>
    rw [Supervisor.handle, Supervisor.handle, hslots]
    cases hslot : r.state.slots[i]? with
    | none => exact ⟨hs, rfl⟩
    | some slot =>
      have hfed' := h'.fed i slot (hslots ▸ hslot)
      have hturn : r'.state.turn Network.scripted now i slot t =
          slot.turn r.state.rule r.state.stopping (r.state.epoch + now)
            (Poller.replyFrom r'.state.network i) t := by
        rw [hsame]
        rfl
      refine ⟨unlinked_accept hs i ?_, ?_⟩
      · rw [hturn]
        exact turn_ask _ _ _ _ _ slot t
      · simp only [accept, hturn]
        exact filter_turn (h.fed i slot hslot) hfed' _ _ _ t

theorem splits_handle (streams : Nat → Nat → Reply) (now : Nat) (s : Supervisor (List Script))
    (task : Task) : ∀ o ∈ (s.handle Network.scripted now task).2,
      Loop.Splits (Option.guard (Task.isLive streams)) o := by
  intro o ho
  cases task with
  | mk i t =>
    rw [handle] at ho
    cases hslot : s.slots[i]? with
    | none =>
      simp only [hslot] at ho
      cases ho
    | some slot =>
      simp only [hslot, accept] at ho
      obtain ⟨q, hq, rfl⟩ := List.mem_map.mp ho
      exact Loop.splits_map _ (splits_turn streams i _ _ _ _ slot t q hq)

theorem heeds (streams : Nat → Nat → Reply) :
    Run.Heeds (machine Network.scripted) (Task.isLive streams) unlinked (Sound streams) := by
  constructor
  case ordered => exact fun h => h.ordered
  case timely => exact fun h => h.timely
  case step => exact fun h hn => h.handling (Loop.takes_of_next? hn)
  case elapse =>
    intro r now h ht
    exact ⟨h.ordered, ht, fun i slot hslot => (h.fed i slot hslot).of_same rfl rfl rfl rfl rfl⟩
  case idle => exact fun h hn hi => h.handle_idle (Loop.takes_of_next? hn) hi
  case splits => exact splits_handle streams
  case seen => exact fun h h' hs now _ _ => h.handle_seen h' hs now _

/-! ## Commands -/

/-- A command leaves the fetches of all instances alone, and so do the tasks that it posts. -/
structure Gentle (change : Supervisor (List Script) → Supervisor (List Script) × Orders) :
    Prop where
  mild : ∀ s i, ∀ o ∈ (change s).2, Poller.Mild (pollOf i) o
  splits : ∀ s live, ∀ o ∈ (change s).2, Loop.Splits (Option.guard live) o
  network : ∀ s, (change s).1.network = s.network
  slots : ∀ s (i : Nat) (slot : Slot), (change s).1.slots[i]? = some slot → ∃ old : Slot,
    s.slots[i]? = some old ∧ slot.poller.setup = old.poller.setup ∧
      slot.poller.fetches = old.poller.fetches ∧ slot.poller.activity = old.poller.activity
  view : ∀ s network, (change { s with network := network }).1.unlinked = (change s).1.unlinked
  orders : ∀ s network, (change { s with network := network }).2 = (change s).2

/-- What is posted for each instance leaves the fetches of all others alone as well. -/
theorem flatten_mild {f : Slot → Slot.Orders}
    (hf : ∀ slot, ∀ o ∈ f slot, (∃ m, o = .emit m) ∨ ∃ t, o = .post t ∧
      Poller.Wordless SlotTask.poll t) (slots : List Slot) :
    ∀ o ∈ (slots.mapIdx fun i slot => ordersOf i (f slot)).flatten,
      (∀ i, Poller.Mild (pollOf i) o) ∧ ∀ live, Loop.Splits (Option.guard live) o := by
  intro o ho
  obtain ⟨orders, horders, ho⟩ := List.mem_flatten.mp ho
  obtain ⟨j, hj, rfl⟩ := List.mem_mapIdx.mp horders
  have hmild : ∀ q ∈ f slots[j], Poller.Mild SlotTask.poll q := by
    intro q hq
    rcases hf _ q hq with ⟨m, rfl⟩ | ⟨t, rfl, hword⟩
    · exact ⟨trivial, nofun⟩
    · exact ⟨hword, nofun⟩
  refine ⟨fun i => mild_ordersOf hmild i j o ho, fun live => ?_⟩
  obtain ⟨q, hq, rfl⟩ := List.mem_map.mp ho
  rcases hf _ q hq with ⟨m, rfl⟩ | ⟨t, rfl, _⟩
  · trivial
  · trivial

theorem slots_of_map (f : Slot → Slot) (hf : ∀ slot, (f slot).poller.setup = slot.poller.setup ∧
      (f slot).poller.fetches = slot.poller.fetches ∧
        (f slot).poller.activity = slot.poller.activity)
    {slots : List Slot} {i : Nat} {slot : Slot} (h : (slots.map f)[i]? = some slot) :
    ∃ old : Slot, slots[i]? = some old ∧ slot.poller.setup = old.poller.setup ∧
      slot.poller.fetches = old.poller.fetches ∧ slot.poller.activity = old.poller.activity := by
  rw [List.getElem?_map] at h
  obtain ⟨old, hold, rfl⟩ := Option.map_eq_some_iff.mp h
  exact ⟨old, hold, hf old⟩

/-- A command is as gentle when there are states that it leaves alone. -/
theorem Gentle.unless {change : Supervisor (List Script) → Supervisor (List Script) × Orders}
    (hc : Gentle change) (idle : Supervisor (List Script) → Bool)
    (hi : ∀ s network, idle { s with network := network } = idle s) :
    Gentle fun s => if idle s then (s, []) else change s := by
  constructor
  case mild =>
    intro s i o ho
    by_cases hs : idle s = true
    · simp [hs] at ho
    · simp only [hs] at ho
      exact hc.mild s i o ho
  case splits =>
    intro s live o ho
    by_cases hs : idle s = true
    · simp [hs] at ho
    · simp only [hs] at ho
      exact hc.splits s live o ho
  case network =>
    intro s
    by_cases hs : idle s = true
    · simp only [hs, if_true]
    · simp only [hs]
      exact hc.network s
  case slots =>
    intro s i slot hslot
    by_cases hs : idle s = true
    · simp only [hs, if_true] at hslot
      exact ⟨slot, hslot, rfl, rfl, rfl⟩
    · simp only [hs] at hslot
      exact hc.slots s i slot hslot
  case view =>
    intro s network
    by_cases hs : idle s = true
    · simp only [hi, hs, if_true]
      rfl
    · simp only [hi, hs]
      exact hc.view s network
  case orders =>
    intro s network
    by_cases hs : idle s = true
    · simp only [hi, hs, if_true]
    · simp only [hi, hs]
      exact hc.orders s network

/-- A start where there is something to start. -/
def startAll {κ : Type} (s : Supervisor κ) : Supervisor κ × Orders :=
  ({ s with
      started := true
      active := s.slots.length
      slots := s.slots.map fun slot => { slot with life := .running } },
    (s.slots.mapIdx fun i slot => ordersOf i slot.startOrders).flatten)

theorem gentle_start : Gentle start := by
  have hlaunch : ∀ slot : Slot, ∀ o ∈ slot.startOrders, (∃ m, o = .emit m) ∨
      ∃ t, o = .post t ∧ Poller.Wordless SlotTask.poll t := by
    intro slot o ho
    rcases List.mem_cons.mp ho with rfl | ho
    · exact .inl ⟨_, rfl⟩
    · exact .inr ⟨_, List.mem_singleton.mp ho, nofun⟩
  have hall : Gentle startAll := by
    constructor
    case mild => exact fun s i o ho => (flatten_mild hlaunch s.slots o ho).1 i
    case splits => exact fun s live o ho => (flatten_mild hlaunch s.slots o ho).2 live
    case network => exact fun _ => rfl
    case slots =>
      exact fun _ _ _ =>
        slots_of_map (fun slot => { slot with life := .running }) fun _ => ⟨rfl, rfl, rfl⟩
    case view => exact fun _ _ => rfl
    case orders => exact fun _ _ => rfl
  exact hall.unless (fun s => s.started || s.stopping) fun _ _ => rfl

/-- A stop where none was requested. -/
def stopAll {κ : Type} (s : Supervisor κ) : Supervisor κ × Orders :=
  ({ s with stopping := true, slots := s.slots.map Slot.requestStop },
    .emit (stopEntry s) :: (s.slots.mapIdx fun i _ => ordersOf i Slot.stopOrders).flatten)

theorem gentle_stop : Gentle stop := by
  have hstop : ∀ slot : Slot, ∀ o ∈ Slot.stopOrders, (∃ m, o = .emit m) ∨
      ∃ t, o = .post t ∧ Poller.Wordless SlotTask.poll t := by
    intro slot o ho
    rcases List.mem_cons.mp ho with rfl | ho
    · exact .inr ⟨_, rfl, nofun⟩
    · exact .inr ⟨_, List.mem_singleton.mp ho, nofun⟩
  have horders : ∀ s : Supervisor (List Script), ∀ o ∈ s.stopAll.2,
      (∀ i, Poller.Mild (pollOf i) o) ∧ ∀ live, Loop.Splits (Option.guard live) o := by
    intro s o ho
    rcases List.mem_cons.mp ho with rfl | ho
    · exact ⟨fun i => ⟨trivial, nofun⟩, fun live => trivial⟩
    · exact flatten_mild (f := fun _ => Slot.stopOrders) hstop s.slots o ho
  have hall : Gentle stopAll := by
    constructor
    case mild => exact fun s i o ho => (horders s o ho).1 i
    case splits => exact fun s live o ho => (horders s o ho).2 live
    case network => exact fun _ => rfl
    case slots => exact fun _ _ _ => slots_of_map Slot.requestStop fun _ => ⟨rfl, rfl, rfl⟩
    case view => exact fun _ _ => rfl
    case orders => exact fun _ _ => rfl
  exact hall.unless stopping fun _ _ => rfl

abbrev InStep (streams : Nat → Nat → Reply) : ScriptedRun → ScriptedRun → Prop :=
  Run.InStep (Task.isLive streams) unlinked (Sound streams)

section

variable {streams : Nat → Nat → Reply} {r q : ScriptedRun}
  {change : Supervisor (List Script) → Supervisor (List Script) × Orders}

theorem Sound.command (h : Sound streams r) (hc : Gentle change) :
    Sound streams (r.command change) := by
  constructor
  case ordered => exact Run.ordered_command h.ordered _
  case timely => exact Run.timely_command h.timely _
  case fed =>
    intro i slot hslot
    rw [Run.state_command] at hslot
    obtain ⟨old, hold, hsetup, hfetches, hactivity⟩ := hc.slots _ i slot hslot
    have hposted := fed_obeyAll (h.fed i old hold) (hc.mild r.state i)
    rw [Run.loop_command, Run.state_command, hc.network]
    exact hposted.of_same hsetup hfetches hactivity rfl rfl

theorem InStep.command (h : InStep streams r q) (hc : Gentle change) :
    InStep streams (r.command change) (q.command change) := by
  have hsame := eq_of_unlinked h.alike.state
  apply (heeds streams).inStep_command h (h.left.command hc) (h.right.command hc)
  case hs => exact fun s o ho => hc.splits s _ o ho
  case hview =>
    rw [hsame]
    exact hc.view r.state q.state.network
  case horders => rw [hsame, hc.orders]

/-- Runs in step can be played alike, and are in step again. -/
theorem InStep.plays {plan : List Action} {r' : ScriptedRun}
    (hp : Plays Network.scripted plan r r') (h : InStep streams r q) :
    ∃ q', Plays Network.scripted plan q q' ∧ InStep streams r' q' := by
  induction hp generalizing q with
  | done r => exact ⟨q, .done q, h⟩
  | start _ ih =>
    obtain ⟨q', hq', hstep⟩ := ih (h.command gentle_start)
    exact ⟨q', .start hq', hstep⟩
  | stop _ ih =>
    obtain ⟨q', hq', hstep⟩ := ih (h.command gentle_stop)
    exact ⟨q', .stop hq', hstep⟩
  | wait fuel hs _ ih =>
    obtain ⟨fuel', hs', hnext⟩ :=
      (heeds streams).inStep_advanceTo h (Nat.le_add_right _ _) ⟨hs.1, hs.2⟩
    obtain ⟨q', hq', hstep⟩ := ih hnext
    rw [← h.now] at hs' hq'
    exact ⟨q', .wait fuel' ⟨hs'.ready, hs'.timers⟩ hq', hstep⟩

end

/-- There is one way to play. -/
theorem Plays.unique {κ : Type} {n : Network κ} {plan : List Action}
    {r a b : Run (Supervisor κ) Task Entry} (ha : Plays n plan r a) (hb : Plays n plan r b) :
    a = b := by
  induction ha with
  | done r =>
    cases hb
    rfl
  | start _ ih =>
    cases hb with
    | start hb => exact ih hb
  | stop _ ih =>
    cases hb with
    | stop hb => exact ih hb
  | wait fuel hs _ ih =>
    cases hb with
    | wait fuel' hs' hb =>
      rw [Run.advanceTo_unique ⟨hs'.1, hs'.2⟩ ⟨hs.1, hs.2⟩ (Nat.le_add_right _ _)] at hb
      exact ih hb

/-- Nothing but the network differs between two runs: neither the clock, nor what was done at which
time, nor any instance with its store, its phase, its failures and its restarts, nor the
counters. -/
structure Unchanged (r r' : ScriptedRun) : Prop where
  time : r'.loop.now = r.loop.now
  journal : r'.journal = r.journal
  state : r'.state = { r.state with network := r'.state.network }

theorem Unchanged.symm {r r' : ScriptedRun} (h : Unchanged r r') : Unchanged r' r := by
  refine ⟨h.time.symm, h.journal.symm, ?_⟩
  rw [h.state]

/-- Late replies to some of the fetches never come. -/
def Hushes (setups : List Setup) (scripts scripts' : List Script) : Prop :=
  ∀ i s, setups[i]? = some s → ∀ k,
    (Network.replyOf scripts i k).Hushes s.timing.timeout (Network.replyOf scripts' i k)

section

variable {setups : List Setup} {scripts scripts' : List Script}

/-- What comes in time of the replies to the instances. -/
def streamsOf (setups : List Setup) (scripts : List Script) (i k : Nat) : Reply :=
  match setups[i]? with
  | some s => (Network.replyOf scripts i k).hushed s.timing.timeout
  | none => .never

theorem inStep_new (h : ∀ i k, streamsOf setups scripts' i k = streamsOf setups scripts i k)
    (rule : RestartRule) (epoch : Int) (seed : UInt64) :
    InStep (streamsOf setups scripts) (.start (new rule setups scripts epoch seed))
      (.start (new rule setups scripts' epoch seed)) := by
  have hsound : ∀ x : List Script,
      (∀ i k, streamsOf setups x i k = streamsOf setups scripts i k) →
      Sound (streamsOf setups scripts) (.start (new rule setups x epoch seed)) := by
    intro x hx
    refine ⟨Loop.ordered_start, fun _ h => (by cases h), fun i slot hslot => ?_⟩
    simp only [Run.start, new, List.getElem?_map] at hslot
    obtain ⟨s, hs, rfl⟩ := Option.map_eq_some_iff.mp hslot
    refine ⟨⟨⟨?_, ?_⟩, ?_⟩, fun k => ?_⟩
    · exact fun _ hready => by cases hready
    · exact fun _ _ _ htimer => by cases htimer
    · exact fun _ hfetching => by cases hfetching
    show (Network.replyOf x i k).hushed s.timing.timeout = streamsOf setups scripts i (0 + k)
    rw [Nat.zero_add, ← hx, streamsOf, hs]
  exact ⟨hsound scripts fun _ _ => rfl, hsound scripts' h, ⟨rfl, rfl, rfl⟩, rfl⟩

theorem Hushes.streams (h : Hushes setups scripts scripts') (i k : Nat) :
    streamsOf setups scripts' i k = streamsOf setups scripts i k := by
  simp only [streamsOf]
  cases hs : setups[i]? with
  | none => rfl
  | some s => exact (h i s hs k).hushed

/-- A supervisor can be played whether late replies come or not, and the end is the same. -/
theorem unchanged_of_plays
    (h : ∀ i k, streamsOf setups scripts' i k = streamsOf setups scripts i k)
    {rule : RestartRule} {epoch : Int} {seed : UInt64} {plan : List Action} {r : ScriptedRun}
    (hp : Plays Network.scripted plan (.start (new rule setups scripts epoch seed)) r) :
    ∃ r', Plays Network.scripted plan (.start (new rule setups scripts' epoch seed)) r' ∧
      Unchanged r r' := by
  obtain ⟨r', hp', hstep⟩ := InStep.plays hp (inStep_new h rule epoch seed)
  exact ⟨r', hp', hstep.now, hstep.alike.journal, eq_of_unlinked hstep.alike.state⟩

end

end Supervisor

end TargetDiscovery
