import TargetDiscovery.Proofs.Supervisor.Chronicle

/-!
# Strands

The strand of an instance is its part of a chronicle: the instance itself, its tasks on the loop,
its fetches, and whether start and stop were called. What all others do only moves its clock. A
property of strands that every turn, start and stop of the one instance keeps therefore holds of
every instance in every reachable chronicle, however many others there are.
-/

set_option autoImplicit false

namespace TargetDiscovery

namespace Supervisor

def Task.own (i : Nat) (t : Task) : Option SlotTask := if t.slot = i then some t.task else none

def Entry.own (i : Nat) (e : Entry) : Option Mark := if e.slot = some i then some e.mark else none

theorem Task.own_injective (i : Nat) (t u : Task) (x : SlotTask) (ht : t.own i = some x)
    (hu : u.own i = some x) : t = u := by
  unfold own at ht hu
  split at ht
  · split at hu
    · cases t
      cases u
      simp_all
    · cases hu
  · cases ht

abbrev ownOrder (i : Nat) : Order Task Entry → Option (Order SlotTask Mark) :=
  Loop.chooseOrder (Task.own i) (Entry.own i)

theorem ownOrder_ordersOf (i j : Nat) (orders : Slot.Orders) :
    (ordersOf j orders).filterMap (ownOrder i) = if j = i then orders else [] := by
  induction orders with
  | nil => simp [ordersOf]
  | cons o orders ih =>
    simp only [ordersOf, List.map_cons, List.filterMap_cons] at ih ⊢
    rw [ih]
    by_cases hj : j = i
    · cases o <;> simp [ownOrder, Loop.chooseOrder, Order.map, Task.own, Entry.own, hj]
    · cases o <;> simp [ownOrder, Loop.chooseOrder, Order.map, Task.own, Entry.own, hj]

theorem ordersOf_splits (i j : Nat) (orders : Slot.Orders) :
    ∀ o ∈ ordersOf j orders, Loop.Splits (Task.own i) o := by
  intro o ho
  obtain ⟨p, _, rfl⟩ := List.mem_map.mp ho
  cases p with
  | cancel t a =>
    simp only [Order.map, Loop.Splits, Task.own]
    split <;> rfl
  | _ => trivial

/-- Among orders for instances from a position on, those of the one at another position. -/
theorem ownOrder_flatten_from (f : Slot → Slot.Orders) (slots : List Slot) (i k : Nat) :
    ((slots.mapIdx fun j s => ordersOf (j + k) (f s)).flatten).filterMap (ownOrder i) =
      if k ≤ i then (slots[i - k]?.map f).getD [] else [] := by
  induction slots generalizing k with
  | nil => simp
  | cons s slots ih =>
    have hstep : ∀ j, j + 1 + k = j + (k + 1) := fun j => by omega
    simp only [List.mapIdx_cons, List.flatten_cons, List.filterMap_append, ownOrder_ordersOf, hstep,
      ih, Nat.zero_add]
    by_cases hk : k = i
    · subst hk
      simp [show ¬ k + 1 ≤ k by omega]
    · by_cases hle : k + 1 ≤ i
      · have hi : i - k = i - (k + 1) + 1 := by omega
        simp [hk, hle, show k ≤ i by omega, hi]
      · simp [hk, hle, show ¬ k ≤ i by omega]

theorem ownOrder_flatten (f : Slot → Slot.Orders) (slots : List Slot) (i : Nat) :
    ((slots.mapIdx fun j s => ordersOf j (f s)).flatten).filterMap (ownOrder i) =
      (slots[i]?.map f).getD [] := by
  simpa using ownOrder_flatten_from f slots i 0

theorem flatten_splits (f : Slot → Slot.Orders) (slots : List Slot) (i : Nat) :
    ∀ o ∈ (slots.mapIdx fun j s => ordersOf j (f s)).flatten, Loop.Splits (Task.own i) o := by
  intro o ho
  obtain ⟨l, hl, hol⟩ := List.mem_flatten.mp ho
  obtain ⟨j, hj, rfl⟩ := List.mem_mapIdx.mp hl
  exact ordersOf_splits i j _ o hol

end Supervisor

/-- The part of a chronicle that belongs to one instance. -/
structure Strand where
  slot : Slot
  loop : Loop SlotTask
  fetches : List Fetch
  started : Bool
  stopping : Bool

namespace Strand

def fresh (setup : Setup) (rule : RestartRule) (seed : UInt64) : Strand :=
  ⟨Slot.new setup rule seed, Loop.start, [], false, false⟩

def starting (v : Strand) : Strand :=
  { v with
    slot := { v.slot with life := .running }
    loop := v.loop.obeyAll v.slot.startOrders
    started := true }

def stop (v : Strand) : Strand :=
  { v with
    slot := v.slot.requestStop
    loop := v.loop.obeyAll Slot.stopOrders
    stopping := true }

/-- The strand after a turn whose task was taken from the loop, which is `loop` then. -/
def taking (v : Strand) (i : Nat) (loop : Loop SlotTask) (ask : UInt64 × Nat → Reply)
    (u : Slot.Turn) : Strand :=
  { v with
    slot := u.slot
    loop := loop.obeyAll u.orders
    fetches := (u.fetch? i loop.now ask).toList ++ v.fetches }

/-- One move of the strand of the instance at a position. -/
inductive Goes (rule : RestartRule) (i : Nat) (v : Strand) : Strand → Prop
  | start (h : v.started = false) (hs : v.stopping = false) : Goes rule i v v.starting
  | stop : Goes rule i v v.stop
  | turn {t : SlotTask} {loop : Loop SlotTask} (time : Int) (ask : UInt64 × Nat → Reply)
      (h : v.loop.Takes t loop) :
      Goes rule i v (v.taking i loop ask (v.slot.turn rule v.stopping time ask t))
  | elapse {now : Nat} (h : v.loop.now ≤ now) :
      Goes rule i v { v with loop := { v.loop with now := now } }

/-- The second strand continues the first one. -/
def Leads (rule : RestartRule) (i : Nat) : Strand → Strand → Prop :=
  Relation.ReflTransGen (Goes rule i)

end Strand

namespace Chronicle

variable {κ : Type}

def strand? (c : Chronicle κ) (i : Nat) : Option Strand :=
  c.state.slots[i]?.map fun slot =>
    ⟨slot, c.loop.choose (Supervisor.Task.own i), c.fetches.filter fun f => f.slot = i,
      c.state.started, c.state.stopping⟩

theorem strand?_eq_some {c : Chronicle κ} {i : Nat} {v : Strand} (h : c.strand? i = some v) :
    c.state.slots[i]? = some v.slot ∧ v.loop = c.loop.choose (Supervisor.Task.own i) ∧
      v.fetches = (c.fetches.filter fun f => f.slot = i) ∧ v.started = c.state.started ∧
      v.stopping = c.state.stopping := by
  obtain ⟨slot, hslot, rfl⟩ := Option.map_eq_some_iff.mp h
  exact ⟨hslot, rfl, rfl, rfl, rfl⟩

theorem now_of_strand? {c : Chronicle κ} {i : Nat} {v : Strand} (h : c.strand? i = some v) :
    v.loop.now = c.loop.now := by
  obtain ⟨_, hloop, _⟩ := strand?_eq_some h
  rw [hloop]
  rfl

theorem strand?_of_slot {c : Chronicle κ} {i : Nat} {slot : Slot}
    (h : c.state.slots[i]? = some slot) : ∃ v, c.strand? i = some v ∧ v.slot = slot :=
  ⟨_, by rw [strand?, h]; rfl, rfl⟩

theorem choose_own_obeyAll {l : Loop Supervisor.Task} (h : l.Ordered) {i : Nat}
    {orders : Supervisor.Orders} (hs : ∀ o ∈ orders, Loop.Splits (Supervisor.Task.own i) o) :
    (l.obeyAll orders).choose (Supervisor.Task.own i) =
      (l.choose (Supervisor.Task.own i)).obeyAll
        (orders.filterMap (Supervisor.ownOrder i)) :=
  Loop.choose_obeyAll (Supervisor.Task.own_injective i) (Supervisor.Entry.own i) h hs

theorem strand?_starting {c : Chronicle κ} (hc : c.loop.Ordered) {i : Nat} {v : Strand}
    (h : c.strand? i = some v) :
    c.starting.strand? i = some (if v.started || v.stopping then v else v.starting) := by
  obtain ⟨hslot, hloop, hf, hstarted, hstopping⟩ := strand?_eq_some h
  rw [hstarted, hstopping]
  by_cases hs : (c.state.started || c.state.stopping) = true
  · have hstart : c.state.start = (c.state, []) := by rw [Supervisor.start, if_pos hs]
    have hsame : c.starting.strand? i = c.strand? i := by
      simp only [strand?, loop_starting, state_starting, hstart]
      rfl
    rw [if_pos hs, hsame, h]
  · have hstart : c.state.start =
        ({ c.state with
            started := true
            active := c.state.slots.length
            slots := c.state.slots.map fun slot => { slot with life := .running } },
          (c.state.slots.mapIdx fun j s => Supervisor.ordersOf j s.startOrders).flatten) := by
      rw [Supervisor.start, if_neg hs]
    rw [if_neg hs, strand?, loop_starting, state_starting, hstart]
    simp only [List.getElem?_map, hslot, Option.map_some,
      choose_own_obeyAll hc (Supervisor.flatten_splits Slot.startOrders _ i),
      Supervisor.ownOrder_flatten Slot.startOrders, Option.getD_some, ← hloop]
    cases v
    simp_all [Strand.starting, Chronicle.starting]

theorem strand?_stopping {c : Chronicle κ} (hc : c.loop.Ordered) {i : Nat} {v : Strand}
    (h : c.strand? i = some v) :
    c.stopping.strand? i = some (if v.stopping then v else v.stop) := by
  obtain ⟨hslot, hloop, hf, hstarted, hstopping⟩ := strand?_eq_some h
  rw [hstopping]
  by_cases hs : c.state.stopping = true
  · have hstop : c.state.stop = (c.state, []) := by rw [Supervisor.stop, if_pos hs]
    have hsame : c.stopping.strand? i = c.strand? i := by
      simp only [strand?, loop_stopping, state_stopping, hstop]
      rfl
    rw [if_pos hs, hsame, h]
  · have hstop : c.state.stop =
        ({ c.state with stopping := true, slots := c.state.slots.map Slot.requestStop },
          .emit (Supervisor.stopEntry c.state) ::
            (c.state.slots.mapIdx fun j _ => Supervisor.ordersOf j Slot.stopOrders).flatten) := by
      rw [Supervisor.stop, if_neg hs]
    have hsplits : ∀ o ∈ Order.emit (Supervisor.stopEntry c.state) ::
        (c.state.slots.mapIdx fun j _ => Supervisor.ordersOf j Slot.stopOrders).flatten,
        Loop.Splits (Supervisor.Task.own i) o := by
      intro o ho
      rcases List.mem_cons.mp ho with rfl | ho
      · trivial
      · exact Supervisor.flatten_splits (fun _ => Slot.stopOrders) _ i o ho
    have hown : Supervisor.ownOrder i (.emit (Supervisor.stopEntry c.state)) = none := by
      simp [Supervisor.ownOrder, Loop.chooseOrder, Supervisor.Entry.own, Supervisor.stopEntry]
    rw [if_neg hs, strand?, loop_stopping, state_stopping, hstop]
    simp only [List.getElem?_map, hslot, Option.map_some, choose_own_obeyAll hc hsplits,
      List.filterMap_cons_none hown, Supervisor.ownOrder_flatten fun _ => Slot.stopOrders,
      Option.getD_some, ← hloop]
    cases v
    simp_all [Strand.stop, Chronicle.stopping]

theorem filter_fetchOf (n : Network κ) (now : Nat) (s : Supervisor κ) (task : Supervisor.Task)
    (i : Nat) (slot : Slot) (h : s.slots[task.slot]? = some slot) :
    ((fetchOf n now s task).toList.filter fun f => f.slot = i) =
      if task.slot = i then
        ((s.turn n now i slot task.task).fetch? i now (answers n s i)).toList
      else [] := by
  rw [fetchOf, h, Option.bind_some, Slot.Turn.fetch?]
  by_cases hi : task.slot = i
  · subst hi
    cases hu : (s.turn n now task.slot slot task.task).asked <;> simp [Slot.Turn.fetch?, hu]
  · cases (s.turn n now task.slot slot task.task).asked <;> simp [hi]

theorem strand?_handling_own (n : Network κ) {c : Chronicle κ} (hc : c.loop.Ordered) {i : Nat}
    {v : Strand} (h : c.strand? i = some v) {t : SlotTask} {loop : Loop Supervisor.Task}
    (ht : c.loop.Takes ⟨i, t⟩ loop) :
    (c.handling n ⟨i, t⟩ loop).strand? i = some
      (v.taking i (loop.choose (Supervisor.Task.own i)) (answers n c.state i)
        (v.slot.turn c.state.rule v.stopping (c.state.epoch + loop.now) (answers n c.state i) t)) := by
  obtain ⟨hslot, _, hf, hstarted, hstopping⟩ := strand?_eq_some h
  have hlen := (List.getElem?_eq_some_iff.mp hslot).1
  have hhandle : c.state.handle n loop.now ⟨i, t⟩ =
      c.state.accept n i (c.state.turn n loop.now i v.slot t) := by
    rw [Supervisor.handle, hslot]
  have hfilter := filter_fetchOf n loop.now c.state ⟨i, t⟩ i v.slot hslot
  rw [if_pos rfl] at hfilter
  rw [strand?, loop_handling, state_handling, hhandle, Supervisor.accept]
  simp only [List.getElem?_set_self hlen, Option.map_some,
    choose_own_obeyAll (ht.ordered hc) (Supervisor.ordersOf_splits i i _),
    Supervisor.ownOrder_ordersOf, if_true, handling, List.filter_append, hfilter, ← hf, ← hstarted]
  rw [Strand.taking, hstopping]
  rfl

theorem strand?_handling_other (n : Network κ) {c : Chronicle κ} (hc : c.loop.Ordered) {i : Nat}
    {v : Strand} (h : c.strand? i = some v) {task : Supervisor.Task}
    {loop : Loop Supervisor.Task} (ht : c.loop.Takes task loop) (hi : task.slot ≠ i) :
    (c.handling n task loop).strand? i = some { v with loop := { v.loop with now := loop.now } } := by
  obtain ⟨hslot, hloop, hf, hstarted, hstopping⟩ := strand?_eq_some h
  have hown : task.own i = none := by simp [Supervisor.Task.own, hi]
  have hrest := ht.choose_none hown
  rw [strand?, loop_handling, state_handling, Supervisor.handle]
  cases hslots : c.state.slots[task.slot]? with
  | none =>
    have hfetch : fetchOf n loop.now c.state task = none := by simp [fetchOf, hslots]
    simp only [hslot, Option.map_some, Loop.obeyAll_nil, hrest, handling, hfetch, ← hloop]
    cases v
    simp_all
  | some slot =>
    have hfilter := filter_fetchOf n loop.now c.state task i slot hslots
    rw [if_neg hi] at hfilter
    simp only [Supervisor.accept, List.getElem?_set_ne hi, hslot, Option.map_some,
      choose_own_obeyAll (ht.ordered hc) (Supervisor.ordersOf_splits i task.slot _),
      Supervisor.ownOrder_ordersOf, if_neg hi, Loop.obeyAll_nil, hrest, handling,
      List.filter_append, hfilter, ← hloop]
    cases v
    simp_all

theorem strand?_waiting {c : Chronicle κ} {i : Nat} {v : Strand} (h : c.strand? i = some v)
    (now : Nat) :
    (c.waiting now).strand? i = some { v with loop := { v.loop with now := now } } := by
  obtain ⟨slot, hslot, rfl⟩ := Option.map_eq_some_iff.mp h
  simp only [strand?, waiting, hslot]
  rfl

/-- What the loop takes for an instance, the loop of the instance takes. -/
theorem takes_of_strand {c : Chronicle κ} {i : Nat} {v : Strand} (h : c.strand? i = some v)
    {t : SlotTask} {loop : Loop Supervisor.Task} (ht : c.loop.Takes ⟨i, t⟩ loop) :
    v.loop.Takes t (loop.choose (Supervisor.Task.own i)) := by
  obtain ⟨_, hloop, _, _, _⟩ := strand?_eq_some h
  rw [hloop]
  exact ht.choose (by simp [Supervisor.Task.own])

/-- A turn that the supervisor runs for an instance is one of the instance itself. -/
theorem turn_of_strand (n : Network κ) {c : Chronicle κ} {i : Nat} {v : Strand}
    (h : c.strand? i = some v) (now : Nat) (t : SlotTask) :
    c.state.turn n now i v.slot t =
      v.slot.turn c.state.rule v.stopping (c.state.epoch + now) (answers n c.state i) t := by
  obtain ⟨_, _, _, _, hstopping⟩ := strand?_eq_some h
  rw [hstopping]
  rfl

/-- Whatever moves a chronicle moves a strand, or leaves it as it is. -/
theorem Move.strand {n : Network κ} {c d : Chronicle κ} (h : Move n c d) (hc : c.loop.Ordered)
    {i : Nat} {v : Strand} (hv : c.strand? i = some v) :
    ∃ w, d.strand? i = some w ∧ (w = v ∨ v.Goes c.state.rule i w) := by
  obtain ⟨_, hloop, _, _, _⟩ := strand?_eq_some hv
  cases h with
  | start =>
    refine ⟨_, strand?_starting hc hv, ?_⟩
    by_cases hs : (v.started || v.stopping) = true
    · rw [if_pos hs]
      exact .inl rfl
    · rw [if_neg hs]
      exact .inr (.start (by simp_all) (by simp_all))
  | stop =>
    refine ⟨_, strand?_stopping hc hv, ?_⟩
    by_cases hs : v.stopping = true
    · rw [if_pos hs]
      exact .inl rfl
    · rw [if_neg hs]
      exact .inr .stop
  | @handle task loop ht =>
    by_cases hi : task.slot = i
    · cases task with
      | mk j t =>
        subst hi
        exact ⟨_, strand?_handling_own n hc hv ht, .inr (.turn _ _ (takes_of_strand hv ht))⟩
    -- What another instance does is time going by for this one.
    · refine ⟨_, strand?_handling_other n hc hv ht hi, .inr (.elapse ?_)⟩
      rw [hloop]
      exact ht.now_le
  | @elapse now hnow =>
    refine ⟨_, strand?_waiting hv now, .inr (.elapse ?_)⟩
    rw [hloop]
    exact hnow

theorem Move.constants {n : Network κ} {c d : Chronicle κ} (h : Move n c d) :
    d.state.rule = c.state.rule ∧ d.state.epoch = c.state.epoch := by
  cases h with
  | start =>
    rw [state_starting, Supervisor.start]
    split <;> exact ⟨rfl, rfl⟩
  | stop =>
    rw [state_stopping, Supervisor.stop]
    split <;> exact ⟨rfl, rfl⟩
  | handle =>
    rw [state_handling, Supervisor.handle]
    split <;> exact ⟨rfl, rfl⟩
  | elapse => exact ⟨rfl, rfl⟩

theorem Leads.strand {n : Network κ} {c d : Chronicle κ} (h : Leads n c d) (hc : c.loop.Ordered)
    {i : Nat} {v : Strand} (hv : c.strand? i = some v) :
    d.state.rule = c.state.rule ∧
      ∃ w, d.strand? i = some w ∧ v.Leads c.state.rule i w := by
  induction h with
  | refl => exact ⟨rfl, v, hv, .refl⟩
  | tail hcd hm ih =>
    obtain ⟨hrule, w, hw, hl⟩ := ih
    obtain ⟨x, hx, hmove⟩ := hm.strand (Leads.ordered hcd hc) hw
    rw [hrule] at hmove
    refine ⟨hm.constants.1.trans hrule, x, hx, ?_⟩
    rcases hmove with rfl | hg
    · exact hl
    · exact hl.tail hg

theorem Leads.length_slots {n : Network κ} {c d : Chronicle κ} (h : Leads n c d) :
    d.state.slots.length = c.state.slots.length := by
  induction h with
  | refl => rfl
  | tail _ hm ih =>
    rw [← ih]
    cases hm with
    | start => rw [state_starting, Supervisor.start]; split <;> simp
    | stop => rw [state_stopping, Supervisor.stop]; split <;> simp
    | handle => rw [state_handling, Supervisor.handle]; split <;> simp [Supervisor.accept]
    | elapse => rfl

/-- The strand of an instance in a reachable chronicle comes from that of a new instance. -/
theorem Reachable.strand {n : Network κ} {c : Chronicle κ} (h : Reachable n c) {i : Nat}
    {v : Strand} (hv : c.strand? i = some v) :
    ∃ setup seed, (Strand.fresh setup c.state.rule seed).Leads c.state.rule i v := by
  obtain ⟨rule, setups, network, epoch, seed, hc⟩ := h
  obtain ⟨hslot, _⟩ := strand?_eq_some hv
  have hlen := (List.getElem?_eq_some_iff.mp hslot).1
  rw [hc.length_slots] at hlen
  obtain ⟨setup, hsetup⟩ : ∃ setup, setups[i]? = some setup :=
    ⟨_, List.getElem?_eq_getElem (by simpa [begin, Supervisor.new, Run.start] using hlen)⟩
  have hfirst : (begin rule setups network epoch seed).strand? i =
      some (Strand.fresh setup rule seed) := by
    simp [strand?, begin, Supervisor.new, Run.start, Strand.fresh, Loop.choose, Loop.start, hsetup]
  obtain ⟨hrule, w, hw, hl⟩ := hc.strand Loop.ordered_start hfirst
  rw [hw] at hv
  cases hv
  rw [hrule]
  exact ⟨_, _, hl⟩

end Chronicle

end TargetDiscovery
