import TargetDiscovery.Supervisor.Slot
import TargetDiscovery.Proofs.Loop
import TargetDiscovery.Proofs.Poller.Reaction

/-!
# Turns of an instance

Every turn of an instance is one of a few: it ignores a task that no longer fits, drops a wait, takes
an answer, begins a fetch, sleeps behind a cycle, ends its loop, or begins the loop again. The cases
say everything that a turn does, apart from its reports.
-/

set_option autoImplicit false

namespace TargetDiscovery

namespace Poller

def fetching (p : Poller) : Poller :=
  { p with
    looping := true
    phase := .fetching
    fetches := p.fetches + 1
    activity := .fetching p.store.current none }

def halted (p : Poller) : Poller :=
  { p with looping := true, phase := .stopped, activity := .idle }

def answered (p : Poller) (known : Option Snapshot) (result : FetchResult) : Poller :=
  { p with activity := .fetching known (some result) }

end Poller

namespace Slot

def Turn.plain (u : Turn) : Turn := { u with orders := u.orders.filter Loop.acts, marks := [] }

def fetchOrders (number timeout : Nat) (reply : Reply) : Orders :=
  .after timeout (.poll (.deadline number)) ::
    match reply with
    | ⟨some delay, result⟩ => [.after delay (.poll (.reply number result))]
    | ⟨none, _⟩ => []

theorem after_of_mem_fetchOrders {number timeout : Nat} {reply : Reply}
    {o : Order SlotTask Mark} (h : o ∈ fetchOrders number timeout reply) :
    ∃ delay task, o = .after delay task := by
  rcases reply with ⟨_ | delay, result⟩
  · exact ⟨_, _, List.mem_singleton.mp h⟩
  · rcases List.mem_cons.mp h with h | h
    · exact ⟨_, _, h⟩
    · exact ⟨_, _, List.mem_singleton.mp h⟩

def Fits (s : Slot) : SlotTask → Prop
  | .poll (.reply n _) => n = s.poller.fetches ∧ ∃ known, s.poller.activity = .fetching known none
  | .poll (.deadline n) | .poll (.resume n) =>
    n = s.poller.fetches ∧ ∃ known answer, s.poller.activity = .fetching known answer
  | .poll .wake => s.poller.activity = .sleeping
  | _ => True

def Leaves (s : Slot) (t : SlotTask) : Prop :=
  t = .poll .begin ∨ t = .poll .wake ∧ s.poller.activity = .sleeping

def Closes (s : Slot) (known : Option Snapshot) (answer : Option FetchResult) (t : SlotTask) :
    Prop :=
  s.poller.activity = .fetching known answer ∧
    (t = .poll (.deadline s.poller.fetches) ∨ t = .poll (.resume s.poller.fetches))

def cycleEnd (s : Slot) (time : Int) (known : Option Snapshot) (answer : Option FetchResult) :
    Poller.Reaction :=
  s.poller.endCycle time known (answer.getD s.poller.setup.timeoutResult)

theorem cycleEnd_concluded (s : Slot) (time : Int) (known : Option Snapshot)
    (answer : Option FetchResult) :
    Poller.Concluded s.poller (s.cycleEnd time known answer).poller
      (s.poller.conclusion time known (answer.getD s.poller.setup.timeoutResult)) :=
  s.poller.endCycle_concluded time known _

/-! ## The end of a loop -/

/-- What becomes of an instance at the end of its loop. -/
inductive Exits (rule : RestartRule) (stopping : Bool) (s : Slot) : Option Fault → Turn → Prop
  | stops : Exits rule stopping s none s.finish
  | fails {fault : Fault} (hs : stopping = true) : Exits rule stopping s (some fault) s.finish
  | degrades {fault : Fault} (hs : stopping = false) (hlimit : rule.limit ≤ s.restarts) :
      Exits rule stopping s (some fault)
        { { s with degraded := true }.finish with restarted := some true }
  | restarts {fault : Fault} (hs : stopping = false) (hlimit : s.restarts < rule.limit) :
      Exits rule stopping s (some fault) s.scheduleRestart

theorem plain_behind_report (s : Slot) (level : LogLevel) (text : Bytes) (u : Turn) :
    (u.behind [s.report level text]).plain = u.plain := rfl

theorem onExit_exits (rule : RestartRule) (stopping : Bool) (s : Slot) (fault : Option Fault) :
    Exits rule stopping s fault (s.onExit rule stopping fault).plain := by
  cases fault with
  | none => exact .stops
  | some fault =>
    rw [onExit, plain_behind_report]
    by_cases hs : stopping = true
    · rw [if_pos hs]
      exact .fails hs
    · have hgo : stopping = false := by simpa using hs
      rw [if_neg hs]
      by_cases hlimit : rule.limit ≤ s.restarts
      · rw [if_pos hlimit]
        exact .degrades hgo hlimit
      · rw [if_neg hlimit]
        exact .restarts hgo (Nat.lt_of_not_le hlimit)

theorem poller_onExit (rule : RestartRule) (stopping : Bool) (s : Slot) (fault : Option Fault) :
    (s.onExit rule stopping fault).slot.poller = s.poller := by
  cases fault with
  | none => rfl
  | some fault =>
    simp only [onExit, Turn.behind]
    split
    · rfl
    · split
      · rfl
      · rfl

theorem poller_accept (rule : RestartRule) (stopping : Bool) (ask : UInt64 × Nat → Reply)
    (s : Slot) (r : Poller.Reaction) : (s.accept rule stopping ask r).slot.poller = r.poller := by
  have hslot : (s.accept rule stopping ask r).slot =
      (afterReaction rule stopping { s with poller := r.poller } r.next).slot := rfl
  rw [hslot]
  cases r.next with
  | exited fault => exact poller_onExit rule stopping { s with poller := r.poller } fault
  | _ => rfl

/-! ## All turns -/

/-- What a turn at a task does, apart from its reports. -/
inductive Does (rule : RestartRule) (stopping : Bool) (time : Int) (ask : UInt64 × Nat → Reply)
    (s : Slot) : SlotTask → Turn → Prop
  | ignores {t : SlotTask} (h : ¬ s.Fits t) : Does rule stopping time ask s t { slot := s }
  | rouses : Does rule stopping time ask s (.poll .interrupt)
      { slot := s, orders := [.cancel (.poll .wake) (.poll .wake)] }
  | drops : Does rule stopping time ask s .dropRestart
      { slot := s, orders := [.cancel .restart .restartDropped] }
  | settles {known : Option Snapshot} {result : FetchResult}
      (ha : s.poller.activity = .fetching known none) :
      Does rule stopping time ask s (.poll (.reply s.poller.fetches result))
        { slot := { s with poller := s.poller.answered known result }
          orders :=
            [.cancel (.poll (.deadline s.poller.fetches)) (.poll (.resume s.poller.fetches))] }
  | fetches {t : SlotTask} (ht : s.Leaves t) (hs : s.poller.stopRequested = false) :
      Does rule stopping time ask s t
        { slot := { s with poller := s.poller.fetching }
          orders := fetchOrders (s.poller.fetches + 1) s.poller.setup.timing.timeout
            (ask (s.poller.store.version, s.poller.setup.timing.timeout))
          asked := some (s.poller.store.version, s.poller.setup.timing.timeout) }
  | halts {t : SlotTask} (ht : s.Leaves t) (hs : s.poller.stopRequested = true) :
      Does rule stopping time ask s t { s with poller := s.poller.halted }.finish
  | sleeps {t : SlotTask} {known : Option Snapshot} {answer : Option FetchResult} {delay : Nat}
      (ht : s.Closes known answer t) (hn : (s.cycleEnd time known answer).next = .sleep delay)
      (ha : (s.cycleEnd time known answer).poller.activity = .sleeping) :
      Does rule stopping time ask s t
        { slot := { s with poller := (s.cycleEnd time known answer).poller }
          orders := [.after delay (.poll .wake)] }
  | exits {t : SlotTask} {known : Option Snapshot} {answer : Option FetchResult}
      {fault : Option Fault} {u : Turn} (ht : s.Closes known answer t)
      (hn : (s.cycleEnd time known answer).next = .exited fault)
      (ha : (s.cycleEnd time known answer).poller.activity = .idle)
      (hu : Exits rule stopping { s with poller := (s.cycleEnd time known answer).poller } fault u) :
      Does rule stopping time ask s t u
  | relaunches (hs : s.poller.stopRequested = false) : Does rule stopping time ask s .restart
      { slot := { s with life := .running }, orders := [launch] }
  | abandons {t : SlotTask}
      (ht : t = .restartDropped ∨ t = .restart ∧ s.poller.stopRequested = true) :
      Does rule stopping time ask s t s.finish

section

variable (rule : RestartRule) (stopping : Bool) (ask : UInt64 × Nat → Reply) (s : Slot)

theorem plain_accept_of_exited {r : Poller.Reaction} {fault : Option Fault}
    (h : r.next = .exited fault) :
    (s.accept rule stopping ask r).plain =
      ({ s with poller := r.poller }.onExit rule stopping fault).plain := by
  have hemits : ((r.marks.map Order.emit).map (Order.map SlotTask.poll id)).filter Loop.acts = [] := by
    simp [Loop.acts, Order.map]
  simp only [accept, h, afterReaction, Poller.Next.orders, List.append_nil, Turn.plain, Turn.behind,
    List.filter_append, hemits, List.nil_append]

theorem plain_accept {r : Poller.Reaction} (h : ∀ fault, r.next ≠ .exited fault) :
    (s.accept rule stopping ask r).plain =
      { slot := { s with poller := r.poller }
        orders := ((r.next.orders (r.next.asked?.map ask)).map
          (Order.map SlotTask.poll id)).filter Loop.acts
        asked := r.next.asked? } := by
  have hemits : ((r.marks.map Order.emit).map (Order.map SlotTask.poll id)).filter Loop.acts = [] := by
    simp [Loop.acts, Order.map]
  have hafter : afterReaction rule stopping { s with poller := r.poller } r.next =
      { slot := { s with poller := r.poller }, asked := r.next.asked? } := by
    cases hn : r.next with
    | exited fault => exact absurd hn (h fault)
    | _ => rfl
  simp only [accept, hafter, Turn.plain, Turn.behind, List.map_append, List.filter_append, hemits,
    List.nil_append, List.append_nil]

variable {s}

theorem react_of_not_fits (time : Int) {t : Poller.Task} (h : ¬ s.Fits (.poll t)) :
    s.poller.react time t = s.poller.ignore := by
  cases t with
  | begin => exact absurd trivial h
  | once => exact absurd trivial h
  | interrupt => exact absurd trivial h
  | wake =>
    cases ha : s.poller.activity with
    | sleeping => exact absurd ha h
    | _ => simp only [Poller.react, ha]
  | reply n result =>
    cases ha : s.poller.activity with
    | fetching known answer =>
      cases answer with
      | none =>
        have hn : n ≠ s.poller.fetches := fun hn => h ⟨hn, known, ha⟩
        simp only [Poller.react, ha, if_neg hn]
      | some answer => simp only [Poller.react, ha]
    | _ => simp only [Poller.react, ha]
  | deadline n | resume n =>
    cases ha : s.poller.activity with
    | fetching known answer =>
      have hn : n ≠ s.poller.fetches := fun hn => h ⟨hn, known, answer, ha⟩
      simp only [Poller.react, ha, if_neg hn]
    | _ => simp only [Poller.react, ha]

theorem turn_of_not_fits (time : Int) {t : SlotTask} (h : ¬ s.Fits t) :
    (s.turn rule stopping time ask t).plain = { slot := s } := by
  cases t with
  | poll t =>
    rw [turn, react_of_not_fits time h, plain_accept rule stopping ask s (by simp [Poller.ignore])]
    rfl
  | _ => exact absurd trivial h

theorem turn_of_closes (time : Int) {t : SlotTask} {known : Option Snapshot}
    {answer : Option FetchResult} (h : s.Closes known answer t) :
    s.turn rule stopping time ask t = s.accept rule stopping ask (s.cycleEnd time known answer) := by
  obtain ⟨ha, rfl | rfl⟩ := h
  · simp [turn, Poller.react, ha, cycleEnd]
  · simp [turn, Poller.react, ha, cycleEnd]

theorem accept_leaveWait (time : Int) {t : SlotTask} (h : s.Leaves t) :
    Does rule stopping time ask s t
      (s.accept rule stopping ask { s.poller with looping := true }.leaveWait).plain := by
  by_cases hs : s.poller.stopRequested = true
  · rw [Poller.leaveWait_of_stop (by exact hs), plain_accept_of_exited rule stopping ask s rfl]
    exact .halts h hs
  · have hgo : s.poller.stopRequested = false := by simpa using hs
    rw [Poller.leaveWait_of_go (by exact hgo), plain_accept rule stopping ask s (by simp)]
    have horders : ∀ reply : Reply,
        ((Poller.Next.orders (some reply) (.fetch (s.poller.fetches + 1) s.poller.store.version
          s.poller.setup.timing.timeout)).map (Order.map SlotTask.poll id)).filter Loop.acts =
          fetchOrders (s.poller.fetches + 1) s.poller.setup.timing.timeout reply := by
      rintro ⟨_ | delay, result⟩
      · rfl
      · rfl
    simp only [Poller.Next.asked?, Option.map_some, horders]
    exact .fetches h hgo

theorem accept_endCycle (time : Int) {t : SlotTask} {known : Option Snapshot}
    {answer : Option FetchResult} (hl : s.poller.looping = true) (h : s.Closes known answer t) :
    Does rule stopping time ask s t
      (s.accept rule stopping ask (s.cycleEnd time known answer)).plain := by
  have hrests : Poller.Rests (s.cycleEnd time known answer) :=
    Poller.endCycle_rests hl time known _
  cases hrests with
  | exits fault next activity =>
    rw [plain_accept_of_exited rule stopping ask s next]
    exact .exits h next activity (onExit_exits rule stopping _ fault)
  | sleeps delay next activity =>
    have hn : ∀ fault, (s.cycleEnd time known answer).next ≠ .exited fault := by
      intro fault hf
      rw [next] at hf
      cases hf
    rw [plain_accept rule stopping ask s hn, next]
    exact .sleeps h next activity

/-- The turn at a task is one of those cases. -/
theorem turn_does (time : Int) {t : SlotTask} (ht : t ≠ .poll .once)
    (hl : s.poller.activity ≠ .idle → s.poller.looping = true) :
    Does rule stopping time ask s t (s.turn rule stopping time ask t).plain := by
  have hclose : ∀ {known : Option Snapshot} {answer : Option FetchResult}, s.Closes known answer t →
      Does rule stopping time ask s t (s.turn rule stopping time ask t).plain := by
    intro known answer hc
    rw [turn_of_closes rule stopping ask time hc]
    exact accept_endCycle rule stopping ask time (hl (by rw [hc.1]; exact nofun)) hc
  by_cases hfits : s.Fits t
  · cases t with
    | restart =>
      simp only [turn, restart]
      by_cases hs : s.poller.stopRequested = true
      · rw [if_pos hs]
        exact .abandons (.inr ⟨rfl, hs⟩)
      · rw [if_neg hs]
        exact .relaunches (by simpa using hs)
    | restartDropped => exact .abandons (.inl rfl)
    | dropRestart => exact .drops
    | poll t =>
      cases t with
      | once => exact absurd rfl ht
      | begin => exact accept_leaveWait rule stopping ask time (.inl rfl)
      | interrupt =>
        simp only [turn, Poller.react]
        rw [plain_accept rule stopping ask s (by simp)]
        exact .rouses
      | wake =>
        have ha : s.poller.activity = .sleeping := hfits
        have hlooping : s.poller = { s.poller with looping := true } := by
          rw [← hl (by simp [ha])]
        have hw := accept_leaveWait rule stopping ask time (t := .poll .wake) (.inr ⟨rfl, ha⟩)
        rw [← hlooping] at hw
        simpa only [turn, Poller.react, ha] using hw
      | reply n result =>
        obtain ⟨rfl, known, ha⟩ := hfits
        simp only [turn, Poller.react, ha, if_true]
        rw [plain_accept rule stopping ask s (by simp)]
        exact .settles ha
      | deadline n =>
        obtain ⟨rfl, known, answer, ha⟩ := hfits
        exact hclose ⟨ha, .inl rfl⟩
      | resume n =>
        obtain ⟨rfl, known, answer, ha⟩ := hfits
        exact hclose ⟨ha, .inr rfl⟩
  · rw [turn_of_not_fits rule stopping ask time hfits]
    exact .ignores hfits

end

end Slot

end TargetDiscovery
