import TargetDiscovery.Proofs.Cycle.Counters
import TargetDiscovery.Proofs.Scripts
import TargetDiscovery.Proofs.Supervisor.Strand
import TargetDiscovery.Proofs.Supervisor.Timeless

/-!
# Cells

The cell of an instance is all that its future depends on. Steps of the other instances leave the
cell as it is, each step of the instance itself makes of the cell what the cell alone determines,
and so do start and stop.
-/

set_option autoImplicit false

namespace TargetDiscovery

/-- All that the future of an instance depends on. -/
structure Cell where
  slot : Slot
  loop : Loop SlotTask
  script : Option Script
  counters : Counters
  started : Bool
  stopping : Bool

namespace Cell

def reply (w : Cell) : Reply := (w.script.map fun s => s.next.1).getD .refused

/-- What the instance makes of a task. -/
def turn (rule : RestartRule) (w : Cell) (t : SlotTask) : Slot.Turn :=
  w.slot.turn rule w.stopping 0 (fun _ => w.reply) t

def scriptBehind (w : Cell) (u : Slot.Turn) : Option Script :=
  if u.asked.isSome then w.script.map fun s => s.next.2 else w.script

def countersBehind (c : Counters) (u : Slot.Turn) : Counters :=
  let c := (u.marks.filterMap Mark.event?).foldl Counters.record c
  match u.restarted with
  | some degraded => c.recordRestart degraded
  | none => c

def taking (rule : RestartRule) (w : Cell) (t : SlotTask) (loop : Loop SlotTask) : Cell :=
  let u := w.turn rule t
  { w with
    slot := u.slot
    loop := (loop.obeyAll u.orders).still
    script := w.scriptBehind u
    counters := countersBehind w.counters u }

/-- The next task of the cell is handled. -/
def step? (rule : RestartRule) (w : Cell) : Option Cell :=
  w.loop.next?.map fun p => w.taking rule p.1 p.2

def obeying (w : Cell) (now : Nat) (slot : Slot) (orders : Slot.Orders) : Cell :=
  { w with slot := slot, loop := ({ w.loop with now := now }.obeyAll orders).still }

def starting (w : Cell) (now : Nat) : Cell :=
  if w.started || w.stopping then w
  else
    { w.obeying now { w.slot with life := .running } w.slot.startOrders with started := true }

def stop (w : Cell) (now : Nat) : Cell :=
  if w.stopping then w
  else { w.obeying now w.slot.requestStop Slot.stopOrders with stopping := true }

/-- All is done that is due by a time. -/
inductive Settles (rule : RestartRule) (time : Nat) : Cell → Cell → Prop
  | rest {w : Cell} (hr : w.loop.ready = []) (ht : ∀ t ∈ w.loop.timers, time < t.due) :
      Settles rule time w w
  | step {w w' w'' : Cell} {due : Nat} (hn : w.loop.nextTime? = some due) (hd : due ≤ time)
      (h : w.step? rule = some w') (hs : Settles rule time w' w'') : Settles rule time w w''

theorem nextTime?_of_rest {w : Cell} {time due : Nat} (hr : w.loop.ready = [])
    (ht : ∀ t ∈ w.loop.timers, time < t.due) (hn : w.loop.nextTime? = some due) : time < due := by
  rw [Loop.nextTime?, hr] at hn
  cases htimers : w.loop.timers with
  | nil => simp [htimers] at hn
  | cons t rest =>
    have hlt := ht t (by simp [htimers])
    simp [htimers] at hn
    omega

theorem Settles.unique {rule : RestartRule} {time : Nat} {w a b : Cell}
    (ha : Settles rule time w a) (hb : Settles rule time w b) : a = b := by
  induction ha with
  | rest hr ht =>
    cases hb with
    | rest => rfl
    | step hn hd =>
      have := nextTime?_of_rest hr ht hn
      omega
  | step hn hd hstep _ ih =>
    cases hb with
    | rest hr ht =>
      have := nextTime?_of_rest hr ht hn
      omega
    | step hn' hd' hstep' hs' =>
      rw [hstep] at hstep'
      cases hstep'
      exact ih hs'

end Cell

namespace Supervisor

/-- The supervisor has done all that is due by now. -/
def Settled {κ : Type} (r : Run (Supervisor κ) Task Entry) : Prop :=
  r.loop.ready = [] ∧ ∀ t ∈ r.loop.timers, r.loop.now < t.due

/-! ## Names -/

section

variable {κ : Type}

def names (s : Supervisor κ) : List Bytes := s.slots.map Slot.name

theorem names_start (s : Supervisor κ) : s.start.1.names = s.names := by
  rw [start]
  split
  · rfl
  · simp only [names, List.map_map]
    rfl

theorem names_stop (s : Supervisor κ) : s.stop.1.names = s.names := by
  rw [stop]
  split
  · rfl
  · simp only [names, List.map_map]
    rfl

theorem name_turn (n : Network κ) (now : Nat) (s : Supervisor κ) (i : Nat) (slot : Slot)
    (t : SlotTask) : (s.turn n now i slot t).slot.name = slot.name :=
  (Slot.turn_same _ _ _ slot _ _).name

theorem names_handle (n : Network κ) (now : Nat) (s : Supervisor κ) (t : Task) :
    (s.handle n now t).1.names = s.names := by
  rw [handle]
  cases hslot : s.slots[t.slot]? with
  | none => rfl
  | some slot =>
    obtain ⟨hlt, hget⟩ := List.getElem?_eq_some_iff.mp hslot
    simp only [accept, names, List.map_set, name_turn]
    apply List.ext_getElem?
    intro j
    by_cases hj : t.slot = j
    · subst hj
      simp [hlt, hget]
    · rw [List.getElem?_set_ne hj]

theorem same_of_map {change : Slot → Slot} (hsame : ∀ old : Slot, old.Same (change old))
    {slots : List Slot} {i : Nat} {slot : Slot} (h : (slots.map change)[i]? = some slot) :
    ∃ old, slots[i]? = some old ∧ old.Same slot := by
  rw [List.getElem?_map] at h
  obtain ⟨old, hold, rfl⟩ := Option.map_eq_some_iff.mp h
  exact ⟨old, hold, hsame old⟩

theorem same_start {s : Supervisor κ} {i : Nat} {slot : Slot}
    (h : s.start.1.slots[i]? = some slot) : ∃ old, s.slots[i]? = some old ∧ old.Same slot := by
  rw [start] at h
  split at h
  · exact ⟨slot, h, ⟨rfl, rfl⟩, rfl⟩
  · refine same_of_map ?_ h
    exact fun _ => ⟨⟨rfl, rfl⟩, rfl⟩

theorem same_stop {s : Supervisor κ} {i : Nat} {slot : Slot}
    (h : s.stop.1.slots[i]? = some slot) : ∃ old, s.slots[i]? = some old ∧ old.Same slot := by
  rw [stop] at h
  split at h
  · exact ⟨slot, h, ⟨rfl, rfl⟩, rfl⟩
  · refine same_of_map ?_ h
    exact fun _ => ⟨⟨rfl, rfl⟩, rfl⟩

theorem same_handle {n : Network κ} {now : Nat} {s : Supervisor κ} {t : Task} {i : Nat}
    {slot : Slot} (h : (s.handle n now t).1.slots[i]? = some slot) :
    ∃ old, s.slots[i]? = some old ∧ old.Same slot := by
  rw [handle] at h
  cases hold : s.slots[t.slot]? with
  | none =>
    rw [hold] at h
    exact ⟨slot, h, ⟨rfl, rfl⟩, rfl⟩
  | some old =>
    have hlt := (List.getElem?_eq_some_iff.mp hold).1
    rw [hold] at h
    simp only [accept] at h
    by_cases hi : t.slot = i
    · subst hi
      rw [List.getElem?_set_self hlt] at h
      cases h
      exact ⟨old, hold, Slot.turn_same _ _ _ old _ _⟩
    · rw [List.getElem?_set_ne hi] at h
      exact ⟨slot, h, ⟨rfl, rfl⟩, rfl⟩

theorem name_ne_of_slot_ne {s : Supervisor κ} (h : s.names.Nodup) {i j : Nat}
    {a b : Slot} (ha : s.slots[i]? = some a) (hb : s.slots[j]? = some b) (hij : i ≠ j) :
    a.name ≠ b.name := by
  intro hname
  have hi : s.names[i]? = some a.name := by simp [names, ha]
  have hj : s.names[j]? = some a.name := by simp [names, hb, hname]
  exact hij ((List.getElem?_inj (List.getElem?_eq_some_iff.mp hi).1 h).mp (hi.trans hj.symm))

end

/-! ## Counters -/

theorem counters_count_own (l : Ledger) {name : Bytes} {u : Slot.Turn}
    (h : ∀ e ∈ u.marks.filterMap Mark.event?, e.owner = name) :
    (count l name u).counters name = Cell.countersBehind (l.counters name) u := by
  have hmarks := Ledger.counters_foldl_of_eq l h
  rw [count, Cell.countersBehind]
  cases u.restarted with
  | none => exact hmarks
  | some degraded =>
    rw [Ledger.counters_recordRestart, if_pos rfl]
    exact congrArg (Counters.recordRestart · degraded) hmarks

theorem counters_count_other (l : Ledger) {name owner : Bytes} {u : Slot.Turn}
    (h : ∀ e ∈ u.marks.filterMap Mark.event?, e.owner = owner) (hne : name ≠ owner) :
    (count l owner u).counters name = l.counters name := by
  have hmarks := Ledger.counters_foldl_of_ne l h hne
  rw [count]
  cases u.restarted with
  | none => exact hmarks
  | some degraded =>
    rw [Ledger.counters_recordRestart, if_neg hne]
    exact hmarks

/-! ## The cell of an instance -/

abbrev ScriptedRun := Run (Supervisor (List Script)) Task Entry

/-- What a run needs so that the cell of the instance at a position goes its own way. -/
structure Tidy (rule : RestartRule) (i : Nat) (r : ScriptedRun) : Prop where
  rule : r.state.rule = rule
  ordered : r.loop.Ordered
  timely : r.loop.Timely
  names : r.state.names.Nodup
  even : ∀ slot, r.state.slots[i]? = some slot → slot.Even

def cell? (i : Nat) (r : ScriptedRun) : Option Cell :=
  r.state.slots[i]?.map fun slot =>
    { slot := slot.untimed
      loop := (r.loop.choose (Task.own i)).still
      script := r.state.network[i]?
      counters := r.state.ledger.counters slot.name
      started := r.state.started
      stopping := r.state.stopping }

abbrev handled (r : ScriptedRun) (task : Task) (loop : Loop Task) : ScriptedRun :=
  ((⟨r, []⟩ : Chronicle (List Script)).handling Network.scripted task loop).run

theorem step?_eq_some {r r' : ScriptedRun} (h : r.step? (machine Network.scripted) = some r') :
    ∃ task loop, r.loop.next? = some (task, loop) ∧ r' = handled r task loop := by
  obtain ⟨task, loop, hn, rfl⟩ := Run.next?_of_step? h
  exact ⟨task, loop, hn, rfl⟩

theorem loop_handled (r : ScriptedRun) (task : Task) (loop : Loop Task) :
    (handled r task loop).loop =
      loop.obeyAll (r.state.handle Network.scripted loop.now task).2 := Run.loop_command _ _

theorem state_handled (r : ScriptedRun) (task : Task) (loop : Loop Task) :
    (handled r task loop).state = (r.state.handle Network.scripted loop.now task).1 :=
  Run.state_command _ _

section

variable {rule : RestartRule} {i : Nat} {r : ScriptedRun}

theorem Tidy.command (h : Tidy rule i r)
    (change : Supervisor (List Script) → Supervisor (List Script) × Orders)
    (hrule : (change r.state).1.rule = r.state.rule)
    (hnames : (change r.state).1.names = r.state.names)
    (hsame : ∀ slot, (change r.state).1.slots[i]? = some slot →
      ∃ old, r.state.slots[i]? = some old ∧ old.Same slot) : Tidy rule i (r.command change) := by
  constructor
  case rule =>
    rw [Run.state_command, hrule]
    exact h.rule
  case ordered =>
    rw [Run.loop_command]
    exact Loop.obeyAll_ordered h.ordered _
  case timely =>
    rw [Run.loop_command]
    exact Loop.obeyAll_timely h.timely _
  case names =>
    rw [Run.state_command, hnames]
    exact h.names
  case even =>
    intro slot hslot
    rw [Run.state_command] at hslot
    obtain ⟨old, hold, hkept⟩ := hsame slot hslot
    exact hkept.even (h.even old hold)

theorem Tidy.handled (h : Tidy rule i r) {task : Task} {loop : Loop Task}
    (hn : r.loop.next? = some (task, loop)) : Tidy rule i (handled r task loop) := by
  have htaken : Tidy rule i (r.onLoop loop) :=
    ⟨h.rule, (Loop.takes_of_next? hn).ordered h.ordered,
      Loop.timely_of_next? hn h.ordered h.timely, h.names, h.even⟩
  have hrule : (r.state.handle Network.scripted loop.now task).1.rule = r.state.rule := by
    rw [handle]
    split
    · rfl
    · rfl
  have hnames := names_handle Network.scripted loop.now r.state task
  exact htaken.command (fun s => s.handle Network.scripted loop.now task) hrule hnames
    fun slot hslot => same_handle hslot

theorem Tidy.starting (h : Tidy rule i r) : Tidy rule i (r.command start) := by
  have hrule : r.state.start.1.rule = r.state.rule := by
    rw [start]
    split
    · rfl
    · rfl
  exact h.command start hrule (names_start _) fun slot hslot => same_start hslot

theorem Tidy.stopping (h : Tidy rule i r) : Tidy rule i (r.command stop) := by
  have hrule : r.state.stop.1.rule = r.state.rule := by
    rw [stop]
    split
    · rfl
    · rfl
  exact h.command stop hrule (names_stop _) fun slot hslot => same_stop hslot

/-! ## Steps -/

theorem step?_still (rule : RestartRule) {w : Cell} {l : Loop SlotTask} (hl : w.loop = l.still)
    (ht : l.Timely) {t : SlotTask} {loop : Loop SlotTask} (hn : l.next? = some (t, loop)) :
    w.step? rule = some (w.taking rule t loop) := by
  rw [Cell.step?, hl, Loop.next?_still ht, hn]
  rfl

theorem turn_of_cell (h : Tidy rule i r) {slot : Slot} (hslot : r.state.slots[i]? = some slot)
    {w : Cell} (hw : cell? i r = some w) (now : Nat) (t : SlotTask) :
    w.turn rule t = (r.state.turn Network.scripted now i slot t).untimed := by
  rw [cell?, hslot, Option.map_some] at hw
  cases hw
  have hreply : (fun q : UInt64 × Nat => (Network.scripted.ask r.state.network i q.1 q.2).1) =
      fun _ => (r.state.network[i]?.map fun s => s.next.1).getD .refused := by
    funext q
    exact (Network.scripted_self r.state.network i q.1 q.2).1
  rw [Supervisor.turn, hreply, h.rule]
  exact Slot.turn_untimed rule r.state.stopping _ (h.even slot hslot) _ t

theorem cell?_handled_own (h : Tidy rule i r) {t : SlotTask} {loop : Loop Task}
    (hn : r.loop.next? = some (⟨i, t⟩, loop)) {w : Cell} (hw : cell? i r = some w) :
    cell? i (handled r ⟨i, t⟩ loop) = w.step? rule := by
  obtain ⟨slot, hslot, hcell⟩ := Option.map_eq_some_iff.mp hw
  have hlt := (List.getElem?_eq_some_iff.mp hslot).1
  have hordered := (Loop.takes_of_next? hn).ordered h.ordered
  have hturn := turn_of_cell h hslot hw loop.now t
  generalize hu : r.state.turn Network.scripted loop.now i slot t = u at hturn
  have hhandle : r.state.handle Network.scripted loop.now ⟨i, t⟩ =
      r.state.accept Network.scripted i u := by
    simp only [handle, hslot, hu]
  have howner : ∀ e ∈ u.marks.filterMap Mark.event?, e.owner = slot.name := by
    rw [← hu]
    exact Slot.turn_owner _ _ _ slot _ _
  have hname : u.slot.name = slot.name := by rw [← hu, name_turn]
  have hnext : (r.loop.choose (Task.own i)).next? = some (t, loop.choose (Task.own i)) :=
    Loop.next?_choose hn (by simp [Task.own])
  have hloop : w.loop = (r.loop.choose (Task.own i)).still := by rw [← hcell]
  have hslots : (r.state.accept Network.scripted i u).1.slots[i]? = some u.slot :=
    List.getElem?_set_self hlt
  have hscript : (r.state.accept Network.scripted i u).1.network[i]? = w.scriptBehind u := by
    rw [← hcell, Cell.scriptBehind, accept]
    cases u.asked with
    | none => rfl
    | some q => exact (Network.scripted_self r.state.network i q.1 q.2).2
  have hcounters : (r.state.accept Network.scripted i u).1.ledger.counters slot.name =
      Cell.countersBehind w.counters u := by
    rw [← hcell, accept, hname]
    exact counters_count_own _ howner
  have horders : ((loop.obeyAll (r.state.accept Network.scripted i u).2).choose (Task.own i)) =
      (loop.choose (Task.own i)).obeyAll u.orders := by
    rw [accept, Chronicle.choose_own_obeyAll hordered (ordersOf_splits i i _),
      ownOrder_ordersOf, if_pos rfl]
  rw [step?_still rule hloop (Loop.choose_timely _ h.timely) hnext, cell?, state_handled,
    loop_handled, hhandle, hslots, Option.map_some, hscript, horders, hname, hcounters, Cell.taking,
    hturn, ← hcell]
  rfl

theorem cell?_handled_other (h : Tidy rule i r) {task : Task} {loop : Loop Task}
    (hn : r.loop.next? = some (task, loop)) (hi : task.slot ≠ i) :
    cell? i (handled r task loop) = cell? i r := by
  have hordered := (Loop.takes_of_next? hn).ordered h.ordered
  have hstill : (loop.choose (Task.own i)).still = (r.loop.choose (Task.own i)).still :=
    Loop.still_choose_of_next? hn (by simp [Task.own, hi])
  rw [cell?, cell?, state_handled, loop_handled, handle]
  cases hother : r.state.slots[task.slot]? with
  | none =>
    simp only [Loop.obeyAll_nil, hstill]
  | some other =>
    cases hslot : r.state.slots[i]? with
    | none => simp [accept, List.getElem?_set_ne hi, hslot]
    | some slot =>
      generalize hu : r.state.turn Network.scripted loop.now task.slot other task.task = u
      have howner : ∀ e ∈ u.marks.filterMap Mark.event?, e.owner = u.slot.name := by
        rw [← hu, name_turn]
        exact Slot.turn_owner _ _ _ other _ _
      have hne : slot.name ≠ u.slot.name := by
        rw [← hu, name_turn]
        exact name_ne_of_slot_ne h.names hslot hother hi.symm
      have hslots : (r.state.accept Network.scripted task.slot u).1.slots[i]? = some slot :=
        (List.getElem?_set_ne hi).trans hslot
      have hscript : (r.state.accept Network.scripted task.slot u).1.network[i]? =
          r.state.network[i]? := by
        rw [accept]
        cases u.asked with
        | none => rfl
        | some q => exact Network.scripted_other r.state.network hi q.1 q.2
      have hcounters : (r.state.accept Network.scripted task.slot u).1.ledger.counters slot.name =
          r.state.ledger.counters slot.name := counters_count_other _ howner hne
      have horders : ((loop.obeyAll (r.state.accept Network.scripted task.slot u).2).choose
          (Task.own i)) = loop.choose (Task.own i) := by
        rw [accept, Chronicle.choose_own_obeyAll hordered (ordersOf_splits i task.slot _),
          ownOrder_ordersOf, if_neg hi, Loop.obeyAll_nil]
      simp only [hu]
      rw [hslots, Option.map_some, Option.map_some, hscript, hcounters, horders, hstill]
      rfl

/-- What a step of the run does to the cell: nothing, or the step of the cell at the same time. -/
theorem cell?_step? (h : Tidy rule i r) {r' : ScriptedRun}
    (hstep : r.step? (machine Network.scripted) = some r') {w : Cell} (hw : cell? i r = some w) :
    Tidy rule i r' ∧ ∃ w', cell? i r' = some w' ∧
      (w' = w ∨ w.step? rule = some w' ∧ w.loop.nextTime? = r.loop.nextTime?) := by
  obtain ⟨task, loop, hn, rfl⟩ := step?_eq_some hstep
  refine ⟨h.handled hn, ?_⟩
  by_cases hi : task.slot = i
  · cases task with
    | mk j t =>
      subst hi
      have hown : (r.loop.choose (Task.own j)).next? = some (t, loop.choose (Task.own j)) :=
        Loop.next?_choose hn (by simp [Task.own])
      have htimely := Loop.choose_timely (Task.own j) h.timely
      obtain ⟨slot, hslot, hcell⟩ := Option.map_eq_some_iff.mp hw
      have hloop : w.loop = (r.loop.choose (Task.own j)).still := by rw [← hcell]
      have hnext := step?_still rule hloop htimely hown
      refine ⟨_, (cell?_handled_own h hn hw).trans hnext, .inr ⟨hnext, ?_⟩⟩
      rw [Loop.now_of_next? hn, hloop]
      exact Loop.now_of_next? ((Loop.next?_still htimely).trans hown)
  · exact ⟨w, (cell?_handled_other h hn hi).trans hw, .inl rfl⟩

theorem now_step? {r' : ScriptedRun} (hstep : r.step? (machine Network.scripted) = some r') :
    r.loop.nextTime? = some r'.loop.now := by
  obtain ⟨task, loop, hn, rfl⟩ := step?_eq_some hstep
  rw [loop_handled, Loop.obeyAll_now]
  exact Loop.now_of_next? hn

theorem settles_of_settled {time : Nat} {w : Cell} (hw : cell? i r = some w)
    (hr : r.loop.ready = []) (ht : ∀ t ∈ r.loop.timers, time < t.due) :
    w.Settles rule time w := by
  obtain ⟨slot, hslot, rfl⟩ := Option.map_eq_some_iff.mp hw
  refine .rest ?_ ?_
  · rw [Loop.ready_still, Loop.choose, hr]
    rfl
  · intro u hu
    rw [Loop.timers_still] at hu
    obtain ⟨t, hmem, htu⟩ := List.mem_filterMap.mp hu
    rw [Loop.due_of_chooseTimer htu]
    exact ht t hmem

/-- While the run does what is due by a time, so does the cell. -/
theorem cell?_continueWhile (h : Tidy rule i r) {w : Cell} (hw : cell? i r = some w)
    {time : Nat} (hnow : r.loop.now ≤ time) {fuel : Nat} {r' : ScriptedRun}
    (hrun : r.continueWhile (machine Network.scripted) (some time) (fun _ => true) fuel = r')
    (hr : r'.loop.ready = []) (ht : ∀ t ∈ r'.loop.timers, time < t.due) :
    Tidy rule i r' ∧ r'.loop.now ≤ time ∧
      ∃ w', cell? i r' = some w' ∧ w.Settles rule time w' := by
  have hrest : ∀ {r : ScriptedRun} {w : Cell}, Tidy rule i r → cell? i r = some w →
      r.loop.now ≤ time → r = r' → Tidy rule i r' ∧ r'.loop.now ≤ time ∧
        ∃ w', cell? i r' = some w' ∧ w.Settles rule time w' := by
    rintro r w h hw hnow rfl
    exact ⟨h, hnow, w, hw, settles_of_settled hw hr ht⟩
  -- Induction on the fuel: the run may take many steps where the cell takes none, so it is the run
  -- whose steps are counted.
  induction fuel generalizing r w with
  | zero => exact hrest h hw hnow hrun
  | succ fuel ih =>
    rw [Run.continueWhile] at hrun
    split at hrun
    · exact hrest h hw hnow hrun
    · rename_i due hdue
      split at hrun
      · rename_i hle
        split at hrun
        · rename_i next hstep
          have hdue' : due ≤ time := by simpa using hle
          have hnext : next.loop.now = due :=
            Option.some.inj ((now_step? hstep).symm.trans hdue)
          obtain ⟨htidy, w', hw', hcell⟩ := cell?_step? h hstep hw
          obtain ⟨htidy', hnow', w'', hw'', hsettles⟩ := ih htidy hw' (by omega) hrun
          refine ⟨htidy', hnow', w'', hw'', ?_⟩
          -- A task of another instance is not seen; one of its own is a step of the cell, at the
          -- same time.
          rcases hcell with rfl | ⟨hown, htime⟩
          · exact hsettles
          · exact .step (htime.trans hdue) hdue' hown hsettles
        · exact hrest h hw hnow hrun
      · exact hrest h hw hnow hrun

theorem cell?_advanceTo (h : Tidy rule i r) {w : Cell} (hw : cell? i r = some w) {time : Nat}
    (hnow : r.loop.now ≤ time) {fuel : Nat} {r' : ScriptedRun}
    (hrun : r.advanceTo (machine Network.scripted) fuel time = r') (hs : Settled r') :
    Tidy rule i r' ∧ r'.loop.now = time ∧
      ∃ w', cell? i r' = some w' ∧ w.Settles rule time w' := by
  subst hrun
  generalize hc : r.continueWhile (machine Network.scripted) (some time) (fun _ => true) fuel = c
  have hadvance : r.advanceTo (machine Network.scripted) fuel time =
      { c with loop := { c.loop with now := max c.loop.now time } } := by rw [Run.advanceTo, hc]
  rw [hadvance] at hs ⊢
  obtain ⟨hready, htimers⟩ := hs
  have hlater : ∀ t ∈ c.loop.timers, time < t.due := by
    intro t ht
    have hlt : max c.loop.now time < t.due := htimers t ht
    omega
  obtain ⟨htidy, hle, w', hw', hsettles⟩ := cell?_continueWhile h hw hnow hc hready hlater
  have hmax : max c.loop.now time = time := Nat.max_eq_right hle
  refine ⟨⟨htidy.rule, htidy.ordered, fun t ht => Nat.le_of_lt (htimers t ht), htidy.names,
    htidy.even⟩, hmax, w', ?_, hsettles⟩
  -- The clock is moved at the end, which the cell does not notice: nothing is ready in it.
  have hidle : (c.loop.choose (Task.own i)).ready = [] := by
    rw [Loop.choose, hready]
    rfl
  rw [← hw', cell?, cell?, Loop.still_of_idle hidle, Loop.still_of_idle (by exact hidle)]
  rfl

/-! ## Commands -/

def cellOf (i : Nat) (s : Supervisor (List Script)) (v : Strand) : Cell :=
  { slot := v.slot.untimed
    loop := v.loop.still
    script := s.network[i]?
    counters := s.ledger.counters v.slot.name
    started := v.started
    stopping := v.stopping }

theorem cell?_of_strand {c : Chronicle (List Script)} {v : Strand} (h : c.strand? i = some v) :
    cell? i c.run = some (cellOf i c.state v) := by
  obtain ⟨slot, hslot, rfl⟩ := Option.map_eq_some_iff.mp h
  rw [cell?, hslot]
  rfl

theorem strand_of_cell {w : Cell} (hw : cell? i r = some w) :
    ∃ v, (⟨r, []⟩ : Chronicle (List Script)).strand? i = some v ∧ w = cellOf i r.state v ∧
      { w.loop with now := r.loop.now } = v.loop := by
  obtain ⟨slot, hslot, _⟩ := Option.map_eq_some_iff.mp hw
  obtain ⟨v, hv, _⟩ := Chronicle.strand?_of_slot (c := ⟨r, []⟩) hslot
  obtain rfl := Option.some.inj ((cell?_of_strand hv).symm.trans hw)
  refine ⟨v, hv, rfl, ?_⟩
  have hnow : v.loop.now = r.loop.now := Chronicle.now_of_strand? hv
  rw [← hnow]
  exact v.loop.with_now_still

theorem cell?_start (h : Tidy rule i r) {w : Cell} (hw : cell? i r = some w) :
    cell? i (r.command start) = some (w.starting r.loop.now) := by
  obtain ⟨v, hv, rfl, hclock⟩ := strand_of_cell hw
  have hcell : ∀ v, cellOf i r.state.start.1 v = cellOf i r.state v := by
    intro v
    rw [start]
    split
    · rfl
    · rfl
  refine (cell?_of_strand (Chronicle.strand?_starting h.ordered hv)).trans ?_
  rw [Chronicle.state_starting, hcell, Cell.starting, Cell.obeying, hclock]
  by_cases hs : (v.started || v.stopping) = true
  · have hw : ((cellOf i r.state v).started || (cellOf i r.state v).stopping) = true := hs
    rw [if_pos hs, if_pos hw]
  · have hw : ¬ ((cellOf i r.state v).started || (cellOf i r.state v).stopping) = true := hs
    rw [if_neg hs, if_neg hw]
    rfl

theorem cell?_stop (h : Tidy rule i r) {w : Cell} (hw : cell? i r = some w) :
    cell? i (r.command stop) = some (w.stop r.loop.now) := by
  obtain ⟨v, hv, rfl, hclock⟩ := strand_of_cell hw
  have hcell : ∀ v, cellOf i r.state.stop.1 v = cellOf i r.state v := by
    intro v
    rw [stop]
    split
    · rfl
    · rfl
  refine (cell?_of_strand (Chronicle.strand?_stopping h.ordered hv)).trans ?_
  rw [Chronicle.state_stopping, hcell, Cell.stop, Cell.obeying, hclock]
  by_cases hs : v.stopping = true
  · have hw : (cellOf i r.state v).stopping = true := hs
    rw [if_pos hs, if_pos hw]
  · have hw : ¬ (cellOf i r.state v).stopping = true := hs
    rw [if_neg hs, if_neg hw]
    rfl

end

end Supervisor

end TargetDiscovery
