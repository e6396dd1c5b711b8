import TargetDiscovery.Proofs.Supervisor.Closing

/-!
# Shutting down

After a stop no cycle begins. A cycle under way comes to the end it would have come to anyhow, and
once the longest timeout is over nothing is left.
-/

set_option autoImplicit false

namespace TargetDiscovery

namespace Slot

section

variable (rule : RestartRule) (stopping : Bool) {time : Int} (ask : UInt64 × Nat → Reply) {s : Slot}
  {t : SlotTask} {k : Conclusion}

theorem turn_of_exited {task : Poller.Task}
    (h : (s.poller.react time task).next = .exited none) :
    (s.turn rule stopping time ask (.poll task)).slot.life = .ended ∧
      (s.turn rule stopping time ask (.poll task)).slot.poller.phase = .stopped := by
  have hslot : (s.turn rule stopping time ask (.poll task)).slot =
      (afterReaction rule stopping { s with poller := (s.poller.react time task).poller }
        (s.poller.react time task).next).slot := rfl
  rw [hslot, h]
  exact ⟨rfl, (s.poller.react_reacts time task).stopped h⟩

/-! ## The move that ends a cycle -/

variable {ask} in
theorem closes_of_incident? (h : s.incident? time ask t = some (.ends k)) :
    ∃ known answer, s.Closes known answer t ∧
      k = s.poller.conclusion time known (answer.getD s.poller.setup.timeoutResult) := by
  cases t with
  | restart =>
    rw [incident?] at h
    split at h
    · cases h
    · cases h
  | restartDropped => cases h
  | dropRestart => cases h
  | poll task =>
    have hconcluded : s.poller.concluded? time task = some k := by
      rw [incident?, Poller.incident?] at h
      cases hc : s.poller.concluded? time task with
      | none =>
        rw [hc] at h
        obtain ⟨_, _, hbegins⟩ := Option.map_eq_some_iff.mp h
        cases hbegins
      | some c =>
        rw [hc] at h
        cases h
        rfl
    by_cases hfits : s.Fits (.poll task)
    · have hends : ∀ {known : Option Snapshot} {answer : Option FetchResult},
          s.Closes known answer (.poll task) → ∃ known answer, s.Closes known answer (.poll task) ∧
            k = s.poller.conclusion time known (answer.getD s.poller.setup.timeoutResult) := by
        intro known answer hc
        rw [incident?_of_closes hc] at h
        cases h
        exact ⟨known, answer, hc, rfl⟩
      cases task with
      | deadline n =>
        obtain ⟨rfl, known, answer, ha⟩ := hfits
        exact hends ⟨ha, .inl rfl⟩
      | resume n =>
        obtain ⟨rfl, known, answer, ha⟩ := hfits
        exact hends ⟨ha, .inr rfl⟩
      | _ => cases hconcluded
    · rw [concluded?_of_not_fits hfits] at hconcluded
      cases hconcluded

/-- The turn at the end of a cycle reports the marks of the conclusion first, and no event but
theirs. -/
theorem marks_of_closes {known : Option Snapshot} {answer : Option FetchResult}
    (h : s.Closes known answer t)
    (hk : k = s.poller.conclusion time known (answer.getD s.poller.setup.timeoutResult)) :
    (∃ rest, (s.turn rule stopping time ask t).orders = k.marks.map Order.emit ++ rest) ∧
      (s.turn rule stopping time ask t).marks.filterMap Mark.event? = k.events := by
  have hmarks : (s.cycleEnd time known answer).marks = k.marks ++
      ((s.poller.closed k).afterCycle k.result).marks := by
    rw [hk]
    rfl
  rw [turn_of_closes rule stopping ask time h]
  constructor
  · simp only [accept, Turn.behind, hmarks, List.map_append, List.map_map, List.append_assoc]
    exact ⟨_, rfl⟩
  · rw [hk]
    exact s.poller.events_endCycle time known _

end

end Slot

/-- A move ends a cycle of the instance at a position: the store is the one concluded, its marks are
journalled, and its event is recorded. A restart may be counted besides, but not after a stop. -/
structure Concludes {κ : Type} (p q : Chronicle κ) (i time : Nat) (k : Conclusion) : Prop where
  stored : q.state.slots[i]?.map (fun slot => slot.poller.store) = some k.store
  marked : ∃ rest, q.run.journal =
    rest ++ (k.marks.map fun m => ⟨time, ⟨some i, m⟩⟩).reverse ++ p.run.journal
  recorded : q.state.ledger = p.state.ledger.recordAll k.marks ∨
    p.state.stopping = false ∧ k.result.isOk = false ∧ ∃ name degraded,
      q.state.ledger = (p.state.ledger.recordAll k.marks).recordRestart name degraded
  /-- After a stop the instance ends with it. -/
  ended : p.state.stopping = true → q.isBusy i = false

namespace Chronicle

variable {κ : Type} {n : Network κ} {p q : Chronicle κ} {i : Nat}

theorem restarted_of_exits {rule : RestartRule} {stopping : Bool} {s : Slot} {fault : Option Fault}
    {u : Slot.Turn} (hu : Slot.Exits rule stopping s fault u) {degraded : Bool}
    (hd : u.restarted = some degraded) : stopping = false ∧ fault.isSome = true := by
  cases hu with
  | stops | fails => cases hd
  | degrades hs | restarts hs => exact ⟨hs, rfl⟩

/-- Only a crash before a stop counts for a restart. -/
theorem crash_of_restarted {s : Setup} {rule : RestartRule} {epoch : Int} {h : History} {v : Strand}
    (hv : Strand.Kept rule s epoch v h) {t : SlotTask} {loop : Loop SlotTask}
    (ht : v.loop.Takes t loop) {time : Int} {ask : UInt64 × Nat → Reply} {known : Option Snapshot}
    {answer : Option FetchResult} (hc : v.slot.Closes known answer t) {degraded : Bool}
    (hd : (v.slot.turn rule v.stopping time ask t).restarted = some degraded) :
    v.stopping = false ∧ (v.slot.poller.conclusion time known
      (answer.getD v.slot.poller.setup.timeoutResult)).result.isOk = false := by
  have hu := hv.steady.does rule ht time ask
  have hplain : (v.slot.turn rule v.stopping time ask t).plain.restarted = some degraded := hd
  generalize (v.slot.turn rule v.stopping time ask t).plain = u at hu hplain
  cases hu with
  | exits hc' hn _ hu =>
    obtain ⟨hgo, hfault⟩ := restarted_of_exits hu hplain
    obtain ⟨rfl, rfl⟩ := Activity.fetching.inj (hc.1.symm.trans hc'.1)
    refine ⟨hgo, ?_⟩
    obtain ⟨f, rfl⟩ := Option.isSome_iff_exists.mp hfault
    rw [((hv.steady.ending ht hc time).2.of_fault hn).1]
    rfl
  | _ => cases hplain

theorem concludes_of_handling {s : Setup} {rule : RestartRule} {epoch : Int} {h : History}
    {v : Strand} (hv : p.strand? i = some v) (hkept : Strand.Kept rule s epoch v h) {t : SlotTask}
    {loop : Loop Supervisor.Task} (ht : p.loop.Takes ⟨i, t⟩ loop) (hrule : p.state.rule = rule)
    (hepoch : p.state.epoch = epoch) {k : Conclusion}
    (hk : v.slot.incident? (epoch + loop.now) (answers n p.state i) t = some (.ends k))
    (hended : p.state.stopping = true → (p.handling n ⟨i, t⟩ loop).isBusy i = false) :
    Concludes p (p.handling n ⟨i, t⟩ loop) i loop.now k := by
  obtain ⟨known, answer, hc, hconclusion⟩ := Slot.closes_of_incident? hk
  obtain ⟨hslot, _, _, _, hstopping⟩ := strand?_eq_some hv
  have hlen := (List.getElem?_eq_some_iff.mp hslot).1
  have hturn := turn_of_strand n hv loop.now t
  rw [hrule, hepoch] at hturn
  have hhandle : p.state.handle n loop.now ⟨i, t⟩ = p.state.accept n i
      (v.slot.turn rule v.stopping (epoch + loop.now) (answers n p.state i) t) := by
    rw [Supervisor.handle, hslot]
    exact congrArg (p.state.accept n i) hturn
  have hown := takes_of_strand hv ht
  obtain ⟨⟨rest, horders⟩, hevents⟩ := Slot.marks_of_closes rule v.stopping
    (answers n p.state i) hc hconclusion
  constructor
  case stored =>
    rw [state_handling, hhandle]
    have hpoller : (v.slot.turn rule v.stopping (epoch + loop.now) (answers n p.state i) t
        ).slot.poller = (v.slot.cycleEnd (epoch + loop.now) known answer).poller := by
      rw [Slot.turn_of_closes rule v.stopping _ _ hc, Slot.poller_accept]
    simp only [Supervisor.accept, List.getElem?_set_self hlen, Option.map_some, hpoller]
    rw [hconclusion]
    exact congrArg some (v.slot.cycleEnd_concluded (epoch + loop.now) known answer).store
  case marked =>
    have hemitted : ((Supervisor.ordersOf i (v.slot.turn rule v.stopping (epoch + loop.now)
        (answers n p.state i) t).orders).filterMap Run.emitted?) =
        (k.marks.map fun m => ⟨some i, m⟩) ++ (Supervisor.ordersOf i rest).filterMap Run.emitted? := by
      rw [horders, Supervisor.ordersOf, List.map_append, List.filterMap_append, List.map_map,
        List.filterMap_map]
      congr 1
      exact congrFun List.filterMap_eq_map k.marks
    have hjournal : (p.handling n ⟨i, t⟩ loop).run.journal =
        (((p.state.handle n loop.now ⟨i, t⟩).2.filterMap Run.emitted?).map
          (Stamped.mk loop.now)).reverse ++ p.run.journal := Run.journal_command _ _
    rw [hhandle, Supervisor.accept, hemitted, List.map_append, List.reverse_append,
      List.map_map] at hjournal
    exact ⟨_, hjournal⟩
  case recorded =>
    have hrecord : p.state.ledger.recordAll (v.slot.turn rule v.stopping (epoch + loop.now)
        (answers n p.state i) t).marks = p.state.ledger.recordAll k.marks := by
      rw [Ledger.recordAll, hevents]
      rfl
    rw [state_handling, hhandle, Supervisor.accept]
    simp only [Supervisor.count, hrecord]
    cases hd : (v.slot.turn rule v.stopping (epoch + loop.now) (answers n p.state i) t).restarted with
    | none => exact .inl rfl
    | some degraded =>
      obtain ⟨hgo, hcrash⟩ := crash_of_restarted hkept hown hc hd
      refine .inr ⟨hstopping.symm.trans hgo, ?_, _, degraded, rfl⟩
      rw [hconclusion]
      exact hcrash
  case ended => exact hended

theorem Tick.concludes {notes : List (Stamped Note)} (ht : Tick n p notes q) (ho : p.loop.Ordered)
    {s : Setup} {rule : RestartRule} {epoch : Int} {h : History} {v : Strand}
    (hv : p.strand? i = some v) (hkept : Strand.Kept rule s epoch v h) (hrule : p.state.rule = rule)
    (hepoch : p.state.epoch = epoch) {e : Nat} {k : Conclusion}
    (hnotes : historyOf i notes = [⟨e, .ends k⟩]) : Concludes p q i e k := by
  obtain ⟨hslot, _, _, _, hstopping⟩ := strand?_eq_some hv
  obtain ⟨w, hw, hmove⟩ := ht.strand ho hv
  have hended : p.state.stopping = true → q.isBusy i = false := by
    intro hstop
    rw [hrule, hepoch, hnotes] at hmove
    rcases hmove with ⟨_, hnone⟩ | hticks
    · cases hnone
    · have hlife := (hticks.halts hkept (hstopping.trans hstop)).last nofun
      rw [isBusy, hw, Option.any_some, (hticks.goes.steady hkept.steady).isBusy, hlife]
      rfl
  cases ht with
  | start => cases hnotes
  | stop => cases hnotes
  | elapse => cases hnotes
  | @handle task loop ht ha =>
    cases htask : p.state.slots[task.slot]? with
    | none =>
      rw [noteOf, htask] at hnotes
      cases hnotes
    | some slot =>
      rw [historyOf_note htask] at hnotes
      by_cases hi : task.slot = i
      · cases task with
        | mk j t =>
          subst hi
          rw [hslot] at htask
          cases htask
          rw [if_pos rfl, hepoch] at hnotes
          cases hk : v.slot.incident? (epoch + loop.now) (answers n p.state j) t with
          | none =>
            rw [hk] at hnotes
            cases hnotes
          | some x =>
            rw [hk] at hnotes
            cases hnotes
            exact concludes_of_handling hv hkept ht hrule hepoch hk hended
      · rw [if_neg hi] at hnotes
        cases hnotes

/-! ## The whole supervisor -/

/-- Every note is about an instance there is. -/
theorem Course.slot_of_note {h : List (Stamped Note)} (hc : Course n p h q) {x : Stamped Note}
    (hx : x ∈ h) : ∃ v, p.strand? x.entry.slot = some v := by
  have hlength : x.entry.slot < p.state.slots.length := by
    induction hc with
    | refl => cases hx
    | tail hc ht ih =>
      rcases List.mem_append.mp hx with hx | hx
      · rw [← (Course.leads hc).length_slots]
        cases ht with
        | start => cases hx
        | stop => cases hx
        | elapse => cases hx
        | handle =>
          obtain ⟨note, hnote, rfl⟩ := List.mem_map.mp hx
          obtain ⟨slot, hslot, hnote⟩ := Option.bind_eq_some_iff.mp (Option.mem_toList.mp hnote)
          obtain ⟨_, _, rfl⟩ := Option.map_eq_some_iff.mp hnote
          exact (List.getElem?_eq_some_iff.mp hslot).1
      · exact ih hx
  obtain ⟨v, hv, _⟩ := strand?_of_slot (List.getElem?_eq_getElem hlength)
  exact ⟨v, hv⟩

theorem mem_historyOf {h : List (Stamped Note)} {x : Stamped Note} (hx : x ∈ h) :
    ⟨x.time, x.entry.incident⟩ ∈ historyOf x.entry.slot h :=
  List.mem_filterMap.mpr ⟨x, hx, by simp [Note.own]⟩

end Chronicle

/-- The longest timeout of some instances. -/
def longestTimeout (setups : List Setup) : Nat :=
  (setups.map fun s => s.timing.timeout).foldr max 0

theorem timeout_le_longest {setups : List Setup} {s : Setup} (hs : s ∈ setups) :
    s.timing.timeout ≤ longestTimeout setups := by
  induction setups with
  | nil => cases hs
  | cons x setups ih =>
    rcases List.mem_cons.mp hs with rfl | hs
    · exact Nat.le_max_left _ _
    · exact Nat.le_trans (ih hs) (Nat.le_max_right _ _)

/-- What a stop makes of a supervisor with some history. -/
structure ShutDown {κ : Type} (n : Network κ) (setups : List Setup) (c : Chronicle κ)
    (h : List (Stamped Note)) : Prop where
  /-- Behind a stop nothing happens but the ends of cycles. -/
  quiet : ∀ more d, Chronicle.Course n c.stopping more d →
    ∀ x ∈ more, ∃ k, x.entry.incident = .ends k
  /-- Once the longest timeout is over nothing is left. -/
  bounded : ∀ more d, Chronicle.Course n c.stopping more d →
    c.loop.now + longestTimeout setups < d.loop.now →
      d.state.active = 0 ∧ ∀ i, d.isBusy i = false
  /-- A cycle under way ends at one time and in one way, whether there is a stop or not. -/
  inFlight : ∀ i s b store reply older, setups[i]? = some s →
    historyOf i h = ⟨b, .begins store reply⟩ :: older → ∃ e k,
      e = b + Solo.duration s.timing.timeout reply.delay ∧
        k = s.conclude store.current store (c.state.epoch + e) (s.fetched reply) ∧
          ∀ more p, Chronicle.Course n c more p → historyOf i more = [] → p.loop.now ≤ e ∧
            ∀ notes q, Chronicle.Tick n p notes q → historyOf i notes ≠ [] →
              historyOf i notes = [⟨e, .ends k⟩] ∧ Concludes p q i e k
  /-- A loop that ends without a fault leaves its poller stopped, and nothing begins it again. -/
  final : ∀ i slot task loop, c.state.slots[i]? = some slot → c.loop.Takes ⟨i, .poll task⟩ loop →
    c.loop.Admits loop.now →
      (slot.poller.react (c.state.epoch + loop.now) task).next = .exited none →
        ∀ more d, Chronicle.Course n (c.handling n ⟨i, .poll task⟩ loop) more d →
          d.isBusy i = false ∧ ∃ later, d.state.slots[i]? = some later ∧
            later.poller.phase = .stopped

namespace Chronicle

variable {κ : Type} {n : Network κ} {rule : RestartRule} {setups : List Setup} {network : κ}
  {epoch : Int} {seed : UInt64} {h more : List (Stamped Note)} {c d : Chronicle κ} {i : Nat}

theorem Course.constants (hc : Course n (begin rule setups network epoch seed) h c) :
    c.state.rule = rule ∧ c.state.epoch = epoch := by
  induction hc with
  | refl => exact ⟨rfl, rfl⟩
  | tail _ ht ih =>
    obtain ⟨hrule, hepoch⟩ := ht.move.constants
    exact ⟨hrule.trans ih.1, hepoch.trans ih.2⟩

theorem Course.strand_of_strand (hcd : Course n c more d) {w : Strand} (hw : d.strand? i = some w) :
    ∃ v, c.strand? i = some v := by
  obtain ⟨hslot, _⟩ := strand?_eq_some hw
  have hlength := (List.getElem?_eq_some_iff.mp hslot).1
  rw [(Course.leads hcd).length_slots] at hlength
  obtain ⟨v, hv, _⟩ := strand?_of_slot (List.getElem?_eq_getElem hlength)
  exact ⟨v, hv⟩

/-- At a stop every instance is asked to stop, and is ousted from now on if it was not before. -/
theorem Course.closing (hc : Course n (begin rule setups network epoch seed) h c) {w : Strand}
    (hw : c.stopping.strand? i = some w) :
    ∃ s, setups[i]? = some s ∧ w.stopping = true ∧ Strand.Kept rule s epoch w (historyOf i h) ∧
      Strand.Closing c.loop.now w (historyOf i h) := by
  have ho := Leads.ordered (Course.leads hc) Loop.ordered_start
  have hstep : Course n c _ c.stopping := .tail .refl .stop
  obtain ⟨v, hv⟩ := hstep.strand_of_strand hw
  obtain ⟨s, hs, hkept⟩ := hc.kept hv
  obtain ⟨_, _, v', hv', hcourse⟩ := hc.strand Loop.ordered_start (strand?_begin hs)
  rw [hv] at hv'
  cases hv'
  rw [strand?_stopping ho hv] at hw
  cases hw
  refine ⟨s, hs, ?_⟩
  rw [← now_of_strand? hv]
  by_cases hstop : v.stopping = true
  · rw [if_pos hstop]
    have hclosing := Strand.Course.closing_of_stopping hcourse
      (Strand.unstarted_kept rule s (Store.new s.name) epoch seed) rfl hstop
    rw [List.append_nil] at hclosing
    exact ⟨hstop, hkept, hclosing⟩
  · rw [if_neg hstop]
    exact ⟨rfl, Strand.Ticks.kept (i := i) .stop hkept, hkept.closing_stop⟩

/-- What a strand of the supervisor comes to behind a stop. -/
theorem Course.stopped_strand (hc : Course n (begin rule setups network epoch seed) h c)
    (hd : Course n c.stopping more d) {w : Strand} (hw : c.stopping.strand? i = some w) :
    ∃ s x, setups[i]? = some s ∧ d.strand? i = some x ∧
      Strand.Halts w (historyOf i more) x ∧
        Strand.Kept rule s epoch x (historyOf i more ++ historyOf i h) ∧
          Strand.Closing c.loop.now x (historyOf i more ++ historyOf i h) := by
  obtain ⟨s, hs, hstop, hkept, hclosing⟩ := hc.closing hw
  have hstopped : Course n (begin rule setups network epoch seed) _ c.stopping := .tail hc .stop
  obtain ⟨hrule, hepoch⟩ := hstopped.constants
  obtain ⟨_, _, x, hx, hcourse⟩ :=
    hd.strand (Leads.ordered (Course.leads hstopped) Loop.ordered_start) hw
  rw [hrule, hepoch] at hcourse
  exact ⟨s, x, hs, hx, hcourse.halts hkept hstop, hcourse.kept hkept,
    hcourse.closing hkept hstop hclosing⟩

theorem Course.over_of_bound (hc : Course n (begin rule setups network epoch seed) h c)
    (hd : Course n c.stopping more d) (hnow : c.loop.now + longestTimeout setups < d.loop.now) :
    d.isBusy i = false := by
  cases hx : d.strand? i with
  | none => rw [isBusy, hx, Option.any_none]
  | some x =>
    obtain ⟨w, hw⟩ := hd.strand_of_strand hx
    obtain ⟨s, x', hs, hx', _, hkept, hclosing⟩ := hc.stopped_strand hd hw
    rw [hx] at hx'
    cases hx'
    rw [isBusy, hx, Option.any_some, hkept.steady.isBusy]
    by_contra hactive
    have hbound := hclosing.bound hkept (by simpa using hactive)
    have hlongest := timeout_le_longest (List.mem_of_getElem? hs)
    have hsame := now_of_strand? hx
    omega

theorem Reachable.active_eq_zero (hd : Reachable n d) (hall : ∀ i, d.isBusy i = false) :
    d.state.active = 0 := by
  rw [hd.active, List.countP_eq_zero]
  intro slot hslot hactive
  obtain ⟨i, hi⟩ := List.getElem?_of_mem hslot
  have hbusy := hall i
  rw [hd.isBusy, hi, Option.any_some, hactive] at hbusy
  cases hbusy

end Chronicle

theorem Strand.Ticks.single {rule : RestartRule} {epoch : Int} {i : Nat} {v w : Strand}
    {more : History} (ht : Ticks rule epoch i v more w) : more = [] ∨ ∃ x, more = [x] := by
  cases ht with
  | start => exact .inl rfl
  | stop => exact .inl rfl
  | elapse => exact .inl rfl
  | @turn t loop ask =>
    cases v.slot.incident? (epoch + loop.now) ask t with
    | none => exact .inl rfl
    | some x => exact .inr ⟨_, rfl⟩

/-- What comes next of an instance whose fetch is under way is the end of its cycle. -/
theorem Chronicle.Tick.ends_of_begins {κ : Type} {n : Network κ} {p q : Chronicle κ} {i : Nat}
    {notes : List (Stamped Note)} (ht : Tick n p notes q) (ho : p.loop.Ordered) {s : Setup}
    {rule : RestartRule} {epoch : Int} {b : Nat} {store : Store} {reply : Reply} {older : History}
    {v : Strand} (hv : p.strand? i = some v)
    (hkept : Strand.Kept rule s epoch v (⟨b, .begins store reply⟩ :: older))
    (hrule : p.state.rule = rule) (hepoch : p.state.epoch = epoch) (hne : historyOf i notes ≠ []) :
    historyOf i notes = [⟨b + Solo.duration s.timing.timeout reply.delay,
      .ends (s.conclude store.current store
        (epoch + (b + Solo.duration s.timing.timeout reply.delay : Nat)) (s.fetched reply))⟩] := by
  obtain ⟨w, _, ⟨_, hsame⟩ | hticks⟩ := ht.strand ho hv
  · exact absurd hsame hne
  · rw [hrule, hepoch] at hticks
    rcases hticks.single with hsame | ⟨x, hx⟩
    · exact absurd hsame hne
    · rw [hx] at hticks
      have hfollows := (hticks.kept hkept).regular.follows
      rw [hx]
      cases hfollows with
      | ends hdue =>
        cases hdue
        rfl

/-- Whenever a stop comes, a supervisor shuts down, whatever its instances were doing. -/
theorem shutDown_of_course {κ : Type} {n : Network κ} {rule : RestartRule} {setups : List Setup}
    {network : κ} {epoch : Int} {seed : UInt64} {h : List (Stamped Note)} {c : Chronicle κ}
    (hc : Chronicle.Course n (.begin rule setups network epoch seed) h c) :
    ShutDown n setups c h := by
  have ho := Chronicle.Leads.ordered hc.leads Loop.ordered_start
  constructor
  case quiet =>
    intro more d hd x hx
    obtain ⟨w, hw⟩ := hd.slot_of_note hx
    obtain ⟨_, _, _, _, hhalts, _⟩ := hc.stopped_strand hd hw
    exact hhalts.only _ (Chronicle.mem_historyOf hx)
  case bounded =>
    intro more d hd hnow
    have hall : ∀ i, d.isBusy i = false := fun i => hc.over_of_bound hd hnow
    have hreachable : Chronicle.Reachable n d :=
      ⟨_, _, _, _, _, (hc.leads.tail .stop).trans hd.leads⟩
    exact ⟨hreachable.active_eq_zero hall, hall⟩
  case inFlight =>
    intro i s b store reply older hs hh
    refine ⟨_, _, rfl, rfl, fun more p hp hnone => ?_⟩
    have hcp : Chronicle.Course n (.begin rule setups network epoch seed) (more ++ h) p :=
      Traced.trans hc hp
    obtain ⟨hrule, hepoch⟩ := hcp.constants
    obtain ⟨v, hv, hkept⟩ := hcp.kept_of_setup hs
    rw [historyOf_append, hnone, List.nil_append, hh] at hkept
    rw [← Chronicle.now_of_strand? hv]
    refine ⟨hkept.paced.fetch_due hkept.steady hkept.tallied rfl, fun notes q ht hne => ?_⟩
    have hop := Chronicle.Leads.ordered hcp.leads Loop.ordered_start
    have hnotes := ht.ends_of_begins hop hv hkept hrule hepoch hne
    rw [hc.constants.2]
    exact ⟨hnotes, ht.concludes hop hv hkept hrule hepoch hnotes⟩
  case final =>
    intro i slot task loop hslot ht ha hnext more d hd
    obtain ⟨v, hv, rfl⟩ := Chronicle.strand?_of_slot hslot
    have hstep : Chronicle.Course n (.begin rule setups network epoch seed) _
        (c.handling n ⟨i, .poll task⟩ loop) := .tail hc (.handle ht ha)
    have hw := Chronicle.strand?_handling_own n ho hv ht
    obtain ⟨s, _, hkept⟩ := hstep.kept hw
    obtain ⟨hended, hphase⟩ := Slot.turn_of_exited c.state.rule v.stopping
      (Chronicle.answers n c.state i) hnext
    obtain ⟨_, _, x, hx, hcourse⟩ :=
      hd.strand (Chronicle.Leads.ordered hstep.leads Loop.ordered_start) hw
    have hstays := hcourse.stays hkept.steady hended
    have hlife : x.slot.life = .ended := (hstays.same Slot.life fun _ => rfl).trans hended
    have hall : Chronicle.Course n (.begin rule setups network epoch seed) _ d :=
      Traced.trans hstep hd
    obtain ⟨_, _, hlater⟩ := hall.kept hx
    refine ⟨?_, x.slot, (Chronicle.strand?_eq_some hx).1, ?_⟩
    · rw [Chronicle.isBusy, hx, Option.any_some, hlater.steady.isBusy, hlife]
      rfl
    · exact (hstays.same (fun y => y.poller.phase) fun _ => rfl).trans hphase

/-- An instance whose first fetch is under way, and is never answered. -/
def stalledInstance : Chronicle Unit :=
  (Chronicle.begin .standard [.plain (ascii "a1")] () 0 0).starting.handling Network.silent
    ⟨0, .poll .begin⟩ Loop.start

/-- Nothing is left of it once its timeout is over. -/
theorem shutDown_stalled :
    ∃ h more d, Chronicle.Course Network.silent (.begin .standard [.plain (ascii "a1")] () 0 0) h
        stalledInstance ∧ ShutDown Network.silent [.plain (ascii "a1")] stalledInstance h ∧
      stalledInstance.isBusy 0 = true ∧
        Chronicle.Course Network.silent stalledInstance.stopping more d ∧
          stalledInstance.loop.now + longestTimeout [.plain (ascii "a1")] < d.loop.now ∧
            d.state.active = 0 := by
  have htakes : (Chronicle.begin .standard [.plain (ascii "a1")] () 0 0).starting.loop.Takes
      ⟨0, .poll .begin⟩ Loop.start := @Loop.Takes.ready _ _ [] _ _ rfl
  have hc : Chronicle.Course Network.silent (.begin .standard [.plain (ascii "a1")] () 0 0) _
      stalledInstance := .tail (.tail .refl .start) (.handle htakes (.inl rfl))
  have hstop : Chronicle.Course Network.silent (.begin .standard [.plain (ascii "a1")] () 0 0) _
      stalledInstance.stopping := .tail hc .stop
  have hshut := shutDown_of_course hc
  obtain ⟨more, fetches, hd⟩ := Chronicle.course_advanceTo Network.silent 20 10001
    (Chronicle.Leads.ordered hstop.leads Loop.ordered_start)
    (hstop.timely Loop.ordered_start nofun) (by decide +kernel)
    (by unfold Loop.Timely; decide +kernel)
  generalize hr : stalledInstance.stopping.run.advanceTo _ _ _ = r at hd
  have hnow : stalledInstance.loop.now + longestTimeout [.plain (ascii "a1")] < r.loop.now := by
    rw [← hr]
    decide +kernel
  exact ⟨_, more, ⟨r, fetches⟩, hc, hshut, by decide +kernel, hd, hnow,
    (hshut.bounded more ⟨r, fetches⟩ hd hnow).1⟩

end TargetDiscovery
