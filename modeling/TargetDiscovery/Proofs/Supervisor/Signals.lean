import TargetDiscovery.Proofs.Cycle.Accounting
import TargetDiscovery.Proofs.Supervisor.Cell
import TargetDiscovery.Proofs.Supervisor.Restarting
import TargetDiscovery.Proofs.Supervisor.Shutdown

/-!
# Operational signals

The counters of an instance, the statistics of its store and what the supervisor says of its
restarts are written in three places. They agree with each other and with the history of the
instance in every course, as each turn of the instance changes all of them alike and nothing else
touches them. Counters and restarts are looked up by name, so they are those of one instance only
if no other one has its name; a configuration that is accepted gives no name twice.
-/

set_option autoImplicit false

namespace TargetDiscovery

/-! ## Turns -/

namespace Slot

section

variable {rule : RestartRule} {stopping : Bool} {time : Int} {ask : UInt64 × Nat → Reply} {s : Slot}
  {t : SlotTask} {u : Turn}

/-- A turn that ends no cycle reports no event. -/
theorem events_of_open (h : ∀ c, s.incident? time ask t ≠ some (.ends c)) :
    (s.turn rule stopping time ask t).marks.filterMap Mark.event? = [] := by
  cases t with
  | restart =>
    simp only [turn, restart]
    split
    · rfl
    · rfl
  | restartDropped => rfl
  | dropRestart => rfl
  | poll task =>
    have hmarks : (s.turn rule stopping time ask (.poll task)).marks =
        (s.poller.react time task).marks := rfl
    rw [hmarks]
    by_cases hfits : s.Fits (.poll task)
    · cases task with
      | begin => exact Poller.events_leaveWait _
      | once => rfl
      | interrupt => rfl
      | wake =>
        have ha : s.poller.activity = .sleeping := hfits
        simp only [Poller.react, ha]
        exact Poller.events_leaveWait _
      | reply n result =>
        obtain ⟨rfl, known, ha⟩ := hfits
        simp only [Poller.react, ha, if_true]
        rfl
      | deadline n =>
        obtain ⟨rfl, known, answer, ha⟩ := hfits
        exact absurd (incident?_of_closes ⟨ha, .inl rfl⟩) (h _)
      | resume n =>
        obtain ⟨rfl, known, answer, ha⟩ := hfits
        exact absurd (incident?_of_closes ⟨ha, .inr rfl⟩) (h _)
    · rw [react_of_not_fits time hfits]
      rfl

theorem Does.store_of_open (hu : Does rule stopping time ask s t u)
    (h : ∀ c, s.incident? time ask t ≠ some (.ends c)) : u.slot.poller.store = s.poller.store := by
  cases hu with
  | sleeps hc => exact absurd (incident?_of_closes hc) (h _)
  | exits hc => exact absurd (incident?_of_closes hc) (h _)
  | _ => rfl

/-- The counters say of the restarts what the instance says itself. -/
structure Agrees (s : Slot) (k : Counters) : Prop where
  restarts : k.restarts = s.restarts.toUInt64
  degraded : k.degraded = s.degraded

def restartBehind (k : Counters) (u : Turn) : Counters :=
  match u.restarted with
  | some degraded => k.recordRestart degraded
  | none => k

theorem Does.agrees (hu : Does rule stopping time ask s t u) {k : Counters} (hk : s.Agrees k) :
    u.slot.Agrees (restartBehind k u) := by
  cases hu with
  | exits _ _ _ hu =>
    cases hu with
    | stops => exact ⟨hk.restarts, hk.degraded⟩
    | fails => exact ⟨hk.restarts, hk.degraded⟩
    | degrades => exact ⟨hk.restarts, rfl⟩
    | restarts =>
      exact ⟨(congrArg (· + 1) hk.restarts).trans (toUInt64_add _ 1).symm, hk.degraded⟩
  | _ => exact ⟨hk.restarts, hk.degraded⟩

end

end Slot

/-- What was counted of an instance agrees with its history and with the instance itself. -/
structure Slot.Signals (x : Slot) (s : Setup) (k : Counters) (h : History) : Prop where
  booked : Booked s x.poller.store k h
  agrees : x.Agrees k

theorem Booked.restartBehind {s : Setup} {store : Store} {k : Counters} {h : History}
    (hb : Booked s store k h) (u : Slot.Turn) : Booked s store (Slot.restartBehind k u) h := by
  rw [Slot.restartBehind]
  cases u.restarted with
  | none => exact hb
  | some degraded => exact hb.recordRestart degraded

namespace Strand

variable {rule : RestartRule} {s : Setup} {epoch : Int} {v : Strand} {h : History} {t : SlotTask}
  {loop : Loop SlotTask} {k : Counters}

/-- A turn of an instance changes its counters, its store and its history alike. -/
theorem Kept.signals_turn (hv : Kept rule s epoch v h) (ht : v.loop.Takes t loop)
    (ask : UInt64 × Nat → Reply) (hs : v.slot.Signals s k h) :
    (v.slot.turn rule v.stopping (epoch + loop.now) ask t).slot.Signals s
      (Cell.countersBehind k (v.slot.turn rule v.stopping (epoch + loop.now) ask t))
      ((v.slot.incident? (epoch + loop.now) ask t).toList.map (Stamped.mk loop.now) ++ h) := by
  have hdoes := hv.steady.does rule ht (epoch + loop.now) ask
  have hcounted := k.recordAll_counted ((v.slot.turn rule v.stopping (epoch + loop.now) ask t
    ).marks.filterMap Mark.event?)
  have hagrees := hdoes.agrees ⟨hcounted.restarts.trans hs.agrees.restarts,
    hcounted.degraded.trans hs.agrees.degraded⟩
  refine ⟨Booked.restartBehind ?_ _, hagrees⟩
  have hopen : (∀ c, v.slot.incident? (epoch + loop.now) ask t ≠ some (.ends c)) →
      Booked s (v.slot.turn rule v.stopping (epoch + loop.now) ask t).slot.poller.store
        (((v.slot.turn rule v.stopping (epoch + loop.now) ask t).marks.filterMap
          Mark.event?).foldl Counters.record k) h := by
    intro hno
    rw [Slot.events_of_open hno, show (v.slot.turn rule v.stopping (epoch + loop.now) ask t
      ).slot.poller.store = v.slot.poller.store from hdoes.store_of_open hno]
    exact hs.booked
  cases hx : v.slot.incident? (epoch + loop.now) ask t with
  | none => exact hopen (by simp [hx])
  | some x =>
    cases x with
    | begins store reply => exact (hopen (by simp [hx])).cons nofun
    | relaunches => exact (hopen (by simp [hx])).cons nofun
    | ends c =>
      obtain ⟨known, answer, hc, hconclusion⟩ := Slot.closes_of_incident? hx
      obtain ⟨b, reply, hhead, _, _, hfetched⟩ := hv.paced.closes hv.steady ht hc
      obtain ⟨rest, rfl⟩ := List.head?_eq_some_iff.mp hhead
      have hsetup := hv.tallied.polls.setup
      have hevents := (Slot.marks_of_closes rule v.stopping ask hc hconclusion).2
      have hstore : (v.slot.turn rule v.stopping (epoch + loop.now) ask t).slot.poller.store =
          c.store := by
        rw [Slot.turn_of_closes rule v.stopping ask _ hc, Slot.poller_accept,
          (v.slot.cycleEnd_concluded _ known answer).store, hconclusion]
      rw [hfetched, Poller.conclusion, hsetup] at hconclusion
      rw [hevents, hstore]
      exact hs.booked.concludes hconclusion loop.now

end Strand

/-! ## Courses -/

namespace Supervisor

variable {κ : Type}

/-- An instance is found by its name if no other one has it. -/
theorem find?_of_unshared {s : Supervisor κ} {i : Nat} {slot : Slot} (hs : s.slots[i]? = some slot)
    (honly : ∀ j other, s.slots[j]? = some other → other.name = slot.name → j = i) :
    s.find? slot.name = some slot := by
  cases hfind : s.find? slot.name with
  | none =>
    have hno := List.find?_eq_none.mp hfind slot (List.mem_of_getElem? hs)
    simp at hno
  | some other =>
    obtain ⟨j, hj⟩ := List.getElem?_of_mem (List.mem_of_find?_eq_some hfind)
    have hname : other.name = slot.name := by simpa using List.find?_some hfind
    obtain rfl := honly j other hj hname
    exact hj.symm.trans hs

theorem ledger_start (s : Supervisor κ) : s.start.1.ledger = s.ledger := by
  rw [start]
  split
  · rfl
  · rfl

theorem ledger_stop (s : Supervisor κ) : s.stop.1.ledger = s.ledger := by
  rw [stop]
  split
  · rfl
  · rfl

end Supervisor

namespace Chronicle

variable {κ : Type} {n : Network κ} {rule : RestartRule} {setups : List Setup} {network : κ}
  {epoch : Int} {seed : UInt64} {h : List (Stamped Note)} {p q c : Chronicle κ} {i : Nat}
  {s : Setup}

/-- The turn of another instance leaves the counters of this name alone. -/
theorem counters_handling_other {task : Supervisor.Task} {loop : Loop Supervisor.Task}
    {name : Bytes} (hother : ∀ slot, p.state.slots[task.slot]? = some slot → name ≠ slot.name) :
    (p.handling n task loop).state.ledger.counters name = p.state.ledger.counters name := by
  rw [state_handling, Supervisor.handle]
  cases hslot : p.state.slots[task.slot]? with
  | none => rfl
  | some slot =>
    have hne : name ≠ (p.state.turn n loop.now task.slot slot task.task).slot.name := by
      rw [Supervisor.name_turn]
      exact hother slot hslot
    have howner : ∀ e ∈ (p.state.turn n loop.now task.slot slot task.task).marks.filterMap
        Mark.event?, e.owner = (p.state.turn n loop.now task.slot slot task.task).slot.name := by
      rw [Supervisor.name_turn]
      exact Slot.turn_owner _ _ _ slot _ _
    exact Supervisor.counters_count_other _ howner hne

theorem counters_handling_own (loop : Loop Supervisor.Task) {t : SlotTask} {slot : Slot}
    (hslot : p.state.slots[i]? = some slot) :
    (p.handling n ⟨i, t⟩ loop).state.ledger.counters slot.name =
      Cell.countersBehind (p.state.ledger.counters slot.name)
        (p.state.turn n loop.now i slot t) := by
  have howner : ∀ e ∈ (p.state.turn n loop.now i slot t).marks.filterMap Mark.event?,
      e.owner = slot.name := Slot.turn_owner _ _ _ slot _ _
  rw [state_handling, Supervisor.handle, hslot]
  simp only [Supervisor.accept, Supervisor.name_turn]
  exact Supervisor.counters_count_own _ howner

/-- The signals of an instance under the name of its setup. -/
def Signals (p : Chronicle κ) (s : Setup) (i : Nat) (h : History) : Prop :=
  ∀ slot, p.state.slots[i]? = some slot → slot.Signals s (p.state.ledger.counters s.name) h

theorem signals_begin (hs : setups[i]? = some s) :
    (begin rule setups network epoch seed).Signals s i [] := by
  intro slot hslot
  have hnew : (begin rule setups network epoch seed).state.slots[i]? =
      some (Slot.new s rule seed) := by
    simp only [begin, Supervisor.new, Run.start, List.getElem?_map, hs, Option.map_some]
  rw [hnew] at hslot
  cases hslot
  exact ⟨.new s, rfl, rfl⟩

/-- Every move keeps the signals, if no other instance has the name. -/
theorem Tick.signals {notes : List (Stamped Note)} (ht : Tick n p notes q) (ho : p.loop.Ordered)
    {v : Strand} (hv : p.strand? i = some v) {older : History}
    (hkept : Strand.Kept rule s epoch v older) (hrule : p.state.rule = rule)
    (hepoch : p.state.epoch = epoch)
    (honly : ∀ j slot, p.state.slots[j]? = some slot → slot.name = s.name → j = i)
    (hp : p.Signals s i older) : q.Signals s i (historyOf i notes ++ older) := by
  obtain ⟨hslot, _, _, _, _⟩ := strand?_eq_some hv
  have hsignals := hp v.slot hslot
  have hname : v.slot.name = s.name := by rw [Slot.name, hkept.tallied.polls.setup]
  -- A start and a stop change the instance, but nothing that the signals are about.
  have hcommand : ∀ {slot : Slot}, slot.poller.store = v.slot.poller.store →
      slot.restarts = v.slot.restarts → slot.degraded = v.slot.degraded →
      slot.Signals s (p.state.ledger.counters s.name) older := by
    intro slot hstore hrestarts hdegraded
    refine ⟨?_, ?_, hsignals.agrees.degraded.trans hdegraded.symm⟩
    · rw [hstore]
      exact hsignals.booked
    · rw [hrestarts]
      exact hsignals.agrees.restarts
  intro slot hq
  cases ht with
  | start =>
    rw [state_starting] at hq ⊢
    rw [Supervisor.ledger_start]
    rw [Supervisor.start] at hq
    split at hq
    · exact hp slot hq
    · rw [List.getElem?_map, hslot] at hq
      cases hq
      exact hcommand rfl rfl rfl
  | stop =>
    rw [state_stopping] at hq ⊢
    rw [Supervisor.ledger_stop]
    rw [Supervisor.stop] at hq
    split at hq
    · exact hp slot hq
    · rw [List.getElem?_map, hslot] at hq
      cases hq
      exact hcommand rfl rfl rfl
  | elapse => exact hp slot hq
  | @handle task loop ht ha =>
    by_cases hi : task.slot = i
    · cases task with
      | mk j t =>
        subst hi
        have hturn := hkept.signals_turn (takes_of_strand hv ht) (answers n p.state j) hsignals
        have hsame := turn_of_strand n hv loop.now t
        rw [hrule, hepoch] at hsame
        have hbehind := strand?_handling_own n ho hv ht
        have hslot' := (strand?_eq_some hbehind).1
        rw [hq] at hslot'
        cases hslot'
        have hcounters := counters_handling_own (n := n) (t := t) loop hslot
        rw [hname, hsame] at hcounters
        rw [historyOf_note hslot, if_pos rfl, hcounters, hrule, hepoch]
        exact hturn
    · have hbehind := (strand?_eq_some (strand?_handling_other n ho hv ht hi)).1
      rw [hq] at hbehind
      cases hbehind
      have hother : ∀ other, p.state.slots[task.slot]? = some other → s.name ≠ other.name :=
        fun other h hsame => hi (honly task.slot other h hsame.symm)
      rw [historyOf_note_other hi, counters_handling_other hother]
      exact hsignals

theorem Course.name_of_slot (hc : Course n (begin rule setups network epoch seed) h c) {j : Nat}
    {slot : Slot} (hslot : c.state.slots[j]? = some slot) :
    ∃ other, setups[j]? = some other ∧ slot.name = other.name := by
  obtain ⟨v, hv, rfl⟩ := strand?_of_slot hslot
  obtain ⟨other, hother, hkept⟩ := hc.kept hv
  exact ⟨other, hother, by rw [Slot.name, hkept.tallied.polls.setup]⟩

theorem Course.signals (hc : Course n (begin rule setups network epoch seed) h c)
    (hs : setups[i]? = some s)
    (honly : ∀ j other, setups[j]? = some other → other.name = s.name → j = i) :
    c.Signals s i (historyOf i h) := by
  induction hc with
  | refl => exact signals_begin hs
  | @tail p q notes more hc ht ih =>
    obtain ⟨v, hv, hkept⟩ := Course.kept_of_setup hc hs
    obtain ⟨hrule, hepoch, _⟩ := Course.strand hc Loop.ordered_start (strand?_begin hs)
    rw [historyOf_append]
    have ho := Leads.ordered (Course.leads hc) Loop.ordered_start
    refine ht.signals ho hv hkept hrule hepoch ?_ ih
    intro j slot hslot hname
    obtain ⟨other, hother, hsame⟩ := Course.name_of_slot hc hslot
    exact honly j other hother (hsame.symm.trans hname)

end Chronicle

/-- What is counted of an instance, by its name in the ledger and in its store, is what happened to
it, and what the supervisor says of its restarts. Words of 64 bits hold the counts. -/
structure Supervisor.Accounted {κ : Type} (x : Supervisor κ) (s : Setup) (store : Store)
    (h : History) : Prop where
  /-- The cycles that ended with an outcome. -/
  polls : ((x.ledger.counters s.name).polls : Nat) = (outcomes h).length % 2 ^ 64
  pollFailures :
    ((x.ledger.counters s.name).pollFailures : Nat) = (outcomes h).count .fetchFailed % 2 ^ 64
  verificationFailures : ((x.ledger.counters s.name).verificationFailures : Nat) =
    (outcomes h).count .verificationFailed % 2 ^ 64
  buildFailures :
    ((x.ledger.counters s.name).buildFailures : Nat) = (outcomes h).count .buildFailed % 2 ^ 64
  installs : (store.tally.installs : Nat) = (outcomes h).count .published % 2 ^ 64
  stale : (store.tally.stale : Nat) = (outcomes h).count .stale % 2 ^ 64
  rejected : store.tally.rejected = 0
  targets : ((x.ledger.counters s.name).targets : Nat) = store.size % 2 ^ 64
  decodeSkips : ((x.ledger.counters s.name).decodeSkips : Nat) = s.skips h % 2 ^ 64
  restarts : ((x.ledger.counters s.name).restarts : Nat) = x.restarts s.name % 2 ^ 64
  degraded : (x.ledger.counters s.name).degraded = x.isDegraded s.name

section

variable {κ : Type} {n : Network κ} {rule : RestartRule} {setups : List Setup} {network : κ}
  {epoch : Int} {seed : UInt64} {h : List (Stamped Note)} {c : Chronicle κ} {i : Nat} {s : Setup}

/-- In every course the signals of an instance, whose name no other one has, agree with its history
and with its store. -/
theorem accounted_of_course
    (hc : Chronicle.Course n (.begin rule setups network epoch seed) h c) (hs : setups[i]? = some s)
    (honly : ∀ j other, setups[j]? = some other → other.name = s.name → j = i) :
    ∃ store, c.state.catalog[i]? = some store ∧ c.state.Accounted s store (historyOf i h) := by
  obtain ⟨v, hv, hkept⟩ := hc.kept_of_setup hs
  have hslot := (Chronicle.strand?_eq_some hv).1
  have hname : v.slot.name = s.name := by rw [Slot.name, hkept.tallied.polls.setup]
  obtain ⟨hbooked, hagrees⟩ := hc.signals hs honly v.slot hslot
  have hfind : c.state.find? s.name = some v.slot := by
    rw [← hname]
    refine Supervisor.find?_of_unshared hslot fun j other hother hsame => ?_
    obtain ⟨setup, hsetup, hothername⟩ := hc.name_of_slot hother
    exact honly j setup hsetup (by rw [← hothername, hsame, hname])
  refine ⟨v.slot.poller.store, by rw [Supervisor.catalog, List.getElem?_map, hslot]; rfl, ?_⟩
  constructor
  case polls => rw [hbooked.polls, toNat_toUInt64]
  case pollFailures => rw [hbooked.pollFailures, toNat_toUInt64]
  case verificationFailures => rw [hbooked.verificationFailures, toNat_toUInt64]
  case buildFailures => rw [hbooked.buildFailures, toNat_toUInt64]
  case installs => rw [hbooked.installs, toNat_toUInt64]
  case stale => rw [hbooked.stale, toNat_toUInt64]
  case rejected => exact hbooked.rejected
  case targets => rw [hbooked.targets, toNat_toUInt64]
  case decodeSkips => rw [hbooked.decodeSkips, toNat_toUInt64]
  case restarts => rw [hagrees.restarts, toNat_toUInt64, Supervisor.restarts, hfind]; rfl
  case degraded => rw [hagrees.degraded, Supervisor.isDegraded, hfind]; rfl

end

/-- An instance whose registry answers once, is down once, and makes it crash from then on. One of
the two records of the answer has no job. -/
def ailing : Chronicle (List Script) :=
  .begin .once [.plain (ascii "a1")]
    [⟨[⟨some 5, .ok (.ok ⟨1,
        [⟨ascii "n1", ascii "10.0.0.1:9090", [], ascii "replica", SortedMap.empty, false⟩,
          ⟨ascii "n2", ascii "10.0.0.2:9090", [], ascii "observer", SortedMap.empty, false⟩],
        [], none⟩)⟩, .refused], ⟨some 0, .error .foreign⟩⟩] 0 0

theorem accounted_ailing :
    ∃ h c store, Chronicle.Course Network.scripted ailing h c ∧ c.state.catalog[0]? = some store ∧
      c.state.ledger.counters (ascii "a1") =
        { polls := 2, pollFailures := 1, decodeSkips := 1, lastSkipped := 1, targets := 1,
          restarts := 1, lastLoadOk := true, degraded := true } ∧
      c.state.Accounted (.plain (ascii "a1")) store (historyOf 0 h) := by
  obtain ⟨h, fetches, hc⟩ := Chronicle.course_continueWhile Network.scripted none (fun _ => true) 40
    (c := ailing.starting) Loop.ordered_start nofun
  generalize hr : ailing.starting.run.continueWhile _ _ _ _ = r at hc
  have hcourse : Chronicle.Course Network.scripted ailing _ ⟨r, fetches⟩ :=
    Traced.trans (.tail .refl .start) hc
  obtain ⟨store, hstore, haccounted⟩ := accounted_of_course (i := 0) hcourse rfl (by
    rintro (_ | j) other hother _
    · rfl
    · cases hother)
  have hcounters : r.state.ledger.counters (ascii "a1") =
      { polls := 2, pollFailures := 1, decodeSkips := 1, lastSkipped := 1, targets := 1,
        restarts := 1, lastLoadOk := true, degraded := true } := by
    rw [← hr]
    decide +kernel
  exact ⟨_, _, store, hcourse, hstore, hcounters, haccounted⟩

end TargetDiscovery
