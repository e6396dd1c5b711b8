import TargetDiscovery.Proofs.Poller.Phases
import TargetDiscovery.Proofs.Supervisor.Signals

/-!
# Phases of an instance

What an instance waits for settles which phase it shows, and the next turn goes on from there along
the graph of phases. So all the phases that an instance ever shows are a path, from idle on, through
crashes and restarts and whatever a stop cuts short.
-/

set_option autoImplicit false

namespace TargetDiscovery

/-- The loop of an instance was begun again behind a crash, and has not come to a cycle yet. -/
def History.Again (h : History) : Prop :=
  ∃ t e c f older, h = ⟨t, .relaunches⟩ :: ⟨e, .ends c⟩ :: older ∧ c.result = .error f

/-- All that happened is the end of a cycle with some outcome. -/
def History.Reaches (h : History) (o : Outcome) : Prop :=
  ∃ e c, h = [⟨e, .ends c⟩] ∧ c.result = .ok o

/-- The cycle under way has a state that is trusted. -/
def Setup.Verifies (s : Setup) (h : History) : Prop :=
  ∃ b store reply older, h = ⟨b, .begins store reply⟩ :: older ∧ s.Verified (s.fetched reply)

/-- The phases that an instance shows in one move. It was in a phase with some history, and what
happens in the move comes on top of that. -/
structure Setup.Walk (s : Setup) (stopping : Bool) (h more : History) (p : Phase)
    (walk : List Phase) : Prop where
  steps : (p :: walk).IsChain (Phase.Steps (more.Reaches .unchanged) h.Again)
  /-- It waits for the backoff just behind a cycle that failed. -/
  waits : .backoffWait ∈ walk ↔ ∃ o, more.Reaches o ∧ o.isFailure = true
  builds : .building ∈ walk ∨ .publishing ∈ walk → s.Verifies h
  stops : .stopped ∈ walk → stopping = true

theorem History.reaches_ends {e : Nat} {c : Conclusion} {o : Outcome} :
    History.Reaches [⟨e, .ends c⟩] o ↔ c.result = .ok o := by
  constructor
  · rintro ⟨_, _, he, ho⟩
    cases he
    exact ho
  · exact fun ho => ⟨e, c, rfl, ho⟩

/-- Where no cycle ends, nothing is shown, or a wait is left. -/
theorem Setup.Walk.of_open {s : Setup} {stopping : Bool} {h more : History} {p : Phase}
    {walk : List Phase} (hmore : ∀ e c, more ≠ [⟨e, .ends c⟩])
    (hsteps : (p :: walk).IsChain (Phase.Steps (more.Reaches .unchanged) h.Again))
    (hwalk : walk = [] ∨ walk = [.idle, .fetching] ∨ walk = [.idle, .stopped] ∧ stopping = true) :
    s.Walk stopping h more p walk := by
  have hno : ¬ ∃ o, more.Reaches o ∧ o.isFailure = true := by
    rintro ⟨o, ⟨e, c, he, _⟩, _⟩
    exact hmore e c he
  rcases hwalk with rfl | rfl | ⟨rfl, hstop⟩
  · exact ⟨hsteps, iff_of_false (by simp) hno, by simp, by simp⟩
  · exact ⟨hsteps, iff_of_false (by simp) hno, by simp, by simp⟩
  · exact ⟨hsteps, iff_of_false (by simp) hno, by simp, fun _ => hstop⟩

/-! ## Turns -/

namespace Slot

def Turn.phases (u : Turn) : List Phase := Mark.phases (u.orders.filterMap Run.emitted?)

theorem entries_poll (orders : List (Order Poller.Task Mark)) :
    (orders.map (Order.map SlotTask.poll id)).filterMap Run.emitted? =
      orders.filterMap Run.emitted? := by
  rw [List.filterMap_map]
  congr 1
  funext o
  cases o with
  | _ => rfl

theorem phases_onExit (rule : RestartRule) (stopping : Bool) (s : Slot) (fault : Option Fault) :
    (s.onExit rule stopping fault).phases = [] := by
  cases fault with
  | none => rfl
  | some fault =>
    simp only [onExit]
    split
    · rfl
    · split
      · rfl
      · rfl

section

variable (rule : RestartRule) (stopping : Bool) (time : Int) (ask : UInt64 × Nat → Reply) {s : Slot}
  {t : SlotTask}

theorem phases_accept (s : Slot) (r : Poller.Reaction) :
    (s.accept rule stopping ask r).phases = r.phases := by
  have hafter : (afterReaction rule stopping { s with poller := r.poller } r.next).phases = [] := by
    cases r.next with
    | exited fault => exact phases_onExit rule stopping _ fault
    | _ => rfl
  simp only [Turn.phases] at hafter
  simp only [Turn.phases, accept, Turn.behind, List.filterMap_append, entries_poll,
    Run.filterMap_emits, Solo.entries_orders, Mark.phases_append, hafter, List.append_nil]
  rfl

theorem phases_of_leaves (h : s.Leaves t) :
    (s.turn rule stopping time ask t).phases =
      [.idle, if s.poller.stopRequested then .stopped else .fetching] := by
  rcases h with rfl | ⟨rfl, ha⟩
  · rw [turn, phases_accept]
    exact Poller.phases_leaveWait { s.poller with looping := true }
  · rw [turn, phases_accept]
    simp only [Poller.react, ha]
    exact s.poller.phases_leaveWait

theorem phases_of_closes {known : Option Snapshot} {answer : Option FetchResult}
    (h : s.Closes known answer t) (hl : s.poller.looping = true) :
    (s.turn rule stopping time ask t).phases =
      Mark.phases (s.poller.conclusion time known
          (answer.getD s.poller.setup.timeoutResult)).marks ++
        Phase.behind s.poller.stopRequested (s.poller.conclusion time known
          (answer.getD s.poller.setup.timeoutResult)).result := by
  rw [turn_of_closes rule stopping ask time h, phases_accept]
  exact Poller.phases_endCycle hl time known _

/-- Any other turn shows nothing. -/
theorem phases_of_open (hl : ¬ s.Leaves t) (hc : ∀ known answer, ¬ s.Closes known answer t)
    (ht : t ≠ .poll .once) : (s.turn rule stopping time ask t).phases = [] := by
  cases t with
  | restart =>
    simp only [turn, restart]
    split
    · rfl
    · rfl
  | restartDropped => rfl
  | dropRestart => rfl
  | poll task =>
    rw [turn, phases_accept]
    by_cases hfits : s.Fits (.poll task)
    · cases task with
      | begin => exact absurd (.inl rfl) hl
      | once => exact absurd rfl ht
      | interrupt => rfl
      | wake => exact absurd (.inr ⟨rfl, hfits⟩) hl
      | reply n result =>
        obtain ⟨rfl, known, ha⟩ := hfits
        simp only [Poller.react, ha, if_true]
        rfl
      | deadline n =>
        obtain ⟨rfl, known, answer, ha⟩ := hfits
        exact absurd ⟨ha, .inl rfl⟩ (hc known answer)
      | resume n =>
        obtain ⟨rfl, known, answer, ha⟩ := hfits
        exact absurd ⟨ha, .inr rfl⟩ (hc known answer)
    · rw [react_of_not_fits time hfits]
      rfl

/-- A turn leaves the poller in the phase that it showed last. -/
theorem lastPhase_turn (s : Slot) (t : SlotTask) :
    ((s.turn rule stopping time ask t).phases.getLast?).getD s.poller.phase =
      (s.turn rule stopping time ask t).slot.poller.phase := by
  cases t with
  | restart =>
    simp only [turn, restart]
    split
    · rfl
    · rfl
  | restartDropped => rfl
  | dropRestart => rfl
  | poll task =>
    rw [turn, phases_accept, poller_accept]
    exact (s.poller.react_reacts time task).lastPhase

end

end Slot

/-! ## What an instance waits for -/

namespace Strand

/-- The phase of an instance fits what it waits for. -/
structure Posed (v : Strand) (h : History) : Prop where
  named : v.slot.poller.store.name = v.slot.poller.setup.name
  fresh : v.slot.life = .fresh → v.slot.poller.phase = .idle
  launched : v.slot.life = .running → v.slot.poller.activity = .idle →
    v.slot.poller.phase = .idle ∨ v.slot.poller.phase.isWorking = true ∧ h.Again
  fetching : ∀ known answer, v.slot.poller.activity = .fetching known answer →
    v.slot.poller.phase = .fetching
  sleeping : v.slot.poller.activity = .sleeping →
    v.slot.poller.phase = .idle ∨ v.slot.poller.phase = .backoffWait
  /-- A crash leaves the phase as it was. -/
  waiting : v.slot.life = .waiting → v.slot.poller.phase.isWorking = true

section

variable {rule : RestartRule} {s : Setup} {epoch : Int} {v w : Strand} {h more : History}
  {t : SlotTask} {loop : Loop SlotTask} {known : Option Snapshot} {answer : Option FetchResult}

theorem unstarted_posed (rule : RestartRule) (s : Setup) (seed : UInt64) :
    Posed (unstarted rule s (Store.new s.name) seed) [] :=
  ⟨rfl, fun _ => rfl, nofun, nofun, nofun, nofun⟩

theorem Posed.of_slot (hp : Posed v h) (hw : w.slot = v.slot) : Posed w h := by
  constructor
  all_goals rw [hw]
  case named => exact hp.named
  case fresh => exact hp.fresh
  case launched => exact hp.launched
  case fetching => exact hp.fetching
  case sleeping => exact hp.sleeping
  case waiting => exact hp.waiting

theorem Posed.named_cycleEnd (hp : Posed v h) (time : Int) (known : Option Snapshot)
    (answer : Option FetchResult) :
    (v.slot.cycleEnd time known answer).poller.store.name =
      (v.slot.cycleEnd time known answer).poller.setup.name := by
  have hend := v.slot.cycleEnd_concluded time known answer
  have hname := (v.slot.poller.setup.conclude_ends known v.slot.poller.store time
    (answer.getD v.slot.poller.setup.timeoutResult)).name
  rw [hend.store, hend.setup, ← hp.named]
  exact hname

/-- The phases of the cycle that ends in a turn. -/
theorem Kept.passes (hv : Kept rule s epoch v h) (hp : Posed v h) (ht : v.loop.Takes t loop)
    (hc : v.slot.Closes known answer t) (time : Int) :
    ∃ b store reply older, h = ⟨b, .begins store reply⟩ :: older ∧
      s.Passes (s.fetched reply)
        (Mark.phases (v.slot.poller.conclusion time known
          (answer.getD v.slot.poller.setup.timeoutResult)).marks)
        (v.slot.poller.conclusion time known
          (answer.getD v.slot.poller.setup.timeoutResult)).result := by
  obtain ⟨b, reply, hhead, _, _, hfetched⟩ := hv.paced.closes hv.steady ht hc
  obtain ⟨older, rfl⟩ := List.head?_eq_some_iff.mp hhead
  have hsetup := hv.tallied.polls.setup
  refine ⟨b, _, reply, older, rfl, ?_⟩
  rw [hfetched, Poller.conclusion, hsetup]
  exact s.conclude_passes time known _ (hp.named.trans (congrArg Setup.name hsetup))

/-- The phase behind a cycle, by its result. -/
theorem Kept.phase_cycleEnd (hv : Kept rule s epoch v h) (hp : Posed v h)
    (hc : v.slot.Closes known answer t) (time : Int) :
    (v.slot.cycleEnd time known answer).poller.phase =
      ((Mark.phases (v.slot.poller.conclusion time known
          (answer.getD v.slot.poller.setup.timeoutResult)).marks ++
        Phase.behind v.slot.poller.stopRequested (v.slot.poller.conclusion time known
          (answer.getD v.slot.poller.setup.timeoutResult)).result).getLast?).getD .fetching := by
  have hlooping := hv.steady.stage.looping (by rw [hc.1]; exact nofun)
  have hends : Poller.Reacts v.slot.poller time (v.slot.cycleEnd time known answer) := .ends _ _
  have hlast := hends.lastPhase
  rw [Mark.lastPhase_eq, hp.fetching _ _ hc.1] at hlast
  rw [← Poller.phases_endCycle hlooping]
  exact hlast.symm

/-- An instance that is over shows whatever it showed last. -/
theorem posed_of_ended (hnamed : w.slot.poller.store.name = w.slot.poller.setup.name)
    (hlife : w.slot.life = .ended) (hidle : w.slot.poller.activity = .idle) : Posed w h where
  named := hnamed
  fresh := fun hfresh => by cases hlife.symm.trans hfresh
  launched := fun hrunning => by cases hlife.symm.trans hrunning
  fetching := fun _ _ hfetching => by cases hidle.symm.trans hfetching
  sleeping := fun hsleeping => by cases hidle.symm.trans hsleeping
  waiting := fun hwaits => by cases hlife.symm.trans hwaits

theorem Posed.fetch (hp : Posed v h) (hlife : v.slot.life = .running)
    (hw : w.slot = { v.slot with poller := v.slot.poller.fetching }) : Posed w more := by
  constructor
  all_goals rw [hw]
  case named => exact hp.named
  case fresh => exact fun hfresh => by cases hlife.symm.trans hfresh
  case launched => exact fun _ hidle => by cases hidle
  case fetching => exact fun _ _ _ => rfl
  case sleeping => exact fun hsleeping => by cases hsleeping
  case waiting => exact fun hwaits => by cases hlife.symm.trans hwaits

/-- A cycle that came to an outcome leaves the phase of that outcome. -/
theorem Posed.sleep (hp : Posed v h) (hv : Kept rule s epoch v h) (ht : v.loop.Takes t loop)
    (hc : v.slot.Closes known answer t) {time : Int} {delay : Nat}
    (hn : (v.slot.cycleEnd time known answer).next = .sleep delay)
    (ha : (v.slot.cycleEnd time known answer).poller.activity = .sleeping)
    (hw : w.slot = { v.slot with poller := (v.slot.cycleEnd time known answer).poller }) :
    Posed w more := by
  obtain ⟨hlife, hending⟩ := hv.steady.ending ht hc time
  obtain ⟨o, hok, hgo, _, _⟩ := hending.of_sleep hn
  have hphase := hv.phase_cycleEnd hp hc time
  rw [hok, hgo] at hphase
  have hafter : (v.slot.cycleEnd time known answer).poller.phase = .after o := by
    rw [hphase]
    simp [Phase.behind]
  constructor
  all_goals rw [hw]
  case named => exact hp.named_cycleEnd time known answer
  case fresh => exact fun hfresh => by cases hlife.symm.trans hfresh
  case launched => exact fun _ hidle => by cases hidle.symm.trans ha
  case fetching => exact fun _ _ hfetching => by cases hfetching.symm.trans ha
  case sleeping =>
    intro _
    simp only [hafter]
    exact Phase.after_eq o
  case waiting => exact fun hwaits => by cases hlife.symm.trans hwaits

/-- A cycle that crashed leaves the phase in which it crashed. -/
theorem Kept.working_cycleEnd (hv : Kept rule s epoch v h) (hp : Posed v h)
    (ht : v.loop.Takes t loop) (hc : v.slot.Closes known answer t) {time : Int} {fault : Fault}
    (hn : (v.slot.cycleEnd time known answer).next = .exited (some fault)) :
    (v.slot.cycleEnd time known answer).poller.phase.isWorking = true := by
  obtain ⟨herror, _⟩ := (hv.steady.ending ht hc time).2.of_fault hn
  obtain ⟨_, _, _, _, _, hpasses⟩ := hv.passes hp ht hc time
  have hphase := hv.phase_cycleEnd hp hc time
  rw [herror] at hpasses hphase
  rw [hphase]
  exact hpasses.working_of_error _

theorem Posed.exit (hp : Posed v h) (hv : Kept rule s epoch v h) (ht : v.loop.Takes t loop)
    (hc : v.slot.Closes known answer t) {time : Int} {fault : Option Fault}
    (hn : (v.slot.cycleEnd time known answer).next = .exited fault)
    (hidle : (v.slot.cycleEnd time known answer).poller.activity = .idle) {stopping : Bool}
    {u : Slot.Turn} (hu : Slot.Exits rule stopping
      { v.slot with poller := (v.slot.cycleEnd time known answer).poller } fault u)
    (hw : w.slot = u.slot) : Posed w more := by
  have hnamed := hp.named_cycleEnd time known answer
  cases hu with
  | stops | fails | degrades =>
    apply posed_of_ended
    all_goals rw [hw]
    · exact hnamed
    · rfl
    · exact hidle
  | restarts =>
    have hworking := hv.working_cycleEnd hp ht hc hn
    have hlife : w.slot.life = .waiting := by
      rw [hw]
      rfl
    have hpoller : w.slot.poller = (v.slot.cycleEnd time known answer).poller := by
      rw [hw]
      rfl
    constructor
    case named =>
      rw [hpoller]
      exact hnamed
    case fresh => exact fun hfresh => by cases hlife.symm.trans hfresh
    case launched => exact fun hrunning => by cases hlife.symm.trans hrunning
    case fetching =>
      rw [hpoller]
      exact fun _ _ hfetching => by cases hidle.symm.trans hfetching
    case sleeping =>
      rw [hpoller]
      exact fun hsleeping => by cases hidle.symm.trans hsleeping
    case waiting => exact fun _ => hpoller ▸ hworking

/-- A loop begun again is in the phase of the crash, which is the newest of its history. -/
theorem Posed.relaunch (hp : Posed v h) (hv : Kept rule s epoch v h)
    (ht : v.loop.Takes .restart loop) (hgo : v.slot.poller.stopRequested = false)
    (ask : UInt64 × Nat → Reply) (hw : w.slot = { v.slot with life := .running }) :
    Posed w (⟨loop.now, .relaunches⟩ :: h) := by
  have hwaiting : v.slot.life = .waiting := by
    cases (hv.steady.driven ht rfl).1 with
    | closes _ _ hc => rcases hc.2 with h | h <;> cases h
    | restarts hl => exact hl
  have hdoes := hv.steady.does rule ht (epoch + loop.now) ask
  have hfollows := hv.paced.follows hv.steady hv.tallied ht hdoes (Slot.incident?_of_relaunch hgo)
  obtain ⟨e, c, f, older, rfl, hc⟩ := hfollows.crashed
  constructor
  all_goals rw [hw]
  case named => exact hp.named
  case fresh => exact fun hfresh => by cases hfresh
  case launched => exact fun _ _ => .inr ⟨hp.waiting hwaiting, _, e, c, f, older, rfl, hc⟩
  case fetching => exact hp.fetching
  case sleeping => exact hp.sleeping
  case waiting => exact fun hwaits => by cases hwaits

theorem Posed.turn (hp : Posed v h) (hv : Kept rule s epoch v h) (ht : v.loop.Takes t loop)
    {ask : UInt64 × Nat → Reply} {u : Slot.Turn} (i : Nat)
    (hu : Slot.Does rule v.stopping (epoch + loop.now) ask v.slot t u) :
    Posed (v.taking i loop ask u)
      ((v.slot.incident? (epoch + loop.now) ask t).toList.map (Stamped.mk loop.now) ++ h) := by
  cases hu with
  | ignores hno =>
    rw [Slot.incident?_of_not_fits hno]
    exact hp.of_slot rfl
  | rouses => exact hp.of_slot rfl
  | drops => exact hp.of_slot rfl
  | settles ha =>
    rw [Slot.incident?_of_reply]
    constructor
    case named => exact hp.named
    case fresh => exact hp.fresh
    case launched => exact fun _ h => by cases h
    case fetching => exact fun _ _ _ => hp.fetching _ _ ha
    case sleeping => exact fun h => by cases h
    case waiting => exact hp.waiting
  | fetches hl => exact hp.fetch ((hv.steady.driven ht hl.drives).1.running_of_leaves hl) rfl
  | halts => exact posed_of_ended hp.named rfl rfl
  | sleeps hc hn ha => exact hp.sleep hv ht hc hn ha rfl
  | exits hc hn ha hu => exact hp.exit hv ht hc hn ha hu rfl
  | relaunches hgo =>
    rw [Slot.incident?_of_relaunch hgo]
    exact hp.relaunch hv ht hgo ask rfl
  | abandons hno =>
    have hrestart : t = .restart ∨ t = .restartDropped := hno.symm.imp_left And.left
    have hdriven := (hv.steady.driven ht (SlotTask.drives_of_restart hrestart)).1
    exact posed_of_ended hp.named rfl (hdriven.idle_of_restart hrestart)

theorem Ticks.posed {i : Nat} (ht : Ticks rule epoch i v more w) (hv : Kept rule s epoch v h)
    (hp : Posed v h) : Posed w (more ++ h) := by
  cases ht with
  | start hstart =>
    have hfresh := hv.steady.fresh.mp hstart
    exact ⟨hp.named, nofun, fun _ _ => .inl (hp.fresh hfresh), hp.fetching, hp.sleeping, nofun⟩
  | stop => exact ⟨hp.named, hp.fresh, hp.launched, hp.fetching, hp.sleeping, hp.waiting⟩
  | elapse => exact hp.of_slot rfl
  | turn ask ht =>
    rw [← taking_plain]
    exact hp.turn hv ht i (hv.steady.does rule ht _ ask)

/-! ## Walks -/

theorem Posed.leaves (hp : Posed v h) (hv : Kept rule s epoch v h) (ht : v.loop.Takes t loop)
    (hl : v.slot.Leaves t) (unchanged : Prop) :
    Phase.Steps unchanged h.Again v.slot.poller.phase .idle := by
  have hdriven := (hv.steady.driven ht hl.drives).1
  rcases hl with rfl | ⟨rfl, ha⟩
  · rcases hp.launched (hdriven.running_of_leaves (.inl rfl)) hdriven.idle_of_begin with
      hidle | ⟨hworking, hagain⟩
    · exact .inl hidle
    · exact .inr (.relaunches hworking hagain)
  · rcases hp.sleeping ha with hidle | hwaits
    · exact .inl hidle
    · rw [hwaits]
      exact .inr .wakes

/-- Every turn of an instance walks along the graph of phases. -/
theorem Kept.walks (hv : Kept rule s epoch v h) (hp : Posed v h) (ht : v.loop.Takes t loop)
    (ask : UInt64 × Nat → Reply) :
    s.Walk v.stopping h
      ((v.slot.incident? (epoch + loop.now) ask t).toList.map (Stamped.mk loop.now))
      v.slot.poller.phase (v.slot.turn rule v.stopping (epoch + loop.now) ask t).phases := by
  have hstop : v.slot.poller.stopRequested = v.stopping := hv.tallied.stop
  by_cases hl : v.slot.Leaves t
  · have hfirst := fun unchanged => hp.leaves hv ht hl unchanged
    rw [Slot.phases_of_leaves rule v.stopping _ ask hl]
    cases hs : v.slot.poller.stopRequested with
    | true =>
      rw [Slot.incident?_of_stop hl hs]
      refine .of_open nofun ?_ (.inr (.inr ⟨rfl, hstop.symm.trans hs⟩))
      exact .cons_cons (hfirst _) (.cons_cons (.inr (.stops (.inl rfl))) (.singleton _))
    | false =>
      rw [Slot.incident?_of_go hl hs]
      refine .of_open nofun ?_ (.inr (.inl rfl))
      exact .cons_cons (hfirst _) (.cons_cons (.inr .fetches) (.singleton _))
  by_cases hc : ∃ known answer, v.slot.Closes known answer t
  · obtain ⟨known, answer, hc⟩ := hc
    obtain ⟨b, store, reply, older, rfl, hpasses⟩ := hv.passes hp ht hc (epoch + loop.now)
    have hlooping := hv.steady.stage.looping (by rw [hc.1]; exact nofun)
    rw [Slot.phases_of_closes rule v.stopping _ ask hc hlooping, Slot.incident?_of_closes hc,
      hp.fetching _ _ hc.1]
    generalize v.slot.poller.conclusion (epoch + loop.now) known
      (answer.getD v.slot.poller.setup.timeoutResult) = k at hpasses
    have hworking := hpasses.working
    constructor
    case steps =>
      exact (hpasses.steps _ _).imp fun p q hpq =>
        hpq.mono History.reaches_ends.mpr id
    case waits =>
      have hbefore : Phase.backoffWait ∉ Mark.phases k.marks := fun hmem => nomatch hworking _ hmem
      simp only [List.mem_append, hbefore, false_or, Phase.backoffWait_mem_behind]
      exact exists_congr fun o => and_congr_left' History.reaches_ends.symm
    case builds =>
      intro hb
      refine ⟨b, store, reply, older, rfl, hpasses.verified ?_⟩
      simpa only [List.mem_append, Phase.working_not_mem_behind (p := .building) rfl,
        Phase.working_not_mem_behind (p := .publishing) rfl, or_false] using hb
    case stops =>
      intro hmem
      rcases List.mem_append.mp hmem with hmem | hmem
      · exact nomatch hworking _ hmem
      · rw [← hstop]
        exact Phase.stop_of_stopped_mem_behind hmem
  · have hopen : ∀ known answer, ¬ v.slot.Closes known answer t :=
      fun known answer h => hc ⟨known, answer, h⟩
    rw [Slot.phases_of_open rule v.stopping _ ask hl hopen (hv.steady.ne_once ht)]
    refine .of_open (fun e c he => ?_) (.singleton _) (.inl rfl)
    cases hx : v.slot.incident? (epoch + loop.now) ask t with
    | none =>
      rw [hx] at he
      cases he
    | some x =>
      rw [hx] at he
      cases he
      obtain ⟨known, answer, hcloses, _⟩ := Slot.closes_of_incident? hx
      exact hopen known answer hcloses

end

end Strand

/-! ## What is shown -/

namespace Chronicle

variable {κ : Type} {n : Network κ} {p q : Chronicle κ} {i : Nat}

/-- The marks of the instance at a position, the earliest first. -/
def marksOf (c : Chronicle κ) (i : Nat) : List Mark :=
  c.run.journal.reverse.filterMap fun e => e.entry.own i

/-- The phases that the instance at a position has shown, the earliest first. It begins in idle. -/
def phases (c : Chronicle κ) (i : Nat) : List Phase := .idle :: Mark.phases (c.marksOf i)

theorem own_entries (i : Nat) (orders : Supervisor.Orders) :
    (orders.filterMap Run.emitted?).filterMap (Supervisor.Entry.own i) =
      (orders.filterMap (Supervisor.ownOrder i)).filterMap Run.emitted? := by
  rw [List.filterMap_filterMap, List.filterMap_filterMap]
  congr 1
  funext o
  simp only [Supervisor.ownOrder]
  cases o with
  | emit e => cases he : e.own i <;> simp [Run.emitted?, Loop.chooseOrder, he]
  | post t | after d t => cases ht : t.own i <;> simp [Run.emitted?, Loop.chooseOrder, ht]
  | cancel t a =>
    cases ht : t.own i <;> cases ha : a.own i <;> simp [Run.emitted?, Loop.chooseOrder, ht, ha]

/-- A command shows the phases among its own orders. -/
theorem phases_command {r : Run (Supervisor κ) Supervisor.Task Supervisor.Entry}
    (change : Supervisor κ → Supervisor κ × Supervisor.Orders) (fetches more : List Fetch)
    (i : Nat) :
    (Chronicle.mk (r.command change) more).phases i = (Chronicle.mk r fetches).phases i ++
      Mark.phases (((change r.state).2.filterMap (Supervisor.ownOrder i)).filterMap
        Run.emitted?) := by
  rw [← own_entries]
  simp only [phases, marksOf, Run.journal_command, List.reverse_append, List.reverse_reverse,
    List.filterMap_append, List.filterMap_map, Mark.phases_append, List.cons_append]
  rfl

theorem phases_starting (c : Chronicle κ) (i : Nat) : c.starting.phases i = c.phases i := by
  have hshown := phases_command (r := c.run) Supervisor.start c.fetches c.fetches i
  refine hshown.trans ?_
  rw [Supervisor.start]
  split
  · exact List.append_nil _
  · rw [Supervisor.ownOrder_flatten Slot.startOrders]
    cases c.run.state.slots[i]? with
    | none => exact List.append_nil _
    | some slot => exact List.append_nil _

theorem phases_stopping (c : Chronicle κ) (i : Nat) : c.stopping.phases i = c.phases i := by
  have hshown := phases_command (r := c.run) Supervisor.stop c.fetches c.fetches i
  have hown : Supervisor.ownOrder i (.emit (Supervisor.stopEntry c.run.state)) = none := by
    simp [Supervisor.ownOrder, Loop.chooseOrder, Supervisor.Entry.own, Supervisor.stopEntry]
  refine hshown.trans ?_
  rw [Supervisor.stop]
  split
  · exact List.append_nil _
  · rw [List.filterMap_cons_none hown, Supervisor.ownOrder_flatten fun _ => Slot.stopOrders]
    cases c.run.state.slots[i]? with
    | none => exact List.append_nil _
    | some slot => exact List.append_nil _

theorem phases_handling_own (n : Network κ) {c : Chronicle κ} {t : SlotTask} {slot : Slot}
    (hslot : c.state.slots[i]? = some slot) (loop : Loop Supervisor.Task) :
    (c.handling n ⟨i, t⟩ loop).phases i =
      c.phases i ++ (c.state.turn n loop.now i slot t).phases := by
  have hshown := phases_command (r := { c.run with loop := loop })
    (fun s => s.handle n loop.now ⟨i, t⟩) c.fetches
    ((fetchOf n loop.now c.state ⟨i, t⟩).toList ++ c.fetches) i
  refine hshown.trans ?_
  rw [Supervisor.handle, hslot]
  simp only [Supervisor.accept, Supervisor.ownOrder_ordersOf, if_true]
  rfl

theorem phases_handling_other (n : Network κ) (c : Chronicle κ) {task : Supervisor.Task}
    (hi : task.slot ≠ i) (loop : Loop Supervisor.Task) :
    (c.handling n task loop).phases i = c.phases i := by
  have hshown := phases_command (r := { c.run with loop := loop })
    (fun s => s.handle n loop.now task) c.fetches
    ((fetchOf n loop.now c.state task).toList ++ c.fetches) i
  refine hshown.trans ?_
  rw [Supervisor.handle]
  cases c.run.state.slots[task.slot]? with
  | none => exact List.append_nil _
  | some slot =>
    simp only [Supervisor.accept, Supervisor.ownOrder_ordersOf, if_neg hi]
    exact List.append_nil _

section

variable {rule : RestartRule} {setups : List Setup} {network : κ} {epoch : Int} {seed : UInt64}
  {s : Setup} {h notes : List (Stamped Note)} {c : Chronicle κ} {v : Strand} {older : History}

/-- Every move walks along the graph of phases, and leaves the poller where it comes to. -/
theorem Tick.walks (ht : Tick n p notes q) (ho : p.loop.Ordered) (hv : p.strand? i = some v)
    (hkept : Strand.Kept rule s epoch v older) (hposed : Strand.Posed v older)
    (hrule : p.state.rule = rule) (hepoch : p.state.epoch = epoch) :
    ∃ walk w, q.phases i = p.phases i ++ walk ∧
      s.Walk p.state.stopping older (historyOf i notes) v.slot.poller.phase walk ∧
        q.strand? i = some w ∧ (walk.getLast?).getD v.slot.poller.phase = w.slot.poller.phase := by
  obtain ⟨hslot, _, _, _, hstopping⟩ := strand?_eq_some hv
  -- Where the instance takes no turn, nothing is shown of it.
  have hstill : ∀ {more : History} {w : Strand}, q.phases i = p.phases i → more = [] →
      q.strand? i = some w → w.slot.poller.phase = v.slot.poller.phase →
        ∃ walk w, q.phases i = p.phases i ++ walk ∧
          s.Walk p.state.stopping older more v.slot.poller.phase walk ∧
            q.strand? i = some w ∧
              (walk.getLast?).getD v.slot.poller.phase = w.slot.poller.phase := by
    rintro more w hsame rfl hw hphase
    refine ⟨[], w, by rw [hsame, List.append_nil], ?_, hw, hphase.symm⟩
    exact .of_open nofun (.singleton _) (.inl rfl)
  cases ht with
  | start =>
    refine hstill (phases_starting p i) rfl (strand?_starting ho hv) ?_
    split
    · rfl
    · rfl
  | stop =>
    refine hstill (phases_stopping p i) rfl (strand?_stopping ho hv) ?_
    split
    · rfl
    · rfl
  | @elapse now ha =>
    obtain ⟨w, hw, hwslot⟩ := strand?_of_slot (c := p.waiting now) hslot
    exact hstill rfl rfl hw (by rw [hwslot])
  | @handle task loop ht ha =>
    by_cases hi : task.slot = i
    · cases task with
      | mk j t =>
        subst hi
        have hown := takes_of_strand hv ht
        have hturn := turn_of_strand n hv loop.now t
        rw [hrule, hepoch] at hturn
        have hshown := phases_handling_own n (t := t) hslot loop
        rw [hturn] at hshown
        refine ⟨_, _, hshown, ?_, strand?_handling_own n ho hv ht, ?_⟩
        · rw [historyOf_note hslot, if_pos rfl, hepoch, ← hstopping]
          exact hkept.walks hposed hown (answers n p.state j)
        · rw [hrule, hepoch]
          exact Slot.lastPhase_turn rule v.stopping _ _ v.slot t
    · exact hstill (phases_handling_other n p hi loop) (historyOf_note_other hi)
        (strand?_handling_other n ho hv ht hi) rfl

/-- In every course the phases shown are a path, and the poller is in the last of them. -/
theorem Course.shown (hc : Course n (begin rule setups network epoch seed) h c)
    (hs : setups[i]? = some s) :
    ∃ v, c.strand? i = some v ∧ Strand.Posed v (historyOf i h) ∧
      (c.phases i).getLast? = some v.slot.poller.phase ∧
        (c.phases i).IsChain (Phase.Steps True True) := by
  induction hc with
  | refl => exact ⟨_, strand?_begin hs, Strand.unstarted_posed rule s seed, rfl, .singleton _⟩
  | @tail p q earlier notes hc ht ih =>
    obtain ⟨v, hv, hposed, hlast, hchain⟩ := ih
    obtain ⟨v', hv', hkept⟩ := Course.kept_of_setup hc hs
    cases hv.symm.trans hv'
    obtain ⟨hrule, hepoch⟩ := Course.constants hc
    have ho := Leads.ordered (Course.leads hc) Loop.ordered_start
    obtain ⟨walk, w, hphases, hwalk, hw, hphase⟩ := ht.walks ho hv hkept hposed hrule hepoch
    refine ⟨w, hw, ?_, ?_, ?_⟩
    · rw [historyOf_append]
      obtain ⟨w', hw', hmove⟩ := ht.strand ho hv
      cases hw.symm.trans hw'
      rw [hrule, hepoch] at hmove
      rcases hmove with ⟨rfl, hnone⟩ | hticks
      · rw [hnone]
        exact hposed
      · exact hticks.posed hkept hposed
    · rw [hphases, List.getLast?_append, hlast, ← hphase]
      cases walk.getLast? <;> rfl
    · have hsteps := hwalk.steps.imp fun _ _ hpq => hpq.mono (fun _ => trivial) fun _ => trivial
      obtain ⟨hhead, htail⟩ := List.isChain_cons.mp hsteps
      rw [hphases]
      refine hchain.append htail fun x hx y hy => ?_
      rw [hlast] at hx
      cases hx
      exact hhead y hy

end

end Chronicle

/-- The phases of an instance keep to the graph of phases. -/
structure Phased {κ : Type} (n : Network κ) (s : Setup) (i : Nat) (c : Chronicle κ)
    (h : List (Stamped Note)) (slot : Slot) : Prop where
  /-- The poller tells the phase that was shown last. -/
  shown : (c.phases i).getLast? = some slot.poller.phase
  /-- All phases so far are a path. -/
  steps : (c.phases i).IsChain (Phase.Steps True True)
  /-- Each move goes on along it, for the reasons there are. -/
  moves : ∀ more d, Chronicle.Tick n c more d → ∃ walk, d.phases i = c.phases i ++ walk ∧
    s.Walk c.state.stopping (historyOf i h) (historyOf i more) slot.poller.phase walk
  /-- A poller that has stopped stays so. -/
  final : .stopped ∈ c.phases i → slot.poller.phase = .stopped

/-- In every course the phases of every instance keep to the graph of phases. -/
theorem phased_of_course {κ : Type} {n : Network κ} {rule : RestartRule} {setups : List Setup}
    {network : κ} {epoch : Int} {seed : UInt64} {h : List (Stamped Note)} {c : Chronicle κ}
    {i : Nat} {s : Setup} {slot : Slot} (hs : setups[i]? = some s)
    (hc : Chronicle.Course n (.begin rule setups network epoch seed) h c)
    (hslot : c.state.slots[i]? = some slot) : Phased n s i c h slot := by
  obtain ⟨v, hv, hposed, hlast, hchain⟩ := hc.shown hs
  obtain ⟨v', hv', hkept⟩ := hc.kept_of_setup hs
  cases hv.symm.trans hv'
  have hsame : v.slot = slot :=
    Option.some.inj ((Chronicle.strand?_eq_some hv).1.symm.trans hslot)
  subst hsame
  obtain ⟨hrule, hepoch⟩ := hc.constants
  have ho := Chronicle.Leads.ordered hc.leads Loop.ordered_start
  refine ⟨hlast, hchain, fun more d hd => ?_, fun hstopped => ?_⟩
  · obtain ⟨walk, _, hphases, hwalk, _, _⟩ := hd.walks ho hv hkept hposed hrule hepoch
    exact ⟨walk, hphases, hwalk⟩
  · have hend := Phase.getLast?_of_stopped hchain hstopped
    exact Option.some.inj (hlast.symm.trans hend)

/-- A cycle that publishes, one that fails, and two that crash, with a restart between them. -/
theorem phased_ailing :
    ∃ h c slot, Chronicle.Course Network.scripted ailing h c ∧ c.state.slots[0]? = some slot ∧
      c.phases 0 = [.idle, .idle, .fetching, .verifying, .building, .publishing, .idle,
        .idle, .fetching, .backoffWait, .idle, .fetching, .idle, .fetching] ∧
        Phased Network.scripted (.plain (ascii "a1")) 0 c h slot := by
  obtain ⟨h, fetches, hc⟩ := Chronicle.course_continueWhile Network.scripted none (fun _ => true) 40
    (c := ailing.starting) Loop.ordered_start nofun
  generalize hr : ailing.starting.run.continueWhile _ _ _ _ = r at hc
  have hphases : (Chronicle.mk r []).phases 0 =
      [.idle, .idle, .fetching, .verifying, .building, .publishing, .idle,
        .idle, .fetching, .backoffWait, .idle, .fetching, .idle, .fetching] := by
    rw [← hr]
    decide +kernel
  have hcourse : Chronicle.Course Network.scripted ailing _ ⟨r, fetches⟩ :=
    Traced.trans (.tail .refl .start) hc
  obtain ⟨v, hv, _⟩ := hcourse.kept_of_setup (i := 0) rfl
  have hslot := (Chronicle.strand?_eq_some hv).1
  exact ⟨_, _, v.slot, hcourse, hslot, hphases, phased_of_course rfl hcourse hslot⟩

end TargetDiscovery
