import TargetDiscovery.Proofs.Supervisor.Cell

/-!
# Isolation of instances

What can be seen of an instance does not depend on the other ones. Two runs of the supervisor that
are started, stopped and waited for alike, and treat one instance alike, show the same of it
whenever their work is done, whatever happens to all others.
-/

set_option autoImplicit false

namespace TargetDiscovery

namespace Supervisor

/-- What is done with a supervisor from outside. -/
inductive Action
  | start
  | stop
  | wait (duration : Nat)

/-- The second run comes from the first one by some actions. A wait ends when all tasks are done
that came due. -/
inductive Plays {κ : Type} (n : Network κ) : List Action → Run (Supervisor κ) Task Entry →
    Run (Supervisor κ) Task Entry → Prop
  | done (r : Run (Supervisor κ) Task Entry) : Plays n [] r r
  | start {plan : List Action} {r r' : Run (Supervisor κ) Task Entry}
      (h : Plays n plan (r.command Supervisor.start) r') : Plays n (.start :: plan) r r'
  | stop {plan : List Action} {r r' : Run (Supervisor κ) Task Entry}
      (h : Plays n plan (r.command Supervisor.stop) r') : Plays n (.stop :: plan) r r'
  | wait {plan : List Action} {r r' : Run (Supervisor κ) Task Entry} {duration : Nat} (fuel : Nat)
      (hs : Settled (r.advanceTo (machine n) fuel (r.loop.now + duration)))
      (h : Plays n plan (r.advanceTo (machine n) fuel (r.loop.now + duration)) r') :
      Plays n (.wait duration :: plan) r r'

/-- What can be seen of an instance; its snapshot is seen without the time of day. -/
structure Outlook where
  current : Option Snapshot
  tally : Tally
  counters : Counters
  phase : Phase
  failures : Nat
  lastDelay : Int
  restarts : Nat
  degraded : Bool
  deriving DecidableEq

def outlook? {κ : Type} (s : Supervisor κ) (i : Nat) : Option Outlook :=
  s.slots[i]?.map fun slot =>
    { current := slot.poller.store.current.map Snapshot.untimed
      tally := slot.poller.store.tally
      counters := s.ledger.counters slot.name
      phase := slot.poller.phase
      failures := slot.poller.failures
      lastDelay := slot.poller.lastDelay
      restarts := slot.restarts
      degraded := slot.degraded }

def outlookOf (w : Cell) : Outlook :=
  { current := w.slot.poller.store.current
    tally := w.slot.poller.store.tally
    counters := w.counters
    phase := w.slot.poller.phase
    failures := w.slot.poller.failures
    lastDelay := w.slot.poller.lastDelay
    restarts := w.slot.restarts
    degraded := w.slot.degraded }

theorem outlook?_eq (i : Nat) (r : ScriptedRun) :
    r.state.outlook? i = (cell? i r).map outlookOf := by
  rw [outlook?, cell?, Option.map_map]
  rfl

/-! ## Two runs -/

/-- Runs that are played alike stay alike in the cell of the instance. -/
theorem cells_of_plays {rule : RestartRule} {i j : Nat} {plan : List Action}
    {r₁ r₁' r₂ r₂' : ScriptedRun} (h₁ : Tidy rule i r₁) (h₂ : Tidy rule j r₂)
    (hnow : r₁.loop.now = r₂.loop.now) {w : Cell} (hw₁ : cell? i r₁ = some w)
    (hw₂ : cell? j r₂ = some w) (hp₁ : Plays Network.scripted plan r₁ r₁')
    (hp₂ : Plays Network.scripted plan r₂ r₂') :
    ∃ w', cell? i r₁' = some w' ∧ cell? j r₂' = some w' := by
  -- Induction on the first run; the second one follows action by action. Both clocks agree between
  -- the actions, but not within a wait, where each run has its own steps.
  induction hp₁ generalizing r₂ w with
  | done r =>
    cases hp₂
    exact ⟨w, hw₁, hw₂⟩
  | start _ ih =>
    cases hp₂ with
    | start hp₂ =>
      have hcell := cell?_start h₂ hw₂
      rw [← hnow] at hcell
      refine ih h₁.starting h₂.starting ?_ (cell?_start h₁ hw₁) hcell hp₂
      rw [Run.loop_command, Run.loop_command, Loop.obeyAll_now, Loop.obeyAll_now, hnow]
  | stop _ ih =>
    cases hp₂ with
    | stop hp₂ =>
      have hcell := cell?_stop h₂ hw₂
      rw [← hnow] at hcell
      refine ih h₁.stopping h₂.stopping ?_ (cell?_stop h₁ hw₁) hcell hp₂
      rw [Run.loop_command, Run.loop_command, Loop.obeyAll_now, Loop.obeyAll_now, hnow]
  | wait fuel hs₁ _ ih =>
    cases hp₂ with
    | wait fuel₂ hs₂ hp₂ =>
      obtain ⟨htidy₁, htime₁, w₁, hcell₁, hsettles₁⟩ :=
        cell?_advanceTo h₁ hw₁ (Nat.le_add_right _ _) rfl hs₁
      obtain ⟨htidy₂, htime₂, w₂, hcell₂, hsettles₂⟩ :=
        cell?_advanceTo h₂ hw₂ (Nat.le_add_right _ _) rfl hs₂
      rw [← hnow] at hsettles₂
      -- Both cells start from the same one, and there is one way to get all done.
      obtain rfl := hsettles₁.unique hsettles₂
      refine ih htidy₁ htidy₂ ?_ hcell₁ hcell₂ hp₂
      rw [htime₁, htime₂, hnow]

section

variable {rule : RestartRule} {setups : List Setup} {i : Nat} {setup : Setup}

theorem tidy_new (hrule : rule.jitter ≤ 0.0) (hsetup : setups[i]? = some setup)
    (hnames : (setups.map Setup.name).Nodup) (hjitter : setup.timing.jitter ≤ 0.0)
    (scripts : List Script) (epoch : Int) (seed : UInt64) :
    Tidy rule i (Run.start (new rule setups scripts epoch seed)) := by
  constructor
  case rule => rfl
  case ordered => exact Loop.ordered_start
  case timely => exact nofun
  case names =>
    simp only [Run.start, new, names, List.map_map]
    exact hnames
  case even =>
    intro slot hslot
    simp only [Run.start, new, List.getElem?_map, hsetup, Option.map_some] at hslot
    cases hslot
    exact ⟨hjitter, hrule⟩

theorem cell?_new (rule : RestartRule) (hsetup : setups[i]? = some setup) (scripts : List Script)
    (epoch : Int) (seed : UInt64) : cell? i (Run.start (new rule setups scripts epoch seed)) = some
      { slot := (Slot.new setup rule 0).untimed
        loop := Loop.start
        script := scripts[i]?
        counters := {}
        started := false
        stopping := false } := by
  simp only [cell?, Run.start, new, List.getElem?_map, hsetup, Option.map_some]
  rfl

end

/-- What is seen of an instance after some actions does not depend on the other instances. -/
theorem outlook_isolated {rule : RestartRule} {setups₁ setups₂ : List Setup}
    {scripts₁ scripts₂ : List Script} {epoch₁ epoch₂ : Int} {seed₁ seed₂ : UInt64} {i j : Nat}
    {setup : Setup} {plan : List Action} {r₁ r₂ : ScriptedRun} (hrule : rule.jitter ≤ 0.0)
    (hjitter : setup.timing.jitter ≤ 0.0) (hnames₁ : (setups₁.map Setup.name).Nodup)
    (hnames₂ : (setups₂.map Setup.name).Nodup) (hsetup₁ : setups₁[i]? = some setup)
    (hsetup₂ : setups₂[j]? = some setup) (hscript : scripts₁[i]? = scripts₂[j]?)
    (hp₁ : Plays Network.scripted plan (Run.start (new rule setups₁ scripts₁ epoch₁ seed₁)) r₁)
    (hp₂ : Plays Network.scripted plan (Run.start (new rule setups₂ scripts₂ epoch₂ seed₂)) r₂) :
    ∃ o, r₁.state.outlook? i = some o ∧ r₂.state.outlook? j = some o := by
  have hcell₂ := cell?_new rule hsetup₂ scripts₂ epoch₂ seed₂
  rw [← hscript] at hcell₂
  obtain ⟨w, hw₁, hw₂⟩ := cells_of_plays (tidy_new hrule hsetup₁ hnames₁ hjitter _ _ _)
    (tidy_new hrule hsetup₂ hnames₂ hjitter _ _ _) rfl (cell?_new rule hsetup₁ _ _ _) hcell₂ hp₁ hp₂
  refine ⟨outlookOf w, ?_, ?_⟩
  · rw [outlook?_eq, hw₁]
    rfl
  · rw [outlook?_eq, hw₂]
    rfl

/-- Two instances without jitter, each with a registry that gives the same reply to every fetch. -/
def pair (first second : Bytes) (reply reply' : Reply) : ScriptedRun :=
  .start (new { RestartRule.standard with jitter := 0.0 } [.plain first, .plain second]
    [⟨[], reply⟩, ⟨[], reply'⟩] 0 0)

theorem plays_start {r : ScriptedRun} {fuel duration : Nat}
    (h : Settled ((r.command start).advanceTo (machine Network.scripted) fuel
      ((r.command start).loop.now + duration))) :
    ∃ r', Plays Network.scripted [.start, .wait duration] r r' ∧
      r' = (r.command start).advanceTo (machine Network.scripted) fuel
        ((r.command start).loop.now + duration) := ⟨_, .start (.wait fuel h (.done _)), rfl⟩

/-- An instance that publishes a snapshot does so beside one that crashes, and behind one that is
never answered. -/
theorem outlook_pair :
    let prompt : Reply := ⟨some 5, .ok (.ok ⟨1, [], [], none⟩)⟩
    ∃ r₁ r₂ o,
      Plays Network.scripted [.start, .wait 5]
        (pair (ascii "a1") (ascii "b2") prompt ⟨some 0, .error .foreign⟩) r₁ ∧
      Plays Network.scripted [.start, .wait 5]
        (pair (ascii "c3") (ascii "a1") ⟨none, .error .foreign⟩ prompt) r₂ ∧
      r₁.state.outlook? 0 = some o ∧ r₂.state.outlook? 1 = some o ∧
      r₁.state.slots[1]?.map Slot.restarts = some 1 ∧
      r₂.state.slots[0]?.map Slot.restarts = some 0 := by
  intro prompt
  obtain ⟨r₁, hp₁, he₁⟩ := @plays_start
    (pair (ascii "a1") (ascii "b2") prompt ⟨some 0, .error .foreign⟩) 20 5
    ⟨by decide +kernel, by decide +kernel⟩
  obtain ⟨r₂, hp₂, he₂⟩ := @plays_start
    (pair (ascii "c3") (ascii "a1") ⟨none, .error .foreign⟩ prompt) 20 5
    ⟨by decide +kernel, by decide +kernel⟩
  have hoff : (Setup.plain (ascii "a1")).timing.jitter ≤ 0.0 := by decide
  obtain ⟨o, ho₁, ho₂⟩ : ∃ o, r₁.state.outlook? 0 = some o ∧ r₂.state.outlook? 1 = some o :=
    outlook_isolated (by decide) hoff (by decide) (by decide) (by rfl) (by rfl) (by rfl) hp₁ hp₂
  refine ⟨r₁, r₂, o, hp₁, hp₂, ho₁, ho₂, ?_, ?_⟩
  · rw [he₁]
    decide +kernel
  · rw [he₂]
    decide +kernel

end Supervisor

end TargetDiscovery
