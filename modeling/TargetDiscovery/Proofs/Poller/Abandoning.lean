import TargetDiscovery.Proofs.Poller.Lateness
import TargetDiscovery.Proofs.Poller.Looping

/-!
# Abandoned fetches of a poller by itself

What is done with a poller from outside makes the same of it, whatever its late replies would have
brought: the runs of two networks that differ in late replies alone stay in step.
-/

set_option autoImplicit false

namespace TargetDiscovery

theorem Order.map_id {τ ε : Type} (orders : List (Order τ ε)) :
    orders.map (Order.map id id) = orders := by
  have hsame : Order.map id id = (id : Order τ ε → Order τ ε) := by
    funext o
    cases o <;> rfl
  rw [hsame, List.map_id]

namespace Solo

/-- What is done with a poller from outside. -/
inductive Action
  | start
  /-- A single cycle, up to its end. -/
  | cycle
  | stop
  | wait (duration : Nat)

/-- The second run comes from the first one by some actions. A wait ends when all tasks are done
that came due. -/
inductive Plays {κ : Type} (n : Network κ) : List Action → SoloRun κ → SoloRun κ → Prop
  | done (r : SoloRun κ) : Plays n [] r r
  | start {plan : List Action} {r r' : SoloRun κ} (h : Plays n plan (r.command Solo.start) r') :
      Plays n (.start :: plan) r r'
  | cycle {plan : List Action} {r r' : SoloRun κ} (fuel : Nat)
      (hs : ((r.command beginCycle).continueWhile (machine n) none isOpen fuel).state.isOpen = false)
      (h : Plays n plan ((r.command beginCycle).continueWhile (machine n) none isOpen fuel) r') :
      Plays n (.cycle :: plan) r r'
  | stop {plan : List Action} {r r' : SoloRun κ} (h : Plays n plan (r.command Solo.stop) r') :
      Plays n (.stop :: plan) r r'
  | wait {plan : List Action} {r r' : SoloRun κ} {duration : Nat} (fuel : Nat)
      (hs : (r.advanceTo (machine n) fuel (r.loop.now + duration)).Settled)
      (h : Plays n plan (r.advanceTo (machine n) fuel (r.loop.now + duration)) r') :
      Plays n (.wait duration :: plan) r r'

/-- There is one way to play. -/
theorem Plays.unique {κ : Type} {n : Network κ} {plan : List Action} {r a b : SoloRun κ}
    (ha : Plays n plan r a) (hb : Plays n plan r b) : a = b := by
  induction ha with
  | done r =>
    cases hb
    rfl
  | start _ ih =>
    cases hb with
    | start hb => exact ih hb
  | stop _ ih =>
    cases hb with
    | stop hb => exact ih hb
  | cycle fuel hs _ ih =>
    cases hb with
    | cycle fuel' hs' hb =>
      rw [Run.continueWhile_unique hs' hs] at hb
      exact ih hb
  | wait fuel hs _ ih =>
    cases hb with
    | wait fuel' hs' hb =>
      rw [Run.advanceTo_unique hs' hs (Nat.le_add_right _ _)] at hb
      exact ih hb

/-! ## Without the network -/

/-- A poller by itself, apart from what answers it. -/
def unlinked {κ : Type} (s : Solo κ) : Solo Unit := { s with network := () }

section

variable {κ : Type} {n : Network κ} {s s' : Solo κ}

theorem eq_of_unlinked (h : s'.unlinked = s.unlinked) : s' = { s with network := s'.network } := by
  cases s
  cases s'
  cases h
  rfl

theorem unlinked_accept (h : s'.unlinked = s.unlinked) (r : Poller.Reaction) :
    (s'.accept n r).1.unlinked = (s.accept n r).1.unlinked := by
  rw [eq_of_unlinked h]
  cases hn : r.next <;> simp only [accept, hn] <;> rfl

theorem network_accept (s : Solo (List Script)) (r : Poller.Reaction) :
    (s.accept Network.scripted r).1.network =
      Poller.scriptsBehind s.network 0 r.next.asked? := by
  unfold accept
  cases r.next <;> rfl

end

/-! ## In step -/

/-- What a run keeps of its replies: they are those of a stream, apart from late ones. -/
structure Sound (stream : Nat → Reply) (r : SoloRun (List Script)) : Prop where
  ordered : r.loop.Ordered
  timely : r.loop.Timely
  fed : Poller.Fed id stream 0 r.state.poller r.state.network r.loop

section

variable {stream : Nat → Reply} {r r' : SoloRun (List Script)} {task : Poller.Task}
  {loop : Loop Poller.Task}

theorem Sound.handling (h : Sound stream r) (ht : r.loop.Takes task loop) :
    Sound stream (r.handling (machine Network.scripted) task loop) := by
  constructor
  case ordered => exact Run.ordered_command (r := r.onLoop loop) (ht.ordered h.ordered) _
  case timely => exact Run.timely_command (r := r.onLoop loop) (ht.timely h.ordered h.timely) _
  case fed =>
    have hreact := h.fed.react (e := id) (fun _ _ => id) ht (r.state.epoch + loop.now) id
    rw [Order.map_id] at hreact
    rw [Run.handling, Run.loop_command, Run.state_command]
    show Poller.Fed id stream 0 (r.state.accept Network.scripted _).1.poller
      (r.state.accept Network.scripted _).1.network
      (loop.obeyAll (r.state.accept Network.scripted _).2)
    rw [poller_accept, network_accept, orders_accept]
    exact hreact

/-- A late reply is ignored. -/
theorem Sound.handle_idle (h : Sound stream r) (ht : r.loop.Takes task loop)
    (hi : task.isLive (Poller.lateness stream) = false) :
    (machine Network.scripted).handle loop.now r.state task = (r.state, []) := by
  cases task with
  | reply number result =>
    have hlate : Poller.lateness stream number = true := by
      simpa [Poller.Task.isLive] using hi
    have hignores := h.fed.awaits.ignores h.ordered ht hlate (r.state.epoch + loop.now)
    show r.state.accept Network.scripted (r.state.poller.react _ _) = _
    rw [hignores]
    rfl
  | _ => cases hi

/-- What a task does is the same in front of another network, apart from late replies. -/
theorem Sound.handle_seen (h : Sound stream r) (h' : Sound stream r')
    (hs : r'.state.unlinked = r.state.unlinked) (now : Nat) (task : Poller.Task) :
    ((machine Network.scripted).handle now r'.state task).1.unlinked =
        ((machine Network.scripted).handle now r.state task).1.unlinked ∧
      ((machine Network.scripted).handle now r'.state task).2.filter
          (Order.isLive (Poller.Task.isLive (Poller.lateness stream))) =
        ((machine Network.scripted).handle now r.state task).2.filter
          (Order.isLive (Poller.Task.isLive (Poller.lateness stream))) := by
  have hsame := eq_of_unlinked hs
  have hpoller : r'.state.poller = r.state.poller := by rw [hsame]
  have hepoch : r'.state.epoch = r.state.epoch := by rw [hsame]
  have hfed := h'.fed
  rw [hpoller] at hfed
  rw [machine]
  simp only [hpoller, hepoch]
  refine ⟨unlinked_accept hs _, ?_⟩
  rw [orders_accept, orders_accept, List.filter_append, List.filter_append]
  congr 1
  exact h.fed.filter_orders hfed _ task

end

theorem heeds (stream : Nat → Reply) :
    Run.Heeds (machine Network.scripted) (Poller.Task.isLive (Poller.lateness stream)) unlinked
      (Sound stream) := by
  constructor
  case ordered => exact fun h => h.ordered
  case timely => exact fun h => h.timely
  case step => exact fun h hn => h.handling (Loop.takes_of_next? hn)
  case elapse => exact fun h ht => ⟨h.ordered, ht, h.fed.of_same rfl rfl rfl rfl rfl⟩
  case idle => exact fun h hn hi => h.handle_idle (Loop.takes_of_next? hn) hi
  case splits =>
    intro now s task o ho
    rw [machine, orders_accept] at ho
    rcases List.mem_append.mp ho with ho | ho
    · obtain ⟨m, _, rfl⟩ := List.mem_map.mp ho
      trivial
    · exact Poller.splits_orders _ _ _ o ho
  case seen => exact fun h h' hs now _ _ => h.handle_seen h' hs now _

abbrev InStep (stream : Nat → Reply) : SoloRun (List Script) → SoloRun (List Script) → Prop :=
  Run.InStep (Poller.Task.isLive (Poller.lateness stream)) unlinked (Sound stream)

/-- A command leaves the fetches of the poller alone, and posts a task that is no reply. -/
structure Gentle (change : Solo (List Script) → Solo (List Script) × List (Order Poller.Task Mark))
    (t : Poller.Task) : Prop where
  wordless : Poller.Wordless id t
  orders : ∀ s, (change s).2 = [.post t]
  network : ∀ s, (change s).1.network = s.network
  setup : ∀ s, (change s).1.poller.setup = s.poller.setup
  fetches : ∀ s, (change s).1.poller.fetches = s.poller.fetches
  activity : ∀ s, (change s).1.poller.activity = s.poller.activity
  view : ∀ s network, (change { s with network := network }).1.unlinked = (change s).1.unlinked

theorem gentle_start : Gentle Solo.start .begin :=
  ⟨nofun, fun _ => rfl, fun _ => rfl, fun _ => rfl, fun _ => rfl, fun _ => rfl, fun _ _ => rfl⟩

theorem gentle_beginCycle : Gentle Solo.beginCycle .once :=
  ⟨nofun, fun _ => rfl, fun _ => rfl, fun _ => rfl, fun _ => rfl, fun _ => rfl, fun _ _ => rfl⟩

theorem gentle_stop : Gentle Solo.stop .interrupt :=
  ⟨nofun, fun _ => rfl, fun _ => rfl, fun _ => rfl, fun _ => rfl, fun _ => rfl, fun _ _ => rfl⟩

section

variable {stream : Nat → Reply} {r q : SoloRun (List Script)}
  {change : Solo (List Script) → Solo (List Script) × List (Order Poller.Task Mark)}
  {t : Poller.Task}

theorem Sound.command (h : Sound stream r) (hc : Gentle change t) :
    Sound stream (r.command change) := by
  constructor
  case ordered => exact Run.ordered_command h.ordered _
  case timely => exact Run.timely_command h.timely _
  case fed =>
    have hposted : Poller.Fed id stream 0 r.state.poller r.state.network
        (r.loop.obeyAll (change r.state).2) := by
      have hmild : ∀ o ∈ (change r.state).2, Poller.Mild id o := by
        intro o ho
        rw [hc.orders, List.mem_singleton] at ho
        subst ho
        exact ⟨hc.wordless, nofun⟩
      exact ⟨h.fed.awaits.obeyAll hmild, h.fed.replies⟩
    rw [Run.loop_command, Run.state_command, hc.network]
    exact hposted.of_same (hc.setup _) (hc.fetches _) (hc.activity _) rfl rfl

theorem InStep.command (h : InStep stream r q) (hc : Gentle change t) :
    InStep stream (r.command change) (q.command change) := by
  apply (heeds stream).inStep_command h (h.left.command hc) (h.right.command hc)
  case hs =>
    intro s o ho
    rw [hc.orders] at ho
    rw [List.mem_singleton.mp ho]
    trivial
  case hview =>
    rw [eq_of_unlinked h.alike.state]
    exact hc.view r.state q.state.network
  case horders => rw [hc.orders, hc.orders]

theorem isOpen_of_unlinked (s s' : Solo (List Script)) (h : s'.unlinked = s.unlinked) :
    s'.isOpen = s.isOpen := by
  rw [eq_of_unlinked h]
  rfl

/-- Runs in step can be played alike, and are in step again. -/
theorem InStep.plays {plan : List Action} {r' : SoloRun (List Script)}
    (hp : Plays Network.scripted plan r r') (h : InStep stream r q) :
    ∃ q', Plays Network.scripted plan q q' ∧ InStep stream r' q' := by
  induction hp generalizing q with
  | done r => exact ⟨q, .done q, h⟩
  | start _ ih =>
    obtain ⟨q', hq', hstep⟩ := ih (h.command gentle_start)
    exact ⟨q', .start hq', hstep⟩
  | stop _ ih =>
    obtain ⟨q', hq', hstep⟩ := ih (h.command gentle_stop)
    exact ⟨q', .stop hq', hstep⟩
  | cycle fuel hs _ ih =>
    obtain ⟨fuel', hs', hnext⟩ := (heeds stream).inStep_continueWhile
      (h.command gentle_beginCycle) isOpen_of_unlinked hs
    obtain ⟨q', hq', hstep⟩ := ih hnext
    exact ⟨q', .cycle fuel' hs' hq', hstep⟩
  | wait fuel hs _ ih =>
    obtain ⟨fuel', hs', hnext⟩ :=
      (heeds stream).inStep_advanceTo h (Nat.le_add_right _ _) hs
    obtain ⟨q', hq', hstep⟩ := ih hnext
    rw [← h.now] at hs' hq'
    exact ⟨q', .wait fuel' hs' hq', hstep⟩

end

/-- A poller as it is made, with a script. -/
def fresh (s : Setup) (store : Store) (seed : UInt64) (script : Script) (epoch : Int) :
    SoloRun (List Script) := .start (new (.new s store seed) [script] epoch)

/-- Nothing but the network differs between two runs: neither the clock, nor what was done at which
time, nor the poller with its store, its phase and its failures, nor the counters. -/
structure Unchanged (r r' : SoloRun (List Script)) : Prop where
  time : r'.loop.now = r.loop.now
  journal : r'.journal = r.journal
  state : r'.state = { r.state with network := r'.state.network }

theorem Unchanged.symm {r r' : SoloRun (List Script)} (h : Unchanged r r') : Unchanged r' r := by
  refine ⟨h.time.symm, h.journal.symm, ?_⟩
  rw [h.state]

section

variable {s : Setup} {script script' : Script}

theorem inStep_fresh
    (h : ∀ k, (script'.reply k).hushed s.timing.timeout = (script.reply k).hushed s.timing.timeout)
    (store : Store) (seed : UInt64) (epoch : Int) :
    InStep (fun k => (script.reply k).hushed s.timing.timeout) (fresh s store seed script epoch)
      (fresh s store seed script' epoch) := by
  have hsound : ∀ x : Script,
      (∀ k, (x.reply k).hushed s.timing.timeout = (script.reply k).hushed s.timing.timeout) →
      Sound (fun k => (script.reply k).hushed s.timing.timeout) (fresh s store seed x epoch) := by
    intro x hx
    refine ⟨Loop.ordered_start, nofun, ⟨⟨nofun, nofun⟩, nofun⟩, fun k => ?_⟩
    show (x.reply k).hushed s.timing.timeout = (script.reply (0 + k)).hushed s.timing.timeout
    rw [Nat.zero_add]
    exact hx k
  exact ⟨hsound script fun _ => rfl, hsound script' h, ⟨rfl, rfl, rfl⟩, rfl⟩

/-- A poller can be played whether late replies come or not, and the end is the same. -/
theorem unchanged_of_plays
    (h : ∀ k, (script'.reply k).hushed s.timing.timeout = (script.reply k).hushed s.timing.timeout)
    {store : Store} {seed : UInt64} {epoch : Int} {plan : List Action}
    {r : SoloRun (List Script)}
    (hp : Plays Network.scripted plan (fresh s store seed script epoch) r) :
    ∃ r', Plays Network.scripted plan (fresh s store seed script' epoch) r' ∧ Unchanged r r' := by
  obtain ⟨r', hp', hstep⟩ := InStep.plays hp (inStep_fresh h store seed epoch)
  exact ⟨r', hp', hstep.now, hstep.alike.journal, eq_of_unlinked hstep.alike.state⟩

end

end Solo

end TargetDiscovery
