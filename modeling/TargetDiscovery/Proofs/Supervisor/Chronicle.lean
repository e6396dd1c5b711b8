import Mathlib.Logic.Relation
import TargetDiscovery.Supervisor
import TargetDiscovery.Proofs.Loop

/-!
# Chronicles of a supervisor

A chronicle is a supervisor on its loop together with the fetches it has begun. It moves on by a
start or a stop at any moment, by handling a task, and by the clock. The order in which ready tasks
are handled is left open, so a statement about all reachable chronicles covers every schedule; the
run of the event loop is one of them.
-/

set_option autoImplicit false

namespace TargetDiscovery

/-- An instance with the usual job rules and no jitter that trusts what it gets. -/
def Setup.plain (name : Bytes) : Setup :=
  ⟨name, { Timing.standard with jitter := 0.0 }, JobRules.standard, .insecure⟩

/-- A fetch of the instance at a position: when it began, what was asked, and the reply to it. -/
structure Fetch where
  slot : Nat
  begun : Nat
  since : UInt64
  timeout : Nat
  reply : Reply

namespace Slot.Turn

def fetch? (u : Slot.Turn) (i now : Nat) (ask : UInt64 × Nat → Reply) : Option Fetch :=
  u.asked.map fun q => ⟨i, now, q.1, q.2, ask q⟩

end Slot.Turn

/-- A supervisor on its loop with the fetches begun so far, the latest first. -/
structure Chronicle (κ : Type) where
  run : Run (Supervisor κ) Supervisor.Task Supervisor.Entry
  fetches : List Fetch

namespace Chronicle

variable {κ : Type}

def begin (rule : RestartRule) (setups : List Setup) (network : κ) (epoch : Int) (seed : UInt64) :
    Chronicle κ := ⟨Run.start (Supervisor.new rule setups network epoch seed), []⟩

abbrev state (c : Chronicle κ) : Supervisor κ := c.run.state

abbrev loop (c : Chronicle κ) : Loop Supervisor.Task := c.run.loop

def starting (c : Chronicle κ) : Chronicle κ := { c with run := c.run.command Supervisor.start }

def stopping (c : Chronicle κ) : Chronicle κ := { c with run := c.run.command Supervisor.stop }

def answers (n : Network κ) (s : Supervisor κ) (i : Nat) : UInt64 × Nat → Reply :=
  fun q => (n.ask s.network i q.1 q.2).1

def fetchOf (n : Network κ) (now : Nat) (s : Supervisor κ) (t : Supervisor.Task) : Option Fetch :=
  (s.slots[t.slot]?).bind fun slot =>
    (s.turn n now t.slot slot t.task).fetch? t.slot now (answers n s t.slot)

/-- The chronicle after a task that was taken from the loop, which is `loop` then. -/
def handling (n : Network κ) (c : Chronicle κ) (task : Supervisor.Task)
    (loop : Loop Supervisor.Task) : Chronicle κ :=
  ⟨{ c.run with loop := loop }.command fun s => s.handle n loop.now task,
    (fetchOf n loop.now c.state task).toList ++ c.fetches⟩

def waiting (c : Chronicle κ) (now : Nat) : Chronicle κ :=
  { c with run := { c.run with loop := { c.loop with now := now } } }

theorem loop_starting (c : Chronicle κ) : c.starting.loop = c.loop.obeyAll c.state.start.2 :=
  Run.loop_command _ _

theorem state_starting (c : Chronicle κ) : c.starting.state = c.state.start.1 :=
  Run.state_command _ _

theorem loop_stopping (c : Chronicle κ) : c.stopping.loop = c.loop.obeyAll c.state.stop.2 :=
  Run.loop_command _ _

theorem state_stopping (c : Chronicle κ) : c.stopping.state = c.state.stop.1 :=
  Run.state_command _ _

theorem loop_handling (n : Network κ) (c : Chronicle κ) (task : Supervisor.Task)
    (loop : Loop Supervisor.Task) :
    (c.handling n task loop).loop = loop.obeyAll (c.state.handle n loop.now task).2 :=
  Run.loop_command _ _

theorem state_handling (n : Network κ) (c : Chronicle κ) (task : Supervisor.Task)
    (loop : Loop Supervisor.Task) :
    (c.handling n task loop).state = (c.state.handle n loop.now task).1 :=
  Run.state_command _ _

/-- One move of a chronicle. -/
inductive Move (n : Network κ) (c : Chronicle κ) : Chronicle κ → Prop
  | start : Move n c c.starting
  | stop : Move n c c.stopping
  | handle {task : Supervisor.Task} {loop : Loop Supervisor.Task} (h : c.loop.Takes task loop) :
      Move n c (c.handling n task loop)
  | elapse {now : Nat} (h : c.loop.now ≤ now) : Move n c (c.waiting now)

/-- The second chronicle continues the first one. -/
def Leads (n : Network κ) : Chronicle κ → Chronicle κ → Prop := Relation.ReflTransGen (Move n)

/-- The chronicle of some supervisor, from before its start on. -/
def Reachable (n : Network κ) (c : Chronicle κ) : Prop :=
  ∃ rule setups network epoch seed, Leads n (begin rule setups network epoch seed) c

theorem Reachable.leads {n : Network κ} {c d : Chronicle κ} (h : Reachable n c)
    (hd : Leads n c d) : Reachable n d := by
  obtain ⟨rule, setups, network, epoch, seed, hc⟩ := h
  exact ⟨rule, setups, network, epoch, seed, hc.trans hd⟩

/-! ## What every move keeps -/

theorem Move.ordered {n : Network κ} {c d : Chronicle κ} (h : Move n c d) (hc : c.loop.Ordered) :
    d.loop.Ordered := by
  cases h with
  | start => rw [loop_starting]; exact Loop.obeyAll_ordered hc _
  | stop => rw [loop_stopping]; exact Loop.obeyAll_ordered hc _
  | handle ht => rw [loop_handling]; exact Loop.obeyAll_ordered (ht.ordered hc) _
  | elapse => exact hc

theorem Leads.ordered {n : Network κ} {c d : Chronicle κ} (h : Leads n c d)
    (hc : c.loop.Ordered) : d.loop.Ordered := by
  induction h with
  | refl => exact hc
  | tail _ hm ih => exact hm.ordered ih

theorem Reachable.ordered {n : Network κ} {c : Chronicle κ} (h : Reachable n c) :
    c.loop.Ordered := by
  obtain ⟨rule, setups, network, epoch, seed, hc⟩ := h
  exact hc.ordered Loop.ordered_start

/-! ## The event loop -/

theorem move_of_step? {n : Network κ} {c : Chronicle κ}
    {r : Run (Supervisor κ) Supervisor.Task Supervisor.Entry}
    (h : c.run.step? (Supervisor.machine n) = some r) :
    ∃ fetches, Move n c ⟨r, fetches⟩ := by
  obtain ⟨task, loop, hn, rfl⟩ := Run.next?_of_step? h
  exact ⟨_, .handle (Loop.takes_of_next? hn)⟩

theorem leads_continueWhile (n : Network κ) (limit : Option Nat) (goOn : Supervisor κ → Bool)
    (fuel : Nat) (c : Chronicle κ) :
    ∃ fetches, Leads n c
      ⟨c.run.continueWhile (Supervisor.machine n) limit goOn fuel, fetches⟩ := by
  refine Run.continueWhile_induction (P := fun r => ∃ fetches, Leads n c ⟨r, fetches⟩) ?_
    ⟨c.fetches, .refl⟩ fuel
  rintro r r' ⟨fetches, hl⟩ _ hr
  obtain ⟨more, hm⟩ := move_of_step? (c := ⟨r, fetches⟩) hr
  exact ⟨more, hl.tail hm⟩

/-- What the event loop makes of a supervisor in some time continues its chronicle. -/
theorem leads_advanceTo (n : Network κ) (fuel time : Nat) (c : Chronicle κ) :
    ∃ fetches, Leads n c ⟨c.run.advanceTo (Supervisor.machine n) fuel time, fetches⟩ := by
  obtain ⟨fetches, h⟩ := leads_continueWhile n (some time) (fun _ => true) fuel c
  exact ⟨fetches, h.tail (.elapse (Nat.le_max_left _ _))⟩

end Chronicle

end TargetDiscovery
