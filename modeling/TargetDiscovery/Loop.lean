import TargetDiscovery.Bytes

/-!
# The event loop

Everything that takes time runs on one loop. A task is handled at once and to its end; a handler
may post tasks, set timers and cancel them. Posted tasks run first in, first out before the clock
moves; then the earliest timer runs, in the order of setting where two are due together. Time is
counted in milliseconds.
-/

set_option autoImplicit false

namespace TargetDiscovery

structure Timer (τ : Type) where
  due : Nat
  task : τ
  deriving DecidableEq, Repr

inductive Order (τ ε : Type)
  | post (task : τ)
  | after (delay : Nat) (task : τ)
  /-- Drops the timers of a task, and posts another task for each. -/
  | cancel (task : τ) (aborted : τ)
  | emit (entry : ε)

namespace Order

variable {τ τ' ε ε' : Type}

def map (f : τ → τ') (g : ε → ε') : Order τ ε → Order τ' ε'
  | post t => post (f t)
  | after d t => after d (f t)
  | cancel t a => cancel (f t) (f a)
  | emit e => emit (g e)

end Order

/-- The clock, the tasks to be handled now, and the timers in the order in which they run. -/
structure Loop (τ : Type) where
  now : Nat
  ready : List τ
  timers : List (Timer τ)
  deriving Repr

namespace Loop

variable {τ : Type}

def start : Loop τ := ⟨0, [], []⟩

/-- Puts a timer behind those that are due no later. -/
def insertTimer (t : Timer τ) : List (Timer τ) → List (Timer τ)
  | [] => [t]
  | u :: rest => if u.due ≤ t.due then u :: insertTimer t rest else t :: u :: rest

def post (l : Loop τ) (task : τ) : Loop τ := { l with ready := l.ready ++ [task] }

def after (l : Loop τ) (delay : Nat) (task : τ) : Loop τ :=
  { l with timers := insertTimer ⟨l.now + delay, task⟩ l.timers }

/-- Drops the timers of a task and posts `aborted` for each. -/
def cancel [DecidableEq τ] (l : Loop τ) (task aborted : τ) : Loop τ :=
  { l with
    ready := l.ready ++ (l.timers.filter fun t => t.task = task).map fun _ => aborted
    timers := l.timers.filter fun t => t.task ≠ task }

/-- Takes the next task, moving the clock to its time if it is a timer's. -/
def next? (l : Loop τ) : Option (τ × Loop τ) :=
  match l.ready with
  | task :: rest => some (task, { l with ready := rest })
  | [] =>
    match l.timers with
    | t :: rest => some (t.task, { l with now := max l.now t.due, timers := rest })
    | [] => none

def nextTime? (l : Loop τ) : Option Nat :=
  match l.ready with
  | _ :: _ => some l.now
  | [] => l.timers.head?.map fun t => max l.now t.due

end Loop

/-- A state, what becomes of it in handling a task at a time, and the orders that this gives. -/
structure Machine (σ τ ε : Type) where
  handle : Nat → σ → τ → σ × List (Order τ ε)

structure Stamped (ε : Type) where
  time : Nat
  entry : ε
  deriving DecidableEq, Repr

namespace Stamped

def choose {ε ε' : Type} (f : ε → Option ε') (l : List (Stamped ε)) : List (Stamped ε') :=
  l.filterMap fun e => (f e.entry).map fun x => ⟨e.time, x⟩

end Stamped

/-- A state on a loop, and the journal of what happened, the latest entry first. -/
structure Run (σ τ ε : Type) where
  loop : Loop τ
  state : σ
  journal : List (Stamped ε)

namespace Run

variable {σ τ ε : Type} [DecidableEq τ]

def start (state : σ) : Run σ τ ε := ⟨Loop.start, state, []⟩

def obey (r : Run σ τ ε) : Order τ ε → Run σ τ ε
  | .post t => { r with loop := r.loop.post t }
  | .after d t => { r with loop := r.loop.after d t }
  | .cancel t a => { r with loop := r.loop.cancel t a }
  | .emit e => { r with journal := ⟨r.loop.now, e⟩ :: r.journal }

def obeyAll (r : Run σ τ ε) (orders : List (Order τ ε)) : Run σ τ ε := orders.foldl obey r

def command (r : Run σ τ ε) (change : σ → σ × List (Order τ ε)) : Run σ τ ε :=
  let (state, orders) := change r.state
  { r with state := state }.obeyAll orders

def step? (m : Machine σ τ ε) (r : Run σ τ ε) : Option (Run σ τ ε) :=
  match r.loop.next? with
  | some (task, loop) => some ({ r with loop := loop }.command fun s => m.handle loop.now s task)
  | none => none

/-- Handles tasks as long as the next one is due by `limit` and `goOn` holds; `fuel` bounds their
number. -/
def continueWhile (m : Machine σ τ ε) (limit : Option Nat) (goOn : σ → Bool) :
    Nat → Run σ τ ε → Run σ τ ε
  | 0, r => r
  | fuel + 1, r =>
    match r.loop.nextTime? with
    | none => r
    | some time =>
      if goOn r.state && limit.all fun l => time ≤ l then
        match r.step? m with
        | some r => continueWhile m limit goOn fuel r
        | none => r
      else r

def advanceTo (m : Machine σ τ ε) (fuel time : Nat) (r : Run σ τ ε) : Run σ τ ε :=
  let r := continueWhile m (some time) (fun _ => true) fuel r
  { r with loop := { r.loop with now := max r.loop.now time } }

def settle (m : Machine σ τ ε) (fuel : Nat) (r : Run σ τ ε) : Run σ τ ε :=
  advanceTo m fuel r.loop.now r

def drain (m : Machine σ τ ε) (fuel : Nat) (r : Run σ τ ε) : Run σ τ ε :=
  continueWhile m none (fun _ => true) fuel r

def entriesSince (r : Run σ τ ε) (count : Nat) : List (Stamped ε) :=
  (r.journal.take (r.journal.length - count)).reverse

end Run

end TargetDiscovery
