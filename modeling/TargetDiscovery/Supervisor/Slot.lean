import TargetDiscovery.Poller

/-!
# Instances under supervision

An instance under supervision is a poller together with what its restarts need. A poller whose loop
ends with a fault is started again after a delay, up to a number of times; after that the instance
is degraded and keeps its last snapshot. What an instance makes of a task depends on the instance,
on the rule for restarts and on whether a stop was requested, and on nothing of other instances.
-/

set_option autoImplicit false

namespace TargetDiscovery

/-- How far an instance has come: its loop runs, its restart is waited for, or neither any more. -/
inductive Life
  | fresh | running | waiting | ended
  deriving DecidableEq, Repr, Inhabited

namespace Life

def isActive : Life → Bool
  | running | waiting => true
  | fresh | ended => false

end Life

structure Slot where
  poller : Poller
  restartBackoff : Backoff
  restarts : Nat
  degraded : Bool
  life : Life
  endings : Nat

inductive SlotTask
  | poll (task : Poller.Task)
  | restart
  /-- A restart is no longer waited for. -/
  | restartDropped
  | dropRestart
  deriving DecidableEq

namespace Slot

abbrev Orders := List (Order SlotTask Mark)

structure Turn where
  slot : Slot
  orders : Orders := []
  marks : List Mark := []
  asked : Option (UInt64 × Nat) := none
  /-- A restart to be counted; it is true when the instance is given up instead. -/
  restarted : Option Bool := none
  ended : Bool := false

namespace Turn

def behind (orders : Orders) (u : Turn) : Turn := { u with orders := orders ++ u.orders }

end Turn

def new (setup : Setup) (rule : RestartRule) (seed : UInt64) : Slot :=
  { poller := Poller.new setup (Store.new setup.name) seed
    restartBackoff := Backoff.start rule.policy seed
    restarts := 0
    degraded := false
    life := .fresh
    endings := 0 }

def name (s : Slot) : Bytes := s.poller.setup.name

def requestStop (s : Slot) : Slot := { s with poller := s.poller.requestStop }

def report (s : Slot) (level : LogLevel) (text : Bytes) : Order SlotTask Mark :=
  .emit (.line ⟨level, s.name ++ ascii ": " ++ text⟩)

def launch : Order SlotTask Mark := .post (.poll .begin)

def finish (s : Slot) : Turn :=
  { slot := { s with life := .ended, endings := s.endings + 1 }, ended := true }

/-! ## The end of a loop -/

def degrade (rule : RestartRule) (s : Slot) : Turn :=
  { { s with degraded := true }.finish with
    restarted := some true
    orders := [s.report .critical (ascii "restart limit (" ++ Bytes.decimal rule.limit ++
      ascii ") reached, instance degraded; serving last snapshot")] }

def scheduleRestart (s : Slot) : Turn :=
  let (delay, backoff) := s.restartBackoff.next
  { slot := { s with restartBackoff := backoff, restarts := s.restarts + 1, life := .waiting }
    restarted := some false
    orders := [.after delay.toInt.toNat .restart] }

/-- What becomes of an instance whose loop has ended. -/
def onExit (rule : RestartRule) (stopping : Bool) (s : Slot) : Option Fault → Turn
  | none => s.finish.behind [s.report .info (ascii "poller stopped")]
  | some fault =>
    .behind [s.report .critical (ascii "poller failed: " ++ fault.text)] <|
      if stopping then s.finish
      else if rule.limit ≤ s.restarts then s.degrade rule
      else s.scheduleRestart

/-! ## Tasks -/

def afterReaction (rule : RestartRule) (stopping : Bool) (s : Slot) : Poller.Next → Turn
  | .exited fault => s.onExit rule stopping fault
  | next => { slot := s, asked := next.asked? }

/-- Takes over the reaction of the poller; `ask` answers its fetches. -/
def accept (rule : RestartRule) (stopping : Bool) (ask : UInt64 × Nat → Reply) (s : Slot)
    (r : Poller.Reaction) : Turn :=
  let orders := r.marks.map Order.emit ++ r.next.orders (r.next.asked?.map ask)
  { (afterReaction rule stopping { s with poller := r.poller } r.next).behind
      (orders.map (Order.map .poll id)) with marks := r.marks }

def restart (rule : RestartRule) (s : Slot) : Turn :=
  if s.poller.stopRequested then s.finish
  else
    { slot := { s with life := .running }
      orders :=
        [s.report .warning (ascii "restarting poller (restart " ++
            Bytes.decimal s.restarts ++ ascii "/" ++ Bytes.decimal rule.limit ++ ascii ")"),
          launch] }

/-- What an instance makes of a task at a time. -/
def turn (rule : RestartRule) (stopping : Bool) (time : Int) (ask : UInt64 × Nat → Reply)
    (s : Slot) : SlotTask → Turn
  | .poll task => s.accept rule stopping ask (s.poller.react time task)
  | .restart => s.restart rule
  | .restartDropped => s.finish
  | .dropRestart => { slot := s, orders := [.cancel .restart .restartDropped] }

def startOrders (s : Slot) : Orders :=
  [s.report .info (ascii "starting poller (interval " ++
      Bytes.decimal s.poller.setup.timing.interval ++ ascii " ms)"),
    launch]

def stopOrders : Orders := [.post (.poll .interrupt), .post .dropRestart]

end Slot

end TargetDiscovery
