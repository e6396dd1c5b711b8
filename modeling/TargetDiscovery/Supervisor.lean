import TargetDiscovery.Catalog
import TargetDiscovery.Registry.Network
import TargetDiscovery.Supervisor.Slot

/-!
# The supervisor

The supervisor runs one poller for each instance and lets each of them take its turns. A request to
stop reaches every poller and every restart that is waited for. The supervisor counts the instances
that are still active.
-/

set_option autoImplicit false

namespace TargetDiscovery

structure Supervisor (κ : Type) where
  rule : RestartRule
  slots : List Slot
  /-- The number of instances that have not come to their end since the start. -/
  active : Nat
  started : Bool
  stopping : Bool
  ledger : Ledger
  network : κ
  /-- The time of the epoch at which the clock of the loop started. -/
  epoch : Int

namespace Supervisor

structure Task where
  slot : Nat
  task : SlotTask
  deriving DecidableEq

/-- A mark of the instance at a position, or of none. -/
structure Entry where
  slot : Option Nat
  mark : Mark
  deriving DecidableEq, Repr

abbrev Orders := List (Order Task Entry)

variable {κ : Type}

def new (rule : RestartRule) (setups : List Setup) (network : κ) (epoch : Int) (seed : UInt64) :
    Supervisor κ :=
  { rule := rule
    slots := setups.map fun s => Slot.new s rule seed
    active := 0
    started := false
    stopping := false
    ledger := SortedMap.empty
    network := network
    epoch := epoch }

def catalog (s : Supervisor κ) : Catalog := s.slots.map fun slot => slot.poller.store

def ordersOf (i : Nat) (orders : Slot.Orders) : Orders :=
  orders.map (Order.map (⟨i, ·⟩) (⟨some i, ·⟩))

def count (l : Ledger) (name : Bytes) (u : Slot.Turn) : Ledger :=
  let l := l.recordAll u.marks
  match u.restarted with
  | some degraded => l.recordRestart name degraded
  | none => l

/-- Takes over the turn of the instance at a position. -/
def accept (n : Network κ) (s : Supervisor κ) (i : Nat) (u : Slot.Turn) : Supervisor κ × Orders :=
  ({ s with
      slots := s.slots.set i u.slot
      active := if u.ended then s.active - 1 else s.active
      ledger := count s.ledger u.slot.name u
      network :=
        match u.asked with
        | some (since, timeout) => (n.ask s.network i since timeout).2
        | none => s.network },
    ordersOf i u.orders)

/-- What the instance at a position makes of a task. -/
def turn (n : Network κ) (now : Nat) (s : Supervisor κ) (i : Nat) (slot : Slot) (t : SlotTask) :
    Slot.Turn :=
  slot.turn s.rule s.stopping (s.epoch + now)
    (fun (since, timeout) => (n.ask s.network i since timeout).1) t

def handle (n : Network κ) (now : Nat) (s : Supervisor κ) (t : Task) : Supervisor κ × Orders :=
  match s.slots[t.slot]? with
  | some slot => s.accept n t.slot (s.turn n now t.slot slot t.task)
  | none => (s, [])

def machine (n : Network κ) : Machine (Supervisor κ) Task Entry := ⟨handle n⟩

/-! ## Commands -/

def start (s : Supervisor κ) : Supervisor κ × Orders :=
  if s.started || s.stopping then (s, [])
  else
    ({ s with
        started := true
        active := s.slots.length
        slots := s.slots.map fun slot => { slot with life := .running } },
      (s.slots.mapIdx fun i slot => ordersOf i slot.startOrders).flatten)

def stopEntry (s : Supervisor κ) : Entry :=
  ⟨none, .line ⟨.info, ascii "supervisor: stopping " ++ Bytes.decimal s.slots.length ++
    ascii " pollers"⟩⟩

def stop (s : Supervisor κ) : Supervisor κ × Orders :=
  if s.stopping then (s, [])
  else
    ({ s with stopping := true, slots := s.slots.map Slot.requestStop },
      .emit (stopEntry s) :: (s.slots.mapIdx fun i _ => ordersOf i Slot.stopOrders).flatten)

def isDone (s : Supervisor κ) : Bool := s.active == 0

/-! ## Instances by name -/

def find? (s : Supervisor κ) (name : Bytes) : Option Slot := s.slots.find? fun slot => slot.name == name

def restarts (s : Supervisor κ) (name : Bytes) : Nat := ((s.find? name).map Slot.restarts).getD 0

def isDegraded (s : Supervisor κ) (name : Bytes) : Bool :=
  ((s.find? name).map Slot.degraded).getD false

end Supervisor

end TargetDiscovery
