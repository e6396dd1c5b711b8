import TargetDiscovery.Poller
import TargetDiscovery.Registry.Network

/-!
# A poller by itself

One poller on a loop, with the network that answers it and the counters it moves. It runs single
cycles, or its own loop until that ends.
-/

set_option autoImplicit false

namespace TargetDiscovery

structure Solo (κ : Type) where
  poller : Poller
  ledger : Ledger
  network : κ
  /-- The time of the epoch at which the clock of the loop started. -/
  epoch : Int
  result : Option (Except Fault Outcome)
  exit : Option (Option Fault)

namespace Solo

variable {κ : Type}

def new (poller : Poller) (network : κ) (epoch : Int) : Solo κ :=
  { poller := poller, ledger := SortedMap.empty, network := network, epoch := epoch
    result := none, exit := none }

def consult (n : Network κ) (network : κ) : Poller.Next → Option Reply × κ
  | .fetch _ since timeout =>
    let (reply, network) := n.ask network 0 since timeout
    (some reply, network)
  | _ => (none, network)

/-- Takes over the reaction of the poller. -/
def accept (n : Network κ) (s : Solo κ) (r : Poller.Reaction) :
    Solo κ × List (Order Poller.Task Mark) :=
  let (reply, network) := consult n s.network r.next
  let s := { s with poller := r.poller, ledger := s.ledger.recordAll r.marks, network := network }
  let s :=
    match r.next with
    | .finished result => { s with result := some result }
    | .exited fault => { s with exit := some fault }
    | _ => s
  (s, r.marks.map Order.emit ++ r.next.orders reply)

def machine (n : Network κ) : Machine (Solo κ) Poller.Task Mark where
  handle now s task := s.accept n (s.poller.react (s.epoch + now) task)

def start (s : Solo κ) : Solo κ × List (Order Poller.Task Mark) :=
  (s, [.post .begin])

def beginCycle (s : Solo κ) : Solo κ × List (Order Poller.Task Mark) :=
  ({ s with result := none }, [.post .once])

def stop (s : Solo κ) : Solo κ × List (Order Poller.Task Mark) :=
  ({ s with poller := s.poller.requestStop }, [.post .interrupt])

/-- Whether a single cycle is still to end. -/
def isOpen (s : Solo κ) : Bool := s.result.isNone

end Solo

end TargetDiscovery
