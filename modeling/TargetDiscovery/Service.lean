import TargetDiscovery.Supervisor
import TargetDiscovery.Web.Server

/-!
# The service

The service is a supervisor and the query server over its stores, on one loop. It runs until a
signal asks it to shut down: then the server is stopped first, the supervisor second, and the loop
comes to rest when both have let go of what they had under way.
-/

set_option autoImplicit false

namespace TargetDiscovery

structure Service (κ : Type) where
  supervisor : Supervisor κ
  web : Web.Server

namespace Service

inductive Task
  | slot (task : Supervisor.Task)
  | web (task : Web.Server.Task)
  | signal (number : Nat)
  deriving DecidableEq

inductive Entry
  | slot (entry : Supervisor.Entry)
  | web (entry : Web.Server.Entry)
  | line (l : LogLine)

namespace Entry

def line? : Entry → Option LogLine
  | slot e => e.mark.line?
  | web e => e.line?
  | line l => some l

def web? : Entry → Option Web.Server.Entry
  | web e => some e
  | _ => none

end Entry

abbrev Orders := List (Order Task Entry)

variable {κ : Type}

def ofSupervisor (s : Service κ) (change : Supervisor κ × Supervisor.Orders) :
    Service κ × Orders :=
  ({ s with supervisor := change.1 }, change.2.map (Order.map .slot .slot))

def ofWeb (s : Service κ) (change : Web.Server × Web.Server.Orders) : Service κ × Orders :=
  ({ s with web := change.1 }, change.2.map (Order.map .web .web))

def answer (s : Service κ) (method target : Bytes) : Answer :=
  Answer.answer s.supervisor.catalog s.supervisor.ledger method target

def shutDown (s : Service κ) (signal : Nat) : Service κ × Orders :=
  let line : LogLine :=
    ⟨.info, ascii "signal " ++ Bytes.decimal signal ++ ascii " received, shutting down"⟩
  let (s, first) := s.ofWeb s.web.stop
  let (s, second) := s.ofSupervisor s.supervisor.stop
  (s, .emit (.line line) :: (first ++ second))

def handle (n : Network κ) (now : Nat) (s : Service κ) : Task → Service κ × Orders
  | .slot task => s.ofSupervisor (s.supervisor.handle n now task)
  | .web task => s.ofWeb (s.web.handle s.answer now task)
  | .signal number => s.shutDown number

def machine (n : Network κ) : Machine (Service κ) Task Entry := ⟨handle n⟩

def start (s : Service κ) : Service κ × Orders :=
  let (s, first) := s.ofSupervisor s.supervisor.start
  let (s, second) := s.ofWeb s.web.start
  (s, first ++ second)

end Service

end TargetDiscovery
