import TargetDiscovery.Web.Server

/-!
# A query server by itself

A query server over stores that are published to at set times, without pollers behind them.
-/

set_option autoImplicit false

namespace TargetDiscovery.Web

structure Standalone where
  catalog : Catalog
  server : Server

namespace Standalone

inductive Task
  | publish (store : Nat) (snapshot : Option Snapshot)
  | stop
  | server (task : Server.Task)
  deriving DecidableEq

abbrev Orders := List (Order Task Server.Entry)

def ofServer : Order Server.Task Server.Entry → Order Task Server.Entry :=
  Order.map Task.server id

def accept (s : Standalone) (change : Server × Server.Orders) : Standalone × Orders :=
  ({ s with server := change.1 }, change.2.map ofServer)

def publish (s : Standalone) (store : Nat) (snapshot : Option Snapshot) : Standalone :=
  { s with catalog := s.catalog.modify store fun t => (t.publish snapshot).2 }

def handle (now : Nat) (s : Standalone) : Task → Standalone × Orders
  | .publish store snapshot => (s.publish store snapshot, [])
  | .stop => s.accept s.server.stop
  | .server task =>
    s.accept (s.server.handle (Answer.answer s.catalog SortedMap.empty) now task)

def machine : Machine Standalone Task Server.Entry := ⟨handle⟩

def start (plan : List (Timer Task)) (stopAt : Nat) (s : Standalone) : Standalone × Orders :=
  let (s, orders) := s.accept s.server.start
  (s, (plan.map fun t => .after t.due t.task) ++ .after stopAt .stop :: orders)

end Standalone

end TargetDiscovery.Web
