import TargetDiscovery.Web.Session

/-!
# The query server

The server accepts clients one after the other and leaves each of them to a session of its own. A
request to stop closes the listener, so that nobody is accepted any more; sessions end with the
first request that they answer after it.
-/

set_option autoImplicit false

namespace TargetDiscovery.Web

/-- What a client does: the time from which it can be accepted, the error that accepting it ends
with, and its calls. -/
structure Visit where
  due : Nat
  error : Option Bytes
  calls : List Call
  deriving DecidableEq, Repr

structure Server where
  port : Nat
  stopping : Bool
  isOpen : Bool
  isWaiting : Bool
  visits : List Visit
  taken : Nat
  sessions : List Session
  deriving DecidableEq, Repr

namespace Server

def new (port : Nat) (visits : List Visit) : Server :=
  { port := port
    stopping := false
    isOpen := true
    isWaiting := false
    visits := visits
    taken := 0
    sessions := visits.map fun v => ⟨v.calls⟩ }

inductive Task
  | accept
  | arrived
  | canceled
  | close
  | session (visit : Nat) (task : Session.Task)
  deriving DecidableEq, Repr

inductive Entry
  | line (l : LogLine)
  | accepted (visit : Nat)
  | session (visit : Nat) (entry : Session.Entry)

namespace Entry

def line? : Entry → Option LogLine
  | line l => some l
  | session _ (.line l) => some l
  | _ => none

def ofVisit? (visit : Nat) : Entry → Option Session.Entry
  | session v e => if v = visit then some e else none
  | _ => none

def accepts (visit : Nat) : Entry → Bool
  | accepted v => v == visit
  | _ => false

end Entry

abbrev Orders := List (Order Task Entry)

def lastLine : Order Task Entry := .emit (.line ⟨.info, ascii "query server stopped accepting"⟩)

def await (s : Server) (now : Nat) : Server × Orders :=
  if s.stopping then (s, [lastLine])
  else
    ({ s with isWaiting := true },
      match s.visits[s.taken]? with
      | some v => [.after (v.due - now) .arrived]
      | none => [])

def takeUp (s : Server) (now : Nat) (v : Visit) : Server × Orders :=
  let next := { s with isWaiting := false, taken := s.taken + 1 }
  match v.error with
  | some reason =>
    if reason = Session.canceled ∨ !s.isOpen then (next, [lastLine])
    else
      let (next, orders) := next.await now
      (next, .emit (.line ⟨.warning, ascii "accept failed: " ++ reason⟩) :: orders)
  | none =>
    let (next, orders) := next.await now
    (next, .emit (.accepted s.taken) :: .post (.session s.taken .read) :: orders)

def ofSession (visit : Nat) : Order Session.Task Session.Entry → Order Task Entry :=
  Order.map (Task.session visit) (Entry.session visit)

def handleSession (answer : Bytes → Bytes → Answer) (now : Nat) (s : Server) (visit : Nat)
    (task : Session.Task) : Server × Orders :=
  match s.sessions[visit]? with
  | some session =>
    let (session, orders) := session.handle answer s.stopping now task
    ({ s with sessions := s.sessions.set visit session }, orders.map (ofSession visit))
  | none => (s, [])

/-- What breaks off the wait for a client: the timer of the next one, if one is to come. -/
def breakOff (s : Server) : Orders :=
  if s.taken < s.visits.length then [.cancel .arrived .canceled] else [.post .canceled]

/-- Handles a task; `answer` gives the answer to a method and a target. -/
def handle (answer : Bytes → Bytes → Answer) (now : Nat) (s : Server) : Task → Server × Orders
  | .accept => s.await now
  | .arrived =>
    match s.visits[s.taken]? with
    | some v => s.takeUp now v
    | none => (s, [])
  | .canceled => ({ s with isWaiting := false }, [lastLine])
  | .close =>
    ({ s with isOpen := false }, if s.isOpen && s.isWaiting then s.breakOff else [])
  | .session visit task => s.handleSession answer now visit task

def start (s : Server) : Server × Orders :=
  (s, [.emit (.line ⟨.info, ascii "query server listening on port " ++ Bytes.decimal s.port⟩),
    .post .accept])

def stop (s : Server) : Server × Orders := ({ s with stopping := true }, [.post .close])

end Server

/-! ## Visits at their end -/

/-- What became of a visit: whether it was accepted, when its session closed, and the responses that
reached the client. -/
structure Stay where
  accepted : Bool
  closedAt : Option Nat
  responses : List (Stamped Response)

namespace Stay

def ofJournal (journal : List (Stamped Server.Entry)) (visit : Nat) : Stay :=
  let session := Stamped.choose (Server.Entry.ofVisit? visit) journal
  { accepted := journal.any fun e => e.entry.accepts visit
    closedAt := (session.find? fun e => e.entry.isClosed).map Stamped.time
    responses := Stamped.choose Session.Entry.delivered? session }

end Stay

end TargetDiscovery.Web
