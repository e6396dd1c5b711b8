import Mathlib.Logic.Relation
import TargetDiscovery.Web.Server
import TargetDiscovery.Proofs.Clock

/-!
# Connections

The course of a query server on its loop is what comes of it by a start or a stop at any moment, by
tasks handled in any order, and by the clock; the catalog and the ledger that requests are answered
from may be others each time. The connection of a visit is its part of such a course: its session,
the tasks of it on the loop, and its journal, with a history of the tasks handled, the reads begun
and the stops. What the server does otherwise moves a connection only in that the visit is
accepted or passed over.
-/

set_option autoImplicit false

namespace TargetDiscovery.Web

namespace Session

/-- What happens to a session: a stop of the server, or that it begins to read, or handles a task
with what there is to answer a request from. -/
inductive Note
  | stops
  | reads
  | handles (catalog : Catalog) (ledger : Ledger) (task : Task)

def wait? : Order Task Entry → Option Note
  | .after _ _ => some .reads
  | _ => none

/-- What is noted when a task is handled: the task, and behind it each wait for a request. -/
def notesOf (catalog : Catalog) (ledger : Ledger) (task : Task) (orders : Orders) : List Note :=
  orders.filterMap wait? ++ [.handles catalog ledger task]

end Session

namespace Server

/-- What happens to one visit, or to all. -/
structure Note where
  visit : Option Nat
  note : Session.Note

def Note.own (i : Nat) (n : Note) : Option Session.Note :=
  match n.visit with
  | some j => if j = i then some n.note else none
  | none => some n.note

/-- What happened to the visit at a position. -/
def historyOf (i : Nat) (h : List (Stamped Note)) : List (Stamped Session.Note) :=
  Stamped.choose (Note.own i) h

theorem historyOf_append (i : Nat) (h more : List (Stamped Note)) :
    historyOf i (h ++ more) = historyOf i h ++ historyOf i more := List.filterMap_append

def handled? (catalog : Catalog) (ledger : Ledger) : Task → Option Note
  | .session i task => some ⟨some i, .handles catalog ledger task⟩
  | _ => none

def wait? : Order Task Entry → Option Note
  | .after _ (.session i _) => some ⟨some i, .reads⟩
  | _ => none

def notesOf (catalog : Catalog) (ledger : Ledger) (task : Task) (orders : Orders) : List Note :=
  orders.filterMap wait? ++ (handled? catalog ledger task).toList

/-! ## Courses -/

abbrev Work := Run Server Task Entry

def begin (port : Nat) (visits : List Visit) : Work := Run.start (new port visits)

/-- The work after a task that was taken from the loop, which is `loop` then. -/
def handling (catalog : Catalog) (ledger : Ledger) (r : Work) (task : Task) (loop : Loop Task) :
    Work :=
  (r.onLoop loop).command fun s => s.handle (Answer.answer catalog ledger) loop.now task

def waiting (r : Work) (now : Nat) : Work := r.onLoop { r.loop with now := now }

/-- One move of a server, with what is to be noted of it. -/
inductive Tick (r : Work) : List (Stamped Note) → Work → Prop
  | start : Tick r [] (r.command start)
  | stop : Tick r [⟨r.loop.now, ⟨none, .stops⟩⟩] (r.command stop)
  | handle {task : Task} {loop : Loop Task} (h : r.loop.Takes task loop) (catalog : Catalog)
      (ledger : Ledger) :
      Tick r
        ((notesOf catalog ledger task
          (r.state.handle (Answer.answer catalog ledger) loop.now task).2).map
            (Stamped.mk loop.now))
        (handling catalog ledger r task loop)
  | elapse {now : Nat} (h : r.loop.now ≤ now) : Tick r [] (waiting r now)

/-- The course from one work to another, with what happened on the way, the latest first. -/
def Course : Work → List (Stamped Note) → Work → Prop := Traced Tick

theorem Tick.ordered {r r' : Work} {h : List (Stamped Note)} (ht : Tick r h r')
    (ho : r.loop.Ordered) : r'.loop.Ordered := by
  cases ht with
  | start => exact Run.ordered_command ho Server.start
  | stop => exact Run.ordered_command ho Server.stop
  | @handle task loop ht catalog ledger =>
    have htaken : (r.onLoop loop).loop.Ordered := ht.ordered ho
    exact Run.ordered_command htaken _
  | elapse => exact ho

theorem Course.ordered {r r' : Work} {h : List (Stamped Note)} (hc : Course r h r')
    (ho : r.loop.Ordered) : r'.loop.Ordered := by
  induction hc with
  | refl => exact ho
  | tail _ ht ih => exact ht.ordered ih

/-! ## The part of a visit -/

def Task.ofVisit (i : Nat) : Task → Option Session.Task
  | session j task => if j = i then some task else none
  | _ => none

theorem Task.ofVisit_injective (i : Nat) (t u : Task) (x : Session.Task)
    (ht : t.ofVisit i = some x) (hu : u.ofVisit i = some x) : t = u := by
  cases t with
  | session j a =>
    cases u with
    | session k b => simp_all [ofVisit]
    | _ => cases hu
  | _ => cases ht

abbrev ownOrder (i : Nat) : Order Task Entry → Option (Order Session.Task Session.Entry) :=
  Loop.chooseOrder (Task.ofVisit i) (Entry.ofVisit? i)

theorem ownOrder_ofSession (i : Nat) (orders : Session.Orders) :
    (orders.map (ofSession i)).filterMap (ownOrder i) = orders :=
  Loop.chooseOrder_map_part (fun t => by simp [Task.ofVisit]) (fun e => by simp [Entry.ofVisit?])
    orders

/-- The order does not concern the visit at a position. -/
def Foreign (i : Nat) : Order Task Entry → Prop
  | .post t | .after _ t => t.ofVisit i = none
  | .cancel t a => t.ofVisit i = none ∧ a.ofVisit i = none
  | .emit e => e.ofVisit? i = none ∧ e.accepts i = false

theorem Foreign.splits {i : Nat} {o : Order Task Entry} (h : Foreign i o) :
    Loop.Splits (Task.ofVisit i) o := by
  cases o with
  | cancel t a => simp [Loop.Splits, h.1, h.2]
  | _ => trivial

theorem Foreign.own {i : Nat} {o : Order Task Entry} (h : Foreign i o) : ownOrder i o = none := by
  cases o with
  | post t | after d t =>
    have ht : t.ofVisit i = none := h
    simp [Loop.chooseOrder, ht]
  | cancel t a => simp [Loop.chooseOrder, h.1]
  | emit e => simpa [Loop.chooseOrder] using h.1

theorem foreign_ofSession {i j : Nat} (hj : j ≠ i) (orders : Session.Orders) :
    ∀ o ∈ orders.map (ofSession j), Foreign i o := by
  intro o ho
  obtain ⟨p, _, rfl⟩ := List.mem_map.mp ho
  cases p with
  | post t => simp [ofSession, Order.map, Foreign, Task.ofVisit, hj]
  | after d t => simp [ofSession, Order.map, Foreign, Task.ofVisit, hj]
  | cancel t a => simp [ofSession, Order.map, Foreign, Task.ofVisit, hj]
  | emit e => simp [ofSession, Order.map, Foreign, Entry.ofVisit?, Entry.accepts, hj]

theorem own_of_foreign {i : Nat} {orders : Orders} (h : ∀ o ∈ orders, Foreign i o) :
    orders.filterMap (ownOrder i) = [] :=
  List.filterMap_eq_nil_iff.mpr fun o ho => (h o ho).own

theorem not_accepts_of_foreign {i : Nat} {orders : Orders} (h : ∀ o ∈ orders, Foreign i o) :
    (orders.filterMap Run.emitted?).any (fun e => e.accepts i) = false := by
  rw [List.any_eq_false]
  intro e he
  obtain ⟨o, ho, hoe⟩ := List.mem_filterMap.mp he
  cases o with
  | emit x =>
    obtain rfl := Option.some.inj hoe
    exact Bool.not_eq_true _ ▸ (h _ ho).2
  | _ => cases hoe

theorem historyOf_now (i now : Nat) (notes : List Note) :
    historyOf i (notes.map (Stamped.mk now)) =
      (notes.filterMap (Note.own i)).map (Stamped.mk now) := by
  rw [historyOf, Stamped.choose, List.filterMap_map, List.map_filterMap]
  rfl

theorem Foreign.not_wait {i : Nat} {o : Order Task Entry} (h : Foreign i o) :
    (wait? o).bind (Note.own i) = none := by
  cases o with
  | after d t =>
    cases t with
    | session j t => simpa [Foreign, Task.ofVisit, wait?, Note.own] using h
    | _ => rfl
  | _ => rfl

theorem own_notesOf_other {i : Nat} {task : Task} {orders : Orders} (ht : task.ofVisit i = none)
    (h : ∀ o ∈ orders, (wait? o).bind (Note.own i) = none) (catalog : Catalog)
    (ledger : Ledger) : (notesOf catalog ledger task orders).filterMap (Note.own i) = [] := by
  have hhandled : (handled? catalog ledger task).toList.filterMap (Note.own i) = [] := by
    cases task with
    | session j t =>
      have hj : j ≠ i := by simpa [Task.ofVisit] using ht
      simp [handled?, Note.own, hj]
    | _ => rfl
  rw [notesOf, List.filterMap_append, hhandled, List.filterMap_filterMap, List.append_nil]
  exact List.filterMap_eq_nil_iff.mpr h

theorem own_notesOf_session (i : Nat) (task : Session.Task) (orders : Session.Orders)
    (catalog : Catalog) (ledger : Ledger) :
    (notesOf catalog ledger (.session i task) (orders.map (ofSession i))).filterMap (Note.own i) =
      Session.notesOf catalog ledger task orders := by
  have hwait : (fun o => (wait? (ofSession i o)).bind (Note.own i)) = Session.wait? := by
    funext o
    cases o with
    | after d t => simp [ofSession, Order.map, wait?, Session.wait?, Note.own]
    | _ => rfl
  rw [notesOf, Session.notesOf, List.filterMap_append, List.filterMap_filterMap,
    List.filterMap_map]
  congr 1
  · exact congrArg (fun f => orders.filterMap f) hwait
  · simp [handled?, Note.own]

end Server

/-- The part of a course that belongs to one visit: its session on the loop, what happened to it,
whether the server is stopping, and whether the visit is over for the listener and was accepted. -/
structure Connection where
  run : Run Session Session.Task Session.Entry
  history : List (Stamped Session.Note)
  stopping : Bool
  passed : Bool
  accepted : Bool

namespace Connection

def fresh (calls : List Call) : Connection := ⟨Run.start ⟨calls⟩, [], false, false, false⟩

def accepting (c : Connection) : Connection :=
  { c with run := c.run.obey (.post .read), passed := true, accepted := true }

def stopped (c : Connection) : Connection :=
  { c with history := ⟨c.run.loop.now, .stops⟩ :: c.history, stopping := true }

/-- The connection after a task that was taken from the loop, which is `loop` then. -/
def handling (catalog : Catalog) (ledger : Ledger) (c : Connection) (task : Session.Task)
    (loop : Loop Session.Task) : Connection :=
  let change (s : Session) := s.handle (Answer.answer catalog ledger) c.stopping loop.now task
  { c with
    run := (c.run.onLoop loop).command change
    history := (Session.notesOf catalog ledger task (change c.run.state).2).map
      (Stamped.mk loop.now) ++ c.history }

def waiting (c : Connection) (now : Nat) : Connection :=
  { c with run := c.run.onLoop { c.run.loop with now := now } }

/-- One move of a connection. -/
inductive Goes (c : Connection) : Connection → Prop
  | pass (h : c.passed = false) : Goes c { c with passed := true }
  | accept (h : c.passed = false) : Goes c c.accepting
  | stop : Goes c c.stopped
  | handle {task : Session.Task} {loop : Loop Session.Task} (h : c.run.loop.Takes task loop)
      (catalog : Catalog) (ledger : Ledger) : Goes c (c.handling catalog ledger task loop)
  | elapse {now : Nat} (h : c.run.loop.now ≤ now) : Goes c (c.waiting now)

/-- The second connection continues the first one. -/
def Leads : Connection → Connection → Prop := Relation.ReflTransGen Goes

end Connection

namespace Server

def connection? (i : Nat) (h : List (Stamped Note)) (r : Work) : Option Connection :=
  r.state.sessions[i]?.map fun session =>
    { run := r.choose (Task.ofVisit i) (Entry.ofVisit? i) session
      history := historyOf i h
      stopping := r.state.stopping
      passed := i < r.state.taken
      accepted := r.journal.any fun e => e.entry.accepts i }

/-- What a command makes of a connection. -/
theorem connection?_command {r : Work} (ho : r.loop.Ordered) {i : Nat}
    (change : Server → Server × Orders)
    (hs : ∀ o ∈ (change r.state).2, Loop.Splits (Task.ofVisit i) o) {session : Session}
    (hsession : (change r.state).1.sessions[i]? = some session) (h : List (Stamped Note)) :
    connection? i h (r.command change) = some
      { run := (r.choose (Task.ofVisit i) (Entry.ofVisit? i) session).obeyAll
          ((change r.state).2.filterMap (ownOrder i))
        history := historyOf i h
        stopping := (change r.state).1.stopping
        passed := i < (change r.state).1.taken
        accepted := ((change r.state).2.filterMap Run.emitted?).any (fun e => e.accepts i) ||
          r.journal.any fun e => e.entry.accepts i } := by
  have hjournal : (r.command change).journal.any (fun e => e.entry.accepts i) =
      (((change r.state).2.filterMap Run.emitted?).any (fun e => e.accepts i) ||
        r.journal.any fun e => e.entry.accepts i) := by
    rw [Run.journal_command, List.any_append, List.any_reverse, List.any_map]
    rfl
  rw [connection?, Run.state_command, hsession, Option.map_some, hjournal,
    Run.choose_command (Task.ofVisit_injective i) (Entry.ofVisit? i) session ho change hs]

theorem connection?_eq_some {r : Work} {i : Nat} {h : List (Stamped Note)} {c : Connection}
    (hc : connection? i h r = some c) :
    r.state.sessions[i]? = some c.run.state ∧
      c.run = r.choose (Task.ofVisit i) (Entry.ofVisit? i) c.run.state ∧
      c.history = historyOf i h ∧ c.stopping = r.state.stopping ∧
      c.passed = decide (i < r.state.taken) ∧
      c.accepted = r.journal.any fun e => e.entry.accepts i := by
  obtain ⟨session, hsession, rfl⟩ := Option.map_eq_some_iff.mp hc
  exact ⟨hsession, rfl, rfl, rfl, rfl, rfl⟩

/-! ## What concerns a visit -/

/-- A change that leaves the visit at a position alone, except that it may pass over it. -/
structure Aside (i : Nat) (s : Server) (change : Server × Orders) : Prop where
  sessions : change.1.sessions[i]? = s.sessions[i]?
  stopping : change.1.stopping = s.stopping
  foreign : ∀ o ∈ change.2, Foreign i o

/-- The wait for a client changes nothing but that there is one. -/
theorem await_eq (s : Server) (now : Nat) :
    (s.await now).1.sessions = s.sessions ∧ (s.await now).1.stopping = s.stopping ∧
      (s.await now).1.taken = s.taken := by
  rw [await]
  split
  · exact ⟨rfl, rfl, rfl⟩
  · exact ⟨rfl, rfl, rfl⟩

theorem foreign_await (i : Nat) (s : Server) (now : Nat) : ∀ o ∈ (s.await now).2, Foreign i o := by
  intro o ho
  rw [await] at ho
  split at ho
  · obtain rfl := List.mem_singleton.mp ho
    exact ⟨rfl, rfl⟩
  · simp only at ho
    split at ho
    · obtain rfl := List.mem_singleton.mp ho
      rfl
    · cases ho

theorem foreign_breakOff (i : Nat) (s : Server) : ∀ o ∈ s.breakOff, Foreign i o := by
  intro o ho
  rw [breakOff] at ho
  split at ho
  · obtain rfl := List.mem_singleton.mp ho
    exact ⟨rfl, rfl⟩
  · obtain rfl := List.mem_singleton.mp ho
    rfl

theorem foreign_lastLine (i : Nat) : Foreign i lastLine := ⟨rfl, rfl⟩

/-- Whom the server takes up when a client has arrived. -/
theorem takeUp_cases (s : Server) (now : Nat) (v : Visit) :
    (s.takeUp now v).1.sessions = s.sessions ∧ (s.takeUp now v).1.stopping = s.stopping ∧
      (s.takeUp now v).1.taken = s.taken + 1 ∧
      ((∀ i, ∀ o ∈ (s.takeUp now v).2, Foreign i o) ∨
        ∃ orders, (s.takeUp now v).2 =
            .emit (.accepted s.taken) :: .post (.session s.taken .read) :: orders ∧
          ∀ i, ∀ o ∈ orders, Foreign i o) := by
  obtain ⟨hsessions, hstopping, htaken⟩ :=
    await_eq { s with isWaiting := false, taken := s.taken + 1 } now
  have hforeign := fun i =>
    foreign_await i { s with isWaiting := false, taken := s.taken + 1 } now
  rw [takeUp]
  cases v.error with
  | some reason =>
    simp only
    split
    · refine ⟨rfl, rfl, rfl, .inl fun i o ho => ?_⟩
      obtain rfl := List.mem_singleton.mp ho
      exact foreign_lastLine i
    · refine ⟨hsessions, hstopping, htaken, .inl fun i o ho => ?_⟩
      rcases List.mem_cons.mp ho with rfl | ho
      · exact ⟨rfl, rfl⟩
      · exact hforeign i o ho
  | none => exact ⟨hsessions, hstopping, htaken, .inr ⟨_, rfl, hforeign⟩⟩

/-- What handling a task means to a visit whose own task it is not: nothing, or that the visit is
passed over or accepted. -/
inductive Concerns (i : Nat) (s : Server) (change : Server × Orders) : Prop
  | nothing (h : Aside i s change) (ht : i < change.1.taken ↔ i < s.taken)
  | passes (h : Aside i s change) (hs : s.taken = i) (ht : i < change.1.taken)
  | accepts {orders : Orders} (hs : s.taken = i) (ht : i < change.1.taken)
      (hsessions : change.1.sessions[i]? = s.sessions[i]?) (hstop : change.1.stopping = s.stopping)
      (horders : change.2 = .emit (.accepted i) :: .post (.session i .read) :: orders)
      (hforeign : ∀ o ∈ orders, Foreign i o)

theorem concerns_handle (answer : Bytes → Bytes → Answer) (now : Nat) (s : Server) {task : Task}
    {i : Nat} (ht : task.ofVisit i = none) : Concerns i s (s.handle answer now task) := by
  cases task with
  | accept =>
    have hsame := await_eq s now
    refine .nothing ⟨by rw [handle, hsame.1], hsame.2.1, foreign_await i s now⟩ ?_
    rw [handle, hsame.2.2]
  | canceled =>
    refine .nothing ⟨rfl, rfl, fun o ho => ?_⟩ Iff.rfl
    obtain rfl := List.mem_singleton.mp ho
    exact foreign_lastLine i
  | close =>
    refine .nothing ⟨rfl, rfl, fun o ho => ?_⟩ Iff.rfl
    rw [handle] at ho
    split at ho
    · exact foreign_breakOff i s o ho
    · cases ho
  | session j t =>
    have hj : j ≠ i := by
      rintro rfl
      simp [Task.ofVisit] at ht
    rw [handle, handleSession]
    cases hs : s.sessions[j]? with
    | none => exact .nothing ⟨rfl, rfl, nofun⟩ Iff.rfl
    | some session =>
      exact .nothing ⟨List.getElem?_set_ne hj, rfl, foreign_ofSession hj _⟩ Iff.rfl
  | arrived =>
    rw [handle]
    cases hv : s.visits[s.taken]? with
    | none => exact .nothing ⟨rfl, rfl, nofun⟩ Iff.rfl
    | some v =>
      obtain ⟨hsessions, hstopping, htaken, horders⟩ := takeUp_cases s now v
      simp only
      by_cases hi : s.taken = i
      · subst hi
        have hpassed : s.taken < (s.takeUp now v).1.taken := by
          rw [htaken]
          exact Nat.lt_succ_self _
        rcases horders with hforeign | ⟨orders, horders, hforeign⟩
        · exact .passes ⟨by rw [hsessions], hstopping, hforeign _⟩ rfl hpassed
        · exact .accepts rfl hpassed (by rw [hsessions]) hstopping horders (hforeign _)
      · have htaken' : i < (s.takeUp now v).1.taken ↔ i < s.taken := by
          rw [htaken]
          omega
        refine .nothing ⟨by rw [hsessions], hstopping, ?_⟩ htaken'
        rcases horders with hforeign | ⟨orders, horders, hforeign⟩
        · exact hforeign i
        · intro o ho
          rw [horders] at ho
          rcases List.mem_cons.mp ho with rfl | ho
          · exact ⟨rfl, by simp [Entry.accepts, hi]⟩
          · rcases List.mem_cons.mp ho with rfl | ho
            · simp [Foreign, Task.ofVisit, hi]
            · exact hforeign i o ho

theorem Concerns.not_waits {i : Nat} {s : Server} {change : Server × Orders}
    (h : Concerns i s change) : ∀ o ∈ change.2, (wait? o).bind (Note.own i) = none := by
  intro o ho
  cases h with
  | nothing ha | passes ha => exact (ha.foreign o ho).not_wait
  | accepts _ _ _ _ horders hforeign =>
    rw [horders] at ho
    rcases List.mem_cons.mp ho with rfl | ho
    · rfl
    · rcases List.mem_cons.mp ho with rfl | ho
      · rfl
      · exact (hforeign o ho).not_wait

/-! ## Moves -/

section

variable {r r' : Work} {i : Nat} {h : List (Stamped Note)} {c : Connection}

theorem splits_of_foreign {orders : Orders} (hforeign : ∀ o ∈ orders, Foreign i o) :
    ∀ o ∈ orders, Loop.Splits (Task.ofVisit i) o := fun o ho => (hforeign o ho).splits

theorem Aside.connection? {change : Server → Server × Orders}
    (ha : Aside i r.state (change r.state)) (ho : r.loop.Ordered)
    (hc : Server.connection? i h r = some c) :
    Server.connection? i h (r.command change) =
      some { c with passed := i < (change r.state).1.taken } := by
  obtain ⟨hsession, hrun, hhistory, hstopping, _, haccepted⟩ := connection?_eq_some hc
  rw [connection?_command ho change (splits_of_foreign ha.foreign)
    (ha.sessions.trans hsession) h, own_of_foreign ha.foreign, not_accepts_of_foreign ha.foreign,
    ha.stopping, Bool.false_or, ← haccepted, ← hstopping, ← hhistory, ← hrun]
  rfl

theorem Concerns.leads (change : Server → Server × Orders)
    (hx : Concerns i r.state (change r.state)) (ho : r.loop.Ordered)
    (hc : connection? i h r = some c) :
    ∃ d, connection? i h (r.command change) = some d ∧ c.Leads d := by
  obtain ⟨hsession, hrun, hhistory, hstopping, hpassed, haccepted⟩ := connection?_eq_some hc
  cases hx with
  | nothing ha ht =>
    refine ⟨_, ha.connection? ho hc, ?_⟩
    have hsame : decide (i < (change r.state).1.taken) = c.passed := by simp [hpassed, ht]
    rw [hsame]
    exact .refl
  | passes ha hs ht =>
    refine ⟨_, ha.connection? ho hc, ?_⟩
    rw [decide_eq_true ht]
    exact .single (.pass (by simp [hpassed, hs]))
  | @accepts orders hs ht hsessions hstop horders hforeign =>
    have hsplits : ∀ o ∈ (change r.state).2, Loop.Splits (Task.ofVisit i) o := by
      intro o hmem
      rw [horders] at hmem
      rcases List.mem_cons.mp hmem with rfl | hmem
      · trivial
      · rcases List.mem_cons.mp hmem with rfl | hmem
        · trivial
        · exact (hforeign o hmem).splits
    have hown : (change r.state).2.filterMap (ownOrder i) = [.post .read] := by
      rw [horders, List.filterMap_cons, List.filterMap_cons, own_of_foreign hforeign]
      simp [Loop.chooseOrder, Entry.ofVisit?, Task.ofVisit]
    have htaken : ((change r.state).2.filterMap Run.emitted?).any (fun e => e.accepts i) =
        true := by
      rw [horders]
      simp [Run.emitted?, Entry.accepts]
    refine ⟨c.accepting, ?_, .single (.accept (by simp [hpassed, hs]))⟩
    rw [connection?_command ho change hsplits (hsessions.trans hsession) h, hown, htaken, hstop,
      decide_eq_true ht, Bool.true_or, ← hstopping, ← hhistory, ← hrun]
    rfl

theorem connection?_waiting (hc : connection? i h r = some c) (now : Nat) :
    connection? i h (waiting r now) = some (c.waiting now) := by
  obtain ⟨hsession, hrun, hhistory, hstopping, hpassed, haccepted⟩ := connection?_eq_some hc
  have hstate : (waiting r now).state.sessions[i]? = some c.run.state := hsession
  rw [connection?, hstate, Option.map_some, Connection.waiting, hhistory, hstopping, hpassed,
    haccepted, hrun]
  rfl

/-- The connection while a task is handled that is not its own. -/
theorem connection?_taking (hc : connection? i h r = some c) {task : Task} {loop : Loop Task}
    (ht : r.loop.Takes task loop) (hown : task.ofVisit i = none) :
    connection? i h (r.onLoop loop) = some (c.waiting loop.now) := by
  have hloop : (waiting r loop.now).loop.choose (Task.ofVisit i) = loop.choose (Task.ofVisit i) :=
    (ht.choose_none hown).symm
  rw [← connection?_waiting hc loop.now]
  simp only [connection?, Run.choose, hloop]
  rfl

theorem connection?_notes {notes : List (Stamped Note)} (hnone : historyOf i notes = []) :
    connection? i (notes ++ h) r = connection? i h r := by
  rw [connection?, historyOf_append, hnone]
  rfl

theorem connection?_stop (ho : r.loop.Ordered) (hc : connection? i h r = some c) :
    connection? i (⟨r.loop.now, ⟨none, .stops⟩⟩ :: h) (r.command Server.stop) = some c.stopped := by
  obtain ⟨hsession, hrun, hhistory, hstopping, hpassed, haccepted⟩ := connection?_eq_some hc
  have hnow : c.run.loop.now = r.loop.now := by
    rw [hrun]
    rfl
  have hforeign : ∀ o ∈ (Server.stop r.state).2, Foreign i o := by
    intro o hmem
    obtain rfl := List.mem_singleton.mp hmem
    rfl
  have hnotes : historyOf i (⟨r.loop.now, ⟨none, .stops⟩⟩ :: h) =
      ⟨c.run.loop.now, .stops⟩ :: c.history := by
    rw [hnow, hhistory]
    rfl
  rw [connection?_command ho Server.stop (splits_of_foreign hforeign) hsession,
    own_of_foreign hforeign, not_accepts_of_foreign hforeign, hnotes, Bool.false_or, ← haccepted,
    ← hrun]
  have hsame : decide (i < (Server.stop r.state).1.taken) = c.passed := hpassed.symm
  rw [hsame]
  rfl

theorem connection?_handling_own (ho : r.loop.Ordered) (hc : connection? i h r = some c)
    {task : Session.Task} {loop : Loop Task} (ht : r.loop.Takes (.session i task) loop)
    (catalog : Catalog) (ledger : Ledger) :
    connection? i
      ((notesOf catalog ledger (.session i task)
        (r.state.handle (Answer.answer catalog ledger) loop.now (.session i task)).2).map
          (Stamped.mk loop.now) ++ h)
      (handling catalog ledger r (.session i task) loop) =
      some (c.handling catalog ledger task (loop.choose (Task.ofVisit i))) := by
  obtain ⟨hsession, hrun, hhistory, hstopping, hpassed, haccepted⟩ := connection?_eq_some hc
  have hlt := (List.getElem?_eq_some_iff.mp hsession).1
  generalize hu : c.run.state.handle (Answer.answer catalog ledger) c.stopping loop.now task = u
  have hchange : r.state.handle (Answer.answer catalog ledger) loop.now (.session i task) =
      ({ r.state with sessions := r.state.sessions.set i u.1 }, u.2.map (ofSession i)) := by
    rw [handle, handleSession, hsession]
    simp only [← hstopping, hu]
  have hsplits : ∀ o ∈ u.2.map (ofSession i), Loop.Splits (Task.ofVisit i) o := fun o hmem =>
    Loop.splits_map_part (fun t => by simp [Task.ofVisit]) _ hmem
  have hordered : (r.onLoop loop).loop.Ordered := ht.ordered ho
  have haccepts : ((u.2.map (ofSession i)).filterMap Run.emitted?).any
      (fun e => e.accepts i) = false := by
    rw [List.any_eq_false]
    intro e he
    obtain ⟨o, hmem, hoe⟩ := List.mem_filterMap.mp he
    obtain ⟨p, _, rfl⟩ := List.mem_map.mp hmem
    cases p with
    | emit x =>
      obtain rfl := Option.some.inj hoe
      simp [Entry.accepts]
    | _ => cases hoe
  have hhandling : handling catalog ledger r (.session i task) loop =
      (r.onLoop loop).command fun s =>
        ({ s with sessions := s.sessions.set i u.1 }, u.2.map (ofSession i)) := by
    simp only [handling, Run.command, Run.onLoop, hchange]
  rw [hhandling, hchange, connection?_command hordered _ hsplits (List.getElem?_set_self hlt),
    ownOrder_ofSession, haccepts, historyOf_append, historyOf_now, own_notesOf_session,
    Bool.false_or, Run.onLoop, ← hstopping, ← haccepted, ← hhistory, ← hpassed]
  have hsame : (c.run.onLoop (loop.choose (Task.ofVisit i))).command
      (fun s => s.handle (Answer.answer catalog ledger) c.stopping loop.now task) =
        (Run.choose (Task.ofVisit i) (Entry.ofVisit? i) u.1 (r.onLoop loop)).obeyAll u.2 := by
    simp only [Run.command, Run.onLoop, hu]
    rw [hrun]
    rfl
  have hnow : (loop.choose (Task.ofVisit i)).now = loop.now := rfl
  simp only [Connection.handling, hnow, hsame, hu]
  rfl

/-- Whatever moves a server moves a connection, or leaves it as it is. -/
theorem Tick.connection {notes : List (Stamped Note)} (ht : Tick r notes r')
    (ho : r.loop.Ordered) (hc : connection? i h r = some c) :
    ∃ d, connection? i (notes ++ h) r' = some d ∧ c.Leads d := by
  have hnow : c.run.loop.now = r.loop.now := by
    obtain ⟨_, hrun, _⟩ := connection?_eq_some hc
    rw [hrun]
    rfl
  cases ht with
  | start =>
    have hforeign : ∀ o ∈ (Server.start r.state).2, Foreign i o := by
      intro o hmem
      rcases List.mem_cons.mp hmem with rfl | hmem
      · exact ⟨rfl, rfl⟩
      · obtain rfl := List.mem_singleton.mp hmem
        rfl
    have hnothing : Concerns i r.state (Server.start r.state) :=
      .nothing ⟨rfl, rfl, hforeign⟩ Iff.rfl
    exact Concerns.leads Server.start hnothing ho hc
  | stop => exact ⟨_, connection?_stop ho hc, .single .stop⟩
  | @elapse now hle =>
    refine ⟨_, connection?_waiting hc now, .single (.elapse ?_)⟩
    rw [hnow]
    exact hle
  | @handle task loop ht catalog ledger =>
    cases hown : task.ofVisit i with
    | some t =>
      obtain rfl : task = .session i t :=
        Task.ofVisit_injective i task _ t hown (by simp [Task.ofVisit])
      refine ⟨_, connection?_handling_own ho hc ht catalog ledger, .single (.handle ?_ _ _)⟩
      obtain ⟨_, hrun, _⟩ := connection?_eq_some hc
      rw [hrun]
      exact ht.choose hown
    -- To the visit it is time that goes by, and then what the listener may do.
    | none =>
      have hconcerns := concerns_handle (Answer.answer catalog ledger) loop.now r.state hown
      obtain ⟨d, hd, hlead⟩ := Concerns.leads (r := r.onLoop loop)
        (fun s => s.handle (Answer.answer catalog ledger) loop.now task) hconcerns
        (ht.ordered ho) (connection?_taking hc ht hown)
      refine ⟨d, ?_, .head (.elapse ?_) hlead⟩
      · rw [connection?_notes, ← hd]
        · rfl
        · rw [historyOf_now, own_notesOf_other hown hconcerns.not_waits]
          rfl
      · rw [hnow]
        exact ht.now_le

theorem Course.connection (hr : Course r h r') (ho : r.loop.Ordered)
    (hc : connection? i [] r = some c) :
    ∃ d, connection? i h r' = some d ∧ c.Leads d := by
  induction hr with
  | refl => exact ⟨c, hc, .refl⟩
  | tail hr ht ih =>
    obtain ⟨d, hd, hlead⟩ := ih
    obtain ⟨e, he, hnext⟩ := ht.connection (Course.ordered hr ho) hd
    exact ⟨e, he, hlead.trans hnext⟩

/-- The connection of a visit in a course comes from that of a new visit. -/
theorem Course.leads {port : Nat} {visits : List Visit} (hr : Course (begin port visits) h r)
    {v : Visit} (hv : visits[i]? = some v) :
    ∃ c, connection? i h r = some c ∧ (Connection.fresh v.calls).Leads c := by
  refine hr.connection Loop.ordered_start ?_
  simp [connection?, begin, new, Run.start, Run.choose, Connection.fresh, Loop.choose, Loop.start,
    hv, historyOf, Stamped.choose]

end

end Server

end TargetDiscovery.Web
