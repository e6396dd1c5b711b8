import TargetDiscovery.Command.Serve
import TargetDiscovery.Web.Standalone
import TargetDiscovery.Proofs.Web.Connection

/-!
# Hosts of a query server

A query server runs on the loop of a host, which may be the service or a server by itself. Of the
tasks of a host some are the server's, which are handled with what the host has to answer from; each
of the others leaves the server alone or stops it. So what the event loop makes of a host is a
course of its server, and what holds in all courses holds in all runs.
-/

set_option autoImplicit false

namespace TargetDiscovery.Web

namespace Server

section

variable {σ τ ε : Type} [DecidableEq τ]

/-- To the server a change of its host is this result. -/
structure Becomes (f : τ → Option Task) (g : ε → Option Entry) (server : σ → Server)
    (change : σ × List (Order τ ε)) (result : Server × Orders) : Prop where
  state : server change.1 = result.1
  orders : change.2.filterMap (Loop.chooseOrder f g) = result.2
  splits : ∀ o ∈ change.2, Loop.Splits f o

/-- A machine that hosts a server. -/
structure Hosts (m : Machine σ τ ε) (f : τ → Option Task) (g : ε → Option Entry)
    (server : σ → Server) : Prop where
  injective : ∀ t u x, f t = some x → f u = some x → t = u
  own : ∀ now s t task, f t = some task → ∃ catalog ledger,
    Becomes f g server (m.handle now s t)
      ((server s).handle (Answer.answer catalog ledger) now task)
  other : ∀ now s t, f t = none →
    Becomes f g server (m.handle now s t) (server s, []) ∨
      Becomes f g server (m.handle now s t) (server s).stop

/-- The server of a host, on its part of the loop. -/
def hosted (f : τ → Option Task) (g : ε → Option Entry) (server : σ → Server)
    (r : Run σ τ ε) : Work := r.choose f g (server r.state)

variable {m : Machine σ τ ε} {f : τ → Option Task} {g : ε → Option Entry} {server : σ → Server}
  {r r' : Run σ τ ε}

theorem Becomes.command (hf : ∀ t u x, f t = some x → f u = some x → t = u)
    (change : σ → σ × List (Order τ ε)) (change' : Server → Server × Orders)
    (hb : Becomes f g server (change r.state) (change' (server r.state)))
    (ho : r.loop.Ordered) :
    hosted f g server (r.command change) = (hosted f g server r).command change' := by
  rw [hosted, Run.state_command, hb.state, Run.choose_command hf g _ ho change hb.splits,
    hb.orders]
  rfl

theorem Hosts.course_of_step? (hm : Hosts m f g server) (h : r.step? m = some r')
    (ho : r.loop.Ordered) :
    r'.loop.Ordered ∧ ∃ notes, Course (hosted f g server r) notes (hosted f g server r') := by
  obtain ⟨task, loop, hnext, rfl⟩ := Run.next?_of_step? h
  have htakes := Loop.takes_of_next? hnext
  have hordered : (r.onLoop loop).loop.Ordered := htakes.ordered ho
  refine ⟨Run.ordered_command hordered _, ?_⟩
  have hcommand : ∀ change, Becomes f g server (m.handle loop.now r.state task)
      (change (server r.state)) →
      hosted f g server ((r.onLoop loop).command fun s => m.handle loop.now s task) =
        (hosted f g server (r.onLoop loop)).command change := fun change hb =>
    Becomes.command (r := r.onLoop loop) hm.injective (fun s => m.handle loop.now s task) change
      hb hordered
  cases hown : f task with
  | some t =>
    obtain ⟨catalog, ledger, hb⟩ := hm.own loop.now r.state task t hown
    rw [hcommand (fun s => s.handle (Answer.answer catalog ledger) loop.now t) hb]
    exact ⟨_, .single (.handle (htakes.choose hown) catalog ledger)⟩
  -- To the server it is time that goes by, and then what the host may do to it.
  | none =>
    have hloop := htakes.choose_none hown
    have hwaiting : hosted f g server (r.onLoop loop) =
        waiting (hosted f g server r) loop.now := by
      simp only [hosted, Run.choose, Run.onLoop, waiting, hloop]
    have helapse : Course (hosted f g server r) [] (hosted f g server (r.onLoop loop)) := by
      rw [hwaiting]
      exact .single (.elapse htakes.now_le)
    rcases hm.other loop.now r.state task hown with hb | hb
    · rw [hcommand (fun s => (s, [])) hb]
      exact ⟨_, helapse⟩
    · rw [hcommand stop hb]
      exact ⟨_, helapse.tail .stop⟩

/-- What the event loop makes of a host is a course of its server. -/
theorem Hosts.course_continueWhile (hm : Hosts m f g server) (ho : r.loop.Ordered)
    (limit : Option Nat) (goOn : σ → Bool) (fuel : Nat) :
    ∃ notes, Course (hosted f g server r) notes
      (hosted f g server (r.continueWhile m limit goOn fuel)) := by
  have hall : (r.continueWhile m limit goOn fuel).loop.Ordered ∧
      ∃ notes, Course (hosted f g server r) notes
        (hosted f g server (r.continueWhile m limit goOn fuel)) := by
    refine Run.continueWhile_induction (P := fun s => s.loop.Ordered ∧
      ∃ notes, Course (hosted f g server r) notes (hosted f g server s)) ?_ ⟨ho, [], .refl⟩ fuel
    rintro s s' ⟨hs, notes, hc⟩ _ hstep
    obtain ⟨hordered, more, hnext⟩ := hm.course_of_step? hstep hs
    exact ⟨hordered, _, hc.trans hnext⟩
  exact hall.2

end

end Server

/-! ## A server by itself -/

namespace Standalone

def Task.server? : Task → Option Server.Task
  | server t => some t
  | _ => none

theorem Task.server?_eq_some {t : Task} {x : Server.Task} (h : t.server? = some x) :
    t = .server x := by
  cases t with
  | server a =>
    cases h
    rfl
  | _ => cases h

theorem becomes_accept (s : Standalone) (change : Server × Server.Orders) :
    Server.Becomes Task.server? some Standalone.server (s.accept change) change :=
  ⟨rfl, Loop.chooseOrder_map_part (F := Task.server) (fun _ => rfl) (fun _ => rfl) _,
    fun _ ho => Loop.splits_map_part (F := Task.server) (fun _ => rfl) _ ho⟩

theorem hosts : Server.Hosts machine Task.server? some Standalone.server where
  injective := fun _ _ _ ht hu => (Task.server?_eq_some ht).trans (Task.server?_eq_some hu).symm
  own := by
    intro now s t task ht
    obtain rfl := Task.server?_eq_some ht
    exact ⟨s.catalog, SortedMap.empty, becomes_accept s _⟩
  other := by
    intro now s t ht
    cases t with
    | server a => cases ht
    | publish store snapshot => exact .inl ⟨rfl, rfl, nofun⟩
    | stop => exact .inr (becomes_accept s s.server.stop)

/-- To the server what is planned from outside is nothing. -/
theorem becomes_start {plan : List (Timer Task)} (hplan : ∀ t ∈ plan, t.task.server? = none)
    (stopAt : Nat) (s : Standalone) :
    Server.Becomes Task.server? some Standalone.server (s.start plan stopAt) s.server.start := by
  have haccept := becomes_accept s s.server.start
  have hnone : (plan.map fun t => (.after t.due t.task : Order Task Server.Entry)).filterMap
      (Loop.chooseOrder Task.server? some) = [] := by
    refine List.filterMap_eq_nil_iff.mpr fun o ho => ?_
    obtain ⟨t, ht, rfl⟩ := List.mem_map.mp ho
    rw [Loop.chooseOrder, hplan t ht, Option.map_none]
  refine ⟨rfl, ?_, fun o ho => ?_⟩
  · rw [start, List.filterMap_append, hnone]
    exact haccept.orders
  · rcases List.mem_append.mp ho with ho | ho
    · obtain ⟨t, _, rfl⟩ := List.mem_map.mp ho
      trivial
    · rcases List.mem_cons.mp ho with rfl | ho
      · trivial
      · exact haccept.splits o ho

/-- What the event loop makes of a server by itself is a course of it from its beginning. -/
theorem course_drain {plan : List (Timer Task)} (hplan : ∀ t ∈ plan, t.task.server? = none)
    (stopAt fuel port : Nat) (catalog : Catalog) (visits : List Visit) :
    ∃ notes, Server.Course (Server.begin port visits) notes
      (Server.hosted Task.server? some Standalone.server
        (((Run.start (⟨catalog, .new port visits⟩ : Standalone)).command
          (start plan stopAt)).drain machine fuel)) := by
  have hstart := Server.Becomes.command hosts.injective (start plan stopAt) Server.start
    (becomes_start hplan stopAt ⟨catalog, .new port visits⟩)
    (r := Run.start ⟨catalog, .new port visits⟩) Loop.ordered_start
  obtain ⟨notes, hrun⟩ := hosts.course_continueWhile
    (Run.ordered_command Loop.ordered_start (start plan stopAt)
      (r := Run.start ⟨catalog, .new port visits⟩)) none (fun _ => true) fuel
  rw [hstart] at hrun
  have hbegun : Server.Course (Server.begin port visits) []
      ((Server.begin port visits).command Server.start) := .single .start
  exact ⟨_, hbegun.trans hrun⟩

end Standalone

end TargetDiscovery.Web

namespace TargetDiscovery

/-! ## The service -/

namespace Service

variable {κ : Type}

def Task.web? : Task → Option Web.Server.Task
  | web t => some t
  | _ => none

theorem Task.web?_eq_some {t : Task} {x : Web.Server.Task} (h : t.web? = some x) : t = .web x := by
  cases t with
  | web a =>
    cases h
    rfl
  | _ => cases h

/-- What the service does to its supervisor is nothing to its server. -/
theorem becomes_ofSupervisor (s : Service κ) (change : Supervisor κ × Supervisor.Orders) :
    Web.Server.Becomes Task.web? Entry.web? Service.web (s.ofSupervisor change) (s.web, []) :=
  ⟨rfl, Loop.chooseOrder_map_outside (F := Task.slot) (fun _ => rfl) (fun _ => rfl) _,
    fun _ ho => Loop.splits_map_outside (F := Task.slot) (fun _ => rfl) _ ho⟩

theorem becomes_ofWeb (s : Service κ) (change : Web.Server × Web.Server.Orders) :
    Web.Server.Becomes Task.web? Entry.web? Service.web (s.ofWeb change) change :=
  ⟨rfl, Loop.chooseOrder_map_part (F := Task.web) (G := Entry.web) (fun _ => rfl) (fun _ => rfl) _,
    fun _ ho => Loop.splits_map_part (F := Task.web) (fun _ => rfl) _ ho⟩

theorem becomes_append {t u : Service κ} {first second : Orders} {v w : Web.Server}
    {a b : Web.Server.Orders}
    (hfirst : Web.Server.Becomes Task.web? Entry.web? Service.web (t, first) (v, a))
    (hsecond : Web.Server.Becomes Task.web? Entry.web? Service.web (u, second) (w, b)) :
    Web.Server.Becomes Task.web? Entry.web? Service.web (u, first ++ second) (w, a ++ b) := by
  refine ⟨hsecond.state, ?_, fun o ho => ?_⟩
  · rw [List.filterMap_append, hfirst.orders, hsecond.orders]
  · rcases List.mem_append.mp ho with ho | ho
    · exact hfirst.splits o ho
    · exact hsecond.splits o ho

theorem becomes_start (s : Service κ) :
    Web.Server.Becomes Task.web? Entry.web? Service.web s.start s.web.start :=
  becomes_append (becomes_ofSupervisor s s.supervisor.start)
    (becomes_ofWeb (s.ofSupervisor s.supervisor.start).1 s.web.start)

/-- To the server a shutdown is a stop. -/
theorem becomes_shutDown (s : Service κ) (signal : Nat) :
    Web.Server.Becomes Task.web? Entry.web? Service.web (s.shutDown signal) s.web.stop := by
  have hboth := becomes_append (becomes_ofWeb s s.web.stop)
    (becomes_ofSupervisor (s.ofWeb s.web.stop).1 s.supervisor.stop)
  refine ⟨hboth.state, hboth.orders, fun o ho => ?_⟩
  rcases List.mem_cons.mp ho with rfl | ho
  · trivial
  · exact hboth.splits o ho

theorem hosts (n : Network κ) :
    Web.Server.Hosts (machine n) Task.web? Entry.web? Service.web where
  injective := fun _ _ _ ht hu => (Task.web?_eq_some ht).trans (Task.web?_eq_some hu).symm
  own := by
    intro now s t task ht
    obtain rfl := Task.web?_eq_some ht
    exact ⟨s.supervisor.catalog, s.supervisor.ledger, becomes_ofWeb s _⟩
  other := by
    intro now s t ht
    cases t with
    | web a => cases ht
    | slot task => exact .inl (becomes_ofSupervisor s _)
    | signal number => exact .inr (becomes_shutDown s number)

end Service

/-- What the server command runs to its end is a course of the query server from its beginning. -/
theorem Command.Serve.course_run [Json.Reader] (fuel : Nat) (c : Config)
    (definitions : List Definition) (w : World) (port : Nat) :
    ∃ notes, Web.Server.Course (Web.Server.begin port w.visits) notes
      (Web.Server.hosted Service.Task.web? Service.Entry.web? Service.web
        (run fuel c definitions w port)) := by
  generalize hs : service c definitions w.network w.epoch w.seed port w.visits = s
  have hserver : s.web = Web.Server.new port w.visits := by rw [← hs, service]
  have hfirst : Web.Server.hosted Service.Task.web? Service.Entry.web? Service.web
      ((Run.start s).obey (.after w.signalAfter (.signal w.signal))) =
        Web.Server.begin port w.visits := by
    rw [Web.Server.begin, ← hserver]
    rfl
  have hordered : ((Run.start s).obey (.after w.signalAfter (.signal w.signal)) :
      ServiceRun).loop.Ordered := by
    rw [Run.loop_obey]
    exact Loop.obey_ordered Loop.ordered_start _
  have hhosts := Service.hosts (Network.ofEndpoints (definitions.map Definition.endpoint))
  have hstart := Web.Server.Becomes.command hhosts.injective Service.start Web.Server.start
    (Service.becomes_start s) hordered
  obtain ⟨notes, hrun⟩ := hhosts.course_continueWhile
    (Run.ordered_command hordered Service.start) none (fun _ => true) fuel
  rw [hstart, hfirst] at hrun
  have hbegun : Web.Server.Course (Web.Server.begin port w.visits) []
      ((Web.Server.begin port w.visits).command Web.Server.start) := .single .start
  rw [run, hs]
  exact ⟨_, hbegun.trans hrun⟩

end TargetDiscovery
