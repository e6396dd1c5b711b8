import TargetDiscovery.Cycle.Conclusion
import TargetDiscovery.Cycle.Counters

/-!
# Pollers

A poller runs the cycles of one instance: it fetches, concludes the cycle, and sleeps for the poll
interval or, after a failure, for the backoff delay. The fetch races a deadline; a fetch that loses
is left alone, and what it may bring later is dropped. A request to stop is looked at before a
cycle begins and before and after the sleep, so that a cycle under way always ends.
-/

set_option autoImplicit false

namespace TargetDiscovery

inductive Activity
  | idle
  /-- A fetch under way, the snapshot that was current when it began, and its answer once it has
  come in. -/
  | fetching (known : Option Snapshot) (answer : Option FetchResult)
  | sleeping

structure Poller where
  setup : Setup
  store : Store
  phase : Phase
  stopRequested : Bool
  backoff : Backoff
  failures : Nat
  lastDelay : Int
  /-- The number of fetches begun, which is the number of the one under way. -/
  fetches : Nat
  /-- Whether cycles follow each other, or a single one is run. -/
  looping : Bool
  activity : Activity

namespace Poller

def new (setup : Setup) (store : Store) (seed : UInt64) : Poller :=
  { setup := setup
    store := store
    phase := .idle
    stopRequested := false
    backoff := Backoff.start setup.timing.policy seed
    failures := 0
    lastDelay := 0
    fetches := 0
    looping := false
    activity := .idle }

inductive Task
  | begin
  | once
  | reply (fetch : Nat) (result : FetchResult)
  | deadline (fetch : Nat)
  /-- An answered fetch is gone on from. -/
  | resume (fetch : Nat)
  | wake
  | interrupt
  deriving DecidableEq

inductive Next
  | nothing
  | fetch (number : Nat) (since : UInt64) (timeout : Nat)
  /-- The deadline of an answered fetch is no longer needed. -/
  | settle (number : Nat)
  | sleep (delay : Nat)
  | rouse
  | finished (result : Except Fault Outcome)
  /-- The loop has ended, with a fault or after a request to stop. -/
  | exited (fault : Option Fault)

namespace Next

def asked? : Next → Option (UInt64 × Nat)
  | fetch _ since timeout => some (since, timeout)
  | _ => none

end Next

structure Reaction where
  poller : Poller
  marks : List Mark
  next : Next

namespace Reaction

def behind (marks : List Mark) (r : Reaction) : Reaction := { r with marks := marks ++ r.marks }

end Reaction

def ignore (p : Poller) : Reaction := ⟨p, [], .nothing⟩

def beginCycle (p : Poller) : Reaction :=
  let number := p.fetches + 1
  let since := p.store.version
  let timeout := p.setup.timing.timeout
  ⟨{ p with phase := .fetching, fetches := number, activity := .fetching p.store.current none },
    [.phase .fetching, .call since timeout], .fetch number since timeout⟩

def halt (p : Poller) : Reaction :=
  ⟨{ p with phase := .stopped, activity := .idle }, [.phase .stopped], .exited none⟩

def proceed (p : Poller) : Reaction := if p.stopRequested then p.halt else p.beginCycle

def leaveWait (p : Poller) : Reaction :=
  .behind [.phase .idle] { p with phase := .idle, activity := .idle }.proceed

/-- The delay to sleep after a cycle, and the poller with its backoff moved on or reset. -/
def delayAfter (p : Poller) (o : Outcome) : Int × Poller :=
  let (delay, backoff) :=
    if o.isFailure then let (d, b) := p.backoff.next; (d.toInt, b)
    else ((p.setup.timing.interval : Int), p.backoff.reset)
  (delay, { p with backoff := backoff, failures := backoff.attempts, lastDelay := delay })

/-- Goes to sleep after a cycle, unless a stop was requested. -/
def rest (p : Poller) (o : Outcome) : Reaction :=
  let (delay, p) := p.delayAfter o
  let p := { p with phase := .after o }
  .behind [.phase (.after o)] <|
    if p.stopRequested then p.halt
    else ⟨{ p with activity := .sleeping }, [], .sleep delay.toNat⟩

def afterCycle (p : Poller) : Except Fault Outcome → Reaction
  | .ok o => if p.looping then p.rest o else ⟨p, [], .finished (.ok o)⟩
  | .error f => ⟨p, [], if p.looping then .exited (some f) else .finished (.error f)⟩

def endCycle (p : Poller) (time : Int) (known : Option Snapshot) (result : FetchResult) :
    Reaction :=
  let c := p.setup.conclude known p.store time result
  let p :=
    { p with
      store := c.store
      phase := Mark.lastPhase p.phase c.marks
      activity := .idle }
  .behind c.marks (p.afterCycle c.result)

def react (p : Poller) (time : Int) : Task → Reaction
  | .begin => { p with looping := true }.leaveWait
  | .once => { p with looping := false }.beginCycle
  | .reply n result =>
    match p.activity with
    | .fetching known none =>
      if n = p.fetches then
        ⟨{ p with activity := .fetching known (some result) }, [], .settle n⟩
      else p.ignore
    | _ => p.ignore
  | .deadline n | .resume n =>
    match p.activity with
    | .fetching known answer =>
      if n = p.fetches then p.endCycle time known (answer.getD p.setup.timeoutResult)
      else p.ignore
    | _ => p.ignore
  | .wake =>
    match p.activity with
    | .sleeping => p.leaveWait
    | _ => p.ignore
  | .interrupt => ⟨p, [], .rouse⟩

def requestStop (p : Poller) : Poller := { p with stopRequested := true }

/-! ## On the loop -/

/-- The orders that carry out what is next; `reply` answers a fetch. -/
def Next.orders (reply : Option Reply) : Next → List (Order Task Mark)
  | .fetch n _ timeout =>
    .after timeout (.deadline n) ::
      match reply with
      | some ⟨some delay, result⟩ => [.after delay (.reply n result)]
      | _ => []
  | .settle n => [.cancel (.deadline n) (.resume n)]
  | .sleep delay => [.after delay .wake]
  | .rouse => [.cancel .wake .wake]
  | .nothing | .finished _ | .exited _ => []

end Poller

def Ledger.recordAll (l : Ledger) (marks : List Mark) : Ledger :=
  (marks.filterMap Mark.event?).foldl Ledger.record l

end TargetDiscovery
