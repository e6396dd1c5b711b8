import TargetDiscovery.Poller.Solo
import TargetDiscovery.Proofs.Cycle.Classification
import TargetDiscovery.Proofs.Loop
import TargetDiscovery.Proofs.Poller.Reaction

/-!
# Single cycles

A single cycle runs from a quiet loop to a quiet loop. On the way it asks the network once, drops
the late answers to fetches that were given up, and ends as its setup concludes from what the fetch
brought in time.
-/

set_option autoImplicit false

namespace TargetDiscovery.Solo

variable {κ : Type} {n : Network κ}

/-- No cycle is under way, and what may still come answers fetches that were given up. -/
structure Quiet (r : Run (Solo κ) Poller.Task Mark) : Prop where
  ready : r.loop.ready = []
  timers : ∀ t ∈ r.loop.timers, ∃ number result,
    t.task = .reply number result ∧ number ≤ r.state.poller.fetches

def opened (r : Run (Solo κ) Poller.Task Mark) : Run (Solo κ) Poller.Task Mark :=
  r.command beginCycle

def asked (n : Network κ) (s : Solo κ) : Reply × κ :=
  n.ask s.network 0 s.poller.store.version s.poller.setup.timing.timeout

def fetching (n : Network κ) (r : Run (Solo κ) Poller.Task Mark) :
    Run (Solo κ) Poller.Task Mark :=
  let p := r.state.poller
  { loop := (Loop.mk r.loop.now [] r.loop.timers).obeyAll
      (Poller.Next.orders (some (asked n r.state).1)
        (.fetch (p.fetches + 1) p.store.version p.setup.timing.timeout))
    state :=
      { r.state with
        poller := { p with looping := false }.beginCycle.poller
        network := (asked n r.state).2
        result := none }
    journal := ⟨r.loop.now, .call p.store.version p.setup.timing.timeout⟩ ::
      ⟨r.loop.now, .phase .fetching⟩ :: r.journal }

def closed (r : Run (Solo κ) Poller.Task Mark) (known : Option Snapshot) (fetched : FetchResult) :
    Run (Solo κ) Poller.Task Mark :=
  let p := r.state.poller
  let c := p.setup.conclude known p.store (r.state.epoch + r.loop.now) fetched
  { loop := r.loop
    state :=
      { r.state with
        poller :=
          { p with
            store := c.store
            phase := Mark.lastPhase p.phase c.marks
            activity := .idle }
        ledger := r.state.ledger.recordAll c.marks
        result := some c.result }
    journal := (c.marks.map (Stamped.mk r.loop.now)).reverse ++ r.journal }

theorem entries_orders (next : Poller.Next) (reply : Option Reply) :
    (next.orders reply).filterMap Run.emitted? = [] := by
  cases next with
  | fetch number since timeout =>
    rcases reply with _ | ⟨_ | delay, result⟩
    · rfl
    · rfl
    · rfl
  | _ => rfl

theorem command_accept (n : Network κ) (r : Run (Solo κ) Poller.Task Mark)
    (react : Solo κ → Poller.Reaction) :
    (r.command fun s => s.accept n (react s)) =
      { loop := r.loop.obeyAll
          ((react r.state).next.orders (consult n r.state.network (react r.state).next).1)
        state := (r.state.accept n (react r.state)).1
        journal := ((react r.state).marks.map (Stamped.mk r.loop.now)).reverse ++ r.journal } := by
  have horders : (r.state.accept n (react r.state)).2 = (react r.state).marks.map Order.emit ++
      (react r.state).next.orders (consult n r.state.network (react r.state).next).1 := rfl
  rw [Run.command_eq, horders, Loop.obeyAll_append, Loop.obeyAll_emits, List.filterMap_append,
    Run.filterMap_emits, entries_orders, List.append_nil]

theorem poller_accept (n : Network κ) (s : Solo κ) (r : Poller.Reaction) :
    (s.accept n r).1.poller = r.poller := by
  unfold accept
  cases r.next <;> rfl

theorem step?_opened {r : Run (Solo κ) Poller.Task Mark} (hr : r.loop.ready = []) :
    (opened r).step? (machine n) = some (fetching n r) := by
  have hready : (opened r).loop.ready = .once :: [] := by
    simp [opened, Run.command, beginCycle, Run.obeyAll, Run.obey, Loop.post, hr]
  rw [Run.step?_ready hready, machine, command_accept]
  rfl

theorem command_endCycle {r : Run (Solo κ) Poller.Task Mark}
    (hl : r.state.poller.looping = false) (known : Option Snapshot) (fetched : FetchResult) :
    (r.command fun s => s.accept n
      (s.poller.endCycle (s.epoch + r.loop.now) known fetched)) = closed r known fetched := by
  rw [command_accept]
  cases hc : (r.state.poller.setup.conclude known r.state.poller.store
      (r.state.epoch + r.loop.now) fetched).result with
  | error f =>
    simp [Poller.endCycle, Poller.Reaction.behind, Poller.afterCycle, hc, hl, closed, accept,
      consult, Poller.Next.orders, Loop.obeyAll_nil]
  | ok o =>
    simp [Poller.endCycle, Poller.Reaction.behind, Poller.afterCycle, hc, hl, closed, accept,
      consult, Poller.Next.orders, Loop.obeyAll_nil]

theorem step?_late {r : Run (Solo κ) Poller.Task Mark} (hr : r.loop.ready = []) {due number : Nat}
    {result : FetchResult} {rest : List (Timer Poller.Task)}
    (ht : r.loop.timers = ⟨due, .reply number result⟩ :: rest)
    (hn : number ≠ r.state.poller.fetches) :
    r.step? (machine n) = some (r.onLoop ⟨max r.loop.now due, [], rest⟩) := by
  have hignore : r.state.poller.react (r.state.epoch + (max r.loop.now due : Nat))
      (.reply number result) = r.state.poller.ignore := by
    simp only [Poller.react, if_neg hn]
    split <;> rfl
  rw [Run.step?_timer hr ht, machine, command_accept]
  simp only [Run.onLoop, hignore]
  rfl

theorem continueWhile_late {late rest : List (Timer Poller.Task)} {bound : Nat}
    {r : Run (Solo κ) Poller.Task Mark} (hr : r.loop.ready = [])
    (ht : r.loop.timers = late ++ rest) (hopen : r.state.isOpen = true)
    (hlate : ∀ t ∈ late, ∃ number result,
      t.task = .reply number result ∧ number ≠ r.state.poller.fetches)
    (hdue : ∀ t ∈ late, t.due ≤ bound) (hnow : r.loop.now ≤ bound) :
    ∃ now, now ≤ bound ∧ ∀ fuel,
      r.continueWhile (machine n) none isOpen (late.length + fuel) =
        (r.onLoop ⟨now, [], rest⟩).continueWhile (machine n) none isOpen fuel := by
  induction late generalizing r with
  | nil =>
    refine ⟨r.loop.now, hnow, fun fuel => ?_⟩
    have hsame : r = r.onLoop ⟨r.loop.now, [], rest⟩ := by
      rcases r with ⟨⟨now, ready, timers⟩, state, journal⟩
      cases hr
      cases ht
      rfl
    rw [← hsame]
    simp
  | cons t late ih =>
    obtain ⟨number, result, htask, hne⟩ := hlate t (by simp)
    have hhead : r.loop.timers = ⟨t.due, .reply number result⟩ :: (late ++ rest) := by
      rw [ht, ← htask]
      rfl
    have hstep := step?_late (n := n) hr hhead hne
    have hmax : max r.loop.now t.due ≤ bound := Nat.max_le.mpr ⟨hnow, hdue t (by simp)⟩
    obtain ⟨now, hbound, hrun⟩ := ih
      (r := r.onLoop ⟨max r.loop.now t.due, [], late ++ rest⟩) rfl rfl hopen
      (fun u hu => hlate u (by simp [hu])) (fun u hu => hdue u (by simp [hu])) hmax
    refine ⟨now, hbound, fun fuel => ?_⟩
    have hfuel : (t :: late).length + fuel = late.length + fuel + 1 := by
      simp only [List.length_cons]
      omega
    rw [hfuel, Run.continueWhile_step hopen hstep]
    exact hrun fuel

/-! ## The race -/

/-- The timers that answer fetches from before. -/
def AreLate (r : Run (Solo κ) Poller.Task Mark) (timers : List (Timer Poller.Task)) : Prop :=
  ∀ t ∈ timers, ∃ number result, t.task = .reply number result ∧ number ≤ r.state.poller.fetches

theorem AreLate.append {r : Run (Solo κ) Poller.Task Mark} {l more : List (Timer Poller.Task)}
    (hl : AreLate r l) (hm : AreLate r more) : AreLate r (l ++ more) := by
  intro t ht
  rcases List.mem_append.mp ht with ht | ht
  · exact hl t ht
  · exact hm t ht

def deadlineTimer (r : Run (Solo κ) Poller.Task Mark) : Timer Poller.Task :=
  ⟨r.loop.now + r.state.poller.setup.timing.timeout, .deadline (r.state.poller.fetches + 1)⟩

def replyTimer (r : Run (Solo κ) Poller.Task Mark) (delay : Nat) (result : FetchResult) :
    Timer Poller.Task :=
  ⟨r.loop.now + delay, .reply (r.state.poller.fetches + 1) result⟩

theorem timers_fetching (n : Network κ) (r : Run (Solo κ) Poller.Task Mark) :
    (fetching n r).loop.timers =
      match (asked n r.state).1 with
      | ⟨some delay, result⟩ =>
        Loop.insertTimer (replyTimer r delay result)
          (Loop.insertTimer (deadlineTimer r) r.loop.timers)
      | ⟨none, _⟩ => Loop.insertTimer (deadlineTimer r) r.loop.timers := by
  simp only [fetching]
  rcases (asked n r.state).1 with ⟨_ | delay, result⟩
  · rfl
  · rfl

theorem AreLate.takeWhile {r : Run (Solo κ) Poller.Task Mark} {l : List (Timer Poller.Task)}
    (h : AreLate r l) (p : Timer Poller.Task → Bool) : AreLate r (l.takeWhile p) :=
  fun t ht => h t (List.takeWhile_subset p ht)

theorem AreLate.dropWhile {r : Run (Solo κ) Poller.Task Mark} {l : List (Timer Poller.Task)}
    (h : AreLate r l) (p : Timer Poller.Task → Bool) : AreLate r (l.dropWhile p) :=
  fun t ht => h t ((List.dropWhile_sublist p).subset ht)

theorem due_of_mem_takeWhile {bound : Nat} {l : List (Timer Poller.Task)}
    {t : Timer Poller.Task} (ht : t ∈ l.takeWhile fun u => u.due ≤ bound) : t.due ≤ bound := by
  have hall := List.all_eq_true.mp List.all_takeWhile t ht
  simpa using hall

theorem deadlineTimer_le {r : Run (Solo κ) Poller.Task Mark} {delay : Nat}
    (h : r.state.poller.setup.timing.timeout ≤ delay) (result : FetchResult) :
    (deadlineTimer r).due ≤ (replyTimer r delay result).due := Nat.add_le_add_left h _

theorem replyTimer_lt {r : Run (Solo κ) Poller.Task Mark} {delay : Nat}
    (h : delay < r.state.poller.setup.timing.timeout) (result : FetchResult) :
    (replyTimer r delay result).due < (deadlineTimer r).due := Nat.add_lt_add_left h _

/-- A fetch that brings nothing in time: its deadline comes before anything else of it. -/
theorem timers_of_late {r : Run (Solo κ) Poller.Task Mark} (hq : Quiet r)
    (hw : (asked n r.state).1.within r.state.poller.setup.timing.timeout = none) :
    ∃ late rest, (fetching n r).loop.timers = late ++ deadlineTimer r :: rest ∧
      AreLate r late ∧ (∀ t ∈ late, t.due ≤ (deadlineTimer r).due) ∧
      ∀ t ∈ rest, ∃ number result, t.task = .reply number result ∧
        number ≤ r.state.poller.fetches + 1 := by
  have hall : AreLate r r.loop.timers := hq.timers
  have hdue : ∀ t ∈ r.loop.timers.takeWhile fun u => u.due ≤ (deadlineTimer r).due,
      t.due ≤ (deadlineTimer r).due := fun t ht => due_of_mem_takeWhile ht
  have hrest : ∀ t ∈ r.loop.timers.dropWhile fun u => u.due ≤ (deadlineTimer r).due,
      ∃ number result, t.task = .reply number result ∧ number ≤ r.state.poller.fetches + 1 := by
    intro t ht
    obtain ⟨number, result, htask, hle⟩ := hall.dropWhile _ t ht
    exact ⟨number, result, htask, Nat.le_succ_of_le hle⟩
  rw [timers_fetching]
  rcases hreply : (asked n r.state).1 with ⟨_ | delay, result⟩
  · exact ⟨_, _, Loop.insertTimer_eq _ _, hall.takeWhile _, hdue, hrest⟩
  · rw [hreply] at hw
    have hlong := deadlineTimer_le (r := r) (Reply.within_eq_none_iff.mp hw delay rfl) result
    refine ⟨_, Loop.insertTimer (replyTimer r delay result)
      (r.loop.timers.dropWhile fun u => u.due ≤ (deadlineTimer r).due), ?_, hall.takeWhile _, hdue,
      ?_⟩
    · dsimp only
      rw [Loop.insertTimer_eq (deadlineTimer r), Loop.insertTimer_behind fun t ht =>
        Nat.le_trans (hdue t ht) hlong, Loop.insertTimer, if_pos hlong]
    · intro t ht
      rcases Loop.mem_insertTimer.mp ht with rfl | ht
      · exact ⟨_, _, rfl, Nat.le_refl _⟩
      · exact hrest t ht

/-- A fetch that is answered in time: the answer comes first, and the deadline is still set. -/
theorem timers_of_within {r : Run (Solo κ) Poller.Task Mark} (hq : Quiet r) {result : FetchResult}
    (hw : (asked n r.state).1.within r.state.poller.setup.timing.timeout = some result) :
    ∃ delay late before after, (asked n r.state).1 = ⟨some delay, result⟩ ∧
      delay < r.state.poller.setup.timing.timeout ∧
      (fetching n r).loop.timers =
        late ++ replyTimer r delay result :: (before ++ deadlineTimer r :: after) ∧
      AreLate r late ∧ (∀ t ∈ late, t.due ≤ (replyTimer r delay result).due) ∧
      AreLate r (before ++ after) := by
  have hall : AreLate r r.loop.timers := hq.timers
  obtain ⟨delay, hreply, hlt⟩ := Reply.within_eq_some_iff.mp hw
  have hshort := replyTimer_lt (r := r) hlt result
  have hfirst := hall.takeWhile fun u => u.due ≤ (deadlineTimer r).due
  have hsecond := hall.dropWhile fun u => u.due ≤ (deadlineTimer r).due
  rw [timers_fetching, hreply]
  dsimp only
  rw [Loop.insertTimer_eq (deadlineTimer r), Loop.insertTimer_before hshort]
  exact ⟨delay, _, _, _, rfl, hlt, rfl, hfirst.takeWhile _, fun t ht => due_of_mem_takeWhile ht,
    (hfirst.dropWhile _).append hsecond⟩

/-! ## The end of the race -/

section

variable {r : Run (Solo κ) Poller.Task Mark} {known : Option Snapshot}

theorem step?_deadline (answer : Option FetchResult) (hl : r.state.poller.looping = false)
    (ha : r.state.poller.activity = .fetching known answer) (hr : r.loop.ready = []) {due : Nat}
    {rest : List (Timer Poller.Task)}
    (ht : r.loop.timers = ⟨due, .deadline r.state.poller.fetches⟩ :: rest) :
    r.step? (machine n) = some (closed (r.onLoop ⟨max r.loop.now due, [], rest⟩) known
      (answer.getD r.state.poller.setup.timeoutResult)) := by
  have hend := command_endCycle (n := n) (r := r.onLoop ⟨max r.loop.now due, [], rest⟩)
    hl known (answer.getD r.state.poller.setup.timeoutResult)
  rw [Run.step?_timer hr ht, machine, ← hend, command_accept, command_accept]
  simp only [Run.onLoop, Poller.react, ha, if_true]

theorem step?_resume (answer : Option FetchResult) (hl : r.state.poller.looping = false)
    (ha : r.state.poller.activity = .fetching known answer)
    (hr : r.loop.ready = [.resume r.state.poller.fetches]) :
    r.step? (machine n) = some (closed (r.onLoop { r.loop with ready := [] }) known
      (answer.getD r.state.poller.setup.timeoutResult)) := by
  have hend := command_endCycle (n := n) (r := r.onLoop { r.loop with ready := [] })
    hl known (answer.getD r.state.poller.setup.timeoutResult)
  rw [Run.step?_ready hr, machine, ← hend, command_accept, command_accept]
  simp only [Run.onLoop, Poller.react, ha, if_true]

def settled (r : Run (Solo κ) Poller.Task Mark) (known : Option Snapshot) (result : FetchResult) :
    Run (Solo κ) Poller.Task Mark :=
  { loop := r.loop.cancel (.deadline r.state.poller.fetches) (.resume r.state.poller.fetches)
    state :=
      { r.state with
        poller := { r.state.poller with activity := .fetching known (some result) } }
    journal := r.journal }

theorem step?_reply (ha : r.state.poller.activity = .fetching known none) (hr : r.loop.ready = [])
    {due : Nat} {result : FetchResult} {rest : List (Timer Poller.Task)}
    (ht : r.loop.timers = ⟨due, .reply r.state.poller.fetches result⟩ :: rest) :
    r.step? (machine n) =
      some (settled (r.onLoop ⟨max r.loop.now due, [], rest⟩) known result) := by
  rw [Run.step?_timer hr ht, machine, command_accept]
  simp only [Run.onLoop, Poller.react, ha, if_true]
  rfl

end

theorem cancel_deadline {r : Run (Solo κ) Poller.Task Mark}
    {before after : List (Timer Poller.Task)}
    (h : AreLate r (before ++ after)) (now : Nat) :
    (Loop.mk now [] (before ++ deadlineTimer r :: after)).cancel
        (.deadline (r.state.poller.fetches + 1)) (.resume (r.state.poller.fetches + 1)) =
      ⟨now, [.resume (r.state.poller.fetches + 1)], before ++ after⟩ := by
  have hne : ∀ l : List (Timer Poller.Task), (∀ t ∈ l, t ∈ before ++ after) →
      ∀ t ∈ l, t.task ≠ .deadline (r.state.poller.fetches + 1) := by
    intro l hl t ht
    obtain ⟨number, result, htask, _⟩ := h t (hl t ht)
    rw [htask]
    exact nofun
  have hnone : ∀ l : List (Timer Poller.Task), (∀ t ∈ l, t ∈ before ++ after) →
      (l.filter fun t => t.task = .deadline (r.state.poller.fetches + 1)) = [] := by
    intro l hl
    apply List.filter_eq_nil_iff.mpr
    intro t ht
    simpa using hne l hl t ht
  have hself : ∀ l : List (Timer Poller.Task), (∀ t ∈ l, t ∈ before ++ after) →
      (l.filter fun t => t.task ≠ .deadline (r.state.poller.fetches + 1)) = l := by
    intro l hl
    apply List.filter_eq_self.mpr
    intro t ht
    simpa using hne l hl t ht
  have hb : ∀ t ∈ before, t ∈ before ++ after := fun t ht => List.mem_append_left _ ht
  have hm : ∀ t ∈ after, t ∈ before ++ after := fun t ht => List.mem_append_right _ ht
  rw [Loop.cancel, List.filter_append, List.filter_append,
    List.filter_cons_of_pos (by simp [deadlineTimer]),
    List.filter_cons_of_neg (by simp [deadlineTimer]), hnone before hb, hnone after hm,
    hself before hb, hself after hm]
  rfl

/-! ## The whole cycle -/

def duration (timeout : Nat) : Option Nat → Nat
  | some delay => min delay timeout
  | none => timeout

theorem duration_le (timeout : Nat) (delay : Option Nat) : duration timeout delay ≤ timeout := by
  cases delay with
  | none => exact Nat.le_refl _
  | some delay => exact Nat.min_le_right _ _

theorem duration_of_late {timeout : Nat} {reply : Reply} (h : reply.within timeout = none) :
    duration timeout reply.delay = timeout := by
  rcases reply with ⟨_ | delay, result⟩
  · rfl
  · exact Nat.min_eq_right (Reply.within_eq_none_iff.mp h delay rfl)

theorem duration_of_delay {timeout delay : Nat} {answer : Option Nat} (h : answer = some delay)
    (hle : delay ≤ timeout) : duration timeout answer = delay := by
  subst h
  exact Nat.min_eq_left hle

theorem isOpen_fetching (n : Network κ) (r : Run (Solo κ) Poller.Task Mark) :
    (fetching n r).state.isOpen = true := rfl

theorem isOpen_onLoop (n : Network κ) (r : Run (Solo κ) Poller.Task Mark) (l : Loop Poller.Task) :
    ((fetching n r).onLoop l).state.isOpen = true := rfl

theorem isOpen_settled (n : Network κ) (r : Run (Solo κ) Poller.Task Mark)
    (known : Option Snapshot) (result : FetchResult) (l : Loop Poller.Task) :
    ((settled (fetching n r) known result).onLoop l).state.isOpen = true := rfl

theorem isOpen_closed (r : Run (Solo κ) Poller.Task Mark) (known : Option Snapshot)
    (fetched : FetchResult) : (closed r known fetched).state.isOpen = false := rfl

theorem ready_fetching (n : Network κ) (r : Run (Solo κ) Poller.Task Mark) :
    (fetching n r).loop.ready = [] := by
  simp only [fetching]
  rcases (asked n r.state).1 with ⟨_ | delay, result⟩
  · rfl
  · rfl

theorem AreLate.ne_fetching {r : Run (Solo κ) Poller.Task Mark} {l : List (Timer Poller.Task)}
    (h : AreLate r l) : ∀ t ∈ l, ∃ number result,
      t.task = .reply number result ∧ number ≠ (fetching n r).state.poller.fetches := by
  intro t ht
  obtain ⟨number, result, htask, hnumber⟩ := h t ht
  have hnext : (fetching n r).state.poller.fetches = r.state.poller.fetches + 1 := rfl
  exact ⟨number, result, htask, by omega⟩

section

variable {r : Run (Solo κ) Poller.Task Mark} {now : Nat}

/-- At the deadline, a cycle without an answer ends by itself. -/
theorem step?_expired (hle : now ≤ (deadlineTimer r).due) (rest : List (Timer Poller.Task)) :
    ((fetching n r).onLoop ⟨now, [], deadlineTimer r :: rest⟩).step? (machine n) =
      some (closed ((fetching n r).onLoop
        ⟨r.loop.now + r.state.poller.setup.timing.timeout, [], rest⟩)
        r.state.poller.store.current r.state.poller.setup.timeoutResult) := by
  have hdone : max now (deadlineTimer r).due =
      r.loop.now + r.state.poller.setup.timing.timeout := Nat.max_eq_right hle
  rw [← hdone]
  exact step?_deadline none rfl rfl rfl rfl

/-- The answer is taken, and the deadline dropped for a task that resumes the cycle. -/
theorem step?_answered {delay : Nat} {result : FetchResult} {before after : List (Timer Poller.Task)}
    (h : AreLate r (before ++ after)) (hle : now ≤ (replyTimer r delay result).due) :
    ((fetching n r).onLoop
      ⟨now, [], replyTimer r delay result :: (before ++ deadlineTimer r :: after)⟩).step?
        (machine n) =
      some ((settled (fetching n r) r.state.poller.store.current result).onLoop
        ⟨r.loop.now + delay, [.resume (r.state.poller.fetches + 1)], before ++ after⟩) := by
  have hdone : max now (replyTimer r delay result).due = r.loop.now + delay := Nat.max_eq_right hle
  rw [← hdone, ← cancel_deadline h]
  exact step?_reply rfl rfl rfl

theorem step?_resumed (result : FetchResult) (rest : List (Timer Poller.Task)) :
    ((settled (fetching n r) r.state.poller.store.current result).onLoop
      ⟨now, [.resume (r.state.poller.fetches + 1)], rest⟩).step? (machine n) =
      some (closed ((fetching n r).onLoop ⟨now, [], rest⟩)
        r.state.poller.store.current result) :=
  step?_resume (some result) rfl rfl rfl

end

/-- A fetch that brings nothing in time ends its cycle at the deadline. -/
theorem run_of_late {r : Run (Solo κ) Poller.Task Mark} (hq : Quiet r)
    (hw : (asked n r.state).1.within r.state.poller.setup.timing.timeout = none) :
    ∃ steps timers, (∀ fuel, (fetching n r).continueWhile (machine n) none isOpen (steps + fuel) =
        closed ((fetching n r).onLoop
          ⟨r.loop.now + r.state.poller.setup.timing.timeout, [], timers⟩)
          r.state.poller.store.current r.state.poller.setup.timeoutResult) ∧
      ∀ t ∈ timers, ∃ number result, t.task = .reply number result ∧
        number ≤ r.state.poller.fetches + 1 := by
  obtain ⟨late, rest, htimers, hlate, hdue, hrest⟩ := timers_of_late hq hw
  have hbound : (fetching n r).loop.now ≤ (deadlineTimer r).due := by
    rw [fetching, Loop.obeyAll_now]
    exact Nat.le_add_right _ _
  obtain ⟨now, hle, hrun⟩ := continueWhile_late (n := n) (ready_fetching n r) htimers
    (isOpen_fetching n r) hlate.ne_fetching hdue hbound
  refine ⟨late.length + 1, rest, fun fuel => ?_, hrest⟩
  rw [show late.length + 1 + fuel = late.length + (fuel + 1) by omega, hrun]
  rw [Run.continueWhile_step (isOpen_onLoop n r _) (step?_expired hle rest) fuel]
  exact Run.continueWhile_done (isOpen_closed _ _ _) fuel

/-- A fetch that is answered in time ends its cycle with the answer. -/
theorem run_of_within {r : Run (Solo κ) Poller.Task Mark} (hq : Quiet r) {result : FetchResult}
    (hw : (asked n r.state).1.within r.state.poller.setup.timing.timeout = some result) :
    ∃ delay steps timers, (asked n r.state).1.delay = some delay ∧
      delay ≤ r.state.poller.setup.timing.timeout ∧
      (∀ fuel, (fetching n r).continueWhile (machine n) none isOpen (steps + fuel) =
        closed ((fetching n r).onLoop ⟨r.loop.now + delay, [], timers⟩)
          r.state.poller.store.current result) ∧
      ∀ t ∈ timers, ∃ number result, t.task = .reply number result ∧
        number ≤ r.state.poller.fetches + 1 := by
  obtain ⟨delay, late, before, after, hreply, hlt, htimers, hlate, hdue, hrest⟩ :=
    timers_of_within hq hw
  have hbound : (fetching n r).loop.now ≤ (replyTimer r delay result).due := by
    rw [fetching, Loop.obeyAll_now]
    exact Nat.le_add_right _ _
  obtain ⟨now, hle, hrun⟩ := continueWhile_late (n := n) (ready_fetching n r) htimers
    (isOpen_fetching n r) hlate.ne_fetching hdue hbound
  refine ⟨delay, late.length + 2, before ++ after, by rw [hreply], Nat.le_of_lt hlt,
    fun fuel => ?_, ?_⟩
  · rw [show late.length + 2 + fuel = late.length + (fuel + 1 + 1) by omega, hrun]
    rw [Run.continueWhile_step (isOpen_onLoop n r _) (step?_answered hrest hle) (fuel + 1),
      Run.continueWhile_step (isOpen_settled n r _ _ _) (step?_resumed result _) fuel]
    exact Run.continueWhile_done (isOpen_closed _ _ _) fuel
  · intro t ht
    obtain ⟨number, brought, htask, hle⟩ := hrest t ht
    exact ⟨number, brought, htask, Nat.le_succ_of_le hle⟩

/-! ## What a cycle comes to -/

/-- What a cycle with a result makes of a quiet run. -/
structure Cycled (n : Network κ) (r r' : Run (Solo κ) Poller.Task Mark)
    (result : Except Fault Outcome) : Prop where
  quiet : Quiet r'
  ended : r'.state.result = some result
  setup : r'.state.poller.setup = r.state.poller.setup
  name : r'.state.poller.store.name = r.state.poller.store.name
  network : r'.state.network = (asked n r.state).2
  time : r'.loop.now =
    r.loop.now + duration r.state.poller.setup.timing.timeout (asked n r.state).1.delay
  classified : r.state.poller.setup.Classified r.state.poller.store
    ((asked n r.state).1.within r.state.poller.setup.timing.timeout) result
  keeps : r.state.poller.setup.Keeps r.state.poller.store r'.state.poller.store
    (r.state.epoch + r'.loop.now)
    ((asked n r.state).1.within r.state.poller.setup.timing.timeout) result
  journal : ∃ marks : List (Stamped Mark), r'.journal = marks.reverse ++ r.journal ∧
    (marks.filterMap fun m => m.entry.call?) =
      [(r.state.poller.store.version, r.state.poller.setup.timing.timeout)] ∧
    r.state.poller.setup.Reports (marks.filterMap fun m => m.entry.event?) result ∧
    r'.state.ledger =
      (marks.filterMap fun m => m.entry.event?).foldl Ledger.record r.state.ledger

theorem quiet_closed {r : Run (Solo κ) Poller.Task Mark} {now : Nat}
    {timers : List (Timer Poller.Task)} (known : Option Snapshot) (fetched : FetchResult)
    (h : ∀ t ∈ timers, ∃ number result, t.task = .reply number result ∧
      number ≤ r.state.poller.fetches) :
    Quiet (closed (r.onLoop ⟨now, [], timers⟩) known fetched) := ⟨rfl, h⟩

theorem entries_stamped {α : Type} (f : Mark → Option α) (time : Nat) (marks : List Mark) :
    ((marks.map (Stamped.mk time)).filterMap fun m => f m.entry) = marks.filterMap f := by
  rw [List.filterMap_map]
  rfl

theorem journal_closed (n : Network κ) (r : Run (Solo κ) Poller.Task Mark) (l : Loop Poller.Task)
    (known : Option Snapshot) (fetched : FetchResult) {result : Except Fault Outcome}
    {c : Conclusion} (hc : r.state.poller.setup.conclude known r.state.poller.store
      (r.state.epoch + l.now) fetched = c)
    (hreports : r.state.poller.setup.Reports c.events result) :
    ∃ marks : List (Stamped Mark), (closed ((fetching n r).onLoop l) known fetched).journal =
        marks.reverse ++ r.journal ∧
      (marks.filterMap fun m => m.entry.call?) =
        [(r.state.poller.store.version, r.state.poller.setup.timing.timeout)] ∧
      r.state.poller.setup.Reports (marks.filterMap fun m => m.entry.event?) result ∧
      (closed ((fetching n r).onLoop l) known fetched).state.ledger =
        (marks.filterMap fun m => m.entry.event?).foldl Ledger.record r.state.ledger := by
  subst hc
  have hcalls := Setup.conclude_calls r.state.poller.setup known r.state.poller.store
    (r.state.epoch + l.now) fetched
  have hjournal : (closed ((fetching n r).onLoop l) known fetched).journal =
      (⟨r.loop.now, .phase .fetching⟩ ::
        ⟨r.loop.now, .call r.state.poller.store.version r.state.poller.setup.timing.timeout⟩ ::
          (r.state.poller.setup.conclude known r.state.poller.store (r.state.epoch + l.now)
            fetched).marks.map (Stamped.mk l.now)).reverse ++ r.journal := by
    simp [closed, fetching, Run.onLoop, Poller.beginCycle]
  refine ⟨_, hjournal, ?_, ?_, ?_⟩
  · rw [List.filterMap_cons_none rfl]
    exact congrArg (List.cons _) ((entries_stamped _ _ _).trans hcalls)
  · rw [List.filterMap_cons_none rfl, List.filterMap_cons_none rfl, entries_stamped]
    exact hreports
  · rw [List.filterMap_cons_none rfl, List.filterMap_cons_none rfl, entries_stamped]
    rfl

/-- The end of a cycle by what its fetch brought in time, or by a fetch that was given up. -/
theorem cycled_closed {r : Run (Solo κ) Poller.Task Mark}
    (hname : r.state.poller.setup.name = r.state.poller.store.name) {now : Nat}
    {timers : List (Timer Poller.Task)}
    (htimers : ∀ t ∈ timers, ∃ number result, t.task = .reply number result ∧
      number ≤ r.state.poller.fetches + 1)
    (htime : now =
      r.loop.now + duration r.state.poller.setup.timing.timeout (asked n r.state).1.delay)
    {fetched : FetchResult}
    (hfetched : (asked n r.state).1.within r.state.poller.setup.timing.timeout = some fetched ∨
      (asked n r.state).1.within r.state.poller.setup.timing.timeout = none ∧
        fetched = r.state.poller.setup.timeoutResult) :
    ∃ result, Cycled n r (closed ((fetching n r).onLoop ⟨now, [], timers⟩)
      r.state.poller.store.current fetched) result := by
  have hends := Setup.conclude_ends r.state.poller.setup r.state.poller.store.current
    r.state.poller.store (r.state.epoch + now) fetched
  refine ⟨(r.state.poller.setup.conclude r.state.poller.store.current
    r.state.poller.store (r.state.epoch + now) fetched).result, ?_⟩
  constructor
  case quiet => exact quiet_closed _ _ htimers
  case ended => rfl
  case setup => rfl
  case name => exact hends.name
  case network => rfl
  case time => exact htime
  case classified =>
    rcases hfetched with hw | ⟨hw, rfl⟩
    · rw [hw]
      exact hends.classified hname
    · rw [hw]
      exact hends.classified_late
  case keeps =>
    rcases hfetched with hw | ⟨hw, rfl⟩
    · rw [hw]
      exact hends.keeps
    · rw [hw]
      exact hends.keeps_late
  case journal => exact journal_closed n r _ _ _ rfl hends.reports

/-! ## What is seen on the way -/

/-- A cycle is under way that began with this store, and no loop begins. -/
structure Underway (store : Store) (r : Run (Solo κ) Poller.Task Mark) : Prop where
  store : r.state.poller.store = store
  looping : r.state.poller.looping = false
  tasks : r.loop.Holds (· ≠ .begin)

theorem gives_orders (next : Poller.Next) (reply : Option Reply) :
    ∀ o ∈ next.orders reply, Loop.Gives (· ≠ Poller.Task.begin) o := by
  rcases reply with _ | ⟨_ | delay, result⟩ <;> cases next <;>
    simp [Poller.Next.orders, Loop.Gives]

theorem gives_accept (n : Network κ) (s : Solo κ) (r : Poller.Reaction) :
    ∀ o ∈ (s.accept n r).2, Loop.Gives (· ≠ Poller.Task.begin) o := by
  intro o ho
  rcases List.mem_append.mp ho with ho | ho
  · obtain ⟨m, _, rfl⟩ := List.mem_map.mp ho
    trivial
  · exact gives_orders _ _ o ho

/-- A step that leaves the cycle under way leaves the store as it is. -/
theorem Underway.step {store : Store} {r r' : Run (Solo κ) Poller.Task Mark} (h : Underway store r)
    (hstep : r.step? (machine n) = some r') (hopen : r'.state.isOpen = true) :
    Underway store r' := by
  unfold Run.step? at hstep
  split at hstep
  · rename_i task loop hnext
    cases hstep
    obtain ⟨htask, hloop⟩ := (Loop.takes_of_next? hnext).holds h.tasks
    rw [Run.state_command] at hopen
    rcases Poller.react_single h.looping (r.state.epoch + loop.now) htask with
      ⟨result, hfinished⟩ | ⟨hstore, hlooping⟩
    · simp [machine, accept, hfinished, isOpen] at hopen
    · refine ⟨?_, ?_, ?_⟩
      · rw [Run.state_command, machine, poller_accept, hstore, h.store]
      · rw [Run.state_command, machine, poller_accept, hlooping]
      · rw [Run.loop_command]
        exact Loop.obeyAll_holds hloop (gives_accept n _ _)
  · cases hstep

theorem Quiet.holds {r : Run (Solo κ) Poller.Task Mark} (hq : Quiet r) :
    r.loop.Holds (· ≠ .begin) := by
  refine ⟨by simp [hq.ready], fun t ht => ?_⟩
  obtain ⟨number, result, htask, _⟩ := hq.timers t ht
  rw [htask]
  exact nofun

theorem isOpen_opened (r : Run (Solo κ) Poller.Task Mark) : (opened r).state.isOpen = true := by
  rw [opened, Run.state_command]
  rfl

theorem store_opened (r : Run (Solo κ) Poller.Task Mark) :
    (opened r).state.poller.store = r.state.poller.store := by
  rw [opened, Run.state_command]
  rfl

theorem underway_fetching (n : Network κ) {r : Run (Solo κ) Poller.Task Mark} (hq : Quiet r) :
    Underway r.state.poller.store (fetching n r) := by
  have hloop : (Loop.mk r.loop.now [] r.loop.timers).Holds (· ≠ Poller.Task.begin) :=
    ⟨nofun, hq.holds.timers⟩
  exact ⟨rfl, rfl, Loop.obeyAll_holds hloop (gives_orders _ _)⟩

/-- Nothing touches the store before the cycle ends. -/
theorem store_of_open {r : Run (Solo κ) Poller.Task Mark} (hq : Quiet r) (fuel : Nat)
    (hopen : ((opened r).continueWhile (machine n) none isOpen fuel).state.isOpen = true) :
    ((opened r).continueWhile (machine n) none isOpen fuel).state.poller.store =
      r.state.poller.store := by
  cases fuel with
  | zero => exact store_opened r
  | succ fuel =>
    rw [Run.continueWhile_step (isOpen_opened r) (step?_opened hq.ready)] at hopen ⊢
    -- The invariant is stated of open runs only, as the step that closes the cycle breaks it.
    have hunderway :
        ((fetching n r).continueWhile (machine n) none isOpen fuel).state.isOpen = true →
        Underway r.state.poller.store
          ((fetching n r).continueWhile (machine n) none isOpen fuel) := by
      apply Run.continueWhile_induction
        (P := fun r' : Run (Solo κ) Poller.Task Mark =>
          r'.state.isOpen = true → Underway r.state.poller.store r')
      · intro r₁ r₂ h hgo hstep hopen
        exact (h hgo).step hstep hopen
      · intro _
        exact underway_fetching n hq
    exact (hunderway hopen).store

/-- A cycle ends, its outcome is the one that belongs to what the fetch brought in time, and until
then nothing is seen of it in the store. -/
theorem cycle_classified (n : Network κ) {r : Run (Solo κ) Poller.Task Mark} (hq : Quiet r)
    (hname : r.state.poller.setup.name = r.state.poller.store.name) :
    (∃ steps r' result,
      (∀ fuel, (opened r).continueWhile (machine n) none isOpen (steps + fuel) = r') ∧
        Cycled n r r' result) ∧
    ∀ fuel, ((opened r).continueWhile (machine n) none isOpen fuel).state.isOpen = true →
      ((opened r).continueWhile (machine n) none isOpen fuel).state.poller.store =
        r.state.poller.store := by
  refine ⟨?_, fun fuel hopen => store_of_open hq fuel hopen⟩
  -- One step begins the fetch; the rest depends on whether it brings something in time.
  have hbegin : ∀ steps r', (∀ fuel,
      (fetching n r).continueWhile (machine n) none isOpen (steps + fuel) = r') →
      ∀ fuel, (opened r).continueWhile (machine n) none isOpen (steps + 1 + fuel) = r' := by
    intro steps r' hrun fuel
    rw [show steps + 1 + fuel = steps + fuel + 1 by omega,
      Run.continueWhile_step (isOpen_opened r) (step?_opened hq.ready)]
    exact hrun fuel
  cases hw : (asked n r.state).1.within r.state.poller.setup.timing.timeout with
  | none =>
    obtain ⟨steps, timers, hrun, htimers⟩ := run_of_late hq hw
    have htime := congrArg (r.loop.now + ·) (duration_of_late hw).symm
    obtain ⟨result, hcycled⟩ := cycled_closed hname htimers htime (.inr ⟨hw, rfl⟩)
    exact ⟨steps + 1, _, result, hbegin _ _ hrun, hcycled⟩
  | some fetched =>
    obtain ⟨delay, steps, timers, hdelay, hle, hrun, htimers⟩ := run_of_within hq hw
    have htime := congrArg (r.loop.now + ·) (duration_of_delay hdelay hle).symm
    obtain ⟨result, hcycled⟩ := cycled_closed hname htimers htime (.inl hw)
    exact ⟨steps + 1, _, result, hbegin _ _ hrun, hcycled⟩

theorem quiet_start (poller : Poller) (network : κ) (epoch : Int) :
    Quiet (Run.start (new poller network epoch)) := ⟨rfl, nofun⟩

/-- A poller whose fetches may take ten milliseconds, and are answered after a delay. -/
def answeredAfter (delay : Nat) : Run (Solo (List Script)) Poller.Task Mark :=
  .start (new
    (.new ⟨ascii "a1", { Timing.standard with timeout := 10 }, JobRules.standard, .insecure⟩
      (.new (ascii "a1")) 0)
    [⟨[], ⟨some delay, .ok (.ok ⟨1, [], [], none⟩)⟩⟩] 0)

/-- An answer in time is published. -/
theorem published_before_deadline :
    Quiet (answeredAfter 9) ∧ (answeredAfter 9).state.poller.setup.name =
        (answeredAfter 9).state.poller.store.name ∧
      ∃ steps r', (∀ fuel, (opened (answeredAfter 9)).continueWhile (machine Network.scripted) none
          isOpen (steps + fuel) = r') ∧ r'.state.result = some (.ok .published) := by
  have hq : Quiet (answeredAfter 9) := quiet_start _ _ _
  refine ⟨hq, rfl, ?_⟩
  obtain ⟨⟨steps, r', result, hrun, hcycled⟩, _⟩ := cycle_classified Network.scripted hq rfl
  have hpublished : result = .ok .published :=
    hcycled.classified.published.mpr ⟨⟨1, [], [], none⟩,
      ⟨rfl, by simp [Store.Knows, answeredAfter, Run.start, new, Poller.new, Store.new]⟩, rfl,
      List.nodup_nil, .inl rfl⟩
  exact ⟨steps, r', hrun, by rw [hcycled.ended, hpublished]⟩

/-- An answer that comes just when its time is over loses against the deadline, which was set
first. -/
theorem fetchFailed_at_deadline :
    ∃ delay state, (asked Network.scripted (answeredAfter 10).state).1 =
        ⟨some delay, .ok (.ok state)⟩ ∧
      delay ≤ (answeredAfter 10).state.poller.setup.timing.timeout ∧
      ((opened (answeredAfter 10)).continueWhile (machine Network.scripted) none isOpen 2
        ).state.result = some (.ok .fetchFailed) :=
  ⟨10, _, rfl, by decide, rfl⟩

end TargetDiscovery.Solo
