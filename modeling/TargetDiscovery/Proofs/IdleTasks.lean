import TargetDiscovery.Proofs.Clock

/-!
# Idle tasks

A task is idle if there is nothing to do for it. Two runs that differ in idle tasks alone do the
same at the same times: an idle task moves the clock of one of them ahead of the other, but not
behind anything that is still to be done. So the runs agree wherever all is done that is due.
-/

set_option autoImplicit false

namespace TargetDiscovery

/-- Whether an order is for a task that counts. An entry always does. -/
def Order.isLive {τ ε : Type} (live : τ → Bool) : Order τ ε → Bool
  | post t | after _ t | cancel t _ => live t
  | emit _ => true

theorem Order.isLive_map {τ τ' ε ε' : Type} (live : τ' → Bool) (f : τ → τ') (g : ε → ε')
    (o : Order τ ε) : (o.map f g).isLive live = o.isLive fun t => live (f t) := by
  cases o <;> rfl

theorem Order.filter_isLive_map {τ τ' ε ε' : Type} (live : τ' → Bool) (f : τ → τ') (g : ε → ε')
    (orders : List (Order τ ε)) :
    (orders.map (Order.map f g)).filter (Order.isLive live) =
      (orders.filter (Order.isLive fun t => live (f t))).map (Order.map f g) := by
  rw [List.filter_map]
  congr 2
  funext o
  exact o.isLive_map live f g

namespace Loop

variable {τ ε : Type} {live : τ → Bool}

theorem splits_map {τ' ε' : Type} {live : τ' → Bool} {f : τ → τ'} (g : ε → ε') {o : Order τ ε}
    (h : Splits (Option.guard fun t => live (f t)) o) :
    Splits (Option.guard live) (o.map f g) := by
  cases o with
  | cancel t a => simpa [Splits, Order.map] using h
  | _ => trivial

theorem guard_injective (live : τ → Bool) (t u x : τ) (ht : Option.guard live t = some x)
    (hu : Option.guard live u = some x) : t = u :=
  (Option.guard_eq_some_iff.mp ht).1.trans (Option.guard_eq_some_iff.mp hu).1.symm

theorem guard_of_live {t : τ} (h : live t = true) : Option.guard live t = some t :=
  Option.guard_eq_some_iff.mpr ⟨rfl, h⟩

theorem guard_of_idle {t : τ} (h : live t = false) : Option.guard live t = none := by
  simp [h]

theorem filterMap_chooseOrder {orders : List (Order τ ε)}
    (hs : ∀ o ∈ orders, Splits (Option.guard live) o) :
    orders.filterMap (chooseOrder (Option.guard live) some) = orders.filter (Order.isLive live) := by
  induction orders with
  | nil => rfl
  | cons o orders ih =>
    have hrest := ih fun p hp => hs p (by simp [hp])
    have hfirst : chooseOrder (Option.guard live) some o =
        if o.isLive live then some o else none := by
      cases o with
      | emit e => rfl
      | post t => by_cases ht : live t = true <;> simp [chooseOrder, Order.isLive, ht]
      | after d t => by_cases ht : live t = true <;> simp [chooseOrder, Order.isLive, ht]
      | cancel t a =>
        have hta : live t = live a := by
          have hsplit := hs (.cancel t a) (by simp)
          simpa [Splits] using hsplit
        by_cases ht : live t = true
        · simp [chooseOrder, Order.isLive, ht, ← hta]
        · simp [chooseOrder, Order.isLive, ht]
    rw [List.filterMap_cons, hfirst, hrest, List.filter_cons]
    by_cases ho : o.isLive live = true
    · simp [ho]
    · simp [ho]

/-- Of the orders only those for tasks that count change what is left without idle tasks. -/
theorem choose_live_obeyAll [DecidableEq τ] {l : Loop τ} (h : l.Ordered) {orders : List (Order τ ε)}
    (hs : ∀ o ∈ orders, Splits (Option.guard live) o) :
    (l.obeyAll orders).choose (Option.guard live) =
      (l.choose (Option.guard live)).obeyAll (orders.filter (Order.isLive live)) := by
  rw [choose_obeyAll (guard_injective live) some h hs, filterMap_chooseOrder hs]

theorem next?_eq_none {l : Loop τ} (h : l.next? = none) : l.nextTime? = none := by
  unfold next? at h
  unfold nextTime?
  split at h
  · cases h
  · rename_i hready
    split at h
    · cases h
    · rename_i htimers
      simp [htimers]

/-- Nothing is left that is due by a time. -/
structure DoneBy (l : Loop τ) (time : Nat) : Prop where
  ready : l.ready = []
  timers : ∀ t ∈ l.timers, time < t.due

theorem DoneBy.lt_nextTime? {l : Loop τ} {time due : Nat} (h : l.DoneBy time)
    (hn : l.nextTime? = some due) : time < due := by
  rw [nextTime?, h.ready] at hn
  obtain ⟨t, hhead, rfl⟩ := Option.map_eq_some_iff.mp hn
  have hlt := h.timers t (List.mem_of_mem_head? hhead)
  omega

theorem doneBy_of_lt {l : Loop τ} {time : Nat} (ho : l.Ordered) (hnow : l.now ≤ time)
    (h : ∀ due, l.nextTime? = some due → time < due) : l.DoneBy time := by
  cases hready : l.ready with
  | cons t rest =>
    have hlt := h l.now (by rw [nextTime?, hready])
    omega
  | nil =>
    refine ⟨hready, fun t ht => ?_⟩
    cases htimers : l.timers with
    | nil =>
      rw [htimers] at ht
      cases ht
    | cons u rest =>
      have hlt := h (max l.now u.due) (by simp [nextTime?, hready, htimers])
      have hfirst : u.due ≤ t.due := by
        rw [Ordered, htimers] at ho
        rw [htimers] at ht
        rcases List.mem_cons.mp ht with rfl | ht
        · exact Nat.le_refl _
        · exact (List.pairwise_cons.mp ho).1 t ht
      omega

theorem next?_of_nextTime? {l : Loop τ} {due : Nat} (h : l.nextTime? = some due) :
    ∃ task loop, l.next? = some (task, loop) ∧ due = loop.now := by
  cases hn : l.next? with
  | none =>
    rw [next?_eq_none hn] at h
    cases h
  | some next =>
    obtain ⟨task, loop⟩ := next
    exact ⟨task, loop, rfl, Option.some.inj (h.symm.trans (now_of_next? hn))⟩

/-- What is left without idle tasks is due no earlier than the next task. -/
theorem nextTime?_of_choose {τ' : Type} {f : τ → Option τ'} {l : Loop τ} (ho : l.Ordered)
    (ht : l.Timely) {due : Nat} (h : (l.choose f).still.nextTime? = some due) :
    ∃ first, l.nextTime? = some first ∧ first ≤ due := by
  have hlater : ∀ t ∈ (l.choose f).timers, ∃ u ∈ l.timers, t.due = u.due := by
    intro t ht
    obtain ⟨u, hu, hut⟩ := List.mem_filterMap.mp ht
    exact ⟨u, hu, due_of_chooseTimer hut⟩
  cases hready : (l.choose f).ready with
  | cons x rest =>
    rw [still_of_ready (by simp [hready]), nextTime?, hready] at h
    have hnow : l.now = due := Option.some.inj h
    have hne : l.ready ≠ [] := by
      intro hnone
      simp [choose, hnone] at hready
    obtain ⟨y, more, hl⟩ := List.exists_cons_of_ne_nil hne
    exact ⟨l.now, by rw [nextTime?, hl], Nat.le_of_eq hnow⟩
  | nil =>
    rw [still_of_idle hready, nextTime?] at h
    obtain ⟨t, hhead, rfl⟩ := Option.map_eq_some_iff.mp h
    obtain ⟨u, hu, hdue⟩ := hlater t (List.mem_of_mem_head? hhead)
    have hnow : l.now ≤ u.due := ht u hu
    cases hl : l.ready with
    | cons y more =>
      refine ⟨l.now, by rw [nextTime?, hl], ?_⟩
      omega
    | nil =>
      cases htimers : l.timers with
      | nil =>
        rw [htimers] at hu
        cases hu
      | cons w rest =>
        refine ⟨max l.now w.due, by simp [nextTime?, hl, htimers], ?_⟩
        have hfirst : w.due ≤ u.due := by
          rw [Ordered, htimers] at ho
          rw [htimers] at hu
          rcases List.mem_cons.mp hu with rfl | hu
          · exact Nat.le_refl _
          · exact (List.pairwise_cons.mp ho).1 u hu
        omega

end Loop

namespace Run

variable {σ τ ε ρ : Type} [DecidableEq τ]

/-! ## Going on until all is done -/

/-- The run behind a task that was taken from its loop. -/
def handling (m : Machine σ τ ε) (r : Run σ τ ε) (task : τ) (loop : Loop τ) : Run σ τ ε :=
  (r.onLoop loop).command fun s => m.handle loop.now s task

/-- The run need not go on: it is not to, or all is done that is due by the limit. -/
def Rests (limit : Option Nat) (goOn : σ → Bool) (r : Run σ τ ε) : Prop :=
  goOn r.state = false ∨
    ∃ time, limit = some time ∧ ∀ due, r.loop.nextTime? = some due → time < due

/-- The run goes on until it rests. -/
inductive Continues (m : Machine σ τ ε) (limit : Option Nat) (goOn : σ → Bool) :
    Run σ τ ε → Run σ τ ε → Prop
  | rests {r : Run σ τ ε} (h : r.Rests limit goOn) : Continues m limit goOn r r
  | step {r r' : Run σ τ ε} {task : τ} {loop : Loop τ} (hn : r.loop.next? = some (task, loop))
      (hgo : goOn r.state = true) (hd : ∀ time, limit = some time → loop.now ≤ time)
      (h : Continues m limit goOn (r.handling m task loop) r') : Continues m limit goOn r r'

section

variable {m : Machine σ τ ε} {limit : Option Nat} {goOn : σ → Bool} {r r' : Run σ τ ε}

theorem continueWhile_next {task : τ} {loop : Loop τ} (hn : r.loop.next? = some (task, loop))
    (fuel : Nat) : r.continueWhile m limit goOn (fuel + 1) =
      if goOn r.state && limit.all fun l => loop.now ≤ l then
        (r.handling m task loop).continueWhile m limit goOn fuel
      else r := by
  have hstep : r.step? m = some (r.handling m task loop) := by
    simp only [step?, hn]
    rfl
  rw [continueWhile]
  simp only [Loop.now_of_next? hn, hstep]

theorem continues_of_continueWhile {fuel : Nat}
    (h : (r.continueWhile m limit goOn fuel).Rests limit goOn) :
    Continues m limit goOn r (r.continueWhile m limit goOn fuel) := by
  induction fuel generalizing r with
  | zero => exact .rests h
  | succ fuel ih =>
    cases hn : r.loop.next? with
    | none =>
      have hsame : r.continueWhile m limit goOn (fuel + 1) = r := by
        rw [continueWhile]
        simp only [Loop.next?_eq_none hn]
      rw [hsame] at h ⊢
      exact .rests h
    | some next =>
      rw [continueWhile_next hn] at h ⊢
      split at h
      · rename_i hgo
        obtain ⟨hgo', hd⟩ := Bool.and_eq_true_iff.mp hgo
        rw [if_pos hgo]
        refine .step hn hgo' ?_ (ih h)
        rintro time rfl
        simpa using hd
      · rename_i hgo
        rw [if_neg hgo]
        exact .rests h

theorem Continues.fuel (h : Continues m limit goOn r r') :
    ∃ fuel, r.continueWhile m limit goOn fuel = r' := by
  induction h with
  | rests h => exact ⟨0, rfl⟩
  | step hn hgo hd _ ih =>
    obtain ⟨fuel, ih⟩ := ih
    refine ⟨fuel + 1, ?_⟩
    rw [continueWhile_next hn, ← ih, if_pos]
    cases limit with
    | none => simp [hgo]
    | some time => simp [hgo, hd time rfl]

theorem Continues.rested (h : Continues m limit goOn r r') : r'.Rests limit goOn := by
  induction h with
  | rests h => exact h
  | step _ _ _ _ ih => exact ih

omit [DecidableEq τ] in
theorem Rests.not_next (h : r.Rests limit goOn) {task : τ} {loop : Loop τ}
    (hn : r.loop.next? = some (task, loop)) (hgo : goOn r.state = true)
    (hd : ∀ time, limit = some time → loop.now ≤ time) : False := by
  rcases h with hno | ⟨time, hlimit, hlater⟩
  · exact absurd (hno.symm.trans hgo) nofun
  · have hlt := hlater loop.now (Loop.now_of_next? hn)
    have hle := hd time hlimit
    omega

theorem Continues.unique {a b : Run σ τ ε} (ha : Continues m limit goOn r a)
    (hb : Continues m limit goOn r b) : a = b := by
  induction ha with
  | rests h =>
    cases hb with
    | rests => rfl
    | step hn hgo hd => exact (h.not_next hn hgo hd).elim
  | step hn hgo hd _ ih =>
    cases hb with
    | rests h => exact (h.not_next hn hgo hd).elim
    | step hn' _ _ hb =>
      cases hn.symm.trans hn'
      exact ih hb

theorem now_handling (m : Machine σ τ ε) (r : Run σ τ ε) (task : τ) (loop : Loop τ) :
    (r.handling m task loop).loop.now = loop.now := by
  rw [handling, loop_command, Loop.obeyAll_now]
  rfl

theorem Continues.now_le {time : Nat} (h : Continues m (some time) goOn r r')
    (hnow : r.loop.now ≤ time) : r'.loop.now ≤ time := by
  induction h with
  | rests => exact hnow
  | step _ _ hd _ ih =>
    apply ih
    rw [now_handling]
    exact hd time rfl

end

/-! ## Runs that differ in idle tasks -/

/-- The runs differ in idle tasks at most, as far as their states can be seen. The clocks are not
compared. -/
structure Alike (live : τ → Bool) (view : σ → ρ) (r r' : Run σ τ ε) : Prop where
  loop : (r'.loop.choose (Option.guard live)).still = (r.loop.choose (Option.guard live)).still
  state : view r'.state = view r.state
  journal : r'.journal = r.journal

/-- What a machine does not see it does not act upon: under the invariant it finds nothing to do for
idle tasks, and the same for all others where the states look alike. -/
structure Heeds (m : Machine σ τ ε) (live : τ → Bool) (view : σ → ρ) (inv : Run σ τ ε → Prop) :
    Prop where
  ordered {r : Run σ τ ε} (hr : inv r) : r.loop.Ordered
  timely {r : Run σ τ ε} (hr : inv r) : r.loop.Timely
  step {r : Run σ τ ε} {task : τ} {loop : Loop τ} (hr : inv r)
    (hn : r.loop.next? = some (task, loop)) : inv (r.handling m task loop)
  elapse {r : Run σ τ ε} {now : Nat} (hr : inv r) (ht : ∀ t ∈ r.loop.timers, now ≤ t.due) :
    inv (r.onLoop { r.loop with now := now })
  idle {r : Run σ τ ε} {task : τ} {loop : Loop τ} (hr : inv r)
    (hn : r.loop.next? = some (task, loop)) (hi : live task = false) :
    m.handle loop.now r.state task = (r.state, [])
  splits (now : Nat) (s : σ) (task : τ) :
    ∀ o ∈ (m.handle now s task).2, Loop.Splits (Option.guard live) o
  seen {r r' : Run σ τ ε} (hr : inv r) (hr' : inv r') (hs : view r'.state = view r.state)
    (now : Nat) {task : τ} (hl : live task = true) :
    view (m.handle now r'.state task).1 = view (m.handle now r.state task).1 ∧
      (m.handle now r'.state task).2.filter (Order.isLive live) =
        (m.handle now r.state task).2.filter (Order.isLive live)

section

variable {live : τ → Bool} {view : σ → ρ} {r r' : Run σ τ ε}

omit [DecidableEq τ] in
theorem Alike.symm (h : Alike live view r r') : Alike live view r' r :=
  ⟨h.loop.symm, h.state.symm, h.journal.symm⟩

omit [DecidableEq τ] in
theorem Alike.trans {r'' : Run σ τ ε} (h : Alike live view r r') (h' : Alike live view r' r'') :
    Alike live view r r'' :=
  ⟨h'.loop.trans h.loop, h'.state.trans h.state, h'.journal.trans h.journal⟩

omit [DecidableEq τ] in
theorem emitted?_of_isLive (live : τ → Bool) (orders : List (Order τ ε)) :
    (orders.filter (Order.isLive live)).filterMap emitted? = orders.filterMap emitted? := by
  induction orders with
  | nil => rfl
  | cons o orders ih =>
    cases o with
    | emit e => simp [List.filter_cons, Order.isLive, emitted?, ih]
    | _ =>
      rw [List.filter_cons, List.filterMap_cons_none (by rfl)]
      split
      · rw [List.filterMap_cons_none (by rfl), ih]
      · exact ih

/-- Runs that are alike at the same time are so behind the same orders, apart from idle tasks. -/
theorem Alike.command (h : Alike live view r r') (hnow : r'.loop.now = r.loop.now)
    (ho : r.loop.Ordered) (ho' : r'.loop.Ordered) (change : σ → σ × List (Order τ ε))
    (hs : ∀ o ∈ (change r.state).2, Loop.Splits (Option.guard live) o)
    (hs' : ∀ o ∈ (change r'.state).2, Loop.Splits (Option.guard live) o)
    (hview : view (change r'.state).1 = view (change r.state).1)
    (horders : (change r'.state).2.filter (Order.isLive live) =
      (change r.state).2.filter (Order.isLive live)) :
    Alike live view (r.command change) (r'.command change) ∧
      (r'.command change).loop.now = (r.command change).loop.now := by
  have hloop : r'.loop.choose (Option.guard live) = r.loop.choose (Option.guard live) := by
    rw [← Loop.with_now_still (r'.loop.choose _), ← Loop.with_now_still (r.loop.choose _), h.loop]
    exact congrArg (fun now => { (r.loop.choose (Option.guard live)).still with now := now }) hnow
  constructor
  · constructor
    case loop =>
      rw [loop_command, loop_command, Loop.choose_live_obeyAll ho' hs',
        Loop.choose_live_obeyAll ho hs, hloop, horders]
    case state =>
      rw [state_command, state_command, hview]
    case journal =>
      rw [journal_command, journal_command, ← emitted?_of_isLive live,
        ← emitted?_of_isLive live (change r.state).2, horders, hnow, h.journal]
  · rw [loop_command, loop_command, Loop.obeyAll_now, Loop.obeyAll_now, hnow]

end

section

variable {m : Machine σ τ ε} {live : τ → Bool} {view : σ → ρ} {inv : Run σ τ ε → Prop}
  (hm : Heeds m live view inv) {limit : Option Nat} {goOn : σ → Bool} {r r' : Run σ τ ε}
  {task : τ} {loop : Loop τ}
include hm

theorem Heeds.handling_idle (hr : inv r) (hn : r.loop.next? = some (task, loop))
    (hi : live task = false) : r.handling m task loop = r.onLoop loop := by
  have hnothing := hm.idle hr hn hi
  rw [handling, command_eq]
  simp only [onLoop, hnothing]
  rfl

/-- An idle task is not noticed. -/
theorem Heeds.alike_idle (hr : inv r) (hn : r.loop.next? = some (task, loop))
    (hi : live task = false) : Alike live view r (r.handling m task loop) := by
  rw [hm.handling_idle hr hn hi]
  exact ⟨Loop.still_choose_of_next? hn (Loop.guard_of_idle hi), rfl, rfl⟩

/-- No idle task is next that is due by the limit. -/
def Clear (limit : Option Nat) (live : τ → Bool) (r : Run σ τ ε) : Prop :=
  ∀ task loop, r.loop.next? = some (task, loop) → (∀ time, limit = some time → loop.now ≤ time) →
    live task = true

/-- A run can be freed from the idle tasks that are next. -/
theorem Heeds.clears (limit : Option Nat) (hr : inv r) (hgo : goOn r.state = true) :
    ∃ q, inv q ∧ q.state = r.state ∧ Alike live view r q ∧ q.Clear limit live ∧
      ∀ x, Continues m limit goOn q x → Continues m limit goOn r x := by
  -- Induction on the number of tasks: an idle one that is taken brings no other.
  induction hk : r.loop.ready.length + r.loop.timers.length generalizing r with
  | zero =>
    obtain ⟨hready, htimers⟩ := Nat.add_eq_zero_iff.mp hk
    refine ⟨r, hr, rfl, ⟨rfl, rfl, rfl⟩, ?_, fun _ => id⟩
    intro task loop hn
    rw [Loop.next?, List.length_eq_zero_iff.mp hready, List.length_eq_zero_iff.mp htimers] at hn
    cases hn
  | succ k ih =>
    cases hn : r.loop.next? with
    | none =>
      exact ⟨r, hr, rfl, ⟨rfl, rfl, rfl⟩, fun _ _ ht => (by cases hn.symm.trans ht),
        fun _ => id⟩
    | some next =>
      obtain ⟨task, loop⟩ := next
      by_cases hstop : live task = true ∨ ∃ time, limit = some time ∧ time < loop.now
      · refine ⟨r, hr, rfl, ⟨rfl, rfl, rfl⟩, ?_, fun _ => id⟩
        intro t l ht hd
        cases hn.symm.trans ht
        rcases hstop with hlive | ⟨time, hlimit, hlt⟩
        · exact hlive
        · have hle : loop.now ≤ time := hd time hlimit
          omega
      · obtain ⟨hlive, hlater⟩ := not_or.mp hstop
        have hi : live task = false := by simpa using hlive
        have hd : ∀ time, limit = some time → loop.now ≤ time :=
          fun time hlimit => Nat.le_of_not_lt fun hlt => hlater ⟨time, hlimit, hlt⟩
        have hsame := hm.handling_idle hr hn hi
        have hone := hm.alike_idle hr hn hi
        have hnext := hm.step hr hn
        have hfewer : loop.ready.length + loop.timers.length = k := by
          have hone := (Loop.takes_of_next? hn).fewer
          omega
        rw [hsame] at hnext hone
        obtain ⟨q, hq, hstate, hqr, hclear, hcontinues⟩ :=
          @ih (r.onLoop loop) hnext hgo hfewer
        refine ⟨q, hq, hstate, hone.trans hqr, hclear, fun x hx => ?_⟩
        refine .step hn hgo hd ?_
        rw [hsame]
        exact hcontinues x hx

/-- A task that counts is seen by all runs that are alike. -/
theorem Heeds.next?_seen (hr : inv r) (hn : r.loop.next? = some (task, loop))
    (hl : live task = true) (ha : Alike live view r r') :
    (r'.loop.choose (Option.guard live)).still.next? =
      some (task, loop.choose (Option.guard live)) := by
  rw [ha.loop, Loop.next?_still (Loop.choose_timely _ (hm.timely hr))]
  exact Loop.next?_choose hn (Loop.guard_of_live hl)

theorem Heeds.nextTime?_alike (hr : inv r) (hr' : inv r') (ha : Alike live view r r')
    (hn : r.loop.next? = some (task, loop)) (hl : live task = true) :
    ∃ first, r'.loop.nextTime? = some first ∧ first ≤ loop.now := by
  have htime := Loop.now_of_next? (hm.next?_seen hr hn hl ha)
  exact Loop.nextTime?_of_choose (hm.ordered hr') (hm.timely hr') htime

/-- Where a task counts that is next in a run, it is next in one that is alike and free. -/
theorem Heeds.next?_alike (hr : inv r) (hr' : inv r') (ha : Alike live view r r')
    (hclear : r'.Clear limit live) (hn : r.loop.next? = some (task, loop)) (hl : live task = true)
    (hd : ∀ time, limit = some time → loop.now ≤ time) :
    ∃ loop', r'.loop.next? = some (task, loop') ∧
      loop'.choose (Option.guard live) = loop.choose (Option.guard live) := by
  obtain ⟨first, hfirst, hle⟩ := hm.nextTime?_alike hr hr' ha hn hl
  obtain ⟨t, l, hn', rfl⟩ := Loop.next?_of_nextTime? hfirst
  have hlive := hclear t l hn' fun time hlimit => Nat.le_trans hle (hd time hlimit)
  have hseen := (hm.next?_seen hr hn hl ha).symm.trans
    (hm.next?_seen hr' hn' hlive ⟨rfl, rfl, rfl⟩)
  obtain ⟨rfl, hloop⟩ := Prod.mk.inj (Option.some.inj hseen)
  exact ⟨l, hn', hloop.symm⟩

/-- A task that counts does the same in runs that are alike. -/
theorem Heeds.alike_handling (hr : inv r) (hr' : inv r') (ha : Alike live view r r')
    (hn : r.loop.next? = some (task, loop)) {loop' : Loop τ}
    (hn' : r'.loop.next? = some (task, loop'))
    (hloop : loop'.choose (Option.guard live) = loop.choose (Option.guard live))
    (hl : live task = true) :
    Alike live view (r.handling m task loop) (r'.handling m task loop') ∧
      (r'.handling m task loop').loop.now = (r.handling m task loop).loop.now := by
  have hnow : loop'.now = loop.now := by
    have hboth := congrArg Loop.now hloop
    exact hboth
  have htaken : Alike live view (r.onLoop loop) (r'.onLoop loop') :=
    ⟨congrArg Loop.still hloop, ha.state, ha.journal⟩
  obtain ⟨hview, horders⟩ := hm.seen hr hr' ha.state loop.now hl
  have hsame : r'.handling m task loop' =
      (r'.onLoop loop').command fun s => m.handle loop.now s task := by
    rw [handling, hnow]
  rw [hsame]
  exact htaken.command hnow
    ((Loop.takes_of_next? hn).ordered (hm.ordered hr))
    ((Loop.takes_of_next? hn').ordered (hm.ordered hr'))
    (fun s => m.handle loop.now s task)
    (hm.splits _ _ _) (hm.splits _ _ _) hview horders

/-- A run goes on like one that is alike. Where the runs are not to go on any more their clocks
agree. -/
theorem Heeds.continues (hgoOn : ∀ s s', view s' = view s → goOn s' = goOn s)
    (h : Continues m limit goOn r r') {q : Run σ τ ε} (hr : inv r) (hq : inv q)
    (ha : Alike live view r q) (hnow : goOn r.state = false → q.loop.now = r.loop.now) :
    inv r' ∧ ∃ q', Continues m limit goOn q q' ∧ inv q' ∧ Alike live view r' q' ∧
      (goOn r'.state = false → q'.loop.now = r'.loop.now) := by
  -- Induction on the first run. The second one is freed from idle tasks before each task that
  -- counts, and at the end; those of the first one are not noticed.
  induction h generalizing q with
  | @rests r h =>
    refine ⟨hr, ?_⟩
    have hsame := hgoOn _ _ ha.state
    by_cases hgo : goOn r.state = false
    · exact ⟨q, .rests (.inl (hsame.trans hgo)), hq, ha, hnow⟩
    · have hgo' : goOn q.state = true := by simpa [hsame] using hgo
      obtain ⟨q', hq', hstate, hqq', hclear, hcontinues⟩ := hm.clears limit hq hgo'
      refine ⟨q', hcontinues q' (.rests ?_), hq', ha.trans hqq', fun hno => absurd hno hgo⟩
      obtain ⟨time, rfl, hlater⟩ := h.resolve_left hgo
      refine .inr ⟨time, rfl, fun due hdue => Nat.lt_of_not_le fun hle => ?_⟩
      -- A task that counts and is due would be due in the first run as well.
      obtain ⟨task, loop, hn, rfl⟩ := Loop.next?_of_nextTime? hdue
      have hlive := hclear task loop hn fun time ht => Option.some.inj ht ▸ hle
      obtain ⟨first, hfirst, hbefore⟩ := hm.nextTime?_alike hq' hr (ha.trans hqq').symm hn hlive
      have hlt := hlater first hfirst
      omega
  | @step r r' task loop hn hgo hd h ih =>
    by_cases hlive : live task = true
    · have hgo' : goOn q.state = true := (hgoOn _ _ ha.state).trans hgo
      obtain ⟨q', hq', hstate, hqq', hclear, hcontinues⟩ := hm.clears limit hq hgo'
      have ha' := ha.trans hqq'
      obtain ⟨loop', hn', hloop⟩ := hm.next?_alike hr hq' ha' hclear hn hlive hd
      obtain ⟨halike, hsame⟩ := hm.alike_handling hr hq' ha' hn hn' hloop hlive
      obtain ⟨hinv, q'', hq'', hrest⟩ :=
        ih (hm.step hr hn) (hm.step hq' hn') halike fun _ => hsame
      have hgo'' : goOn q'.state = true := by
        rw [hstate]
        exact hgo'
      have hd' : ∀ time, limit = some time → loop'.now ≤ time := by
        rw [now_handling, now_handling] at hsame
        rw [hsame]
        exact hd
      exact ⟨hinv, q'', hcontinues q'' (.step hn' hgo'' hd' hq''), hrest⟩
    · have hi : live task = false := by simpa using hlive
      have hone := (hm.alike_idle hr hn hi).symm.trans ha
      refine ih (hm.step hr hn) hq hone fun hno => ?_
      rw [hm.handling_idle hr hn hi] at hno
      exact absurd (hno.symm.trans hgo) nofun

end

/-! ## Waits as a whole -/

/-- All is done that is due by now. -/
def Settled (r : Run σ τ ε) : Prop := r.loop.DoneBy r.loop.now

def clocked (r : Run σ τ ε) (now : Nat) : Run σ τ ε := r.onLoop { r.loop with now := now }

section

variable {m : Machine σ τ ε} {r q : Run σ τ ε} {time fuel fuel' : Nat}

theorem continues_of_settled (hs : Settled (r.advanceTo m fuel time)) (hnow : r.loop.now ≤ time) :
    ∃ q, Continues m (some time) (fun _ => true) r q ∧ q.loop.DoneBy time ∧
      r.advanceTo m fuel time = q.clocked time := by
  rw [advanceTo] at hs ⊢
  obtain ⟨hready, htimers⟩ := hs
  generalize hq : r.continueWhile m (some time) (fun _ => true) fuel = q at hready htimers ⊢
  have hdone : q.loop.DoneBy time := by
    refine ⟨hready, fun t ht => ?_⟩
    have hlt : max q.loop.now time < t.due := htimers t ht
    omega
  have hcontinues : Continues m (some time) (fun _ => true) r q := by
    subst hq
    exact continues_of_continueWhile (.inr ⟨time, rfl, fun due => hdone.lt_nextTime?⟩)
  have hmax : max q.loop.now time = time := Nat.max_eq_right (hcontinues.now_le hnow)
  refine ⟨q, hcontinues, hdone, ?_⟩
  simp only [hmax]
  rfl

theorem advanceTo_of_continues (h : Continues m (some time) (fun _ => true) r q)
    (ho : q.loop.Ordered) (hnow : r.loop.now ≤ time) :
    q.loop.DoneBy time ∧ ∃ fuel, r.advanceTo m fuel time = q.clocked time := by
  have hbound := h.now_le hnow
  obtain ⟨fuel, hfuel⟩ := h.fuel
  constructor
  · rcases h.rested with hno | ⟨_, hlimit, hlater⟩
    · cases hno
    · cases hlimit
      exact Loop.doneBy_of_lt ho hbound hlater
  · refine ⟨fuel, ?_⟩
    rw [advanceTo, hfuel]
    simp only [Nat.max_eq_right hbound]
    rfl

/-- There is one way to get all done that is due by a time. -/
theorem advanceTo_unique (hs : Settled (r.advanceTo m fuel time))
    (hs' : Settled (r.advanceTo m fuel' time)) (hnow : r.loop.now ≤ time) :
    r.advanceTo m fuel time = r.advanceTo m fuel' time := by
  obtain ⟨q, hq, _, heq⟩ := continues_of_settled hs hnow
  obtain ⟨q', hq', _, heq'⟩ := continues_of_settled hs' hnow
  rw [heq, heq', hq.unique hq']

theorem continueWhile_unique {goOn : σ → Bool}
    (hs : goOn (r.continueWhile m none goOn fuel).state = false)
    (hs' : goOn (r.continueWhile m none goOn fuel').state = false) :
    r.continueWhile m none goOn fuel = r.continueWhile m none goOn fuel' :=
  (continues_of_continueWhile (.inl hs)).unique (continues_of_continueWhile (.inl hs'))

end

/-! ## Runs in step -/

/-- Two runs under the invariant, alike at the same time. -/
structure InStep (live : τ → Bool) (view : σ → ρ) (inv : Run σ τ ε → Prop)
    (r r' : Run σ τ ε) : Prop where
  left : inv r
  right : inv r'
  alike : Alike live view r r'
  now : r'.loop.now = r.loop.now

section

variable {m : Machine σ τ ε} {live : τ → Bool} {view : σ → ρ} {inv : Run σ τ ε → Prop}
  {r q : Run σ τ ε} {time fuel : Nat}

/-- Runs in step are so again behind a command that does not look at what is not seen. -/
theorem Heeds.inStep_command (hm : Heeds m live view inv) (h : InStep live view inv r q)
    {change : σ → σ × List (Order τ ε)} (hr : inv (r.command change)) (hq : inv (q.command change))
    (hs : ∀ s, ∀ o ∈ (change s).2, Loop.Splits (Option.guard live) o)
    (hview : view (change q.state).1 = view (change r.state).1)
    (horders : (change q.state).2.filter (Order.isLive live) =
      (change r.state).2.filter (Order.isLive live)) :
    InStep live view inv (r.command change) (q.command change) := by
  obtain ⟨halike, hnow⟩ := h.alike.command h.now (hm.ordered h.left) (hm.ordered h.right)
    change (hs r.state) (hs q.state) hview horders
  exact ⟨hr, hq, halike, hnow⟩

/-- Runs in step are so again behind a wait. -/
theorem Heeds.inStep_advanceTo (hm : Heeds m live view inv) (h : InStep live view inv r q)
    (hnow : r.loop.now ≤ time) (hs : Settled (r.advanceTo m fuel time)) :
    ∃ fuel', Settled (q.advanceTo m fuel' time) ∧
      InStep live view inv (r.advanceTo m fuel time) (q.advanceTo m fuel' time) := by
  obtain ⟨r', hcontinues, hdone, hr'⟩ := continues_of_settled hs hnow
  obtain ⟨hinv, q', hcontinues', hinv', ha, _⟩ :=
    hm.continues (fun _ _ _ => rfl) hcontinues h.left h.right h.alike fun _ => h.now
  obtain ⟨hdone', fuel', hq'⟩ :=
    advanceTo_of_continues hcontinues' (hm.ordered hinv') (h.now ▸ hnow)
  have helapse : ∀ {x : Run σ τ ε}, inv x → x.loop.DoneBy time → inv (x.clocked time) :=
    fun hx hd => hm.elapse hx fun t ht => Nat.le_of_lt (hd.timers t ht)
  -- The clock is moved at the end, which does not matter where nothing is ready.
  have hstill : ∀ {x : Run σ τ ε}, x.loop.DoneBy time →
      ((x.clocked time).loop.choose (Option.guard live)).still =
        (x.loop.choose (Option.guard live)).still := by
    intro x hd
    have hidle : (x.loop.choose (Option.guard live)).ready = [] := by
      rw [Loop.choose, hd.ready]
      rfl
    rw [Loop.still_of_idle hidle]
    exact Loop.still_of_idle hidle
  refine ⟨fuel', ?_⟩
  rw [hr', hq']
  refine ⟨⟨hdone'.ready, hdone'.timers⟩, helapse hinv hdone, helapse hinv' hdone', ⟨?_, ha.state, ha.journal⟩, rfl⟩
  rw [hstill hdone, hstill hdone', ha.loop]

/-- Runs in step are so again when both are not to go on any more. -/
theorem Heeds.inStep_continueWhile (hm : Heeds m live view inv) (h : InStep live view inv r q)
    {goOn : σ → Bool} (hgoOn : ∀ s s', view s' = view s → goOn s' = goOn s)
    (hs : goOn (r.continueWhile m none goOn fuel).state = false) :
    ∃ fuel', goOn (q.continueWhile m none goOn fuel').state = false ∧
      InStep live view inv (r.continueWhile m none goOn fuel)
        (q.continueWhile m none goOn fuel') := by
  have hcontinues := continues_of_continueWhile (.inl hs)
  obtain ⟨hinv, q', hcontinues', hinv', ha, hnow⟩ :=
    hm.continues hgoOn hcontinues h.left h.right h.alike fun _ => h.now
  obtain ⟨fuel', rfl⟩ := hcontinues'.fuel
  exact ⟨fuel', (hgoOn _ _ ha.state).trans hs, hinv, hinv', ha, hnow hs⟩

end

end Run

end TargetDiscovery
