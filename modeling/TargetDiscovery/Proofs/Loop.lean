import TargetDiscovery.Loop

/-!
# Laws of the event loop

The timers of a loop stay in the order of their due times. A part of the tasks can be looked at by
itself: what the orders of some handler do to that part depends only on those orders that concern
it. No statement here mentions what the tasks are.
-/

set_option autoImplicit false

namespace TargetDiscovery

namespace Loop

variable {τ τ' ε ε' : Type}

/-! ## Taking a task -/

/-- One task is taken from a loop: a ready one, or the first timer. Where several threads run a
loop, a ready task need not wait for those in front of it, nor the clock for those that are
ready. -/
inductive Takes (l : Loop τ) : τ → Loop τ → Prop
  | ready {before after : List τ} {task : τ} (h : l.ready = before ++ task :: after) :
      Takes l task { l with ready := before ++ after }
  | timer {t : Timer τ} {rest : List (Timer τ)} (h : l.timers = t :: rest) :
      Takes l t.task { l with now := max l.now t.due, timers := rest }

theorem takes_of_next? {l l' : Loop τ} {task : τ} (h : l.next? = some (task, l')) :
    l.Takes task l' := by
  unfold next? at h
  split at h
  · rename_i hready
    cases h
    have hfirst : l.ready = [] ++ _ :: _ := hready
    exact .ready hfirst
  · split at h
    · rename_i htimers
      cases h
      exact .timer htimers
    · cases h

theorem Takes.now_le {l l' : Loop τ} {task : τ} (h : l.Takes task l') : l.now ≤ l'.now := by
  cases h with
  | ready => exact Nat.le_refl _
  | timer => exact Nat.le_max_left _ _

theorem Takes.timers_subset {l l' : Loop τ} {t : τ} (h : l.Takes t l') {u : Timer τ}
    (hu : u ∈ l'.timers) : u ∈ l.timers := by
  cases h with
  | ready => exact hu
  | timer ht =>
    rw [ht]
    exact List.mem_cons_of_mem _ hu

theorem Takes.mem_timers {l l' : Loop τ} {t : τ} (h : l.Takes t l') {u : Timer τ}
    (hu : u ∈ l.timers) (hne : u.task ≠ t) : u ∈ l'.timers := by
  cases h with
  | ready => exact hu
  | timer ht =>
    rw [ht] at hu
    rcases List.mem_cons.mp hu with rfl | hu
    · exact absurd rfl hne
    · exact hu

theorem Takes.mem_ready_of_ne {l l' : Loop τ} {t x : τ} (h : l.Takes t l') (hx : x ∈ l.ready)
    (hne : x ≠ t) : x ∈ l'.ready := by
  cases h with
  | timer => exact hx
  | @ready before after _ hr =>
    rw [hr] at hx
    rcases List.mem_append.mp hx with hx | hx
    · exact List.mem_append.mpr (.inl hx)
    · rcases List.mem_cons.mp hx with hx | hx
      · exact absurd hx hne
      · exact List.mem_append.mpr (.inr hx)

theorem Takes.mem_ready {l l' : Loop τ} {t : τ} (h : l.Takes t l') {x : τ} (hx : x ∈ l'.ready) :
    x ∈ l.ready := by
  cases h with
  | @ready before after _ hr =>
    rw [hr]
    rcases List.mem_append.mp hx with hx | hx
    · exact List.mem_append_left _ hx
    · exact List.mem_append_right _ (List.mem_cons_of_mem _ hx)
  | timer => exact hx

theorem not_takes_idle {l : Loop τ} (hready : l.ready = []) (htimers : l.timers = []) (t : τ)
    (l' : Loop τ) : ¬ l.Takes t l' := by
  intro h
  cases h with
  | ready hr => simp [hready] at hr
  | timer ht => simp [htimers] at ht

/-- The only task of a loop is the one that is taken, and then the loop has none. -/
theorem Takes.of_ready {l l' : Loop τ} {t x : τ} (h : l.Takes x l') (hready : l.ready = [t])
    (htimers : l.timers = []) : x = t ∧ l'.ready = [] ∧ l'.timers = [] := by
  cases h with
  | timer ht => simp [htimers] at ht
  | @ready before after _ hr =>
    rw [hready] at hr
    cases before with
    | nil =>
      cases hr
      exact ⟨rfl, rfl, htimers⟩
    | cons y before => simp at hr

theorem Takes.of_timer {l l' : Loop τ} {u : Timer τ} {x : τ} (h : l.Takes x l')
    (hready : l.ready = []) (htimers : l.timers = [u]) :
    x = u.task ∧ l'.ready = [] ∧ l'.timers = [] := by
  cases h with
  | ready hr => simp [hready] at hr
  | timer ht =>
    rw [htimers] at ht
    cases ht
    exact ⟨rfl, hready, rfl⟩

/-! ## The order of timers -/

def Sorted (timers : List (Timer τ)) : Prop := timers.Pairwise fun t u => t.due ≤ u.due

def Ordered (l : Loop τ) : Prop := Sorted l.timers

theorem ordered_start : (start : Loop τ).Ordered := List.Pairwise.nil

theorem insertTimer_perm (t : Timer τ) (l : List (Timer τ)) : (insertTimer t l).Perm (t :: l) := by
  induction l with
  | nil => exact List.Perm.refl _
  | cons u rest ih =>
    rw [insertTimer]
    split
    · exact (ih.cons u).trans (List.Perm.swap t u rest)
    · exact List.Perm.refl _

theorem mem_insertTimer {t u : Timer τ} {l : List (Timer τ)} :
    u ∈ insertTimer t l ↔ u = t ∨ u ∈ l := by
  rw [(insertTimer_perm t l).mem_iff, List.mem_cons]

theorem insertTimer_sorted (t : Timer τ) {l : List (Timer τ)} (h : Sorted l) :
    Sorted (insertTimer t l) := by
  induction l with
  | nil => simp [insertTimer, Sorted]
  | cons u rest ih =>
    obtain ⟨hu, hrest⟩ := List.pairwise_cons.mp h
    rw [insertTimer]
    by_cases hle : u.due ≤ t.due
    · rw [if_pos hle]
      refine List.pairwise_cons.mpr ⟨fun v hv => ?_, ih hrest⟩
      rcases mem_insertTimer.mp hv with rfl | hv
      · exact hle
      · exact hu v hv
    · rw [if_neg hle]
      refine List.pairwise_cons.mpr ⟨fun v hv => ?_, h⟩
      rcases List.mem_cons.mp hv with rfl | hv
      · omega
      · have := hu v hv
        omega

theorem insertTimer_eq (t : Timer τ) (l : List (Timer τ)) :
    insertTimer t l =
      (l.takeWhile fun u => u.due ≤ t.due) ++ t :: l.dropWhile fun u => u.due ≤ t.due := by
  induction l with
  | nil => rfl
  | cons u rest ih =>
    rw [insertTimer]
    by_cases hle : u.due ≤ t.due
    · simp [hle, ih]
    · simp [hle]

theorem insertTimer_behind {t : Timer τ} {l : List (Timer τ)} (h : ∀ u ∈ l, u.due ≤ t.due)
    (rest : List (Timer τ)) : insertTimer t (l ++ rest) = l ++ insertTimer t rest := by
  induction l with
  | nil => rfl
  | cons u l ih =>
    rw [List.cons_append, insertTimer, if_pos (h u (by simp)),
      ih fun v hv => h v (by simp [hv])]
    rfl

theorem insertTimer_before {t u : Timer τ} (h : t.due < u.due) (l rest : List (Timer τ)) :
    insertTimer t (l ++ u :: rest) =
      (l.takeWhile fun v => v.due ≤ t.due) ++ t ::
        ((l.dropWhile fun v => v.due ≤ t.due) ++ u :: rest) := by
  induction l with
  | nil => simp [insertTimer, Nat.not_le_of_lt h]
  | cons v l ih =>
    rw [List.cons_append, insertTimer, ih]
    by_cases hv : v.due ≤ t.due
    · simp [hv]
    · simp [hv]

theorem insertTimer_of_head {t : Timer τ} {l : List (Timer τ)} (h : ∀ u ∈ l, t.due < u.due) :
    insertTimer t l = t :: l := by
  cases l with
  | nil => rfl
  | cons u rest =>
    have hu : ¬ u.due ≤ t.due := by
      have := h u (by simp)
      omega
    rw [insertTimer, if_neg hu]

theorem Takes.fewer {l l' : Loop τ} {task : τ} (h : l.Takes task l') :
    l'.ready.length + l'.timers.length + 1 = l.ready.length + l.timers.length := by
  cases h with
  | ready hready =>
    simp only [hready, List.length_append, List.length_cons]
    omega
  | timer htimers =>
    simp only [htimers, List.length_cons]
    omega

theorem Takes.ordered {l l' : Loop τ} {task : τ} (h : l.Takes task l') (ho : l.Ordered) :
    l'.Ordered := by
  cases h with
  | ready => exact ho
  | timer ht =>
    rw [Ordered, ht] at ho
    exact (List.pairwise_cons.mp ho).2

/-- A task that is not ready is taken from a timer, which was due by then and before all others. -/
theorem Takes.of_not_ready {l l' : Loop τ} {t : τ} (h : l.Takes t l') (ho : l.Ordered)
    (hr : t ∉ l.ready) :
    ∃ u ∈ l.timers, u.task = t ∧ u.due ≤ l'.now ∧ ∀ w ∈ l.timers, u.due ≤ w.due := by
  cases h with
  | ready h =>
    rw [h] at hr
    exact absurd (by simp) hr
  | @timer u rest h =>
    refine ⟨u, by simp [h], rfl, Nat.le_max_right _ _, ?_⟩
    rw [Ordered, h] at ho
    intro w hw
    rw [h] at hw
    rcases List.mem_cons.mp hw with rfl | hw
    · exact Nat.le_refl _
    · exact (List.pairwise_cons.mp ho).1 w hw

/-! ## A part of the tasks -/

def chooseTimer (f : τ → Option τ') (t : Timer τ) : Option (Timer τ') :=
  (f t.task).map fun x => ⟨t.due, x⟩

def choose (f : τ → Option τ') (l : Loop τ) : Loop τ' :=
  ⟨l.now, l.ready.filterMap f, l.timers.filterMap (chooseTimer f)⟩

theorem due_of_chooseTimer {f : τ → Option τ'} {t : Timer τ} {u : Timer τ'}
    (h : chooseTimer f t = some u) : u.due = t.due := by
  obtain ⟨x, _, rfl⟩ := Option.map_eq_some_iff.mp h
  rfl

theorem Takes.choose {f : τ → Option τ'} {l l' : Loop τ} {task : τ} {x : τ'}
    (h : l.Takes task l') (hx : f task = some x) : (l.choose f).Takes x (l'.choose f) := by
  cases h with
  | @ready before after task h =>
    have hf : (l.choose f).ready = before.filterMap f ++ x :: after.filterMap f := by
      simp [Loop.choose, h, hx]
    have := Takes.ready hf
    simpa [Loop.choose] using this
  | @timer t rest h =>
    have hf : (l.choose f).timers = ⟨t.due, x⟩ :: rest.filterMap (chooseTimer f) := by
      simp [Loop.choose, h, chooseTimer, hx]
    exact Takes.timer hf

theorem Takes.choose_none {f : τ → Option τ'} {l l' : Loop τ} {task : τ} (h : l.Takes task l')
    (hx : f task = none) : l'.choose f = { l.choose f with now := l'.now } := by
  cases h with
  | ready h => simp [Loop.choose, h, hx]
  | timer h => simp [Loop.choose, h, chooseTimer, hx]

theorem next?_choose {f : τ → Option τ'} {l l' : Loop τ} {task : τ} {x : τ'}
    (h : l.next? = some (task, l')) (hx : f task = some x) :
    (l.choose f).next? = some (x, l'.choose f) := by
  unfold next? at h
  split at h
  · rename_i hready
    cases h
    simp [next?, choose, hready, hx]
  · rename_i hready
    split at h
    · rename_i htimers
      cases h
      simp [next?, choose, hready, htimers, chooseTimer, hx]
    · cases h

theorem now_of_next? {l l' : Loop τ} {task : τ} (h : l.next? = some (task, l')) :
    l.nextTime? = some l'.now := by
  unfold next? at h
  unfold nextTime?
  split at h
  · cases h
    rfl
  · split at h
    · rename_i htimers
      cases h
      simp [htimers]
    · cases h

/-! ## Timers ahead -/

def Timely (l : Loop τ) : Prop := ∀ t ∈ l.timers, l.now ≤ t.due

theorem choose_timely (f : τ → Option τ') {l : Loop τ} (h : l.Timely) : (l.choose f).Timely := by
  intro u hu
  obtain ⟨t, ht, htu⟩ := List.mem_filterMap.mp hu
  rw [due_of_chooseTimer htu]
  exact h t ht

theorem timely_of_next? {l l' : Loop τ} {task : τ} (h : l.next? = some (task, l'))
    (ho : l.Ordered) (ht : l.Timely) : l'.Timely := by
  unfold next? at h
  split at h
  · cases h
    exact ht
  · split at h
    · rename_i t rest htimers
      cases h
      rw [Ordered, htimers] at ho
      intro u hu
      have hfirst : t.due ≤ u.due := (List.pairwise_cons.mp ho).1 u hu
      have hnow : l.now ≤ t.due := ht t (by simp [htimers])
      exact Nat.max_le.mpr ⟨by omega, hfirst⟩
    · cases h

/-- The loop without its clock, which is not looked at before the next timer if nothing is ready. -/
def still (l : Loop τ) : Loop τ :=
  match l.ready with
  | [] => { l with now := 0 }
  | _ :: _ => l

theorem still_of_ready {l : Loop τ} (h : l.ready ≠ []) : l.still = l := by
  unfold still
  split
  · rename_i hready
    exact absurd hready h
  · rfl

theorem still_of_idle {l : Loop τ} (h : l.ready = []) : l.still = ⟨0, [], l.timers⟩ := by
  unfold still
  rw [h]

theorem ready_still (l : Loop τ) : l.still.ready = l.ready := by
  unfold still
  split
  · rfl
  · rfl

theorem timers_still (l : Loop τ) : l.still.timers = l.timers := by
  unfold still
  split
  · rfl
  · rfl

theorem next?_still {l : Loop τ} (h : l.Timely) : l.still.next? = l.next? := by
  cases hready : l.ready with
  | cons t rest => rw [still_of_ready (by simp [hready])]
  | nil =>
    rw [still_of_idle hready]
    cases htimers : l.timers with
    | nil => simp [next?, hready, htimers]
    | cons t rest =>
      have hnow : l.now ≤ t.due := h t (by simp [htimers])
      simp [next?, hready, htimers, Nat.max_eq_right hnow]

theorem still_choose_of_next? {f : τ → Option τ'} {l l' : Loop τ} {task : τ}
    (h : l.next? = some (task, l')) (hx : f task = none) :
    (l'.choose f).still = (l.choose f).still := by
  unfold next? at h
  split at h
  · rename_i hready
    cases h
    simp [choose, hready, hx]
  · rename_i hready
    split at h
    · rename_i htimers
      cases h
      simp [choose, still, hready, htimers, chooseTimer, hx]
    · cases h

theorem with_now_still (l : Loop τ) : { l.still with now := l.now } = l := by
  unfold still
  split
  · rfl
  · rfl

/-! ## What orders do to a loop -/

theorem mem_timers_after {l : Loop τ} {delay : Nat} {t : τ} {u : Timer τ} :
    u ∈ (l.after delay t).timers ↔ u = ⟨l.now + delay, t⟩ ∨ u ∈ l.timers := mem_insertTimer

variable [DecidableEq τ] [DecidableEq τ']

omit [DecidableEq τ'] in
theorem mem_timers_cancel {l : Loop τ} {t a : τ} {u : Timer τ} :
    u ∈ (l.cancel t a).timers ↔ u ∈ l.timers ∧ u.task ≠ t := by
  simp [cancel]

omit [DecidableEq τ'] in
theorem mem_ready_cancel {l : Loop τ} {t a x : τ} (h : x ∈ (l.cancel t a).ready) :
    x ∈ l.ready ∨ x = a := by
  rcases List.mem_append.mp h with h | h
  · exact .inl h
  · obtain ⟨_, _, rfl⟩ := List.mem_map.mp h
    exact .inr rfl

omit [DecidableEq τ'] in
theorem mem_ready_cancel_of_ready {l : Loop τ} {t a x : τ} (h : x ∈ l.ready) :
    x ∈ (l.cancel t a).ready := List.mem_append.mpr (.inl h)

omit [DecidableEq τ'] in
theorem mem_ready_cancel_of_timer {l : Loop τ} {t a : τ} {due : Nat} (h : ⟨due, t⟩ ∈ l.timers) :
    a ∈ (l.cancel t a).ready :=
  List.mem_append.mpr (.inr (List.mem_map.mpr ⟨_, List.mem_filter.mpr ⟨h, by simp⟩, rfl⟩))

def obey (l : Loop τ) : Order τ ε → Loop τ
  | .post t => l.post t
  | .after d t => l.after d t
  | .cancel t a => l.cancel t a
  | .emit _ => l

def obeyAll (l : Loop τ) (orders : List (Order τ ε)) : Loop τ := orders.foldl obey l

theorem obeyAll_nil (l : Loop τ) : l.obeyAll ([] : List (Order τ ε)) = l := rfl

theorem obeyAll_cons (l : Loop τ) (o : Order τ ε) (orders : List (Order τ ε)) :
    l.obeyAll (o :: orders) = (l.obey o).obeyAll orders := rfl

theorem obeyAll_append (l : Loop τ) (orders more : List (Order τ ε)) :
    l.obeyAll (orders ++ more) = (l.obeyAll orders).obeyAll more := List.foldl_append

theorem obeyAll_emits (l : Loop τ) (entries : List ε) :
    l.obeyAll (entries.map (Order.emit (τ := τ))) = l := by
  induction entries with
  | nil => rfl
  | cons e entries ih => exact ih

/-- Whether an order does something to the loop. -/
def acts : Order τ ε → Bool
  | .emit _ => false
  | _ => true

theorem obeyAll_acts (l : Loop τ) (orders : List (Order τ ε)) :
    l.obeyAll (orders.filter acts) = l.obeyAll orders := by
  induction orders generalizing l with
  | nil => rfl
  | cons o orders ih =>
    cases o with
    | emit e => exact ih l
    | _ => exact ih _

theorem obey_now (l : Loop τ) (o : Order τ ε) : (l.obey o).now = l.now := by cases o <;> rfl

theorem obeyAll_now (l : Loop τ) (orders : List (Order τ ε)) : (l.obeyAll orders).now = l.now := by
  induction orders generalizing l with
  | nil => rfl
  | cons o orders ih => rw [obeyAll_cons, ih, obey_now]

theorem obey_ordered {l : Loop τ} (h : l.Ordered) (o : Order τ ε) : (l.obey o).Ordered := by
  cases o with
  | post t => exact h
  | after d t => exact insertTimer_sorted _ h
  | cancel t a => exact List.Pairwise.filter _ h
  | emit e => exact h

theorem obeyAll_ordered {l : Loop τ} (h : l.Ordered) (orders : List (Order τ ε)) :
    (l.obeyAll orders).Ordered := by
  induction orders generalizing l with
  | nil => exact h
  | cons o orders ih => exact ih (obey_ordered h o)

theorem obey_timely {l : Loop τ} (h : l.Timely) (o : Order τ ε) : (l.obey o).Timely := by
  cases o with
  | post t => exact h
  | after d t =>
    intro u hu
    rcases mem_timers_after.mp hu with rfl | hu
    · exact Nat.le_add_right _ _
    · exact h u hu
  | cancel t a => exact fun u hu => h u (mem_timers_cancel.mp hu).1
  | emit e => exact h

theorem obeyAll_timely {l : Loop τ} (h : l.Timely) (orders : List (Order τ ε)) :
    (l.obeyAll orders).Timely := by
  induction orders generalizing l with
  | nil => exact h
  | cons o orders ih => exact ih (obey_timely h o)

/-! ## Tasks of a kind -/

/-- All tasks of a loop are of one kind. -/
structure Holds (P : τ → Prop) (l : Loop τ) : Prop where
  ready : ∀ t ∈ l.ready, P t
  timers : ∀ t ∈ l.timers, P t.task

def Gives (P : τ → Prop) : Order τ ε → Prop
  | .post t | .after _ t | .cancel _ t => P t
  | .emit _ => True

section

variable {P : τ → Prop} {l l' : Loop τ}

omit [DecidableEq τ] [DecidableEq τ'] in
theorem Takes.holds {t : τ} (h : l.Takes t l') (hl : l.Holds P) : P t ∧ l'.Holds P := by
  refine ⟨?_, fun x hx => hl.ready x (h.mem_ready hx), fun u hu => hl.timers u (h.timers_subset hu)⟩
  cases h with
  | ready hr => exact hl.ready t (by simp [hr])
  | timer ht => exact hl.timers _ (by simp [ht])

omit [DecidableEq τ'] in
theorem obey_holds (hl : l.Holds P) {o : Order τ ε} (ho : Gives P o) : (l.obey o).Holds P := by
  cases o with
  | post t =>
    refine ⟨fun x hx => ?_, hl.timers⟩
    rcases List.mem_append.mp hx with hx | hx
    · exact hl.ready x hx
    · rw [List.mem_singleton.mp hx]
      exact ho
  | after d t =>
    refine ⟨hl.ready, fun u hu => ?_⟩
    rcases mem_timers_after.mp hu with rfl | hu
    · exact ho
    · exact hl.timers u hu
  | cancel t a =>
    refine ⟨fun x hx => ?_, fun u hu => hl.timers u (mem_timers_cancel.mp hu).1⟩
    rcases mem_ready_cancel hx with hx | rfl
    · exact hl.ready x hx
    · exact ho
  | emit e => exact hl

omit [DecidableEq τ'] in
theorem obeyAll_holds (hl : l.Holds P) {orders : List (Order τ ε)}
    (ho : ∀ o ∈ orders, Gives P o) : (l.obeyAll orders).Holds P := by
  induction orders generalizing l with
  | nil => exact hl
  | cons o orders ih =>
    exact ih (obey_holds hl (ho o (by simp))) fun p hp => ho p (by simp [hp])

end

/-! ## What orders do to a part -/

/-- The order with its tasks and entries taken over, if they are. -/
def chooseOrder (f : τ → Option τ') (g : ε → Option ε') : Order τ ε → Option (Order τ' ε')
  | .post t => (f t).map .post
  | .after d t => (f t).map (.after d)
  | .cancel t a => (f t).bind fun x => (f a).map fun y => .cancel x y
  | .emit e => (g e).map .emit

/-- Whether an order stays on one side: it posts for what it cancels inside the part, or outside. -/
def Splits (f : τ → Option τ') : Order τ ε → Prop
  | .cancel t a => (f t).isSome = (f a).isSome
  | _ => True

omit [DecidableEq τ] [DecidableEq τ'] in
theorem filterMap_insertTimer (f : τ → Option τ') (t : Timer τ) {l : List (Timer τ)}
    (h : Sorted l) :
    (insertTimer t l).filterMap (chooseTimer f) =
      match chooseTimer f t with
      | some u => insertTimer u (l.filterMap (chooseTimer f))
      | none => l.filterMap (chooseTimer f) := by
  induction l with
  | nil => cases hu : chooseTimer f t <;> simp [insertTimer, hu]
  | cons v rest ih =>
    obtain ⟨hv, hrest⟩ := List.pairwise_cons.mp h
    rw [insertTimer]
    by_cases hle : v.due ≤ t.due
    · rw [if_pos hle, List.filterMap_cons, List.filterMap_cons, ih hrest]
      cases hu : chooseTimer f t with
      | none => rfl
      | some u =>
        cases hw : chooseTimer f v with
        | none => rfl
        | some w =>
          have hwu : w.due ≤ u.due := by
            rw [due_of_chooseTimer hw, due_of_chooseTimer hu]
            exact hle
          simp only [insertTimer, if_pos hwu]
    · rw [if_neg hle, List.filterMap_cons]
      cases hu : chooseTimer f t with
      | none => rfl
      | some u =>
        symm
        apply insertTimer_of_head
        intro w hw
        obtain ⟨x, hx, hxw⟩ := List.mem_filterMap.mp hw
        rw [due_of_chooseTimer hxw, due_of_chooseTimer hu]
        rcases List.mem_cons.mp hx with rfl | hx
        · omega
        · have := hv x hx
          omega

section

variable {f : τ → Option τ'} (hf : ∀ t u x, f t = some x → f u = some x → t = u)
include hf

/-- What is posted for the dropped timers of a task is the same inside the part. -/
theorem filterMap_aborted {t a : τ} {x y : τ'} (ht : f t = some x) (ha : f a = some y)
    (l : List (Timer τ)) :
    ((l.filter fun u => u.task = t).map fun _ => a).filterMap f =
      ((l.filterMap (chooseTimer f)).filter fun u => u.task = x).map fun _ => y := by
  induction l with
  | nil => rfl
  | cons u rest ih =>
    by_cases hut : u.task = t
    · have hu : chooseTimer f u = some ⟨u.due, x⟩ := by simp [chooseTimer, hut, ht]
      rw [List.filter_cons_of_pos (by simpa using hut), List.map_cons, List.filterMap_cons_some ha,
        List.filterMap_cons_some hu, List.filter_cons_of_pos (by simp), List.map_cons, ih]
    · rw [List.filter_cons_of_neg (by simpa using hut), ih]
      cases hu : f u.task with
      | none =>
        have hnone : chooseTimer f u = none := by simp [chooseTimer, hu]
        rw [List.filterMap_cons_none hnone]
      | some y =>
        have hyx : y ≠ x := fun h => hut (hf u.task t x (h ▸ hu) ht)
        have hsome : chooseTimer f u = some ⟨u.due, y⟩ := by simp [chooseTimer, hu]
        rw [List.filterMap_cons_some hsome, List.filter_cons_of_neg (by simpa using hyx)]

theorem filterMap_filter_not_task {t : τ} {x : τ'} (ht : f t = some x) (l : List (Timer τ)) :
    (l.filter fun u => u.task ≠ t).filterMap (chooseTimer f) =
      (l.filterMap (chooseTimer f)).filter fun u => u.task ≠ x := by
  induction l with
  | nil => rfl
  | cons u rest ih =>
    by_cases hut : u.task = t
    · have hu : chooseTimer f u = some ⟨u.due, x⟩ := by simp [chooseTimer, hut, ht]
      simp_all
    · cases hu : f u.task with
      | none => simp_all [chooseTimer]
      | some y =>
        have hyx : y ≠ x := fun h => hut (hf u.task t x (h ▸ hu) ht)
        simp_all [chooseTimer]

end

omit [DecidableEq τ'] in
theorem filterMap_filter_outside {f : τ → Option τ'} {t : τ} (ht : f t = none)
    (l : List (Timer τ)) :
    (l.filter fun u => u.task ≠ t).filterMap (chooseTimer f) = l.filterMap (chooseTimer f) := by
  induction l with
  | nil => rfl
  | cons u rest ih =>
    by_cases hut : u.task = t
    · have hu : chooseTimer f u = none := by simp [chooseTimer, hut, ht]
      simp_all
    · simp_all [List.filterMap_cons]

omit [DecidableEq τ] [DecidableEq τ'] in
theorem filterMap_aborted_outside {f : τ → Option τ'} {a : τ} (ha : f a = none)
    (l : List (Timer τ)) : (l.map fun _ => a).filterMap f = [] := by
  induction l with
  | nil => rfl
  | cons u rest ih => simp [ha]

theorem choose_obey {f : τ → Option τ'} (hf : ∀ t u x, f t = some x → f u = some x → t = u)
    (g : ε → Option ε') {l : Loop τ} (h : l.Ordered) {o : Order τ ε} (hs : Splits f o) :
    (l.obey o).choose f =
      match chooseOrder f g o with
      | some p => (l.choose f).obey p
      | none => l.choose f := by
  cases o with
  | post t => cases ht : f t <;> simp [obey, post, choose, chooseOrder, ht]
  | after d t =>
    have hi := filterMap_insertTimer f ⟨l.now + d, t⟩ h
    cases ht : f t <;> simp_all [obey, after, choose, chooseOrder, chooseTimer]
  | cancel t a =>
    cases ht : f t with
    | none =>
      have ha : f a = none := by simpa [Splits, ht] using hs
      have hd := filterMap_filter_outside ht l.timers
      have hb := filterMap_aborted_outside ha (l.timers.filter fun u => u.task = t)
      simp only [obey, cancel, choose, chooseOrder, ht, Option.bind_none, List.filterMap_append, hb,
        hd, List.append_nil]
    | some x =>
      obtain ⟨y, ha⟩ := Option.isSome_iff_exists.mp (by simpa [Splits, ht] using hs.symm)
      have hd := filterMap_filter_not_task hf ht l.timers
      have hb := filterMap_aborted hf ht ha l.timers
      simp only [obey, cancel, choose, chooseOrder, ht, ha, Option.bind_some, Option.map_some,
        List.filterMap_append, hb, hd]
  | emit e => cases he : g e <;> simp [obey, choose, chooseOrder, he]

/-- A part goes its own way: only the orders that concern it change it. -/
theorem choose_obeyAll {f : τ → Option τ'} (hf : ∀ t u x, f t = some x → f u = some x → t = u)
    (g : ε → Option ε') {l : Loop τ} (h : l.Ordered) {orders : List (Order τ ε)}
    (hs : ∀ o ∈ orders, Splits f o) :
    (l.obeyAll orders).choose f = (l.choose f).obeyAll (orders.filterMap (chooseOrder f g)) := by
  -- The order of the timers is needed at each step: only in an ordered loop does a new timer stand
  -- at the same place in the part.
  induction orders generalizing l with
  | nil => rfl
  | cons o orders ih =>
    have ho := choose_obey hf g h (hs o (by simp))
    rw [obeyAll_cons, ih (obey_ordered h o) fun p hp => hs p (by simp [hp]), ho]
    cases hp : chooseOrder f g o <;> simp [hp, obeyAll_cons]

omit [DecidableEq τ] [DecidableEq τ'] in
/-- Orders that were taken over from a part are those of the part. -/
theorem chooseOrder_map_part {f : τ → Option τ'} {g : ε → Option ε'} {F : τ' → τ} {G : ε' → ε}
    (hf : ∀ t, f (F t) = some t) (hg : ∀ e, g (G e) = some e) (orders : List (Order τ' ε')) :
    (orders.map (Order.map F G)).filterMap (chooseOrder f g) = orders := by
  rw [List.filterMap_map]
  have hsame : (chooseOrder f g ∘ Order.map F G) = some := by
    funext o
    cases o <;> simp [chooseOrder, Order.map, hf, hg]
  rw [hsame, List.filterMap_some]

omit [DecidableEq τ] [DecidableEq τ'] in
/-- Orders that were taken over from outside a part are none of it. -/
theorem chooseOrder_map_outside {τ'' ε'' : Type} {f : τ → Option τ'} {g : ε → Option ε'}
    {F : τ'' → τ} {G : ε'' → ε} (hf : ∀ t, f (F t) = none) (hg : ∀ e, g (G e) = none)
    (orders : List (Order τ'' ε'')) :
    (orders.map (Order.map F G)).filterMap (chooseOrder f g) = [] := by
  refine List.filterMap_eq_nil_iff.mpr fun o ho => ?_
  obtain ⟨p, _, rfl⟩ := List.mem_map.mp ho
  cases p <;> simp [chooseOrder, Order.map, hf, hg]

omit [DecidableEq τ] [DecidableEq τ'] in
theorem splits_map_part {f : τ → Option τ'} {F : τ' → τ} (hf : ∀ t, f (F t) = some t) (G : ε' → ε)
    {o : Order τ ε} {orders : List (Order τ' ε')} (h : o ∈ orders.map (Order.map F G)) :
    Splits f o := by
  obtain ⟨p, _, rfl⟩ := List.mem_map.mp h
  cases p with
  | cancel t a => simp [Order.map, Splits, hf]
  | _ => trivial

omit [DecidableEq τ] [DecidableEq τ'] in
theorem splits_map_outside {τ'' ε'' : Type} {f : τ → Option τ'} {F : τ'' → τ}
    (hf : ∀ t, f (F t) = none) (G : ε'' → ε) {o : Order τ ε} {orders : List (Order τ'' ε'')}
    (h : o ∈ orders.map (Order.map F G)) : Splits f o := by
  obtain ⟨p, _, rfl⟩ := List.mem_map.mp h
  cases p with
  | cancel t a => simp [Order.map, Splits, hf]
  | _ => trivial

end Loop

namespace Run

variable {σ τ ε : Type} [DecidableEq τ]

theorem loop_obey (r : Run σ τ ε) (o : Order τ ε) : (r.obey o).loop = r.loop.obey o := by
  cases o <;> rfl

theorem state_obey (r : Run σ τ ε) (o : Order τ ε) : (r.obey o).state = r.state := by
  cases o <;> rfl

theorem loop_obeyAll (r : Run σ τ ε) (orders : List (Order τ ε)) :
    (r.obeyAll orders).loop = r.loop.obeyAll orders := by
  induction orders generalizing r with
  | nil => rfl
  | cons o orders ih =>
    rw [obeyAll, List.foldl_cons, ← obeyAll, ih, loop_obey]
    rfl

theorem state_obeyAll (r : Run σ τ ε) (orders : List (Order τ ε)) :
    (r.obeyAll orders).state = r.state := by
  induction orders generalizing r with
  | nil => rfl
  | cons o orders ih => rw [obeyAll, List.foldl_cons, ← obeyAll, ih, state_obey]

theorem loop_command (r : Run σ τ ε) (change : σ → σ × List (Order τ ε)) :
    (r.command change).loop = r.loop.obeyAll (change r.state).2 := loop_obeyAll _ _

theorem state_command (r : Run σ τ ε) (change : σ → σ × List (Order τ ε)) :
    (r.command change).state = (change r.state).1 := state_obeyAll _ _

/-- The entry that an order puts into the journal. -/
def emitted? : Order τ ε → Option ε
  | .emit e => some e
  | _ => none

omit [DecidableEq τ] in
theorem filterMap_emits (entries : List ε) :
    (entries.map (Order.emit (τ := τ))).filterMap emitted? = entries := by
  induction entries with
  | nil => rfl
  | cons e entries ih => simpa [emitted?] using ih

theorem journal_obeyAll (r : Run σ τ ε) (orders : List (Order τ ε)) :
    (r.obeyAll orders).journal =
      ((orders.filterMap emitted?).map (Stamped.mk r.loop.now)).reverse ++ r.journal := by
  induction orders generalizing r with
  | nil => rfl
  | cons o orders ih =>
    rw [obeyAll, List.foldl_cons, ← obeyAll, ih, loop_obey, Loop.obey_now]
    cases o with
    | emit e => simp [emitted?, obey]
    | _ => rfl

theorem journal_command (r : Run σ τ ε) (change : σ → σ × List (Order τ ε)) :
    (r.command change).journal =
      (((change r.state).2.filterMap emitted?).map (Stamped.mk r.loop.now)).reverse ++ r.journal :=
  journal_obeyAll _ _

theorem command_eq (r : Run σ τ ε) (change : σ → σ × List (Order τ ε)) :
    r.command change = ⟨r.loop.obeyAll (change r.state).2, (change r.state).1,
      (((change r.state).2.filterMap emitted?).map (Stamped.mk r.loop.now)).reverse ++
        r.journal⟩ := by
  rw [← loop_command, ← state_command, ← journal_command]

/-! ## A part of a run -/

section

variable {σ' τ' ε' : Type} [DecidableEq τ']

/-- The part of a run that belongs to a state of its own. -/
def choose (f : τ → Option τ') (g : ε → Option ε') (state : σ') (r : Run σ τ ε) : Run σ' τ' ε' :=
  ⟨r.loop.choose f, state, Stamped.choose g r.journal⟩

variable {f : τ → Option τ'} (hf : ∀ t u x, f t = some x → f u = some x → t = u)
  (g : ε → Option ε')
include hf

theorem choose_obey (state : σ') {r : Run σ τ ε} (h : r.loop.Ordered) {o : Order τ ε}
    (hs : Loop.Splits f o) :
    (r.obey o).choose f g state =
      match Loop.chooseOrder f g o with
      | some p => (r.choose f g state).obey p
      | none => r.choose f g state := by
  have hloop := Loop.choose_obey hf g h hs
  cases o with
  | emit e =>
    cases he : g e with
    | none => simp [choose, obey, Loop.chooseOrder, he, Stamped.choose]
    | some x => simp [choose, obey, Loop.chooseOrder, he, Stamped.choose, Loop.choose]
  | post t =>
    cases ht : f t <;> simp_all [choose, obey, Loop.obey, Loop.chooseOrder]
  | after d t =>
    cases ht : f t <;> simp_all [choose, obey, Loop.obey, Loop.chooseOrder]
  | cancel t a =>
    cases ht : f t <;> cases ha : f a <;> simp_all [choose, obey, Loop.obey, Loop.chooseOrder]

theorem choose_obeyAll (state : σ') {r : Run σ τ ε} (h : r.loop.Ordered)
    {orders : List (Order τ ε)} (hs : ∀ o ∈ orders, Loop.Splits f o) :
    (r.obeyAll orders).choose f g state =
      (r.choose f g state).obeyAll (orders.filterMap (Loop.chooseOrder f g)) := by
  induction orders generalizing r with
  | nil => rfl
  | cons o orders ih =>
    have hfirst := choose_obey hf g state h (hs o (by simp))
    have hordered : (r.obey o).loop.Ordered := by
      rw [loop_obey]
      exact Loop.obey_ordered h o
    rw [obeyAll, List.foldl_cons, ← obeyAll, ih hordered fun p hp => hs p (by simp [hp]), hfirst]
    cases hp : Loop.chooseOrder f g o <;> simp [hp, obeyAll]

/-- What a command makes of a part of a run. -/
theorem choose_command (state : σ') {r : Run σ τ ε} (h : r.loop.Ordered)
    (change : σ → σ × List (Order τ ε)) (hs : ∀ o ∈ (change r.state).2, Loop.Splits f o) :
    (r.command change).choose f g state =
      (r.choose f g state).obeyAll ((change r.state).2.filterMap (Loop.chooseOrder f g)) :=
  choose_obeyAll hf g state (r := { r with state := (change r.state).1 }) h hs

end

/-! ## Steps of a run -/

def onLoop (r : Run σ τ ε) (l : Loop τ) : Run σ τ ε := ⟨l, r.state, r.journal⟩

section

variable {m : Machine σ τ ε} {r : Run σ τ ε}

theorem step?_ready {t : τ} {rest : List τ} (h : r.loop.ready = t :: rest) :
    r.step? m = some ((r.onLoop { r.loop with ready := rest }).command fun s =>
      m.handle r.loop.now s t) := by
  simp only [step?, Loop.next?, h, onLoop]

theorem step?_timer {t : Timer τ} {rest : List (Timer τ)} (hready : r.loop.ready = [])
    (h : r.loop.timers = t :: rest) :
    r.step? m = some ((r.onLoop ⟨max r.loop.now t.due, [], rest⟩).command fun s =>
      m.handle (max r.loop.now t.due) s t.task) := by
  simp only [step?, Loop.next?, hready, h, onLoop]

/-- A step handles the task that is next. -/
theorem next?_of_step? {r' : Run σ τ ε} (h : r.step? m = some r') :
    ∃ task loop, r.loop.next? = some (task, loop) ∧
      r' = (r.onLoop loop).command fun s => m.handle loop.now s task := by
  unfold step? at h
  cases hn : r.loop.next? with
  | none =>
    rw [hn] at h
    cases h
  | some next =>
    rw [hn] at h
    cases h
    exact ⟨_, _, rfl, rfl⟩

theorem continueWhile_step {goOn : σ → Bool} {r' : Run σ τ ε} (hgo : goOn r.state = true)
    (h : r.step? m = some r') (fuel : Nat) :
    r.continueWhile m none goOn (fuel + 1) = r'.continueWhile m none goOn fuel := by
  have hnext : ∃ time, r.loop.nextTime? = some time := by
    unfold step? Loop.next? at h
    unfold Loop.nextTime?
    split at h
    · rename_i hready
      split at hready
      · exact ⟨_, rfl⟩
      · split at hready
        · rename_i htimers
          exact ⟨_, by rw [htimers]; rfl⟩
        · cases hready
    · cases h
  obtain ⟨time, htime⟩ := hnext
  rw [continueWhile]
  simp only [htime, hgo, h]
  rfl

/-- What every step keeps holds of the run in the end. -/
theorem continueWhile_induction {limit : Option Nat} {goOn : σ → Bool} {P : Run σ τ ε → Prop}
    (hstep : ∀ r r', P r → goOn r.state = true → r.step? m = some r' → P r') (hr : P r)
    (fuel : Nat) : P (r.continueWhile m limit goOn fuel) := by
  induction fuel generalizing r with
  | zero => exact hr
  | succ fuel ih =>
    rw [continueWhile]
    split
    · exact hr
    · split
      · rename_i hgo
        split
        · rename_i hnext
          exact ih (hstep _ _ hr (Bool.and_eq_true_iff.mp hgo).1 hnext)
        · exact hr
      · exact hr

theorem continueWhile_done {limit : Option Nat} {goOn : σ → Bool} (hgo : goOn r.state = false)
    (fuel : Nat) : r.continueWhile m limit goOn fuel = r := by
  cases fuel with
  | zero => rfl
  | succ fuel =>
    rw [continueWhile]
    split
    · rfl
    · rw [hgo]
      rfl

end

end Run

end TargetDiscovery
