import TargetDiscovery.Proofs.Loop

/-!
# The clock of the event loop

The clock is never moved past a timer, and not while a task is ready. So a task that is pending for
a time is handled at that time. Nothing here depends on what the tasks are.
-/

set_option autoImplicit false

namespace TargetDiscovery

/-- The second state comes from the first one by steps, with what happened on the way, the latest
first. -/
inductive Traced {σ ε : Type} (step : σ → List (Stamped ε) → σ → Prop) (s : σ) :
    List (Stamped ε) → σ → Prop
  | refl : Traced step s [] s
  | tail {h entries : List (Stamped ε)} {t u : σ} (ht : Traced step s h t)
      (hu : step t entries u) : Traced step s (entries ++ h) u

theorem Traced.single {σ ε : Type} {step : σ → List (Stamped ε) → σ → Prop} {s t : σ}
    {entries : List (Stamped ε)} (h : step s entries t) : Traced step s entries t := by
  have htraced := @Traced.tail _ _ step _ _ _ _ _ .refl h
  rwa [List.append_nil] at htraced

theorem Traced.trans {σ ε : Type} {step : σ → List (Stamped ε) → σ → Prop} {s t u : σ}
    {h h' : List (Stamped ε)} (ht : Traced step s h t) (hu : Traced step t h' u) :
    Traced step s (h' ++ h) u := by
  induction hu with
  | refl => exact ht
  | tail _ hstep ih =>
    rw [List.append_assoc]
    exact .tail ih hstep

namespace Loop

variable {τ τ' ε : Type}

/-! ## Moving the clock -/

/-- The clock may be moved on to this time. -/
def Admits (l : Loop τ) (now : Nat) : Prop :=
  now = l.now ∨ l.now ≤ now ∧ l.ready = [] ∧ ∀ t ∈ l.timers, now ≤ t.due

theorem Admits.now_le {l : Loop τ} {now : Nat} (h : l.Admits now) : l.now ≤ now := by
  rcases h with rfl | ⟨hle, _⟩
  · exact Nat.le_refl _
  · exact hle

theorem Admits.choose {l : Loop τ} {now : Nat} (h : l.Admits now) (f : τ → Option τ') :
    (l.choose f).Admits now := by
  rcases h with rfl | ⟨hle, hready, htimers⟩
  · exact .inl rfl
  · refine .inr ⟨hle, by simp [Loop.choose, hready], ?_⟩
    intro u hu
    obtain ⟨t, ht, htu⟩ := List.mem_filterMap.mp hu
    rw [due_of_chooseTimer htu]
    exact htimers t ht

theorem Admits.timely {l : Loop τ} {now : Nat} (h : l.Admits now) (ht : l.Timely) :
    Timely { l with now := now } := by
  rcases h with rfl | ⟨_, _, htimers⟩
  · exact ht
  · exact htimers

theorem Takes.timely {l l' : Loop τ} {t : τ} (h : l.Takes t l') (ho : l.Ordered)
    (ht : l.Timely) : l'.Timely := by
  cases h with
  | ready => exact ht
  | @timer u rest hu =>
    rw [Ordered, hu] at ho
    intro w hw
    have hfirst : u.due ≤ w.due := (List.pairwise_cons.mp ho).1 w hw
    have hnow : l.now ≤ u.due := ht u (by simp [hu])
    exact Nat.max_le.mpr ⟨Nat.le_trans hnow hfirst, hfirst⟩

theorem admits_of_next? {l l' : Loop τ} {task : τ} (h : l.next? = some (task, l'))
    (ho : l.Ordered) (ht : l.Timely) : l.Admits l'.now := by
  unfold next? at h
  split at h
  · cases h
    exact .inl rfl
  · rename_i hready
    split at h
    · rename_i u rest htimers
      cases h
      have hnow : l.now ≤ u.due := ht u (by simp [htimers])
      rw [Ordered, htimers] at ho
      refine .inr ⟨Nat.le_max_left _ _, hready, ?_⟩
      intro w hw
      rw [htimers] at hw
      rcases List.mem_cons.mp hw with rfl | hw
      · exact Nat.max_le.mpr ⟨hnow, Nat.le_refl _⟩
      · have hfirst : u.due ≤ w.due := (List.pairwise_cons.mp ho).1 w hw
        exact Nat.max_le.mpr ⟨Nat.le_trans hnow hfirst, hfirst⟩
    · cases h

theorem after_timely {l : Loop τ} (h : l.Timely) (d : Nat) (t : τ) : (l.after d t).Timely := by
  intro u hu
  rcases mem_timers_after.mp hu with rfl | hu
  · exact Nat.le_add_right _ _
  · exact h u hu

/-! ## Pending tasks -/

/-- A task is pending for a time: it is ready now, or its timer is due then. -/
def Pends (l : Loop τ) (time : Nat) (t : τ) : Prop :=
  t ∈ l.ready ∧ time = l.now ∨ ⟨time, t⟩ ∈ l.timers

theorem Timely.now_le {l : Loop τ} (h : l.Timely) {time : Nat} {t : τ} (ht : l.Pends time t) :
    l.now ≤ time := by
  rcases ht with ⟨_, rfl⟩ | ht
  · exact Nat.le_refl _
  · exact h _ ht

theorem Takes.pends {l l' : Loop τ} {t : τ} (h : l.Takes t l') (ht : l.Timely) :
    l.Pends l'.now t := by
  cases h with
  | ready hr => exact .inl ⟨by simp [hr], rfl⟩
  | @timer u rest hu =>
    have hmem : u ∈ l.timers := by simp [hu]
    rw [Pends, Nat.max_eq_right (ht u hmem)]
    exact .inr hmem

theorem Takes.pends_of {l l' : Loop τ} {t x : τ} {time : Nat} (h : l.Takes t l')
    (ha : l.Admits l'.now) (hx : l'.Pends time x) : l.Pends time x := by
  rcases hx with ⟨hx, rfl⟩ | hx
  · have hready := h.mem_ready hx
    rcases ha with hnow | ⟨_, hnone, _⟩
    · exact .inl ⟨hready, hnow⟩
    · rw [hnone] at hready
      cases hready
  · exact .inr (h.timers_subset hx)

theorem Admits.pends_of {l : Loop τ} {now time : Nat} {x : τ} (h : l.Admits now)
    (hx : Pends { l with now := now } time x) : l.Pends time x := by
  rcases hx with ⟨hx, rfl⟩ | hx
  · rcases h with rfl | ⟨_, hnone, _⟩
    · exact .inl ⟨hx, rfl⟩
    · have hready : x ∈ l.ready := hx
      rw [hnone] at hready
      cases hready
  · exact .inr hx

theorem Pends.choose {l : Loop τ} {time : Nat} {t : τ} {f : τ → Option τ'} {x : τ'}
    (h : l.Pends time t) (hx : f t = some x) : (l.choose f).Pends time x := by
  rcases h with ⟨h, rfl⟩ | h
  · exact .inl ⟨List.mem_filterMap.mpr ⟨t, h, hx⟩, rfl⟩
  · exact .inr (List.mem_filterMap.mpr ⟨_, h, by simp [chooseTimer, hx]⟩)

theorem not_pends_idle {now time : Nat} {t : τ} : ¬ Pends ⟨now, [], []⟩ time t := by
  rintro (⟨h, _⟩ | h)
  · cases h
  · cases h

theorem pends_post {l : Loop τ} {t x : τ} {time : Nat} (h : (l.post t).Pends time x) :
    l.Pends time x ∨ x = t ∧ time = l.now := by
  rcases h with ⟨h, rfl⟩ | h
  · rcases List.mem_append.mp h with h | h
    · exact .inl (.inl ⟨h, rfl⟩)
    · exact .inr ⟨List.mem_singleton.mp h, rfl⟩
  · exact .inl (.inr h)

theorem pends_after {l : Loop τ} {d time : Nat} {t x : τ} (h : (l.after d t).Pends time x) :
    l.Pends time x ∨ x = t ∧ time = l.now + d := by
  rcases h with h | h
  · exact .inl (.inl h)
  · rcases mem_timers_after.mp h with h | h
    · cases h
      exact .inr ⟨rfl, rfl⟩
    · exact .inl (.inr h)

theorem pends_cancel [DecidableEq τ] {l : Loop τ} {t a x : τ} {time : Nat}
    (h : (l.cancel t a).Pends time x) :
    l.Pends time x ∨ x = a ∧ time = l.now ∧ ∃ due, ⟨due, t⟩ ∈ l.timers := by
  rcases h with ⟨h, rfl⟩ | h
  · rcases List.mem_append.mp h with h | h
    · exact .inl (.inl ⟨h, rfl⟩)
    · obtain ⟨u, hu, rfl⟩ := List.mem_map.mp h
      obtain ⟨hmem, htask⟩ := List.mem_filter.mp hu
      have hut : u.task = t := by simpa using htask
      rw [← hut]
      exact .inr ⟨rfl, rfl, u.due, hmem⟩
  · exact .inl (.inr (mem_timers_cancel.mp h).1)

/-! ## Due times -/

/-- The times at which timers of a task are due. -/
def dues [DecidableEq τ] (l : Loop τ) (t : τ) : List Nat :=
  (l.timers.filter fun u => u.task = t).map Timer.due

theorem mem_dues [DecidableEq τ] {l : Loop τ} {t : τ} {due : Nat} :
    due ∈ l.dues t ↔ ⟨due, t⟩ ∈ l.timers := by
  constructor
  · intro h
    obtain ⟨u, hu, rfl⟩ := List.mem_map.mp h
    obtain ⟨hmem, htask⟩ := List.mem_filter.mp hu
    cases u
    simp_all
  · intro h
    exact List.mem_map.mpr ⟨_, List.mem_filter.mpr ⟨h, by simp⟩, rfl⟩

theorem dues_choose [DecidableEq τ] [DecidableEq τ'] {f : τ → Option τ'} {t : τ} {x : τ'}
    (hf : ∀ u, f u = some x ↔ u = t) (l : Loop τ) : (l.choose f).dues x = l.dues t := by
  simp only [dues, choose]
  induction l.timers with
  | nil => rfl
  | cons u rest ih =>
    by_cases hu : u.task = t
    · subst hu
      have hx : f u.task = some x := (hf u.task).mpr rfl
      simp [chooseTimer, hx, ih]
    · cases hx : f u.task with
      | none => simp [chooseTimer, hx, hu, ih]
      | some y =>
        have hy : y ≠ x := by
          rintro rfl
          exact hu ((hf u.task).mp hx)
        simp [chooseTimer, hx, hu, hy, ih]

/-! ## Pairs of timers -/

/-- What holds of any timer and each one behind it still holds with a new timer in its place. -/
theorem insertTimer_pairwise {R : Timer τ → Timer τ → Prop} {t : Timer τ} {l : List (Timer τ)}
    (h : l.Pairwise R) (hs : Sorted l) (hbefore : ∀ u ∈ l, u.due ≤ t.due → R u t)
    (hbehind : ∀ u ∈ l, t.due < u.due → R t u) : (insertTimer t l).Pairwise R := by
  induction l with
  | nil => exact List.pairwise_singleton R t
  | cons u rest ih =>
    obtain ⟨hu, hrest⟩ := List.pairwise_cons.mp h
    obtain ⟨hsu, hsrest⟩ := List.pairwise_cons.mp hs
    rw [insertTimer]
    by_cases hle : u.due ≤ t.due
    · rw [if_pos hle]
      refine List.pairwise_cons.mpr ⟨fun v hv => ?_, ?_⟩
      · rcases mem_insertTimer.mp hv with rfl | hv
        · exact hbefore u (by simp) hle
        · exact hu v hv
      · apply ih hrest hsrest
        · exact fun v hv => hbefore v (by simp [hv])
        · exact fun v hv => hbehind v (by simp [hv])
    · rw [if_neg hle]
      refine List.pairwise_cons.mpr ⟨fun v hv => hbehind v hv ?_, h⟩
      rcases List.mem_cons.mp hv with rfl | hv
      · omega
      · have := hsu v hv
        omega

theorem Takes.pairwise {R : Timer τ → Timer τ → Prop} {l l' : Loop τ} {t : τ} (h : l.Takes t l')
    (hl : l.timers.Pairwise R) : l'.timers.Pairwise R := by
  cases h with
  | ready => exact hl
  | timer hu =>
    rw [hu] at hl
    exact (List.pairwise_cons.mp hl).2

end Loop

namespace Run

variable {σ τ ε : Type} [DecidableEq τ] {r : Run σ τ ε}

theorem ordered_command (h : r.loop.Ordered) (change : σ → σ × List (Order τ ε)) :
    (r.command change).loop.Ordered := by
  rw [loop_command]
  exact Loop.obeyAll_ordered h _

theorem timely_command (h : r.loop.Timely) (change : σ → σ × List (Order τ ε)) :
    (r.command change).loop.Timely := by
  rw [loop_command]
  exact Loop.obeyAll_timely h _

end Run

end TargetDiscovery
