import TargetDiscovery.Poller

/-!
# Counters by name

What is recorded for one name leaves the counters of every other name alone.
-/

set_option autoImplicit false

namespace TargetDiscovery.Ledger

theorem counters_record (l : Ledger) (e : CycleEvent) (name : Bytes) :
    (l.record e).counters name =
      if name = e.owner then (l.counters name).record e else l.counters name := by
  rw [record, counters, SortedMap.get?_alter]
  by_cases h : name = e.owner
  · subst h
    simp [counters]
  · simp [h, counters]

theorem counters_recordRestart (l : Ledger) (owner name : Bytes) (degraded : Bool) :
    (l.recordRestart owner degraded).counters name =
      if name = owner then (l.counters name).recordRestart degraded else l.counters name := by
  rw [recordRestart, counters, SortedMap.get?_alter]
  by_cases h : name = owner
  · subst h
    simp [counters]
  · simp [h, counters]

theorem counters_foldl_of_eq {name : Bytes} {events : List CycleEvent} (l : Ledger)
    (h : ∀ e ∈ events, e.owner = name) :
    (events.foldl record l).counters name = events.foldl Counters.record (l.counters name) := by
  induction events generalizing l with
  | nil => rfl
  | cons e events ih =>
    have he : name = e.owner := (h e (by simp)).symm
    rw [List.foldl_cons, ih _ fun f hf => h f (by simp [hf]), counters_record, if_pos he]
    rfl

theorem counters_foldl_of_ne {name owner : Bytes} {events : List CycleEvent} (l : Ledger)
    (h : ∀ e ∈ events, e.owner = owner) (hne : name ≠ owner) :
    (events.foldl record l).counters name = l.counters name := by
  induction events generalizing l with
  | nil => rfl
  | cons e events ih =>
    have he : name ≠ e.owner := by
      rw [h e (by simp)]
      exact hne
    rw [List.foldl_cons, ih _ fun f hf => h f (by simp [hf]), counters_record, if_neg he]

end TargetDiscovery.Ledger
