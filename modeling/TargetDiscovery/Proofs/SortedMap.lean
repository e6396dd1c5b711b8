import Mathlib.Data.List.Nodup
import TargetDiscovery.SortedMap

/-!
# Look-up and entries

What a map gives for its keys and what its entries are say the same, so a map is known by either of
the two.
-/

set_option autoImplicit false

namespace TargetDiscovery.SortedMap

theorem mem_of_valueAt {κ α : Type} [DecidableEq κ] {k : κ} {v : α} {l : List (κ × α)}
    (h : valueAt k l = some v) : (k, v) ∈ l := by
  induction l with
  | nil => cases h
  | cons e l ih =>
    rw [valueAt] at h
    split at h
    · rename_i hk
      cases h
      rw [hk]
      exact List.mem_cons_self
    · exact List.mem_cons_of_mem _ (ih h)

theorem valueAt_of_mem {κ α : Type} [DecidableEq κ] {k : κ} {v : α} {l : List (κ × α)}
    (hl : (l.map Prod.fst).Nodup) (h : (k, v) ∈ l) : valueAt k l = some v := by
  induction l with
  | nil => cases h
  | cons e l ih =>
    obtain ⟨he, hl⟩ := List.nodup_cons.mp hl
    rw [valueAt]
    rcases List.mem_cons.mp h with rfl | h
    · rw [if_pos rfl]
    · have hne : k ≠ e.1 := fun heq => he (heq ▸ List.mem_map_of_mem h)
      rw [if_neg hne]
      exact ih hl h

variable {κ α β : Type} [Ranked κ]

theorem nodup_entries (d : SortedMap κ α) : d.entries.Nodup :=
  d.ascending.imp fun h hsame => Ranked.ne_of_before h (congrArg Prod.fst hsame)

theorem nodup_keys (d : SortedMap κ α) : (d.entries.map Prod.fst).Nodup :=
  List.pairwise_map.mpr (d.ascending.imp Ranked.ne_of_before)

variable [DecidableEq κ]

theorem mem_entries {d : SortedMap κ α} {k : κ} {v : α} :
    (k, v) ∈ d.entries ↔ d.get? k = some v :=
  ⟨valueAt_of_mem d.nodup_keys, mem_of_valueAt⟩

theorem mem_keys {d : SortedMap κ α} {k : κ} : k ∈ d.keys ↔ ∃ v, d.get? k = some v := by
  rw [keys, List.mem_map]
  constructor
  · rintro ⟨⟨k, v⟩, hv, rfl⟩
    exact ⟨v, mem_entries.mp hv⟩
  · rintro ⟨v, hv⟩
    exact ⟨(k, v), mem_entries.mpr hv, rfl⟩

/-- As the keys differ, the order of the entries does not matter. -/
theorem valueAt_of_perm {d : SortedMap κ α} {l : List (κ × α)} (h : l.Perm d.entries) (k : κ) :
    valueAt k l = d.get? k := by
  have hl : (l.map Prod.fst).Nodup := (h.map Prod.fst).nodup_iff.mpr d.nodup_keys
  ext v
  rw [← mem_entries, ← h.mem_iff]
  exact ⟨mem_of_valueAt, valueAt_of_mem hl⟩

theorem get?_foldl_insertIfNew (l : List (κ × α)) (d : SortedMap κ α) (k : κ) :
    (l.foldl (fun d e => d.insertIfNew e.1 e.2) d).get? k = (d.get? k).or (valueAt k l) := by
  induction l generalizing d with
  | nil => rw [List.foldl_nil, valueAt, Option.or_none]
  | cons e l ih =>
    rw [List.foldl_cons, ih, get?_insertIfNew, valueAt]
    by_cases hk : k = e.1
    · rw [if_pos hk, if_pos hk, ← hk]
      cases d.get? k <;> rfl
    · rw [if_neg hk, if_neg hk]

/-- A map is known by what it gives for every key. -/
theorem ext_get? {d e : SortedMap κ α} (h : ∀ k, d.get? k = e.get? k) : d = e := by
  have hperm : d.entries.Perm e.entries :=
    (List.perm_ext_iff_of_nodup d.nodup_entries e.nodup_entries).mpr fun ⟨k, v⟩ => by
      rw [mem_entries, mem_entries, h]
  refine ext_entries (List.Perm.eq_of_pairwise ?_ d.ascending e.ascending hperm)
  intro a b _ _ hab hba
  exact absurd hba (Bool.eq_false_iff.mp (Ranked.asymm hab))

theorem get?_filterMap {d : SortedMap κ α} {f : α → Option β} {k : κ} {w : β} :
    (d.filterMap f).get? k = some w ↔ ∃ v, d.get? k = some v ∧ f v = some w := by
  simp only [← mem_entries, filterMap, List.mem_filterMap, Option.map_eq_some_iff, Prod.exists,
    Prod.mk.injEq]
  constructor
  · rintro ⟨_, v, hv, _, hw, rfl, rfl⟩
    exact ⟨v, hv, hw⟩
  · rintro ⟨v, hv, hw⟩
    exact ⟨k, v, hv, w, hw, rfl, rfl⟩

end TargetDiscovery.SortedMap
