import TargetDiscovery.Proofs.SortedMap
import TargetDiscovery.Query.Answer

/-!
# What answers list

An answer lists an address under a label set if its body is an array with such a group in it. Only
the answers about targets list any, and all that they list comes from current snapshots.
-/

set_option autoImplicit false

namespace TargetDiscovery

namespace Group

theorem get?_partition_from (targets : List Target) (p : Partition) (labels : Labels) :
    ((targets.foldl Partition.add p).get? labels).getD [] =
      ((targets.filter fun t => t.labels = labels).map Target.address).reverse ++
        (p.get? labels).getD [] := by
  induction targets generalizing p with
  | nil => rfl
  | cons t targets ih =>
    rw [List.foldl_cons, ih, Partition.add, SortedMap.get?_alter]
    by_cases ht : t.labels = labels
    · rw [if_pos ht.symm, List.filter_cons_of_pos (by simpa using ht), ht]
      simp
    · rw [if_neg fun h => ht h.symm, List.filter_cons_of_neg (by simpa using ht)]

theorem get?_partition (targets : List Target) (labels : Labels) :
    ((partition targets).get? labels).getD [] =
      ((targets.filter fun t => t.labels = labels).map Target.address).reverse := by
  have := get?_partition_from targets SortedMap.empty labels
  simpa [partition] using this

/-- Every address of a group is the address of a target with the labels of the group. -/
theorem mem_addresses {targets : List Target} {g : Group} (hg : g ∈ ofTargets targets)
    {a : Bytes} (ha : a ∈ g.addresses) : ∃ t ∈ targets, t.address = a ∧ t.labels = g.labels := by
  obtain ⟨⟨labels, addresses⟩, he, rfl⟩ := List.mem_map.mp hg
  have hget := SortedMap.mem_entries.mp he
  have haddresses := get?_partition targets labels
  rw [hget, Option.getD_some] at haddresses
  have hmem : a ∈ addresses := (List.mergeSort_perm addresses Ranked.upTo).mem_iff.mp ha
  rw [haddresses, List.mem_reverse, List.mem_map] at hmem
  obtain ⟨t, ht, rfl⟩ := hmem
  obtain ⟨ht, hlabels⟩ := List.mem_filter.mp ht
  exact ⟨t, ht, rfl, by simpa using hlabels⟩

end Group

theorem Catalog.mem_targets {c : Catalog} {f : Filter} {t : Target} (h : t ∈ c.targets f) :
    ∃ store ∈ c, ∃ snapshot, store.current = some snapshot ∧ t ∈ snapshot.targets := by
  obtain ⟨store, hstore, ht⟩ := List.mem_flatMap.mp h
  refine ⟨store, (List.mem_filter.mp hstore).1, ?_⟩
  rw [contribution] at ht
  cases hc : store.current with
  | none => simp [hc] at ht
  | some snapshot =>
    rw [hc] at ht
    exact ⟨snapshot, rfl, (List.mem_filter.mp ht).1⟩

namespace Answer

def Lists (body : Json) (g : Group) : Prop := ∃ items, body = .array items ∧ groupBody g ∈ items

theorem groupBody_injective {g h : Group} (hb : groupBody g = groupBody h) : g = h := by
  have hstring : ∀ s t : Bytes, Json.string s = Json.string t → s = t := by
    intro s t hst
    cases hst
    rfl
  have hmember : ∀ e f : Bytes × Bytes, (e.1, Json.string e.2) = (f.1, Json.string f.2) → e = f := by
    intro e f hef
    obtain ⟨hname, hvalue⟩ := Prod.mk.inj hef
    exact Prod.ext hname (hstring _ _ hvalue)
  simp only [groupBody, labelsBody, Json.object.injEq, List.cons.injEq, Prod.mk.injEq,
    Json.array.injEq, true_and, and_true] at hb
  obtain ⟨haddresses, hlabels⟩ := hb
  have ha : g.addresses = h.addresses :=
    (List.map_inj_right fun s t => hstring s t).mp haddresses
  have hl : g.labels.entries = h.labels.entries :=
    (List.map_inj_right fun e f => hmember e f).mp hlabels
  cases g
  cases h
  cases ha
  cases SortedMap.ext_entries hl
  rfl

theorem not_lists_error (status : Nat) (message : Bytes) (g : Group) :
    ¬ Lists (error status message).body g := by
  rintro ⟨items, hbody, _⟩
  cases hbody

theorem not_lists_instances (catalog : Catalog) (ledger : Ledger) (g : Group) :
    ¬ Lists (listInstances catalog ledger).body g := by
  rintro ⟨items, hbody, hg⟩
  cases hbody
  obtain ⟨name, _, hname⟩ := List.mem_map.mp hg
  have hne : ascii "name" ≠ ascii "targets" := by decide
  simp only [instanceBody, groupBody, Json.object.injEq, List.cons_append, List.cons.injEq,
    Prod.mk.injEq] at hname
  exact hne hname.1.1

theorem group_of_lists {catalog : Catalog} {f : Filter} {g : Group}
    (h : Lists (listTargets catalog f).body g) : g ∈ catalog.groups f := by
  obtain ⟨items, hbody, hg⟩ := h
  cases hbody
  obtain ⟨g', hg', hsame⟩ := List.mem_map.mp hg
  rw [← groupBody_injective hsame]
  exact hg'

theorem group_of_lists_answer {catalog : Catalog} {ledger : Ledger} {method target : Bytes}
    {g : Group} (h : Lists (answer catalog ledger method target).body g) :
    ∃ f, g ∈ catalog.groups f := by
  unfold answer at h
  split at h
  · exact absurd h (not_lists_error _ _ g)
  · simp only at h
    split at h
    · exact absurd h (not_lists_error _ _ g)
    · unfold ofResource at h
      split at h
      · exact absurd h (not_lists_instances _ _ g)
      · exact ⟨_, group_of_lists h⟩
      · split at h
        · unfold listTargetsOf at h
          split at h
          · exact ⟨_, group_of_lists h⟩
          · exact absurd h (not_lists_error _ _ g)
        · exact absurd h (not_lists_error _ _ g)
      · exact absurd h (not_lists_error _ _ g)

theorem target_of_lists_answer {catalog : Catalog} {ledger : Ledger} {method target : Bytes}
    {g : Group} (h : Lists (answer catalog ledger method target).body g) {a : Bytes}
    (ha : a ∈ g.addresses) :
    ∃ store ∈ catalog, ∃ snapshot, store.current = some snapshot ∧
      ∃ t ∈ snapshot.targets, t.address = a ∧ t.labels = g.labels := by
  obtain ⟨f, hg⟩ := group_of_lists_answer h
  obtain ⟨t, ht, haddress, hlabels⟩ := Group.mem_addresses hg ha
  obtain ⟨store, hstore, snapshot, hcurrent, hmem⟩ := Catalog.mem_targets ht
  exact ⟨store, hstore, snapshot, hcurrent, t, hmem, haddress, hlabels⟩

end Answer

end TargetDiscovery
