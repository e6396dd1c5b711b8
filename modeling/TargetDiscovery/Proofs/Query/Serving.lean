import Mathlib.Data.List.Nodup
import TargetDiscovery.Proofs.Query.Listed
import TargetDiscovery.Proofs.Target.Identities

/-!
# Every target is served once

Targets are grouped by nothing but their labels. Each of them carries its instance and its job as
labels, and no two of a catalog have one identity, so the group of a target is the only one that
lists it, and lists it once. This holds of every catalog whose stores were offered only what was
built for their own names, whatever the records were.
-/

set_option autoImplicit false

namespace TargetDiscovery

/-- The labels of the target say its instance and its job. -/
def Target.Labelled (t : Target) : Prop :=
  t.labels.get? Naming.owner = some t.owner ∧ t.labels.get? Naming.job = some t.job

/-! ## Groups -/

namespace Group

/-- The group lists an address for an instance and a job, going by its labels. -/
def Serves (g : Group) (i : Identity) : Prop :=
  g.labels.get? Naming.owner = some i.1 ∧ g.labels.get? Naming.job = some i.2.1 ∧
    i.2.2 ∈ g.addresses

instance (g : Group) (i : Identity) : Decidable (g.Serves i) := by
  unfold Serves
  infer_instance

variable {targets : List Target} {g : Group}

theorem labels_nodup (targets : List Target) : ((ofTargets targets).map Group.labels).Nodup := by
  have hkeys : (ofTargets targets).map Group.labels = (partition targets).keys := by
    rw [ofTargets, List.map_map]
    rfl
  rw [hkeys, SortedMap.keys]
  exact List.pairwise_map.mpr ((partition targets).ascending.imp fun h => Ranked.ne_of_before h)

/-- A group has the addresses of the targets with its labels. -/
theorem addresses_perm (hg : g ∈ ofTargets targets) :
    g.addresses.Perm ((targets.filter fun t => t.labels = g.labels).map Target.address) := by
  obtain ⟨⟨labels, addresses⟩, he, rfl⟩ := List.mem_map.mp hg
  have haddresses := get?_partition targets labels
  rw [SortedMap.mem_entries.mp he, Option.getD_some] at haddresses
  refine (List.mergeSort_perm addresses Ranked.upTo).trans ?_
  rw [haddresses]
  exact List.reverse_perm _

theorem exists_group {t : Target} (ht : t ∈ targets) :
    ∃ g ∈ ofTargets targets, g.labels = t.labels ∧ t.address ∈ g.addresses := by
  have hmem : t ∈ targets.filter fun u => u.labels = t.labels :=
    List.mem_filter.mpr ⟨ht, by simp⟩
  have hlisted := get?_partition targets t.labels
  cases hget : (partition targets).get? t.labels with
  | none =>
    rw [hget, Option.getD_none] at hlisted
    have hnone := List.map_eq_nil_iff.mp (List.reverse_eq_nil_iff.mp hlisted.symm)
    rw [hnone] at hmem
    cases hmem
  | some addresses =>
    have hg : (⟨addresses.mergeSort Ranked.upTo, t.labels⟩ : Group) ∈ ofTargets targets :=
      List.mem_map.mpr ⟨(t.labels, addresses), SortedMap.mem_entries.mpr hget, rfl⟩
    exact ⟨_, hg, rfl, (addresses_perm hg).mem_iff.mpr (List.mem_map_of_mem hmem)⟩

theorem eq_of_labels {h : Group} (hg : g ∈ ofTargets targets) (hh : h ∈ ofTargets targets)
    (heq : g.labels = h.labels) : g = h :=
  List.inj_on_of_nodup_map (labels_nodup targets) hg hh heq

theorem ne_nil_of_partition (targets : List Target) {p : Partition}
    (hp : ∀ labels addresses, p.get? labels = some addresses → addresses ≠ []) {labels : Labels}
    {addresses : List Bytes} (h : (targets.foldl Partition.add p).get? labels = some addresses) :
    addresses ≠ [] := by
  induction targets generalizing p with
  | nil => exact hp labels addresses h
  | cons t targets ih =>
    refine ih (fun labels addresses hget => ?_) h
    rw [Partition.add, SortedMap.get?_alter] at hget
    split at hget
    · cases hget
      exact List.cons_ne_nil _ _
    · exact hp labels addresses hget

theorem addresses_ne_nil (hg : g ∈ ofTargets targets) : g.addresses ≠ [] := by
  obtain ⟨⟨labels, addresses⟩, he, rfl⟩ := List.mem_map.mp hg
  have hne : addresses ≠ [] := ne_nil_of_partition targets (fun _ _ h => by
    rw [SortedMap.get?_empty] at h
    cases h) (SortedMap.mem_entries.mp he)
  intro hnil
  have hperm : addresses.Perm [] := hnil ▸ (List.mergeSort_perm addresses Ranked.upTo).symm
  exact hne hperm.eq_nil

/-- Labelled targets with equal labels and equal addresses have one identity. -/
theorem identity_of_labels {t u : Target} (ht : t.Labelled) (hu : u.Labelled)
    (hlabels : t.labels = u.labels) : t.owner = u.owner ∧ t.job = u.job := by
  obtain ⟨howner, hjob⟩ := ht
  rw [hlabels] at howner hjob
  exact ⟨Option.some.inj (howner.symm.trans hu.1), Option.some.inj (hjob.symm.trans hu.2)⟩

section Labelled

variable (hlabelled : ∀ t ∈ targets, t.Labelled) (hnodup : (targets.map Target.identity).Nodup)

include hlabelled in
theorem addresses_nodup (hnodup : (targets.map Target.identity).Nodup)
    (hg : g ∈ ofTargets targets) : g.addresses.Nodup := by
  rw [(addresses_perm hg).nodup_iff]
  refine List.Nodup.map_on ?_ (hnodup.of_map.filter _)
  intro t ht u hu haddress
  obtain ⟨ht, htl⟩ := List.mem_filter.mp ht
  obtain ⟨hu, hul⟩ := List.mem_filter.mp hu
  have hlabels : t.labels = u.labels := (of_decide_eq_true htl).trans (of_decide_eq_true hul).symm
  obtain ⟨howner, hjob⟩ := identity_of_labels (hlabelled t ht) (hlabelled u hu) hlabels
  refine List.inj_on_of_nodup_map hnodup ht hu ?_
  rw [Target.identity, Target.identity, howner, hjob, haddress]

include hlabelled in
/-- An identity that is served is that of a target. -/
theorem target_of_serves {i : Identity} (hg : g ∈ ofTargets targets) (h : g.Serves i) :
    ∃ t ∈ targets, t.labels = g.labels ∧ t.identity = i := by
  obtain ⟨howner, hjob, haddress⟩ := h
  obtain ⟨t, ht, ha, hlabels⟩ := mem_addresses hg haddress
  obtain ⟨hto, htj⟩ := hlabelled t ht
  rw [hlabels] at hto htj
  have ho : t.owner = i.1 := Option.some.inj (hto.symm.trans howner)
  have hj : t.job = i.2.1 := Option.some.inj (htj.symm.trans hjob)
  exact ⟨t, ht, hlabels, by rw [Target.identity, ho, hj, ha]⟩

include hlabelled hnodup in
theorem countP_serves {t : Target} (ht : t ∈ targets) :
    (ofTargets targets).countP (·.Serves t.identity) = 1 := by
  obtain ⟨g, hg, hlabels, haddress⟩ := exists_group ht
  have hserves : g.Serves t.identity := by
    obtain ⟨howner, hjob⟩ := hlabelled t ht
    rw [← hlabels] at howner hjob
    exact ⟨howner, hjob, haddress⟩
  have honly : ∀ h ∈ ofTargets targets, decide (h.Serves t.identity) = true ↔ (h == g) = true := by
    intro h hh
    rw [decide_eq_true_iff, beq_iff_eq]
    constructor
    · intro hs
      obtain ⟨u, hu, hul, hi⟩ := target_of_serves hlabelled hh hs
      have hut : u = t := List.inj_on_of_nodup_map hnodup hu ht hi
      exact eq_of_labels hh hg (by rw [← hul, hut, hlabels])
    · rintro rfl
      exact hserves
  rw [List.countP_congr honly]
  exact List.count_eq_one_of_mem (labels_nodup targets).of_map hg

end Labelled

end Group

/-! ## Catalogs -/

/-- All targets of the current snapshot were made for the instance of the store, each once. -/
structure Store.Own (s : Store) : Prop where
  made : ∀ snapshot, s.current = some snapshot → ∀ t ∈ snapshot.targets,
    t.owner = s.name ∧ t.Labelled
  nodup : ∀ snapshot, s.current = some snapshot → (snapshot.targets.map Target.identity).Nodup

theorem Store.Own.new (name : Bytes) : (Store.new name).Own := by
  constructor
  case made =>
    intro snapshot h
    cases h
  case nodup =>
    intro snapshot h
    cases h

/-- A store keeps to its instance when it is offered a listing that was made for it. -/
theorem Store.Own.publish {s : Store} (h : s.Own) {rules : JobRules} {records : List NodeRecord}
    {l : Listing} (hl : (Conversion.mk s.name rules).listing records = .ok l) (version : UInt64)
    (time : Int) :
    (s.publish (some ⟨s.name, version, l.targets, time, l.skipped⟩)).2.Own := by
  constructor
  case made =>
    intro snapshot hcurrent t ht
    rw [Store.publish_current] at hcurrent
    rw [Store.publish_name]
    split at hcurrent
    · cases hcurrent
      exact Conversion.labels_of_listing hl ht
    · exact h.made snapshot hcurrent t ht
  case nodup =>
    intro snapshot hcurrent
    rw [Store.publish_current] at hcurrent
    split at hcurrent
    · cases hcurrent
      exact ((Conversion.perm_of_listing hl).map _).nodup_iff.mpr (Conversion.nodup_of_listing hl)
    · exact h.nodup snapshot hcurrent

namespace Catalog

/-- The catalogs that come from empty stores of different names by offering a store again and again
what was built for its name, from any records under any rules. -/
inductive Built : Catalog → Prop
  | start {names : List Bytes} (h : names.Nodup) : Built (names.map Store.new)
  | publish {before : Catalog} (h : Built before) {i : Nat} {store : Store}
      (hs : before[i]? = some store) {rules : JobRules} {records : List NodeRecord} {l : Listing}
      (hl : (Conversion.mk store.name rules).listing records = .ok l) (version : UInt64)
      (time : Int) :
      Built (before.set i
        (store.publish (some ⟨store.name, version, l.targets, time, l.skipped⟩)).2)

/-- The stores have different names, and each keeps to its own instance. -/
structure Own (c : Catalog) : Prop where
  names : c.names.Nodup
  stores : ∀ s ∈ c, s.Own

theorem names_set {stores : Catalog} {i : Nat} {s t : Store} (hs : stores[i]? = some s)
    (hname : t.name = s.name) : names (stores.set i t) = stores.names := by
  have hlt := (List.getElem?_eq_some_iff.mp hs).1
  rw [names, names, List.map_set]
  apply List.ext_getElem?
  intro j
  by_cases hj : i = j
  · subst hj
    rw [List.getElem?_set_self (by simpa using hlt), List.getElem?_map, hs, hname]
    rfl
  · rw [List.getElem?_set_ne hj]

theorem Built.nodup_names {c : Catalog} (h : Built c) : c.names.Nodup := by
  induction h with
  | @start names h =>
    have hnames : Catalog.names (names.map Store.new) = names := by
      rw [Catalog.names, List.map_map]
      exact List.map_id names
    rw [hnames]
    exact h
  | publish _ hs _ _ _ ih =>
    rw [names_set hs (Store.publish_name _ _)]
    exact ih

/-- What holds of an empty store and is kept by offers of what was built for its name holds of all
stores. -/
theorem Built.forall_store {P : Store → Prop} (hnew : ∀ name, P (.new name))
    (hpublish : ∀ s : Store, P s → ∀ rules records l,
      (Conversion.mk s.name rules).listing records = .ok l → ∀ version time,
        P (s.publish (some ⟨s.name, version, l.targets, time, l.skipped⟩)).2)
    {c : Catalog} (h : Built c) : ∀ s ∈ c, P s := by
  induction h with
  | start =>
    intro s hs
    obtain ⟨name, _, rfl⟩ := List.mem_map.mp hs
    exact hnew name
  | @publish before _ i store hs rules records l hl version time ih =>
    intro s hmem
    rcases List.mem_or_eq_of_mem_set hmem with hmem | rfl
    · exact ih s hmem
    · exact hpublish store (ih store (List.mem_of_getElem? hs)) rules records l hl version time

theorem own_of_built {c : Catalog} (h : Built c) : c.Own := by
  constructor
  case names => exact h.nodup_names
  case stores =>
    refine h.forall_store Store.Own.new ?_
    intro s hs rules records l hl version time
    exact hs.publish hl version time

/-- A target of a current snapshot that a filter accepts. -/
def Offers (c : Catalog) (f : Filter) (t : Target) : Prop :=
  ∃ store ∈ c, ∃ snapshot, store.current = some snapshot ∧ t ∈ snapshot.targets ∧
    f.accepts t = true

variable {c : Catalog} {f : Filter}

theorem mem_contribution {s : Store} {t : Target} :
    t ∈ contribution f s ↔
      ∃ snapshot, s.current = some snapshot ∧ t ∈ snapshot.targets ∧ f.accepts t = true := by
  rw [contribution]
  cases hc : s.current with
  | none => simp
  | some snapshot => simp

/-- No target is missed because the stores of other instances are left out. -/
theorem Own.mem_targets_iff (h : c.Own) {t : Target} : t ∈ c.targets f ↔ c.Offers f t := by
  rw [targets, List.mem_flatMap]
  constructor
  · rintro ⟨s, hs, ht⟩
    exact ⟨s, (List.mem_filter.mp hs).1, mem_contribution.mp ht⟩
  · rintro ⟨s, hs, snapshot, hcurrent, ht, haccepts⟩
    have hlisted := mem_contribution.mpr ⟨snapshot, hcurrent, ht, haccepts⟩
    refine ⟨s, List.mem_filter.mpr ⟨hs, ?_⟩, hlisted⟩
    rw [← ((h.stores s hs).made snapshot hcurrent t ht).1]
    rw [Filter.accepts, Bool.and_eq_true] at haccepts
    exact haccepts.2

theorem Own.labelled (h : c.Own) : ∀ t ∈ c.targets f, t.Labelled := by
  intro t ht
  obtain ⟨s, hs, snapshot, hcurrent, ht, _⟩ := h.mem_targets_iff.mp ht
  exact ((h.stores s hs).made snapshot hcurrent t ht).2

theorem Own.owner_of_contribution (h : c.Own) {s : Store} (hs : s ∈ c) {i : Identity}
    (hi : i ∈ (contribution f s).map Target.identity) : i.1 = s.name := by
  obtain ⟨t, ht, rfl⟩ := List.mem_map.mp hi
  obtain ⟨snapshot, hcurrent, ht, _⟩ := mem_contribution.mp ht
  exact ((h.stores s hs).made snapshot hcurrent t ht).1

theorem Own.nodup_contribution (h : c.Own) {s : Store} (hs : s ∈ c) :
    ((contribution f s).map Target.identity).Nodup := by
  rw [contribution]
  cases hc : s.current with
  | none => exact List.nodup_nil
  | some snapshot => exact ((h.stores s hs).nodup snapshot hc).sublist (List.filter_sublist.map _)

/-- The targets of one store differ by how they were listed, those of two stores by the instance. -/
theorem Own.identity_nodup (h : c.Own) (f : Filter) :
    ((c.targets f).map Target.identity).Nodup := by
  rw [targets, List.map_flatMap, List.nodup_flatMap]
  constructor
  · intro s hs
    exact h.nodup_contribution (List.mem_filter.mp hs).1
  · have hnames : c.Pairwise fun s t => s.name ≠ t.name := List.pairwise_map.mp h.names
    refine ((hnames.filter _).imp_of_mem ?_)
    intro s t hs ht hne i hi hj
    apply hne
    rw [← h.owner_of_contribution (List.mem_filter.mp hs).1 hi,
      ← h.owner_of_contribution (List.mem_filter.mp ht).1 hj]

/-- How a filter's groups serve the targets of a catalog. -/
structure Served (c : Catalog) (f : Filter) : Prop where
  /-- Every target that the filter accepts is listed by one group, and there once. -/
  once : ∀ t, c.Offers f t →
    (c.groups f).countP (·.Serves t.identity) = 1 ∧
      ∀ g ∈ c.groups f, g.Serves t.identity → g.addresses.count t.address = 1
  /-- All that a group lists are such targets, and every group lists one. -/
  only : ∀ g ∈ c.groups f, g.addresses ≠ [] ∧ ∀ a ∈ g.addresses,
    ∃ t, c.Offers f t ∧ t.address = a ∧ t.labels = g.labels ∧ g.Serves t.identity
  /-- No group lists an address twice. -/
  nodup : ∀ g ∈ c.groups f, g.addresses.Nodup
  /-- The targets in a group are of one instance and one job. -/
  unmixed : ∀ g ∈ c.groups f, ∀ t u, c.Offers f t → c.Offers f u →
    t.address ∈ g.addresses → t.labels = g.labels →
    u.address ∈ g.addresses → u.labels = g.labels → t.owner = u.owner ∧ t.job = u.job

theorem Own.served (h : c.Own) (f : Filter) : c.Served f := by
  have hlabelled : ∀ t ∈ c.targets f, t.Labelled := h.labelled
  have hnodup := h.identity_nodup f
  constructor
  case once =>
    intro t ht
    have hmem := h.mem_targets_iff.mpr ht
    refine ⟨Group.countP_serves hlabelled hnodup hmem, fun g hg hserves => ?_⟩
    exact List.count_eq_one_of_mem (Group.addresses_nodup hlabelled hnodup hg) hserves.2.2
  case only =>
    intro g hg
    refine ⟨Group.addresses_ne_nil hg, fun a ha => ?_⟩
    obtain ⟨t, ht, haddress, hlabels⟩ := Group.mem_addresses hg ha
    obtain ⟨howner, hjob⟩ := hlabelled t ht
    rw [hlabels] at howner hjob
    have hserved : t.identity.2.2 ∈ g.addresses := by
      rw [Target.identity, haddress]
      exact ha
    exact ⟨t, h.mem_targets_iff.mp ht, haddress, hlabels, howner, hjob, hserved⟩
  case nodup =>
    intro g hg
    exact Group.addresses_nodup hlabelled hnodup hg
  case unmixed =>
    intro g _ t u ht hu _ htl _ hul
    exact Group.identity_of_labels (hlabelled t (h.mem_targets_iff.mpr ht))
      (hlabelled u (h.mem_targets_iff.mpr hu)) (htl.trans hul.symm)

/-- Whatever was built for the stores and offered to them, the groups of any filter list each target
of a current snapshot that it accepts exactly once, and nothing else. -/
theorem served_of_built {c : Catalog} (h : Built c) (f : Filter) : c.Served f :=
  (own_of_built h).served f

/-- A node that two instances know. One of its features has the name of a label of its own. -/
def sharedNodes : List NodeRecord :=
  [⟨ascii "n1", ascii "10.0.0.1:9090", ascii "s1", ascii "replica",
      SortedMap.ofList [(ascii "zone", ascii "b")], false⟩,
    ⟨ascii "n2", ascii "10.0.0.1:9090", ascii "s1", ascii "replica",
      SortedMap.ofList [(Naming.owner, ascii "west")], false⟩]

/-- What is built from the shared nodes for an instance. -/
def sharedSnapshot (name : Bytes) : Snapshot :=
  let c : Conversion := ⟨name, JobRules.standard⟩
  ⟨name, 1, c.sorted sharedNodes, 0, (c.rejected sharedNodes).length⟩

/-- Two instances that have published the shared nodes. -/
def twins : Catalog :=
  [ascii "east", ascii "west"].map fun name =>
    ((Store.new name).publish (some (sharedSnapshot name))).2

theorem listing_sharedNodes (name : Bytes)
    (h : (((⟨name, JobRules.standard⟩ : Conversion).accepted sharedNodes).map
      Target.identity).Nodup) :
    (⟨name, JobRules.standard⟩ : Conversion).listing sharedNodes =
      .ok ⟨(sharedSnapshot name).targets, (sharedSnapshot name).skipped⟩ :=
  Conversion.listing_of_nodup h

theorem built_twins : twins.Built := by
  have hstart : Built ([ascii "east", ascii "west"].map Store.new) := .start (by decide)
  have heast := hstart.publish (i := 0) rfl
    (listing_sharedNodes (ascii "east") (by decide +kernel)) 1 0
  exact heast.publish (i := 1) rfl (listing_sharedNodes (ascii "west") (by decide +kernel)) 1 0

theorem served_twins : twins.Built ∧ twins.Served {} ∧
    (twins.groups {}).map Group.addresses = [[ascii "10.0.0.1:9090"], [ascii "10.0.0.1:9090"]] :=
  ⟨built_twins, served_of_built built_twins {}, by decide +kernel⟩

end Catalog

end TargetDiscovery
