import TargetDiscovery.Proofs.Query.Serving

/-!
# Filtering before and after grouping

A filter looks at the instance and the job of a target and leaves out the stores of other instances.
In a catalog where every target says both in its labels, the groups of a filter are the groups of all
targets whose labels agree with it. The groups of all targets are those of the single instances,
brought into the order of their label sets.
-/

set_option autoImplicit false

namespace TargetDiscovery

namespace Group

def upTo (g h : Group) : Bool := Ranked.upTo g.labels h.labels

/-- The groups stand in the strict order of their label sets. -/
def Ascending (groups : List Group) : Prop :=
  groups.Pairwise fun g h => Ranked.before g.labels h.labels = true

theorem ascending_ofTargets (targets : List Target) : Ascending (ofTargets targets) :=
  List.pairwise_map.mpr (partition targets).ascending

theorem Ascending.nodup {groups : List Group} (h : Ascending groups) : groups.Nodup := by
  refine h.imp fun hgh heq => ?_
  rw [heq, Ranked.irrefl] at hgh
  cases hgh

theorem Ascending.ext {groups groups' : List Group} (h : Ascending groups)
    (h' : Ascending groups') (hmem : ∀ g, g ∈ groups ↔ g ∈ groups') : groups = groups' := by
  have hperm : groups.Perm groups' := (List.perm_ext_iff_of_nodup h.nodup h'.nodup).mpr hmem
  refine hperm.eq_of_pairwise (fun g k _ _ hgk hkg => ?_) h h'
  rw [Ranked.asymm hgk] at hkg
  cases hkg

/-- The groups of targets, each with the sorted addresses of all targets with its labels. -/
theorem mem_ofTargets {targets : List Target} {g : Group} :
    g ∈ ofTargets targets ↔ (∃ t ∈ targets, t.labels = g.labels) ∧
      g.addresses = ((targets.filter fun t => t.labels = g.labels).map Target.address).mergeSort
        Ranked.upTo := by
  have haddresses : ∀ h ∈ ofTargets targets, h.addresses =
      ((targets.filter fun t => t.labels = h.labels).map Target.address).mergeSort
        Ranked.upTo := by
    intro h hh
    obtain ⟨⟨labels, addresses⟩, _, rfl⟩ := List.mem_map.mp hh
    exact Ranked.mergeSort_perm_eq
      ((List.mergeSort_perm addresses Ranked.upTo).symm.trans (addresses_perm hh))
  constructor
  · intro hg
    obtain ⟨a, ha⟩ := List.exists_mem_of_ne_nil _ (addresses_ne_nil hg)
    obtain ⟨t, ht, _, hlabels⟩ := mem_addresses hg ha
    exact ⟨⟨t, ht, hlabels⟩, haddresses g hg⟩
  · rintro ⟨⟨t, ht, hlabels⟩, hg⟩
    obtain ⟨h, hh, hsame, _⟩ := exists_group ht
    have hlabels' : h.labels = g.labels := hsame.trans hlabels
    have haddress : h.addresses = g.addresses := by rw [haddresses h hh, hlabels', hg]
    have heq : h = g := by
      cases h
      cases g
      cases hlabels'
      cases haddress
      rfl
    exact heq ▸ hh

/-- Targets chosen by their labels have the groups chosen by their labels. -/
theorem ofTargets_filter (p : Labels → Bool) (targets : List Target) :
    ofTargets (targets.filter fun t => p t.labels) =
      (ofTargets targets).filter fun g => p g.labels := by
  refine (ascending_ofTargets _).ext ((ascending_ofTargets targets).filter _) fun g => ?_
  have hsame : p g.labels = true → ((targets.filter fun t => p t.labels).filter fun t =>
      t.labels = g.labels) = targets.filter fun t => t.labels = g.labels := by
    intro hp
    rw [List.filter_filter]
    refine List.filter_congr fun t _ => ?_
    by_cases ht : t.labels = g.labels
    · simp [ht, hp]
    · simp [ht]
  rw [List.mem_filter, mem_ofTargets, mem_ofTargets]
  constructor
  · rintro ⟨⟨t, ht, hlabels⟩, haddresses⟩
    obtain ⟨ht, hp⟩ := List.mem_filter.mp ht
    rw [hlabels] at hp
    rw [hsame hp] at haddresses
    exact ⟨⟨⟨t, ht, hlabels⟩, haddresses⟩, hp⟩
  · rintro ⟨⟨⟨t, ht, hlabels⟩, haddresses⟩, hp⟩
    refine ⟨⟨t, List.mem_filter.mpr ⟨ht, ?_⟩, hlabels⟩, ?_⟩
    · rw [hlabels]
      exact hp
    · rw [hsame hp]
      exact haddresses

end Group

namespace Filter

def agrees (wanted value : Option Bytes) : Bool :=
  match wanted with
  | some w => value == some w
  | none => true

/-- The labels have the job and the instance that the filter asks for. -/
def describes (f : Filter) (labels : Labels) : Bool :=
  agrees f.job (labels.get? Naming.job) && agrees f.owner (labels.get? Naming.owner)

theorem agrees_some (wanted : Option Bytes) (value : Bytes) :
    agrees wanted (some value) = admits wanted value := by
  cases wanted with
  | none => rfl
  | some w => exact (Option.some_beq_some).trans (Bool.beq_comm)

theorem accepts_eq_describes (f : Filter) {t : Target} (ht : t.Labelled) :
    f.accepts t = f.describes t.labels := by
  rw [describes, ht.1, ht.2, agrees_some, agrees_some]
  rfl

theorem describes_owner (name : Bytes) (labels : Labels) :
    (Filter.mk none (some name)).describes labels = true ↔
      labels.get? Naming.owner = some name := by
  simp [describes, agrees]

end Filter

namespace Catalog

variable {c : Catalog}

theorem contribution_eq_filter (f : Filter) (s : Store) :
    contribution f s = (contribution {} s).filter f.accepts := by
  have hall : ∀ t, Filter.accepts {} t = true := fun _ => rfl
  rw [contribution, contribution]
  cases s.current with
  | none => rfl
  | some snapshot =>
    rw [List.filter_filter]
    exact List.filter_congr fun t _ => by rw [hall, Bool.and_true]

/-- Nothing is lost with the items that have nothing. -/
theorem flatMap_filter {α β : Type} {p : α → Bool} {g : α → List β} {l : List α}
    (h : ∀ a ∈ l, p a = false → g a = []) : (l.filter p).flatMap g = l.flatMap g := by
  induction l with
  | nil => rfl
  | cons a l ih =>
    have hrest := ih fun b hb => h b (List.mem_cons_of_mem _ hb)
    cases hp : p a with
    | true => rw [List.filter_cons_of_pos hp, List.flatMap_cons, List.flatMap_cons, hrest]
    | false =>
      rw [List.filter_cons_of_neg (by simp [hp]), List.flatMap_cons, h a List.mem_cons_self hp,
        List.nil_append, hrest]

theorem targets_unfiltered (c : Catalog) : c.targets {} = c.flatMap (contribution {}) :=
  flatMap_filter fun _ _ h => nomatch h

theorem Own.labelled_of_contribution (h : c.Own) {s : Store} (hs : s ∈ c) {f : Filter} {t : Target}
    (ht : t ∈ contribution f s) : t.owner = s.name ∧ t.Labelled := by
  obtain ⟨snapshot, hcurrent, ht, _⟩ := mem_contribution.mp ht
  exact (h.stores s hs).made snapshot hcurrent t ht

/-- The stores that are not looked at have nothing for the filter. -/
theorem Own.targets_eq_accepted (h : c.Own) (f : Filter) :
    c.targets f = (c.targets {}).filter f.accepts := by
  have hskip : ∀ s ∈ c, Filter.admits f.owner s.name = false → contribution f s = [] := by
    intro s hs hname
    refine List.eq_nil_iff_forall_not_mem.mpr fun t ht => ?_
    obtain ⟨_, _, _, haccepts⟩ := mem_contribution.mp ht
    rw [Filter.accepts, (h.labelled_of_contribution hs ht).1, hname, Bool.and_false] at haccepts
    cases haccepts
  rw [targets, flatMap_filter hskip, targets_unfiltered, List.filter_flatMap]
  exact List.flatMap_congr fun s _ => contribution_eq_filter f s

theorem Own.targets_eq_filter (h : c.Own) (f : Filter) :
    c.targets f = (c.targets {}).filter fun t => f.describes t.labels := by
  rw [h.targets_eq_accepted]
  exact List.filter_congr fun t ht => f.accepts_eq_describes (h.labelled t ht)

theorem Own.groups_eq_filter (h : c.Own) (f : Filter) :
    c.groups f = (c.groups {}).filter fun g => f.describes g.labels := by
  rw [groups, h.targets_eq_filter, Group.ofTargets_filter]
  rfl

theorem Own.mem_groups_of_owner (h : c.Own) {name : Bytes} {g : Group} :
    g ∈ c.groups ⟨none, some name⟩ ↔
      g ∈ c.groups {} ∧ g.labels.get? Naming.owner = some name := by
  rw [h.groups_eq_filter, List.mem_filter, Filter.describes_owner]

theorem Own.exists_owner (h : c.Own) {g : Group} (hg : g ∈ c.groups {}) :
    ∃ name ∈ c.names, g.labels.get? Naming.owner = some name := by
  obtain ⟨⟨t, ht, hlabels⟩, _⟩ := Group.mem_ofTargets.mp hg
  obtain ⟨s, hs, snapshot, hcurrent, ht, _⟩ := h.mem_targets_iff.mp ht
  obtain ⟨howner, hlabelled⟩ := (h.stores s hs).made snapshot hcurrent t ht
  refine ⟨s.name, List.mem_map_of_mem hs, ?_⟩
  rw [← hlabels, ← howner]
  exact hlabelled.1

/-- Every group of all targets is a group of one instance. -/
theorem Own.groups_perm (h : c.Own) :
    (c.groups {}).Perm (c.names.flatMap fun name => c.groups ⟨none, some name⟩) := by
  have hone : ((c.names.flatMap fun name => c.groups ⟨none, some name⟩)).Nodup := by
    rw [List.nodup_flatMap]
    constructor
    · intro name _
      exact (Group.ascending_ofTargets _).nodup
    · refine h.names.imp fun {n m} hne g hn hm => hne ?_
      have howner := (h.mem_groups_of_owner.mp hn).2
      rw [(h.mem_groups_of_owner.mp hm).2] at howner
      exact (Option.some.inj howner).symm
  refine (List.perm_ext_iff_of_nodup (Group.ascending_ofTargets _).nodup hone).mpr fun g => ?_
  rw [List.mem_flatMap]
  constructor
  · intro hg
    obtain ⟨name, hname, howner⟩ := h.exists_owner hg
    exact ⟨name, hname, h.mem_groups_of_owner.mpr ⟨hg, howner⟩⟩
  · rintro ⟨name, _, hg⟩
    exact (h.mem_groups_of_owner.mp hg).1

theorem Own.groups_merged (h : c.Own) :
    c.groups {} =
      (c.names.flatMap fun name => c.groups ⟨none, some name⟩).mergeSort Group.upTo := by
  have hsorted : ((c.names.flatMap fun name => c.groups ⟨none, some name⟩).mergeSort
      Group.upTo).Pairwise fun g k => g.upTo k = true := by
    apply List.pairwise_mergeSort
    · intro g k l
      exact Ranked.upTo_trans
    · intro g k
      exact Ranked.upTo_total g.labels k.labels
  have hperm := h.groups_perm.trans (List.mergeSort_perm _ Group.upTo).symm
  have hascending : (c.groups {}).Pairwise fun g k => g.upTo k = true := by
    refine (Group.ascending_ofTargets _).imp fun {g k} hgk => ?_
    rw [Group.upTo, Ranked.upTo, Ranked.asymm hgk]
    rfl
  refine hperm.eq_of_pairwise (fun g k hg hk hgk hkg => ?_) hascending hsorted
  exact Group.eq_of_labels hg (hperm.mem_iff.mpr hk) (Ranked.upTo_antisymm hgk hkg)

/-- Of different names one store has the name of a store, itself. -/
theorem filter_name (hnames : c.names.Nodup) {s : Store} (hs : s ∈ c) :
    (c.filter fun t => Filter.admits (some s.name) t.name) = [s] := by
  induction c with
  | nil => cases hs
  | cons t c ih =>
    obtain ⟨ht, hrest⟩ := List.nodup_cons.mp hnames
    rcases List.mem_cons.mp hs with rfl | hs
    · have hnone : (c.filter fun t => Filter.admits (some s.name) t.name) = [] := by
        refine List.filter_eq_nil_iff.mpr fun u hu hname => ht ?_
        rw [show s.name = u.name by simpa [Filter.admits] using hname]
        exact List.mem_map_of_mem hu
      rw [List.filter_cons_of_pos (by simp [Filter.admits]), hnone]
    · have hne : s.name ≠ t.name := fun heq => ht (heq ▸ List.mem_map_of_mem hs)
      rw [List.filter_cons_of_neg (by simpa [Filter.admits] using hne), ih hrest hs]

theorem Own.groups_alone (h : c.Own) {s : Store} (hs : s ∈ c) :
    c.groups ⟨none, some s.name⟩ = groups [s] {} := by
  have hall : contribution ⟨none, some s.name⟩ s = contribution {} s := by
    rw [contribution_eq_filter]
    refine List.filter_eq_self.mpr fun t ht => ?_
    rw [Filter.accepts, (h.labelled_of_contribution hs ht).1]
    simp [Filter.admits]
  rw [groups, groups, targets_unfiltered, targets, filter_name h.names hs, List.flatMap_cons,
    List.flatMap_cons, hall]
  rfl

/-- How the groups of a filter and of one instance are related to the groups of all targets. -/
structure Filtered (c : Catalog) : Prop where
  filtered : ∀ f, c.groups f = (c.groups {}).filter fun g => f.describes g.labels
  ascending : Group.Ascending (c.groups {})
  merged : c.groups {} =
    (c.names.flatMap fun name => c.groups ⟨none, some name⟩).mergeSort Group.upTo
  /-- The groups of an instance are what they are in a catalog of nothing else. -/
  alone : ∀ s ∈ c, c.groups ⟨none, some s.name⟩ = groups [s] {}

/-- Filtering commutes with grouping, whatever was built for the stores and offered to them. -/
theorem filtered_of_built {c : Catalog} (h : Built c) : c.Filtered := by
  have hown := own_of_built h
  constructor
  case filtered => exact hown.groups_eq_filter
  case ascending => exact Group.ascending_ofTargets _
  case merged => exact hown.groups_merged
  case alone => exact fun s hs => hown.groups_alone hs

theorem filtered_twins : twins.Built ∧ twins.Filtered ∧
    (twins.groups ⟨none, some (ascii "west")⟩).map Group.addresses = [[ascii "10.0.0.1:9090"]] :=
  ⟨built_twins, filtered_of_built built_twins, by decide +kernel⟩

end Catalog

end TargetDiscovery
