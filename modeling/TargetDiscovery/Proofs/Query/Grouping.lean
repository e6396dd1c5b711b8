import Mathlib.Data.List.Perm.Basic
import TargetDiscovery.Proofs.Ordering
import TargetDiscovery.Proofs.Query.Filtering

/-!
# Groups in canonical form

Targets are grouped in one form only: the label sets ascend, so none occurs twice, no group is
empty, the addresses of a group are sorted, and each target gives its address to one group, as often
as it occurs. There is exactly one such list of groups, so the order of the targets is forgotten, and
the groups of two lists of targets are merged into those of both.
-/

set_option autoImplicit false

namespace TargetDiscovery

/-- The order of label sets: that of lists of names and values, by bytes. -/
def Labels.Precedes (l m : Labels) : Prop :=
  List.Lex (Prod.Lex (· < ·) (· < ·)) l.entries m.entries

namespace Group

/-- All that groups list: every address with the labels of its group. -/
def pairs (groups : List Group) : List (Labels × Bytes) :=
  groups.flatMap fun g => g.addresses.map (g.labels, ·)

/-- The groups hold the targets, and are in canonical form. -/
structure Partitions (targets : List Target) (groups : List Group) : Prop where
  ascending : groups.Pairwise fun g h => g.labels.Precedes h.labels
  inhabited : ∀ g ∈ groups, g.addresses ≠ []
  sorted : ∀ g ∈ groups, g.addresses.Pairwise (· ≤ ·)
  listed : (pairs groups).Perm (targets.map fun t => (t.labels, t.address))

theorem ascending_iff {groups : List Group} :
    Ascending groups ↔ groups.Pairwise fun g h => g.labels.Precedes h.labels :=
  ⟨.imp (Ranked.decides_dict _ _).mp, .imp (Ranked.decides_dict _ _).mpr⟩

/-! ## The groups of targets -/

section Entries

variable {κ α : Type} [Ranked κ] [DecidableEq κ]

def entryPairs (entries : List (κ × List α)) : List (κ × α) :=
  entries.flatMap fun e => e.2.map (e.1, ·)

/-- An item put to the others of its key is one more, whether the key is new or not. -/
theorem entryPairs_alterEntries (k : κ) (a : α) (entries : List (κ × List α)) :
    (entryPairs (SortedMap.alterEntries k (fun old => a :: old.getD []) entries)).Perm
      ((k, a) :: entryPairs entries) := by
  induction entries with
  | nil => exact .refl _
  | cons e entries ih =>
    rw [SortedMap.alterEntries]
    split
    · exact .refl _
    · split
      · rename_i heq
        rw [heq]
        exact .refl _
      · exact (ih.append_left _).trans List.perm_middle

end Entries

theorem entryPairs_foldl (targets : List Target) (p : Partition) :
    (entryPairs (targets.foldl Partition.add p).entries).Perm
      (targets.map (fun t => (t.labels, t.address)) ++ entryPairs p.entries) := by
  induction targets generalizing p with
  | nil => exact .refl _
  | cons t targets ih =>
    refine (ih (p.add t)).trans ?_
    exact ((entryPairs_alterEntries t.labels t.address p.entries).append_left _).trans
      List.perm_middle

theorem pairs_ofTargets (targets : List Target) :
    (pairs (ofTargets targets)).Perm (targets.map fun t => (t.labels, t.address)) := by
  have hentries : (entryPairs (partition targets).entries).Perm
      (targets.map fun t => (t.labels, t.address)) := by
    have hfold := entryPairs_foldl targets SortedMap.empty
    rwa [show entryPairs (SortedMap.empty : Partition).entries = [] from rfl,
      List.append_nil] at hfold
  rw [pairs, ofTargets, List.flatMap_map]
  -- Sorting the addresses of a group changes nothing but their order.
  exact (List.Perm.flatMap_left _ fun e _ => (List.mergeSort_perm e.2 _).map _).trans hentries

theorem partitions_ofTargets (targets : List Target) : Partitions targets (ofTargets targets) := by
  constructor
  case ascending => exact ascending_iff.mp (ascending_ofTargets targets)
  case inhabited => exact fun g hg => addresses_ne_nil hg
  case sorted =>
    intro g hg
    have hsorted : g.addresses.Pairwise fun a b => Ranked.upTo a b = true := by
      rw [(mem_ofTargets.mp hg).2]
      exact Ranked.mergeSort_sorted _
    exact hsorted.imp Ranked.upTo_bytes.mp
  case listed => exact pairs_ofTargets targets

/-! ## There is one canonical form -/

theorem pairs_cons (g : Group) (groups : List Group) :
    pairs (g :: groups) = g.addresses.map (g.labels, ·) ++ pairs groups := rfl

theorem mem_pairs {groups : List Group} {labels : Labels} {address : Bytes} :
    (labels, address) ∈ pairs groups ↔
      ∃ g ∈ groups, g.labels = labels ∧ address ∈ g.addresses := by
  simp only [pairs, List.mem_flatMap, List.mem_map, Prod.mk.injEq]
  constructor
  · rintro ⟨g, hg, _, ha, hlabels, rfl⟩
    exact ⟨g, hg, hlabels, ha⟩
  · rintro ⟨g, hg, hlabels, ha⟩
    exact ⟨g, hg, address, ha, hlabels, rfl⟩

/-- The addresses that are listed with some labels. -/
def addressesWith (labels : Labels) (l : List (Labels × Bytes)) : List Bytes :=
  (l.filter fun p => p.1 = labels).map Prod.snd

theorem addressesWith_pairs {groups : List Group} (h : Ascending groups) {g : Group}
    (hg : g ∈ groups) : addressesWith g.labels (pairs groups) = g.addresses := by
  induction groups with
  | nil => cases hg
  | cons k groups ih =>
    obtain ⟨hk, hrest⟩ := List.pairwise_cons.mp h
    rw [pairs_cons, addressesWith, List.filter_append, List.map_append]
    rcases List.mem_cons.mp hg with rfl | hg
    · have hown : (g.addresses.map (g.labels, ·)).filter (fun p => p.1 = g.labels) =
          g.addresses.map (g.labels, ·) := by simp [List.filter_eq_self]
      have hnone : (pairs groups).filter (fun p => p.1 = g.labels) = [] := by
        apply List.filter_eq_nil_iff.mpr
        intro ⟨labels, a⟩ hp heq
        obtain ⟨j, hj, hlabels, _⟩ := mem_pairs.mp hp
        apply Ranked.ne_of_before (hk j hj)
        rw [hlabels]
        exact (of_decide_eq_true heq).symm
      rw [hown, hnone]
      simp [Function.comp_def]
    · have hne : k.labels ≠ g.labels := Ranked.ne_of_before (hk g hg)
      have hnone : (k.addresses.map (k.labels, ·)).filter (fun p => p.1 = g.labels) = [] := by
        simp [List.filter_eq_nil_iff, hne]
      rw [hnone]
      exact ih hrest hg

variable {targets other : List Target} {groups groups' : List Group}

theorem Partitions.mem_of_perm (h : Partitions targets groups) (h' : Partitions other groups')
    (hperm : targets.Perm other) {g : Group} (hg : g ∈ groups) : g ∈ groups' := by
  have hpairs : (pairs groups).Perm (pairs groups') :=
    h.listed.trans ((hperm.map _).trans h'.listed.symm)
  obtain ⟨a, ha⟩ := List.exists_mem_of_ne_nil _ (h.inhabited g hg)
  obtain ⟨k, hk, hlabels, _⟩ :=
    mem_pairs.mp (hpairs.mem_iff.mp (mem_pairs.mpr ⟨g, hg, rfl, ha⟩))
  have haddresses : g.addresses.Perm k.addresses := by
    have hwith := (hpairs.filter fun p => p.1 = g.labels).map Prod.snd
    change (addressesWith g.labels (pairs groups)).Perm (addressesWith g.labels (pairs groups'))
      at hwith
    rwa [addressesWith_pairs (ascending_iff.mpr h.ascending) hg, ← hlabels,
      addressesWith_pairs (ascending_iff.mpr h'.ascending) hk] at hwith
  have hsame : g.addresses = k.addresses := by
    refine haddresses.eq_of_pairwise (fun a b _ _ hab hba => ?_) (h.sorted g hg) (h'.sorted k hk)
    exact Ranked.upTo_antisymm (Ranked.upTo_bytes.mpr hab) (Ranked.upTo_bytes.mpr hba)
  have heq : k = g := by
    cases k
    cases g
    cases hlabels
    cases hsame
    rfl
  exact heq ▸ hk

/-- Targets in any order have one list of groups in canonical form. -/
theorem Partitions.eq_of_perm (h : Partitions targets groups) (h' : Partitions other groups')
    (hperm : targets.Perm other) : groups = groups' :=
  (ascending_iff.mpr h.ascending).ext (ascending_iff.mpr h'.ascending) fun _ =>
    ⟨h.mem_of_perm h' hperm, h'.mem_of_perm h hperm.symm⟩

/-! ## Merging -/

/-- The groups of two lists in the order of their label sets, two of one label set joined. -/
def merge : List Group → List Group → List Group
  | [], hs => hs
  | gs, [] => gs
  | g :: gs, h :: hs =>
    if Ranked.before g.labels h.labels then g :: merge gs (h :: hs)
    else if Ranked.before h.labels g.labels then h :: merge (g :: gs) hs
    else ⟨g.addresses.merge h.addresses Ranked.upTo, g.labels⟩ :: merge gs hs

theorem labels_eq_of_not_before {g h : Group} (hgh : ¬ Ranked.before g.labels h.labels = true)
    (hhg : ¬ Ranked.before h.labels g.labels = true) : g.labels = h.labels :=
  ((Ranked.total g.labels h.labels).resolve_left hgh).resolve_right hhg

theorem pairs_merge (gs hs : List Group) :
    (pairs (merge gs hs)).Perm (pairs gs ++ pairs hs) := by
  fun_induction merge gs hs with
  | case1 hs => exact .refl _
  | case2 gs =>
    rw [show pairs [] = [] from rfl, List.append_nil]
  | case3 g gs h hs _ ih =>
    rw [pairs_cons, pairs_cons g, List.append_assoc]
    exact ih.append_left _
  | case4 g gs h hs _ _ ih =>
    rw [pairs_cons, pairs_cons h]
    exact (ih.append_left _).trans (List.perm_append_comm_assoc _ _ _)
  | case5 g gs h hs hgh hhg ih =>
    rw [pairs_cons, pairs_cons g, pairs_cons h, ← labels_eq_of_not_before hgh hhg,
      List.append_assoc]
    have hjoined : (g.addresses.merge h.addresses Ranked.upTo).Perm (g.addresses ++ h.addresses) :=
      List.merge_perm_append Ranked.upTo
    refine ((hjoined.map _).append ih).trans ?_
    rw [List.map_append, List.append_assoc]
    exact (List.perm_append_comm_assoc _ _ _).append_left _

/-- Where a group of two merged lists comes from. -/
theorem mem_merge {gs hs : List Group} {k : Group} (hk : k ∈ merge gs hs) :
    k ∈ gs ∨ k ∈ hs ∨ ∃ g ∈ gs, ∃ h ∈ hs,
      k = ⟨g.addresses.merge h.addresses Ranked.upTo, g.labels⟩ := by
  fun_induction merge gs hs with
  | case1 hs => exact .inr (.inl hk)
  | case2 gs => exact .inl hk
  | case3 g gs h hs _ ih => grind
  | case4 g gs h hs _ _ ih => grind
  | case5 g gs h hs _ _ ih => grind

/-- A label set that precedes the first of some groups precedes all of them. -/
theorem Ascending.before {labels : Labels} {h : Group} {hs : List Group} (hh : Ascending (h :: hs))
    (hbefore : Ranked.before labels h.labels = true) :
    ∀ k ∈ h :: hs, Ranked.before labels k.labels = true := by
  intro k hk
  rcases List.mem_cons.mp hk with rfl | hk
  · exact hbefore
  · exact Ranked.trans _ _ _ hbefore ((List.pairwise_cons.mp hh).1 k hk)

theorem before_merge {labels : Labels} {gs hs : List Group}
    (hg : ∀ g ∈ gs, Ranked.before labels g.labels = true)
    (hh : ∀ h ∈ hs, Ranked.before labels h.labels = true) :
    ∀ k ∈ merge gs hs, Ranked.before labels k.labels = true := by
  intro k hk
  rcases mem_merge hk with hk | hk | ⟨g, hgs, h, _, rfl⟩
  · exact hg k hk
  · exact hh k hk
  · exact hg g hgs

theorem ascending_merge {gs hs : List Group} (hg : Ascending gs) (hh : Ascending hs) :
    Ascending (merge gs hs) := by
  fun_induction merge gs hs with
  | case1 hs => exact hh
  | case2 gs => exact hg
  | case3 g gs h hs hbefore ih =>
    obtain ⟨hfirst, hrest⟩ := List.pairwise_cons.mp hg
    exact List.pairwise_cons.mpr ⟨before_merge hfirst (hh.before hbefore), ih hrest hh⟩
  | case4 g gs h hs _ hbefore ih =>
    obtain ⟨hfirst, hrest⟩ := List.pairwise_cons.mp hh
    exact List.pairwise_cons.mpr ⟨before_merge (hg.before hbefore) hfirst, ih hg hrest⟩
  | case5 g gs h hs hgh hhg ih =>
    obtain ⟨hgfirst, hgrest⟩ := List.pairwise_cons.mp hg
    obtain ⟨hhfirst, hhrest⟩ := List.pairwise_cons.mp hh
    rw [← labels_eq_of_not_before hgh hhg] at hhfirst
    exact List.pairwise_cons.mpr ⟨before_merge hgfirst hhfirst, ih hgrest hhrest⟩

/-- What two lists of targets are grouped to is merged into what both are grouped to. -/
theorem Partitions.merge {hs gs : List Group} (hg : Partitions targets gs)
    (hh : Partitions other hs) : Partitions (targets ++ other) (merge gs hs) := by
  constructor
  case ascending =>
    exact ascending_iff.mp
      (ascending_merge (ascending_iff.mpr hg.ascending) (ascending_iff.mpr hh.ascending))
  case inhabited =>
    intro k hk
    rcases mem_merge hk with hk | hk | ⟨g, hgs, h, _, rfl⟩
    · exact hg.inhabited k hk
    · exact hh.inhabited k hk
    · intro hnil
      have hperm : (g.addresses ++ h.addresses).Perm [] :=
        hnil ▸ (List.merge_perm_append Ranked.upTo).symm
      exact hg.inhabited g hgs (List.append_eq_nil_iff.mp hperm.eq_nil).1
  case sorted =>
    intro k hk
    rcases mem_merge hk with hk | hk | ⟨g, hgs, h, hhs, rfl⟩
    · exact hg.sorted k hk
    · exact hh.sorted k hk
    · have hgsorted := (hg.sorted g hgs).imp Ranked.upTo_bytes.mpr
      have hhsorted := (hh.sorted h hhs).imp Ranked.upTo_bytes.mpr
      have hmerged : (g.addresses.merge h.addresses Ranked.upTo).Pairwise
          fun a b => Ranked.upTo a b = true := by
        apply List.pairwise_merge
        · intro a b c
          exact Ranked.upTo_trans
        · exact Ranked.upTo_total
        · exact hgsorted
        · exact hhsorted
      exact hmerged.imp Ranked.upTo_bytes.mp
  case listed =>
    rw [List.map_append]
    exact (pairs_merge gs hs).trans (hg.listed.append hh.listed)

/-- The groups of targets are the one list in canonical form that holds them. -/
structure Canonical (targets : List Target) : Prop where
  partitions : Partitions targets (ofTargets targets)
  unique : ∀ groups, Partitions targets groups → groups = ofTargets targets
  permuted : ∀ other, targets.Perm other → ofTargets other = ofTargets targets
  merged : ∀ other, ofTargets (targets ++ other) = merge (ofTargets targets) (ofTargets other)

theorem canonical_ofTargets (targets : List Target) : Canonical targets := by
  have hown := partitions_ofTargets targets
  constructor
  case partitions => exact hown
  case unique =>
    intro groups h
    exact h.eq_of_perm hown (.refl targets)
  case permuted =>
    intro other hperm
    exact (partitions_ofTargets other).eq_of_perm hown hperm.symm
  case merged =>
    intro other
    have hboth := hown.merge (partitions_ofTargets other)
    exact (partitions_ofTargets (targets ++ other)).eq_of_perm hboth (.refl _)

end Group

end TargetDiscovery
