import TargetDiscovery.Proofs.Target.Labels

/-!
# Identities in a listing

The records of a state can be listed exactly when no two of the targets made from them have one
identity; the listing then has all of these targets, in the strict order of their identities.
-/

set_option autoImplicit false

namespace TargetDiscovery

namespace Ranked

variable {α : Type} [Ranked α]

theorem upTo_total (a b : α) : (upTo a b || upTo b a) = true := by
  rcases total a b with h | rfl | h
  · simp [upTo, asymm h]
  · simp [upTo, irrefl]
  · simp [upTo, asymm h]

theorem upTo_trans {a b c : α} (hab : upTo a b = true) (hbc : upTo b c = true) :
    upTo a c = true := by
  simp only [upTo, Bool.not_eq_true'] at hab hbc ⊢
  rcases total a b with h | rfl | h
  · rcases total b c with k | rfl | k
    · exact asymm (trans a b c h k)
    · exact asymm h
    · rw [k] at hbc
      cases hbc
  · exact hbc
  · rw [h] at hab
    cases hab

theorem before_of_upTo {a b : α} (h : upTo a b = true) (hne : a ≠ b) : before a b = true := by
  rcases total a b with k | k | k
  · exact k
  · exact absurd k hne
  · rw [upTo, k] at h
    cases h

theorem upTo_antisymm {a b : α} (hab : upTo a b = true) (hba : upTo b a = true) : a = b := by
  rcases total a b with h | h | h
  · rw [upTo, h] at hba
    cases hba
  · exact h
  · rw [upTo, h] at hab
    cases hab

theorem mergeSort_sorted (l : List α) :
    (l.mergeSort upTo).Pairwise fun a b => upTo a b = true := by
  apply List.pairwise_mergeSort
  · intro a b c
    exact upTo_trans
  · exact upTo_total

/-- Sorting forgets in which order the items came. -/
theorem mergeSort_perm_eq {l l' : List α} (h : l.Perm l') :
    l.mergeSort upTo = l'.mergeSort upTo := by
  refine List.Perm.eq_of_pairwise (fun a b _ _ => upTo_antisymm) (mergeSort_sorted l)
    (mergeSort_sorted l') ?_
  exact (List.mergeSort_perm l _).trans (h.trans (List.mergeSort_perm l' _).symm)

end Ranked

namespace Conversion

def Ascending (targets : List Target) : Prop :=
  targets.Pairwise fun t u => Ranked.before t.identity u.identity = true

theorem nodup_of_ascending {targets : List Target} (h : Ascending targets) :
    (targets.map Target.identity).Nodup :=
  List.pairwise_map.mpr (h.imp fun htu => Ranked.ne_of_before htu)

theorem ascending_of_firstRepeated {targets : List Target}
    (hs : targets.Pairwise fun t u => t.upTo u = true) (h : firstRepeated targets = none) :
    Ascending targets := by
  induction targets with
  | nil => exact List.Pairwise.nil
  | cons t targets ih =>
    obtain ⟨ht, hs⟩ := List.pairwise_cons.mp hs
    cases targets with
    | nil => exact List.pairwise_singleton _ _
    | cons u rest =>
      rw [firstRepeated] at h
      split at h
      · cases h
      · rename_i hne
        have hrest : Ascending (u :: rest) := ih hs h
        have htu : Ranked.before t.identity u.identity = true :=
          Ranked.before_of_upTo (ht u (by simp)) hne
        refine List.pairwise_cons.mpr ⟨fun v hv => ?_, hrest⟩
        rcases List.mem_cons.mp hv with rfl | hv
        · exact htu
        · exact Ranked.trans _ _ _ htu ((List.pairwise_cons.mp hrest).1 v hv)

theorem not_nodup_of_firstRepeated {targets : List Target} {t : Target}
    (h : firstRepeated targets = some t) : ¬ (targets.map Target.identity).Nodup := by
  induction targets with
  | nil => cases h
  | cons u targets ih =>
    cases targets with
    | nil => cases h
    | cons w rest =>
      rw [firstRepeated] at h
      intro hnodup
      rw [List.map_cons, List.nodup_cons] at hnodup
      split at h
      · rename_i heq
        exact hnodup.1 (by simp [heq])
      · exact ih h hnodup.2

def sorted (c : Conversion) (records : List NodeRecord) : List Target :=
  (c.accepted records).mergeSort Target.upTo

theorem sorted_pairwise (c : Conversion) (records : List NodeRecord) :
    (c.sorted records).Pairwise fun t u => t.upTo u = true := by
  apply List.pairwise_mergeSort
  · intro t u v
    exact Ranked.upTo_trans
  · intro t u
    exact Ranked.upTo_total t.identity u.identity

theorem listing_eq (c : Conversion) (records : List NodeRecord) :
    c.listing records =
      match firstRepeated (c.sorted records) with
      | some t => .error ⟨t.job, t.address, (c.rejected records).length⟩
      | none => .ok ⟨c.sorted records, (c.rejected records).length⟩ := rfl

theorem nodup_sorted (c : Conversion) (records : List NodeRecord) :
    ((c.sorted records).map Target.identity).Nodup ↔
      ((c.accepted records).map Target.identity).Nodup :=
  ((List.mergeSort_perm _ _).map _).nodup_iff

/-- A state is listed if all identities of its targets are distinct, and with all of them. -/
theorem listing_of_nodup {c : Conversion} {records : List NodeRecord}
    (h : ((c.accepted records).map Target.identity).Nodup) :
    c.listing records = .ok ⟨c.sorted records, (c.rejected records).length⟩ := by
  have hnone : firstRepeated (c.sorted records) = none := by
    cases hr : firstRepeated (c.sorted records) with
    | none => rfl
    | some t => exact absurd ((nodup_sorted c records).mpr h) (not_nodup_of_firstRepeated hr)
  rw [listing_eq, hnone]

theorem nodup_of_listing {c : Conversion} {records : List NodeRecord} {l : Listing}
    (h : c.listing records = .ok l) : ((c.accepted records).map Target.identity).Nodup := by
  rw [listing_eq] at h
  split at h
  · cases h
  · rename_i hnone
    apply (nodup_sorted c records).mp
    exact nodup_of_ascending (ascending_of_firstRepeated (sorted_pairwise c records) hnone)

theorem not_nodup_of_listing {c : Conversion} {records : List NodeRecord} {e : Collision}
    (h : c.listing records = .error e) : ¬ ((c.accepted records).map Target.identity).Nodup := by
  intro hnodup
  rw [listing_of_nodup hnodup] at h
  cases h

end Conversion

end TargetDiscovery
