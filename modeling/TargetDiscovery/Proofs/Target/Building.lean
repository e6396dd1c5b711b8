import Mathlib.Data.List.Nodup
import TargetDiscovery.Proofs.Target.Identities

/-!
# What a listing tells of its records

The records that can be converted are listed if no identity occurs twice among them, and if one
does, the least of these is reported. Neither result depends on the order of the records, and a
record that cannot be converted is only counted.
-/

set_option autoImplicit false

namespace TargetDiscovery

/-- The least of the values that a list has more than once. -/
def LeastRepeated {α : Type} [Ranked α] [DecidableEq α] (l : List α) (a : α) : Prop :=
  2 ≤ l.count a ∧ ∀ b, 2 ≤ l.count b → Ranked.upTo a b = true

namespace LeastRepeated

variable {α : Type} [Ranked α] [DecidableEq α] {l l' : List α} {a b : α}

theorem perm (h : LeastRepeated l a) (hperm : l.Perm l') : LeastRepeated l' a := by
  constructor
  · rw [← hperm.count_eq]
    exact h.1
  · intro b hb
    rw [← hperm.count_eq] at hb
    exact h.2 b hb

theorem unique (ha : LeastRepeated l a) (hb : LeastRepeated l b) : a = b :=
  Ranked.upTo_antisymm (ha.2 b hb.1) (hb.2 a ha.1)

theorem head (h : ∀ b ∈ l, Ranked.upTo a b = true) (ha : a ∈ l) : LeastRepeated (a :: l) a := by
  constructor
  · have hcount := List.count_pos_iff.mpr ha
    rw [List.count_cons_self]
    omega
  · intro b hb
    have hmem : b ∈ a :: l := List.count_pos_iff.mp (by omega)
    rcases List.mem_cons.mp hmem with rfl | hmem
    · simp [Ranked.upTo, Ranked.irrefl]
    · exact h b hmem

theorem tail (h : LeastRepeated l a) (hb : b ∉ l) : LeastRepeated (b :: l) a := by
  constructor
  · exact Nat.le_trans h.1 List.count_le_count_cons
  · intro c hc
    by_cases hcb : c = b
    · subst hcb
      rw [List.count_cons_self, List.count_eq_zero_of_not_mem hb] at hc
      omega
    · rw [List.count_cons_of_ne (Ne.symm hcb)] at hc
      exact h.2 c hc

end LeastRepeated

namespace Conversion

/-- In sorted targets the first of two neighbours of one identity has the least repeated one. -/
theorem leastRepeated_of_firstRepeated {targets : List Target} {t : Target}
    (hs : targets.Pairwise fun t u => t.upTo u = true) (h : firstRepeated targets = some t) :
    LeastRepeated (targets.map Target.identity) t.identity := by
  induction targets with
  | nil => cases h
  | cons u targets ih =>
    obtain ⟨hu, hs⟩ := List.pairwise_cons.mp hs
    have hleast : ∀ i ∈ targets.map Target.identity, Ranked.upTo u.identity i = true := by
      intro i hi
      obtain ⟨v, hv, rfl⟩ := List.mem_map.mp hi
      exact hu v hv
    cases targets with
    | nil => cases h
    | cons v rest =>
      rw [firstRepeated] at h
      split at h
      · rename_i heq
        cases h
        exact .head hleast (by rw [heq, List.map_cons]; exact List.mem_cons_self)
      · rename_i hne
        refine (ih hs h).tail fun hmem => ?_
        -- Behind a greater neighbour nothing is equal to the head again.
        obtain ⟨w, hw, heq⟩ := List.mem_map.mp hmem
        have hvu : v.upTo u = true := by
          rcases List.mem_cons.mp hw with rfl | hw
          · exact absurd heq.symm hne
          · have hvw := (List.pairwise_cons.mp hs).1 w hw
            rw [Target.upTo, heq] at hvw
            exact hvw
        exact hne (Ranked.upTo_antisymm (hleast v.identity (by simp)) hvu)

def rejects (c : Conversion) (r : NodeRecord) : Bool := (c.convert r).toOption.isNone

section

variable (c : Conversion) (records : List NodeRecord)

theorem length_rejected : (c.rejected records).length = records.countP c.rejects := by
  rw [rejected]
  induction records with
  | nil => rfl
  | cons r records ih =>
    rw [List.filterMap_cons]
    cases hc : c.convert r with
    | error e =>
      have hr : c.rejects r = true := by rw [rejects, hc]; rfl
      rw [List.countP_cons_of_pos hr, List.length_cons, ih]
    | ok t =>
      have hr : ¬ c.rejects r = true := by rw [rejects, hc]; exact Bool.false_ne_true
      rw [List.countP_cons_of_neg hr, ih]

theorem rejected_add_accepted :
    records.countP c.rejects + (c.accepted records).length = records.length := by
  rw [accepted]
  induction records with
  | nil => rfl
  | cons r records ih =>
    cases hc : (c.convert r).toOption with
    | none =>
      have hr : c.rejects r = true := by rw [rejects, hc]; rfl
      simp only [List.filterMap_cons, hc, List.countP_cons_of_pos hr, List.length_cons]
      omega
    | some t =>
      have hr : ¬ c.rejects r = true := by rw [rejects, hc]; exact Bool.false_ne_true
      simp only [List.filterMap_cons, hc, List.countP_cons_of_neg hr, List.length_cons]
      omega

end

variable {c : Conversion} {records other : List NodeRecord}

theorem accepted_insert {r : NodeRecord} (hr : c.rejects r = true)
    (before behind : List NodeRecord) :
    c.accepted (before ++ r :: behind) = c.accepted (before ++ behind) := by
  have hnone : (c.convert r).toOption = none := Option.isNone_iff_eq_none.mp hr
  rw [accepted, accepted, List.filterMap_append, List.filterMap_append, List.filterMap_cons, hnone]

theorem countP_insert {r : NodeRecord} (hr : c.rejects r = true)
    (before behind : List NodeRecord) :
    (before ++ r :: behind).countP c.rejects = (before ++ behind).countP c.rejects + 1 := by
  rw [List.countP_append, List.countP_append, List.countP_cons_of_pos hr, Nat.add_assoc]

theorem ascending_of_listing {l : Listing} (h : c.listing records = .ok l) :
    Ascending l.targets := by
  rw [listing_eq] at h
  split at h
  · cases h
  · rename_i hnone
    cases h
    exact ascending_of_firstRepeated (sorted_pairwise c records) hnone

theorem skipped_of_listing {l : Listing} (h : c.listing records = .ok l) :
    l.skipped = records.countP c.rejects := by
  rw [listing_of_nodup (nodup_of_listing h)] at h
  cases h
  exact length_rejected c records

theorem eq_of_ascending {targets targets' : List Target} (h : Ascending targets)
    (h' : Ascending targets') (hperm : targets.Perm targets') : targets = targets' := by
  refine hperm.eq_of_pairwise (fun t u _ _ htu hut => ?_) h h'
  rw [Ranked.asymm htu] at hut
  cases hut

/-- A listing is known by its targets being those of the records, and in order. -/
theorem listing_of_ascending {targets : List Target} (hperm : (c.accepted records).Perm targets)
    (h : Ascending targets) : c.listing records = .ok ⟨targets, (c.rejected records).length⟩ := by
  have hnodup : ((c.accepted records).map Target.identity).Nodup :=
    (hperm.map Target.identity).nodup_iff.mpr (nodup_of_ascending h)
  have hlisted := listing_of_nodup hnodup
  have hsorted : c.sorted records = targets :=
    eq_of_ascending (ascending_of_listing hlisted) h ((List.mergeSort_perm _ _).trans hperm)
  rw [hlisted, hsorted]

/-- The error is the least identity that occurs twice, with the number of records left out. -/
theorem collision_of_listing {e : Collision} (h : c.listing records = .error e) :
    ∃ i : Identity, LeastRepeated ((c.accepted records).map Target.identity) i ∧
      e = ⟨i.2.1, i.2.2, records.countP c.rejects⟩ := by
  rw [listing_eq] at h
  split at h
  · rename_i t hsome
    cases h
    refine ⟨t.identity, ?_, ?_⟩
    · have hleast := leastRepeated_of_firstRepeated (sorted_pairwise c records) hsome
      exact hleast.perm ((List.mergeSort_perm _ _).map _)
    · rw [length_rejected]
      rfl
  · cases h

theorem listing_perm (hperm : records.Perm other) : c.listing other = c.listing records := by
  have haccepted : (c.accepted records).Perm (c.accepted other) := hperm.filterMap _
  have hrejected : records.countP c.rejects = other.countP c.rejects := hperm.countP_eq _
  have hnodup := (haccepted.map Target.identity).nodup_iff
  cases hr : c.listing records with
  | ok l =>
    have ho := listing_of_nodup (hnodup.mp (nodup_of_listing hr))
    rw [listing_of_nodup (nodup_of_listing hr), Except.ok.injEq] at hr
    subst hr
    have hsorted : c.sorted other = c.sorted records := by
      refine eq_of_ascending (ascending_of_listing ho)
        (ascending_of_listing (listing_of_nodup (hnodup.mpr (nodup_of_listing ho)))) ?_
      exact (List.mergeSort_perm _ _).trans
        (haccepted.symm.trans (List.mergeSort_perm _ _).symm)
    rw [ho, hsorted, length_rejected, length_rejected, hrejected]
  | error e =>
    cases ho : c.listing other with
    | ok l => exact absurd (hnodup.mpr (nodup_of_listing ho)) (not_nodup_of_listing hr)
    | error e' =>
      obtain ⟨i, hi, rfl⟩ := collision_of_listing hr
      obtain ⟨j, hj, rfl⟩ := collision_of_listing ho
      rw [hj.unique (hi.perm (haccepted.map _)), hrejected]

/-- The same result with one record more left out. -/
def withOneSkipped : Except Collision Listing → Except Collision Listing
  | .ok l => .ok { l with skipped := l.skipped + 1 }
  | .error e => .error { e with skipped := e.skipped + 1 }

theorem listing_insert {r : NodeRecord} (hr : c.rejects r = true)
    (before behind : List NodeRecord) :
    c.listing (before ++ r :: behind) = withOneSkipped (c.listing (before ++ behind)) := by
  have hsorted : c.sorted (before ++ r :: behind) = c.sorted (before ++ behind) := by
    rw [sorted, sorted, accepted_insert hr]
  rw [listing_eq, listing_eq, hsorted, length_rejected, length_rejected, countP_insert hr]
  cases firstRepeated (c.sorted (before ++ behind)) with
  | none => rfl
  | some t => rfl

/-- How the listing of some records goes by the targets they are converted to. -/
structure Exact (c : Conversion) (records : List NodeRecord) : Prop where
  succeeds : (∃ l, c.listing records = .ok l) ↔
    ((c.accepted records).map Target.identity).Nodup
  listed : ∀ l, c.listing records = .ok l →
    l.targets.Perm (c.accepted records) ∧ Ascending l.targets ∧
      l.skipped + l.targets.length = records.length
  collides : ∀ e, c.listing records = .error e →
    ∃ i : Identity, LeastRepeated ((c.accepted records).map Target.identity) i ∧
      e = ⟨i.2.1, i.2.2, records.countP c.rejects⟩ ∧
      e.message = ascii "duplicate target " ++ i.2.1 ++ ascii "/" ++ i.2.2
  unordered : ∀ other, records.Perm other → c.listing other = c.listing records
  inserted : ∀ before behind r, records = before ++ behind → c.rejects r = true →
    c.listing (before ++ r :: behind) = withOneSkipped (c.listing records)

theorem listing_exact (c : Conversion) (records : List NodeRecord) : c.Exact records := by
  constructor
  case succeeds =>
    constructor
    · rintro ⟨l, hl⟩
      exact nodup_of_listing hl
    · intro hnodup
      exact ⟨_, listing_of_nodup hnodup⟩
  case listed =>
    intro l hl
    have hperm := perm_of_listing hl
    refine ⟨hperm, ascending_of_listing hl, ?_⟩
    rw [skipped_of_listing hl, hperm.length_eq]
    exact rejected_add_accepted c records
  case collides =>
    intro e he
    obtain ⟨i, hi, rfl⟩ := collision_of_listing he
    exact ⟨i, hi, rfl, rfl⟩
  case unordered =>
    intro other hperm
    exact listing_perm hperm
  case inserted =>
    rintro before behind r rfl hr
    exact listing_insert hr before behind

end Conversion

end TargetDiscovery
