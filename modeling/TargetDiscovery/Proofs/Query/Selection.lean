import TargetDiscovery.Proofs.Ordering
import TargetDiscovery.Proofs.Query.Filtering
import TargetDiscovery.Proofs.Target.Building

/-!
# Selecting targets

A filter that asks for an instance looks at no store of another name. What it finds is still what a
look at every target of every current snapshot finds, because a store only ever holds targets of
its own instance. The targets come in the order of the stores, those of an instance in the order of
their identities, and none twice.
-/

set_option autoImplicit false

namespace TargetDiscovery

/-- The order of identities: by instance, job and address, by bytes. -/
def Identity.Precedes (i j : Identity) : Prop :=
  Prod.Lex (· < ·) (Prod.Lex (· < ·) (· < ·)) i j

theorem Identity.before_iff (i j : Identity) : Ranked.before i j = true ↔ i.Precedes j :=
  (Ranked.decides_bytes.prod (Ranked.decides_bytes.prod Ranked.decides_bytes)) i j

/-- The filter asks for another job or another instance than the target's. -/
def Filter.Bars (f : Filter) (t : Target) : Prop :=
  (∃ job ∈ f.job, t.job ≠ job) ∨ ∃ owner ∈ f.owner, t.owner ≠ owner

instance (f : Filter) (t : Target) : Decidable (f.Bars t) := by
  unfold Filter.Bars
  infer_instance

theorem Filter.accepts_iff {f : Filter} {t : Target} : f.accepts t = true ↔ ¬ f.Bars t := by
  have hadmits : ∀ (wanted : Option Bytes) (value : Bytes),
      admits wanted value = true ↔ ¬ ∃ w ∈ wanted, value ≠ w := by
    intro wanted value
    cases wanted with
    | none => simp [admits]
    | some w =>
      have hother : (∃ v ∈ some w, value ≠ v) ↔ value ≠ w := by simp
      rw [hother, admits, beq_iff_eq, not_not, eq_comm]
  rw [accepts, Bars, Bool.and_eq_true, hadmits, hadmits, not_or]

/-! ## Stores -/

namespace Store

def targets (s : Store) : List Target := (s.current.map Snapshot.targets).getD []

/-- The targets of the current snapshot are in the strict order of their identities. -/
def Sorted (s : Store) : Prop := Conversion.Ascending s.targets

theorem Sorted.publish {s : Store} (h : s.Sorted) {rules : JobRules} {records : List NodeRecord}
    {l : Listing} (hl : (Conversion.mk s.name rules).listing records = .ok l) (version : UInt64)
    (time : Int) :
    (s.publish (some ⟨s.name, version, l.targets, time, l.skipped⟩)).2.Sorted := by
  rw [Sorted, targets, Store.publish_current]
  split
  · exact Conversion.ascending_of_listing hl
  · exact h

end Store

namespace Catalog

/-- The targets of all current snapshots, in the order of the stores. -/
def everything (c : Catalog) : List Target := c.flatMap Store.targets

variable {c : Catalog}

theorem Built.sorted (h : Built c) : ∀ s ∈ c, s.Sorted := by
  refine h.forall_store (fun _ => List.Pairwise.nil) ?_
  intro s hs rules records l hl version time
  exact hs.publish hl version time

theorem contribution_all (s : Store) : contribution {} s = s.targets := by
  rw [contribution, Store.targets]
  cases s.current with
  | none => rfl
  | some snapshot => exact List.filter_eq_self.mpr fun _ _ => rfl

theorem contribution_sublist (f : Filter) (s : Store) :
    (contribution f s).Sublist s.targets := by
  rw [contribution_eq_filter, contribution_all]
  exact List.filter_sublist

theorem targets_all (c : Catalog) : c.targets {} = c.everything := by
  rw [targets_unfiltered, everything]
  exact List.flatMap_congr fun s _ => contribution_all s

/-- Of one instance the targets come from one store, where they are sorted. -/
theorem Own.ascending (h : c.Own) (hsorted : ∀ s ∈ c, s.Sorted) (f : Filter) :
    (c.targets f).Pairwise fun t u =>
      t.owner = u.owner → Ranked.before t.identity u.identity = true := by
  rw [targets, List.pairwise_flatMap]
  constructor
  · intro s hs
    have hstore : (contribution f s).Pairwise fun t u =>
        Ranked.before t.identity u.identity = true :=
      (hsorted s (List.mem_filter.mp hs).1).sublist (contribution_sublist f s)
    apply hstore.imp
    intro t u hbefore _
    exact hbefore
  · have hnames : c.Pairwise fun s s' => s.name ≠ s'.name := List.pairwise_map.mp h.names
    refine (hnames.filter _).imp_of_mem ?_
    intro s s' hs hs' hne t ht u hu howner
    have ht := (h.labelled_of_contribution (List.mem_filter.mp hs).1 ht).1
    have hu := (h.labelled_of_contribution (List.mem_filter.mp hs').1 hu).1
    exact absurd (ht.symm.trans (howner.trans hu)) hne

/-- What a filter selects from a catalog. -/
structure Selected (c : Catalog) (f : Filter) : Prop where
  filtered : c.targets f = c.everything.filter fun t => ¬ f.Bars t
  distinct : ((c.targets f).map Target.identity).Nodup
  ascending : (c.targets f).Pairwise fun t u =>
    t.owner = u.owner → t.identity.Precedes u.identity

/-- Whatever was built for the stores and offered to them, a filter selects what is left of all
targets without those that it bars. -/
theorem selected_of_built {c : Catalog} (h : Built c) (f : Filter) : c.Selected f := by
  have hown := own_of_built h
  constructor
  case filtered =>
    rw [hown.targets_eq_accepted, targets_all]
    apply List.filter_congr
    intro t _
    rw [Bool.eq_iff_iff, decide_eq_true_iff]
    exact Filter.accepts_iff
  case distinct => exact hown.identity_nodup f
  case ascending =>
    apply (hown.ascending h.sorted f).imp
    intro t u hbefore howner
    exact (Identity.before_iff _ _).mp (hbefore howner)

/-- Nodes of two roles, in the order of what is made of them. -/
def rankedNodes : List NodeRecord :=
  [⟨ascii "n1", ascii "10.0.0.2:80", [], ascii "boundary", SortedMap.empty, false⟩,
    ⟨ascii "n2", ascii "10.0.0.1:9090", ascii "s1", ascii "replica", SortedMap.empty, false⟩,
    ⟨ascii "n3", ascii "10.0.0.3:9090", ascii "s2", ascii "replica", SortedMap.empty, false⟩]

def eastern : Conversion := ⟨ascii "east", JobRules.standard⟩

theorem listing_eastern :
    eastern.listing rankedNodes.reverse = .ok ⟨eastern.accepted rankedNodes, 0⟩ := by
  have hascending : Conversion.Ascending (eastern.accepted rankedNodes) := by
    unfold Conversion.Ascending
    decide +kernel
  exact Conversion.listing_of_ascending (by decide +kernel) hascending

/-- Two instances: one has the ranked nodes and was offered an older state behind them, the other
one has the shared nodes. -/
def outrun : Catalog :=
  [(((Store.new (ascii "east")).publish
      (some ⟨ascii "east", 2, eastern.accepted rankedNodes, 0, 0⟩)).2.publish
        (some (sharedSnapshot (ascii "east")))).2,
    ((Store.new (ascii "west")).publish (some (sharedSnapshot (ascii "west")))).2]

theorem built_outrun : outrun.Built := by
  have hstart : Built ([ascii "east", ascii "west"].map Store.new) := .start (by decide)
  have hnewer := hstart.publish (i := 0) rfl listing_eastern 2 0
  have holder := hnewer.publish (i := 0) rfl
    (listing_sharedNodes (ascii "east") (by decide +kernel)) 1 0
  exact holder.publish (i := 1) rfl (listing_sharedNodes (ascii "west") (by decide +kernel)) 1 0

theorem selected_outrun : outrun.Built ∧ outrun.Selected ⟨some (ascii "replica"), none⟩ ∧
    (outrun.targets ⟨some (ascii "replica"), none⟩).map Target.identity =
      [(ascii "east", ascii "replica", ascii "10.0.0.1:9090"),
        (ascii "east", ascii "replica", ascii "10.0.0.3:9090"),
        (ascii "west", ascii "replica", ascii "10.0.0.1:9090")] :=
  ⟨built_outrun, selected_of_built built_outrun _, by decide +kernel⟩

end Catalog

end TargetDiscovery
