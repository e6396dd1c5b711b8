import TargetDiscovery.Proofs.SortedMap
import TargetDiscovery.Target.Listing

/-!
# Labels of targets

Every target that is made for an instance carries the name of the instance and its job as labels. No
feature of a record replaces them.
-/

set_option autoImplicit false

namespace TargetDiscovery.Conversion

theorem get?_addFeatures (labels : Labels) (features : Dict Bytes) (name : Bytes) :
    (addFeatures labels features).get? name = (labels.get? name).or (features.get? name) :=
  SortedMap.get?_foldl_insertIfNew features.entries labels name

theorem get?_ownLabels (owner job subnet name : Bytes) :
    (ownLabels owner job subnet).get? name =
      if name = Naming.job then some job
      else if name = Naming.owner then some owner
      else if name = Naming.subnet ∧ subnet ≠ [] then some subnet
      else none := by
  have howner : Naming.owner ≠ Naming.job := by decide
  have htwo : (SortedMap.ofList [(Naming.job, job), (Naming.owner, owner)]).get? name =
      if name = Naming.job then some job
      else if name = Naming.owner then some owner else none := by
    rw [SortedMap.ofList, List.foldl_cons, List.foldl_cons, List.foldl_nil, SortedMap.get?_insert,
      SortedMap.get?_insert, SortedMap.get?_empty]
    by_cases hname : name = Naming.owner
    · simp [hname, howner]
    · simp [hname]
  have hsubnet : Naming.subnet ≠ Naming.job ∧ Naming.subnet ≠ Naming.owner := by decide
  rw [ownLabels]
  by_cases hempty : subnet = []
  · simp [hempty, htwo]
  · by_cases hname : name = Naming.subnet
    · simp [hempty, hname, SortedMap.get?_insert, hsubnet]
    · simp [hempty, hname, SortedMap.get?_insert, htwo]

theorem convert_eq_ok {c : Conversion} {r : NodeRecord} {t : Target} :
    c.convert r = .ok t ↔ r.malformed = false ∧ c.rules.get? r.role = some t.job ∧
      Address.isValid r.address = true ∧ r.features.keys.all isFeatureName = true ∧
        t = ⟨c.owner, t.job, r.address,
          addFeatures (ownLabels c.owner t.job r.subnet) r.features⟩ := by
  constructor
  · intro h
    unfold convert at h
    split at h
    · cases h
    · rename_i hmalformed
      split at h
      · cases h
      · rename_i job hjob
        split at h
        · cases h
        · rename_i hvalid
          split at h
          · rename_i hnames
            cases h
            exact ⟨Bool.eq_false_iff.mpr hmalformed, hjob, by simpa using hvalid, hnames, rfl⟩
          · cases h
  · rintro ⟨hmalformed, hjob, hvalid, hnames, ht⟩
    rw [convert, hmalformed, hjob, hvalid, hnames, ht]
    rfl

/-- What a record is converted to belongs to the instance, and its labels say so. -/
theorem labels_of_convert {c : Conversion} {r : NodeRecord} {t : Target}
    (h : c.convert r = .ok t) :
    t.owner = c.owner ∧ t.labels.get? Naming.owner = some t.owner ∧
      t.labels.get? Naming.job = some t.job := by
  obtain ⟨-, -, -, -, ht⟩ := convert_eq_ok.mp h
  have hne : Naming.owner ≠ Naming.job := by decide
  rw [ht]
  simp only [get?_addFeatures, get?_ownLabels, if_neg hne, if_true, Option.some_or, and_self]

theorem mem_accepted {c : Conversion} {records : List NodeRecord} {t : Target} :
    t ∈ c.accepted records ↔ ∃ r ∈ records, c.convert r = .ok t := by
  rw [accepted, List.mem_filterMap]
  constructor
  · rintro ⟨r, hr, ht⟩
    refine ⟨r, hr, ?_⟩
    cases hc : c.convert r with
    | error e =>
      rw [hc] at ht
      cases ht
    | ok u =>
      rw [hc] at ht
      cases ht
      rfl
  · rintro ⟨r, hr, ht⟩
    exact ⟨r, hr, by rw [ht]; rfl⟩

theorem perm_of_listing {c : Conversion} {records : List NodeRecord} {l : Listing}
    (h : c.listing records = .ok l) : l.targets.Perm (c.accepted records) := by
  simp only [listing] at h
  split at h
  · cases h
  · cases h
    exact List.mergeSort_perm _ _

theorem labels_of_listing {c : Conversion} {records : List NodeRecord} {l : Listing}
    (h : c.listing records = .ok l) {t : Target} (ht : t ∈ l.targets) :
    t.owner = c.owner ∧ t.labels.get? Naming.owner = some t.owner ∧
      t.labels.get? Naming.job = some t.job := by
  obtain ⟨r, _, hr⟩ := mem_accepted.mp ((perm_of_listing h).mem_iff.mp ht)
  exact labels_of_convert hr

end TargetDiscovery.Conversion
