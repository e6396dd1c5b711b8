import TargetDiscovery.Ordering

/-!
# Maps in the order of their keys

Labels, job rules, features, query parameters and counters are looked up by name and listed in
byte order of the names; groups of targets are listed in the order of their label sets. A
`SortedMap` keeps its entries in strictly ascending order of the keys, so each key occurs once,
two maps are equal exactly when they hold the same entries, and listing needs no sorting. A
`Dict` is such a map with byte strings for keys.
-/

set_option autoImplicit false

namespace TargetDiscovery

structure SortedMap (κ α : Type) [Ranked κ] where
  entries : List (κ × α)
  ascending : entries.Pairwise (fun a b => Ranked.before a.1 b.1 = true)

abbrev Dict (α : Type) := SortedMap Bytes α

namespace SortedMap

variable {κ α : Type} [Ranked κ]

theorem ext_entries {d e : SortedMap κ α} (h : d.entries = e.entries) : d = e := by
  cases d; cases e; cases h; rfl

instance [DecidableEq κ] [DecidableEq α] : DecidableEq (SortedMap κ α) := fun d e =>
  if h : d.entries = e.entries then isTrue (ext_entries h)
  else isFalse fun k => h (k ▸ rfl)

instance [Repr κ] [Repr α] : Repr (SortedMap κ α) where
  reprPrec d n := reprPrec d.entries n

def empty : SortedMap κ α := ⟨[], List.Pairwise.nil⟩

instance : Inhabited (SortedMap κ α) := ⟨empty⟩

def keys (d : SortedMap κ α) : List κ := d.entries.map Prod.fst

def size (d : SortedMap κ α) : Nat := d.entries.length

theorem pairwise_filterMap {β : Type} (f : α → Option β) (l : List (κ × α))
    (h : l.Pairwise (fun a b => Ranked.before a.1 b.1 = true)) :
    (l.filterMap fun e => (f e.2).map fun v => (e.1, v)).Pairwise
      (fun a b => Ranked.before a.1 b.1 = true) := by
  refine List.Pairwise.filterMap _ (fun a b hab x hx y hy => ?_) h
  obtain ⟨v, _, rfl⟩ := Option.map_eq_some_iff.mp hx
  obtain ⟨w, _, rfl⟩ := Option.map_eq_some_iff.mp hy
  exact hab

def filterMap {β : Type} (f : α → Option β) (d : SortedMap κ α) : SortedMap κ β :=
  ⟨d.entries.filterMap fun e => (f e.2).map fun v => (e.1, v),
    pairwise_filterMap f d.entries d.ascending⟩

variable [DecidableEq κ]

def valueAt (k : κ) : List (κ × α) → Option α
  | [] => none
  | e :: rest => if k = e.1 then some e.2 else valueAt k rest

def get? (d : SortedMap κ α) (k : κ) : Option α := valueAt k d.entries

def contains (d : SortedMap κ α) (k : κ) : Bool := (d.get? k).isSome

/-- The entries with the value at `k` set to `f` of the old one, `k` put in its place if new. -/
def alterEntries (k : κ) (f : Option α → α) : List (κ × α) → List (κ × α)
  | [] => [(k, f none)]
  | e :: rest =>
    if Ranked.before k e.1 then (k, f none) :: e :: rest
    else if k = e.1 then (k, f (some e.2)) :: rest
    else e :: alterEntries k f rest

theorem mem_alterEntries {k : κ} {f : Option α → α} {x : κ × α} :
    ∀ {l : List (κ × α)}, x ∈ alterEntries k f l → x.1 = k ∨ x ∈ l
  | [], h => by simp [alterEntries] at h; exact .inl (by rw [h])
  | e :: rest, h => by
    simp only [alterEntries] at h
    split at h
    · rcases List.mem_cons.mp h with h | h
      · exact .inl (by rw [h])
      · exact .inr h
    · split at h
      · rcases List.mem_cons.mp h with h | h
        · exact .inl (by rw [h])
        · exact .inr (List.mem_cons_of_mem _ h)
      · rcases List.mem_cons.mp h with h | h
        · exact .inr (by rw [h]; exact List.mem_cons_self)
        · rcases mem_alterEntries h with h | h
          · exact .inl h
          · exact .inr (List.mem_cons_of_mem _ h)

theorem pairwise_alterEntries (k : κ) (f : Option α → α) : ∀ (l : List (κ × α)),
    l.Pairwise (fun a b => Ranked.before a.1 b.1 = true) →
    (alterEntries k f l).Pairwise (fun a b => Ranked.before a.1 b.1 = true)
  | [], _ => by simp [alterEntries]
  | e :: rest, h => by
    obtain ⟨he, hrest⟩ := List.pairwise_cons.mp h
    simp only [alterEntries]
    split
    · rename_i hk
      refine List.pairwise_cons.mpr ⟨fun x hx => ?_, h⟩
      rcases List.mem_cons.mp hx with hx | hx
      · rw [hx]; exact hk
      · exact Ranked.trans _ _ _ hk (he x hx)
    · rename_i hk
      split
      · rename_i hke
        exact List.pairwise_cons.mpr ⟨fun x hx => by simpa [hke] using he x hx, hrest⟩
      · rename_i hne
        refine List.pairwise_cons.mpr ⟨fun x hx => ?_, pairwise_alterEntries k f rest hrest⟩
        rcases mem_alterEntries hx with hx | hx
        · rcases Ranked.total k e.1 with h' | h' | h'
          · exact absurd h' hk
          · exact absurd h' hne
          · rw [hx]; exact h'
        · exact he x hx

def alter (d : SortedMap κ α) (k : κ) (f : Option α → α) : SortedMap κ α :=
  ⟨alterEntries k f d.entries, pairwise_alterEntries k f _ d.ascending⟩

def insert (d : SortedMap κ α) (k : κ) (v : α) : SortedMap κ α := d.alter k fun _ => v

def insertIfNew (d : SortedMap κ α) (k : κ) (v : α) : SortedMap κ α :=
  d.alter k fun old => old.getD v

/-- The map of a list of entries, a later one replacing an earlier one of its key. -/
def ofList (l : List (κ × α)) : SortedMap κ α := l.foldl (fun d e => d.insert e.1 e.2) empty

/-! ## What a change does to look-up -/

theorem valueAt_eq_none {k : κ} : ∀ {l : List (κ × α)},
    (∀ x ∈ l, Ranked.before k x.1 = true) → valueAt k l = none
  | [], _ => rfl
  | e :: rest, h => by
    rw [valueAt, if_neg (Ranked.ne_of_before (h e List.mem_cons_self))]
    exact valueAt_eq_none fun x hx => h x (List.mem_cons_of_mem _ hx)

theorem valueAt_alterEntries (k : κ) (f : Option α → α) (j : κ) :
    ∀ l : List (κ × α), l.Pairwise (fun a b => Ranked.before a.1 b.1 = true) →
      valueAt j (alterEntries k f l) = if j = k then some (f (valueAt k l)) else valueAt j l
  | [], _ => rfl
  | e :: rest, h => by
    obtain ⟨he, hrest⟩ := List.pairwise_cons.mp h
    simp only [alterEntries]
    split
    · rename_i hk
      have hnone : valueAt k (e :: rest) = none := valueAt_eq_none fun x hx => by
        rcases List.mem_cons.mp hx with hx | hx
        · rw [hx]; exact hk
        · exact Ranked.trans _ _ _ hk (he x hx)
      rw [hnone, valueAt]
    · split
      · rename_i hke
        by_cases hj : j = k
        · subst hj; simp [valueAt, hke]
        · simp [valueAt, hj, ← hke]
      · rename_i hne
        by_cases hj : j = k
        · subst hj
          simp [valueAt, hne, valueAt_alterEntries j f j rest hrest]
        · simp [valueAt, hj, valueAt_alterEntries k f j rest hrest]

theorem get?_alter (d : SortedMap κ α) (k j : κ) (f : Option α → α) :
    (d.alter k f).get? j = if j = k then some (f (d.get? k)) else d.get? j :=
  valueAt_alterEntries k f j d.entries d.ascending

theorem get?_insert (d : SortedMap κ α) (k j : κ) (v : α) :
    (d.insert k v).get? j = if j = k then some v else d.get? j :=
  get?_alter d k j _

theorem get?_insertIfNew (d : SortedMap κ α) (k j : κ) (v : α) :
    (d.insertIfNew k v).get? j = if j = k then some ((d.get? k).getD v) else d.get? j :=
  get?_alter d k j _

@[simp] theorem get?_empty (k : κ) : (empty : SortedMap κ α).get? k = none := rfl

end SortedMap

instance {κ α : Type} [Ranked κ] [Ranked α] : Ranked (SortedMap κ α) :=
  Ranked.pullback SortedMap.entries fun _ _ => SortedMap.ext_entries

end TargetDiscovery
