import TargetDiscovery.Proofs.Query.Pieces

/-!
# What query strings mean

A query string that is not malformed gives every name the value of the first piece that reads as
this name, and nothing else. Of two query strings with `&` between them the first one counts where
both give a value, and if one of the two is malformed, so is the whole.
-/

set_option autoImplicit false

namespace TargetDiscovery

theorem Escape.Reads.unique {s t u : Bytes} (ht : Escape.Reads s t) (hu : Escape.Reads s u) :
    t = u :=
  Option.some.inj (ht.decode.symm.trans hu.decode)

namespace Parameters

/-- The parts between the separators that are not empty. -/
def parts (query : Bytes) : List Bytes := (query.splitOn (byte '&')).filter fun part => part ≠ []

/-- The value of a name is that of the first part whose name reads as this one. -/
def FirstNamed (parts : List Bytes) (name value : Bytes) : Prop :=
  ∃ front part back, parts = front ++ part :: back ∧
    (∀ other ∈ front, ¬ Escape.Reads (Bytes.before (byte '=') other) name) ∧
      Escape.Reads (Bytes.before (byte '=') part) name ∧
        Escape.Reads (Bytes.behind (byte '=') part) value

/-- What a query string means: it fails exactly if it is malformed, and otherwise there is a value
for every name that a part has, and for no other. -/
structure Means (query : Bytes) (result : Option Parameters) : Prop where
  fails : result = none ↔ Malformed query
  gives : ∀ p, result = some p → ∀ name value,
    p.get? name = some value ↔ FirstNamed (parts query) name value

/-- What two query strings mean together: all that the first one gives, and what the second one
gives besides. -/
structure Joins (first second joint : Option Parameters) : Prop where
  fails : joint = none ↔ first = none ∨ second = none
  gives : ∀ p q r, first = some p → second = some q → joint = some r →
    ∀ name, r.get? name = (p.get? name).or (q.get? name)

/-! ## Values -/

theorem piece?_eq_some_iff {piece name value : Bytes} :
    piece? piece = some (name, value) ↔
      Escape.Reads (Bytes.before (byte '=') piece) name ∧
        Escape.Reads (Bytes.behind (byte '=') piece) value := by
  rw [piece?_eq, ← Escape.decode_eq_some_iff, ← Escape.decode_eq_some_iff]
  simp only [Option.bind_eq_some_iff, Option.map_eq_some_iff, Prod.mk.injEq]
  constructor
  · rintro ⟨_, hname, _, hvalue, rfl, rfl⟩
    exact ⟨hname, hvalue⟩
  · rintro ⟨hname, hvalue⟩
    exact ⟨name, hname, value, hvalue, rfl, rfl⟩

theorem firstNamed_cons {part : Bytes} {l : List Bytes} {own ownValue name value : Bytes}
    (hpart : piece? part = some (own, ownValue)) :
    FirstNamed (part :: l) name value ↔
      if name = own then ownValue = value else FirstNamed l name value := by
  obtain ⟨hown, hvalue⟩ := piece?_eq_some_iff.mp hpart
  by_cases hname : name = own
  · subst hname
    rw [if_pos rfl]
    constructor
    · rintro ⟨front, first, back, hl, hfront, -, hfirst⟩
      cases front with
      | nil =>
        obtain ⟨rfl, -⟩ := List.cons.inj hl
        exact hvalue.unique hfirst
      | cons other front =>
        obtain ⟨rfl, -⟩ := List.cons.inj hl
        exact absurd hown (hfront _ List.mem_cons_self)
    · rintro rfl
      exact ⟨[], part, l, rfl, nofun, hown, hvalue⟩
  · rw [if_neg hname]
    have hother : ¬ Escape.Reads (Bytes.before (byte '=') part) name := by
      intro h
      exact hname (h.unique hown)
    constructor
    · rintro ⟨front, first, back, hl, hfront, hfirst⟩
      cases front with
      | nil =>
        obtain ⟨rfl, -⟩ := List.cons.inj hl
        exact absurd hfirst.1 hother
      | cons other front =>
        obtain ⟨-, hl⟩ := List.cons.inj hl
        exact ⟨front, first, back, hl, (List.forall_mem_cons.mp hfront).2, hfirst⟩
    · rintro ⟨front, first, back, rfl, hfront, hfirst⟩
      exact ⟨part :: front, first, back, rfl, List.forall_mem_cons.mpr ⟨hother, hfront⟩, hfirst⟩

theorem lookup_eq_some_iff {l : List Bytes} {entries : List (Bytes × Bytes)}
    (h : l.mapM piece? = some entries) {name value : Bytes} :
    entries.lookup name = some value ↔ FirstNamed l name value := by
  induction l generalizing entries with
  | nil =>
    cases h
    simp [FirstNamed]
  | cons part l ih =>
    rw [List.mapM_cons] at h
    simp only [Option.bind_eq_bind, Option.bind_eq_some_iff, Option.pure_def,
      Option.some.injEq] at h
    obtain ⟨⟨own, ownValue⟩, hpart, rest, hrest, rfl⟩ := h
    rw [firstNamed_cons hpart, List.lookup_cons, ← ih hrest]
    by_cases hname : name = own
    · subst hname
      simp
    · rw [beq_false_of_ne hname, if_neg hname]

/-! ## Query strings -/

theorem pieces_eq_parts (query : Bytes) : pieces query = parts query := by
  rw [pieces, Bytes.pieces_eq_splitOn, parts]
  refine List.filter_congr fun part _ => ?_
  cases part with
  | nil => rfl
  | cons b rest => rfl

theorem parts_append (query after : Bytes) :
    parts (query ++ byte '&' :: after) = parts query ++ parts after := by
  have hsplit : (query ++ byte '&' :: after).splitOn (byte '&') =
      query.splitOn (byte '&') ++ after.splitOn (byte '&') :=
    List.splitOnP_append_cons query after (beq_self_eq_true (byte '&'))
  rw [parts, hsplit, List.filter_append, ← parts, ← parts]

theorem parse?_eq_some_iff {query : Bytes} {p : Parameters} :
    parse? query = some p ↔
      ∃ entries, (parts query).mapM piece? = some entries ∧
        p = collect entries SortedMap.empty := by
  rw [parse?_eq, pieces_eq_parts, Option.map_eq_some_iff]
  simp only [eq_comm]

theorem get?_collect_empty (entries : List (Bytes × Bytes)) (name : Bytes) :
    (collect entries SortedMap.empty).get? name = entries.lookup name := by
  rw [get?_collect, SortedMap.get?_empty, Option.none_or]

theorem means_parse? (query : Bytes) : Means query (parse? query) := by
  constructor
  case fails => exact parse?_eq_none_iff
  case gives =>
    intro p hp name value
    obtain ⟨entries, hentries, rfl⟩ := parse?_eq_some_iff.mp hp
    rw [get?_collect_empty]
    exact lookup_eq_some_iff hentries

theorem joins_parse? (query after : Bytes) :
    Joins (parse? query) (parse? after) (parse? (query ++ byte '&' :: after)) := by
  constructor
  case fails =>
    simp only [parse?_eq, pieces_eq_parts, Option.map_eq_none_iff, mapM_eq_none_iff, parts_append,
      List.mem_append, or_and_right, exists_or]
  case gives =>
    intro p q r hp hq hr name
    obtain ⟨first, hfirst, rfl⟩ := parse?_eq_some_iff.mp hp
    obtain ⟨second, hsecond, rfl⟩ := parse?_eq_some_iff.mp hq
    obtain ⟨joint, hjoint, rfl⟩ := parse?_eq_some_iff.mp hr
    rw [parts_append, List.mapM_append, hfirst, hsecond] at hjoint
    cases hjoint
    rw [get?_collect_empty, get?_collect_empty, get?_collect_empty, List.lookup_append]

/-- What a query string gives by its parts, and by any two query strings that it is made of. -/
theorem parsed (query : Bytes) :
    Means query (parse? query) ∧
      ∀ after, Joins (parse? query) (parse? after) (parse? (query ++ byte '&' :: after)) :=
  ⟨means_parse? query, joins_parse? query⟩

/-- Of two spellings of one name the first one counts. -/
example : (parse? (ascii "a=1&%61=2&&b=x=y&c")).map SortedMap.entries =
    some [(ascii "a", ascii "1"), (ascii "b", ascii "x=y"), (ascii "c", [])] := by decide +kernel

end Parameters

end TargetDiscovery
