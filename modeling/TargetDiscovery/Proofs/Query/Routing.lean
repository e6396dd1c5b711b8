import TargetDiscovery.Proofs.Query.Pieces
import TargetDiscovery.Query.Answer

/-!
# Where a request leads

A request is taken apart at the first question mark of its target. A method other than `GET` is
refused before anything else is looked at, then a malformed query, then a malformed instance name.
What is left leads to one of four fixed paths, to the targets of an instance, or nowhere.
-/

set_option autoImplicit false

namespace TargetDiscovery

/-! ## Paths -/

namespace Answer.Resource

/-- The path of the targets of an instance, whose name is written with escapes. -/
def Names (path escaped : Bytes) : Prop :=
  escaped ≠ [] ∧ path = ascii "/instances/" ++ escaped ++ ascii "/targets"

/-- The paths that name no instance. -/
def Fixed (path : Bytes) : Prop :=
  path = ascii "/instances" ∨ path = ascii "/instances/" ∨
    path = ascii "/targets" ∨ path = ascii "/targets/"

theorem Names.unique {path x y : Bytes} (hx : Names path x) (hy : Names path y) : x = y := by
  have heq := hx.2.symm.trans hy.2
  exact List.append_cancel_left (List.append_cancel_right heq)

theorem Fixed.length_le {path : Bytes} (h : Fixed path) : path.length ≤ 11 := by
  rcases h with rfl | rfl | rfl | rfl
  all_goals decide

/-- A path with a name in it is longer than the others. -/
theorem Names.not_fixed {path x : Bytes} (h : Names path x) : ¬ Fixed path := by
  intro hfixed
  obtain ⟨hne, rfl⟩ := h
  have hpos := List.length_pos_iff.mpr hne
  have hshort := hfixed.length_le
  have hstart : (ascii "/instances/").length = 11 := by decide
  rw [List.length_append, List.length_append, hstart] at hshort
  omega

theorem instancePart?_eq_some_iff {path x : Bytes} :
    instancePart? path = some x ↔ Names path x := by
  rw [instancePart?, Names]
  have hstart : instancesPath ++ ascii "/" = ascii "/instances/" := by decide
  constructor
  · intro h
    split at h
    · cases h
    · rename_i rest hrest
      split at h
      · rename_i name hname
        split at h
        · cases h
        · rename_i hne
          cases h
          refine ⟨fun hnil => hne (by simpa using hnil), ?_⟩
          have hpath := Bytes.without?_eq_some_iff.mp hrest
          have hrev := congrArg List.reverse (Bytes.without?_eq_some_iff.mp hname)
          rw [List.reverse_reverse, List.reverse_append, List.reverse_reverse] at hrev
          rw [hpath, hstart, hrev, List.append_assoc]
          rfl
      · cases h
  · rintro ⟨hne, rfl⟩
    have hrest : Bytes.without? (instancesPath ++ ascii "/")
        (ascii "/instances/" ++ x ++ ascii "/targets") = some (x ++ targetsPath) :=
      Bytes.without?_eq_some_iff.mpr (by rw [hstart, List.append_assoc]; rfl)
    have hname : Bytes.without? targetsPath.reverse (x ++ targetsPath).reverse =
        some x.reverse :=
      Bytes.without?_eq_some_iff.mpr List.reverse_append
    rw [hrest]
    simp only [hname]
    rw [if_neg (by simpa using hne), List.reverse_reverse]

/-- What a path leads to. -/
inductive Leads (path : Bytes) : Resource → Prop
  | instances (h : path = ascii "/instances" ∨ path = ascii "/instances/") : Leads path .instances
  | targets (h : path = ascii "/targets" ∨ path = ascii "/targets/") : Leads path .targets
  | named {x : Bytes} (h : Names path x) : Leads path (.targetsOf x)
  | nowhere (hfixed : ¬ Fixed path) (hnamed : ∀ x, ¬ Names path x) : Leads path .unknown

theorem leads_ofPath (path : Bytes) : Leads path (ofPath path) := by
  have hinstances : ascii "/instances" ++ ascii "/" = ascii "/instances/" := by decide
  have htargets : ascii "/targets" ++ ascii "/" = ascii "/targets/" := by decide
  simp only [ofPath, instancesPath, targetsPath, hinstances, htargets]
  by_cases hi : path = ascii "/instances" ∨ path = ascii "/instances/"
  · rw [if_pos hi]
    exact .instances hi
  by_cases ht : path = ascii "/targets" ∨ path = ascii "/targets/"
  · rw [if_neg hi, if_pos ht]
    exact .targets ht
  rw [if_neg hi, if_neg ht]
  cases hp : instancePart? path with
  | some x => exact .named (instancePart?_eq_some_iff.mp hp)
  | none =>
    refine .nowhere (fun h => ?_) fun x hx => ?_
    · rcases h with h | h | h | h
      · exact hi (.inl h)
      · exact hi (.inr h)
      · exact ht (.inl h)
      · exact ht (.inr h)
    · rw [instancePart?_eq_some_iff.mpr hx] at hp
      cases hp

theorem ofPath_of_names {path x : Bytes} (h : Names path x) : ofPath path = .targetsOf x := by
  have hl := leads_ofPath path
  generalize ofPath path = r at hl ⊢
  cases hl with
  | instances hi => exact absurd (hi.imp_right .inl) h.not_fixed
  | targets ht => exact absurd (.inr (.inr ht)) h.not_fixed
  | named hx => rw [hx.unique h]
  | nowhere _ hnone => exact absurd h (hnone x)

end Answer.Resource

/-! ## Statuses -/

namespace Answer

open Resource

/-- The query or the name in the path has a malformed escape. -/
def Unreadable (path query : Bytes) : Prop :=
  Parameters.Malformed query ∨ ∃ x, Names path x ∧ Escape.Malformed x

/-- The path is a fixed one, or names a store of the catalog. -/
def Known (catalog : Catalog) (path : Bytes) : Prop :=
  Fixed path ∨ ∃ x name, Names path x ∧ Escape.Reads x name ∧ name ∈ catalog.names

theorem hasInstance_iff {catalog : Catalog} {name : Bytes} :
    catalog.hasInstance name = true ↔ name ∈ catalog.names := by
  rw [Catalog.hasInstance, Catalog.names, List.any_eq_true, List.mem_map]
  simp only [beq_iff_eq]

theorem answer_eq (catalog : Catalog) (ledger : Ledger) (method target : Bytes) :
    answer catalog ledger method target =
      if method ≠ ascii "GET" then error 405 (ascii "method not allowed")
      else
        match Parameters.parse? (Bytes.behind (byte '?') target) with
        | none => error 400 (ascii "malformed query string")
        | some p => ofResource catalog ledger p (ofPath (Bytes.before (byte '?') target)) := by
  rw [← Bytes.cut_before, ← Bytes.cut_behind]
  rfl

/-- The status goes by the method, the path and the query, in this order of precedence. -/
inductive Graded (catalog : Catalog) (method path query : Bytes) : Nat → Prop
  | notAllowed (hmethod : method ≠ ascii "GET") : Graded catalog method path query 405
  | unreadable (hmethod : method = ascii "GET") (h : Unreadable path query) :
      Graded catalog method path query 400
  | served (hmethod : method = ascii "GET") (hread : ¬ Unreadable path query)
      (h : Known catalog path) : Graded catalog method path query 200
  | missing (hmethod : method = ascii "GET") (hread : ¬ Unreadable path query)
      (h : ¬ Known catalog path) : Graded catalog method path query 404

variable {catalog : Catalog} {ledger : Ledger} {method path query : Bytes} {p : Parameters}

namespace Graded

variable {status : Nat}

theorem notAllowed_iff (h : Graded catalog method path query status) :
    status = 405 ↔ method ≠ ascii "GET" := by
  cases h with
  | notAllowed hmethod => simp [hmethod]
  | unreadable hmethod => simp [hmethod]
  | served hmethod => simp [hmethod]
  | missing hmethod => simp [hmethod]

theorem unreadable_iff (h : Graded catalog method path query status) :
    status = 400 ↔ method = ascii "GET" ∧ Unreadable path query := by
  cases h with
  | notAllowed hmethod => simp [hmethod]
  | unreadable hmethod h => simp [hmethod, h]
  | served _ hread => simp [hread]
  | missing _ hread => simp [hread]

theorem served_iff (h : Graded catalog method path query status) :
    status = 200 ↔ method = ascii "GET" ∧ ¬ Unreadable path query ∧ Known catalog path := by
  cases h with
  | notAllowed hmethod => simp [hmethod]
  | unreadable _ h => simp [h]
  | served hmethod hread h => simp [hmethod, hread, h]
  | missing _ _ h => simp [h]

theorem missing_iff (h : Graded catalog method path query status) :
    status = 404 ↔ method = ascii "GET" ∧ ¬ Unreadable path query ∧ ¬ Known catalog path := by
  cases h with
  | notAllowed hmethod => simp [hmethod]
  | unreadable _ h => simp [h]
  | served _ _ h => simp [h]
  | missing hmethod hread h => simp [hmethod, hread, h]

end Graded

theorem graded_ofResource (hmethod : method = ascii "GET") (hquery : ¬ Parameters.Malformed query) :
    Graded catalog method path query (ofResource catalog ledger p (ofPath path)).status := by
  have hread : ∀ x, Names path x → ∀ name, Escape.Reads x name → ¬ Unreadable path query := by
    rintro x hx name hname (h | ⟨y, hy, hmalformed⟩)
    · exact hquery h
    · rw [hy.unique hx] at hmalformed
      exact hmalformed name hname
  have hfixed : Fixed path → ¬ Unreadable path query := by
    rintro hf (h | ⟨y, hy, _⟩)
    · exact hquery h
    · exact hy.not_fixed hf
  have hl := leads_ofPath path
  generalize ofPath path = r at hl ⊢
  cases hl with
  | instances h =>
    have hf : Fixed path := h.imp_right .inl
    exact .served hmethod (hfixed hf) (.inl hf)
  | targets h =>
    have hf : Fixed path := .inr (.inr h)
    exact .served hmethod (hfixed hf) (.inl hf)
  | @named x hx =>
    rw [ofResource]
    cases hd : Escape.decode x with
    | none => exact .unreadable hmethod (.inr ⟨x, hx, Escape.decode_eq_none_iff.mp hd⟩)
    | some name =>
      have hname := Escape.decode_eq_some_iff.mp hd
      by_cases hknown : catalog.hasInstance name = true
      · simp only [listTargetsOf, if_pos hknown]
        exact .served hmethod (hread x hx name hname)
          (.inr ⟨x, name, hx, hname, hasInstance_iff.mp hknown⟩)
      · simp only [listTargetsOf, if_neg hknown]
        refine .missing hmethod (hread x hx name hname) ?_
        rintro (hf | ⟨y, other, hy, hother, hmem⟩)
        · exact hx.not_fixed hf
        · rw [hy.unique hx, ← Escape.decode_eq_some_iff, hd] at hother
          cases hother
          exact hknown (hasInstance_iff.mpr hmem)
  | nowhere hnot hnamed =>
    refine .missing hmethod ?_ ?_
    · rintro (h | ⟨y, hy, _⟩)
      · exact hquery h
      · exact hnamed y hy
    · rintro (hf | ⟨y, _, hy, _, _⟩)
      · exact hnot hf
      · exact hnamed y hy

theorem graded_answer (catalog : Catalog) (ledger : Ledger) (method target : Bytes) :
    Graded catalog method (Bytes.before (byte '?') target) (Bytes.behind (byte '?') target)
      (answer catalog ledger method target).status := by
  rw [answer_eq]
  by_cases hmethod : method = ascii "GET"
  · rw [if_neg (not_not_intro hmethod)]
    cases hp : Parameters.parse? (Bytes.behind (byte '?') target) with
    | none => exact .unreadable hmethod (.inl (Parameters.parse?_eq_none_iff.mp hp))
    | some p =>
      refine graded_ofResource hmethod fun h => ?_
      rw [Parameters.parse?_eq_none_iff.mpr h] at hp
      cases hp
  · rw [if_pos hmethod]
    exact .notAllowed hmethod

/-! ## Bodies -/

theorem refused_ofResource {r : Resource} (h : (ofResource catalog ledger p r).status ≠ 200) :
    ∃ message, (ofResource catalog ledger p r).body =
      .object [(ascii "error", .string message)] := by
  cases r with
  | instances => exact absurd rfl h
  | targets => exact absurd rfl h
  | unknown => exact ⟨_, rfl⟩
  | targetsOf x =>
    simp only [ofResource, listTargetsOf] at h ⊢
    cases hd : Escape.decode x with
    | none => exact ⟨_, rfl⟩
    | some name =>
      by_cases hknown : catalog.hasInstance name = true
      · simp only [hd, if_pos hknown] at h
        exact absurd rfl h
      · simp only [if_neg hknown]
        exact ⟨_, rfl⟩

/-- Everything but an answer of status 200 is an error with a message. -/
theorem refused_answer {target : Bytes} (h : (answer catalog ledger method target).status ≠ 200) :
    ∃ message, (answer catalog ledger method target).body =
      .object [(ascii "error", .string message)] := by
  rw [answer_eq] at h ⊢
  by_cases hmethod : method = ascii "GET"
  · rw [if_neg (not_not_intro hmethod)] at h ⊢
    cases hp : Parameters.parse? (Bytes.behind (byte '?') target) with
    | none => exact ⟨_, rfl⟩
    | some p =>
      rw [hp] at h
      exact refused_ofResource h
  · rw [if_pos hmethod]
    exact ⟨_, rfl⟩

theorem groups_of_waiting {f : Filter} {name : Bytes} (howner : f.owner = some name)
    (hnone : ∀ s ∈ catalog, s.name = name → s.current = none) : catalog.groups f = [] := by
  have htargets : catalog.targets f = [] := by
    refine List.flatMap_eq_nil_iff.mpr fun s hs => ?_
    obtain ⟨hs, hadmits⟩ := List.mem_filter.mp hs
    rw [howner] at hadmits
    have hname : name = s.name := by simpa [Filter.admits] using hadmits
    rw [Catalog.contribution, hnone s hs hname.symm]
  rw [Catalog.groups, htargets]
  rfl

theorem answer_of_waiting {target x name : Bytes}
    (hquery : ¬ Parameters.Malformed (Bytes.behind (byte '?') target))
    (hx : Names (Bytes.before (byte '?') target) x) (hread : Escape.Reads x name)
    (hname : name ∈ catalog.names) (hnone : ∀ s ∈ catalog, s.name = name → s.current = none) :
    answer catalog ledger (ascii "GET") target = ⟨200, .array []⟩ := by
  rw [answer_eq, if_neg (not_not_intro rfl), ofPath_of_names hx]
  cases hp : Parameters.parse? (Bytes.behind (byte '?') target) with
  | none => exact absurd (Parameters.parse?_eq_none_iff.mp hp) hquery
  | some p =>
    simp only [ofResource, hread.decode, listTargetsOf, if_pos (hasInstance_iff.mpr hname)]
    rw [listTargets, groups_of_waiting rfl hnone]
    rfl

/-! ## Every request -/

/-- How a request is answered, by its method and the two parts of its target. -/
structure Routed (catalog : Catalog) (method path query : Bytes) (a : Answer) : Prop where
  notAllowed : a.status = 405 ↔ method ≠ ascii "GET"
  badRequest : a.status = 400 ↔ method = ascii "GET" ∧ Unreadable path query
  ok : a.status = 200 ↔ method = ascii "GET" ∧ ¬ Unreadable path query ∧ Known catalog path
  notFound : a.status = 404 ↔
    method = ascii "GET" ∧ ¬ Unreadable path query ∧ ¬ Known catalog path
  refused : a.status ≠ 200 → ∃ message, a.body = .object [(ascii "error", .string message)]
  /-- An instance that is known and has no snapshot yet has no targets. -/
  waiting : ∀ x name, method = ascii "GET" → ¬ Parameters.Malformed query → Names path x →
    Escape.Reads x name → name ∈ catalog.names →
    (∀ s ∈ catalog, s.name = name → s.current = none) → a = ⟨200, .array []⟩

theorem routed (catalog : Catalog) (ledger : Ledger) (method target : Bytes) :
    Routed catalog method (Bytes.before (byte '?') target) (Bytes.behind (byte '?') target)
      (answer catalog ledger method target) := by
  have hgraded := graded_answer catalog ledger method target
  constructor
  case notAllowed => exact hgraded.notAllowed_iff
  case badRequest => exact hgraded.unreadable_iff
  case ok => exact hgraded.served_iff
  case notFound => exact hgraded.missing_iff
  case refused => exact refused_answer
  case waiting =>
    rintro x name rfl hquery hx hread hname hnone
    exact answer_of_waiting hquery hx hread hname hnone

end Answer

end TargetDiscovery
