import TargetDiscovery.Proofs.Query.Escapes
import TargetDiscovery.Query.Parameters

/-!
# The pieces of a query string

A byte string is cut at its first separator or at all of them. A query string is malformed when one
of its pieces that is not empty has a malformed escape in its name or its value; otherwise it gives
every name the value of the first piece that has it.
-/

set_option autoImplicit false

namespace TargetDiscovery

namespace Bytes

/-- The part in front of the first separator. -/
def before (sep : UInt8) (s : Bytes) : Bytes := s.takeWhile (· ≠ sep)

/-- The part behind the first separator, which is empty if there is none. -/
def behind (sep : UInt8) (s : Bytes) : Bytes := (s.dropWhile (· ≠ sep)).tail

section

variable (sep : UInt8)

theorem cut_before (s : Bytes) : (cut sep s).1 = before sep s := by
  rw [before]
  induction s with
  | nil => rfl
  | cons b s ih =>
    by_cases hb : b = sep
    · simp [cut, hb]
    · simp [cut, hb, ih]

theorem cut_behind (s : Bytes) : (cut sep s).2.getD [] = behind sep s := by
  rw [behind]
  induction s with
  | nil => rfl
  | cons b s ih =>
    by_cases hb : b = sep
    · simp [cut, hb]
    · simp [cut, hb, ih]

theorem pieces_eq_splitOn (s : Bytes) : pieces sep s = s.splitOn sep := by
  induction s with
  | nil => rw [List.splitOn_nil, pieces]
  | cons b s ih =>
    rw [List.splitOn, List.splitOnP_cons_eq_if_modifyHead, ← List.splitOn, ← ih, pieces]
    by_cases hb : b = sep
    · simp [hb]
    · rw [if_neg hb, if_neg (by simpa using hb)]
      cases hp : pieces sep s with
      | nil => exact absurd hp (pieces_ne_nil sep s)
      | cons piece more => rfl

variable {sep}

theorem before_append {s : Bytes} (h : sep ∉ s) (t : Bytes) : before sep (s ++ sep :: t) = s := by
  have hall : ∀ b ∈ s, decide (b ≠ sep) = true := fun b hb =>
    decide_eq_true fun heq => h (heq ▸ hb)
  rw [before, List.takeWhile_append_of_pos hall, List.takeWhile_cons_of_neg (by simp),
    List.append_nil]

theorem behind_append {s : Bytes} (h : sep ∉ s) (t : Bytes) : behind sep (s ++ sep :: t) = t := by
  have hall : ∀ b ∈ s, decide (b ≠ sep) = true := fun b hb =>
    decide_eq_true fun heq => h (heq ▸ hb)
  rw [behind, List.dropWhile_append_of_pos hall, List.dropWhile_cons_of_neg (by simp)]
  rfl

theorem pieces_append {s : Bytes} (h : sep ∉ s) (t : Bytes) :
    pieces sep (s ++ sep :: t) = s :: pieces sep t := by
  induction s with
  | nil => simp [pieces]
  | cons b s ih =>
    rw [List.mem_cons, not_or] at h
    rw [List.cons_append, pieces, if_neg (Ne.symm h.1), ih h.2]

end

end Bytes

/-! ## Parameters -/

namespace Parameters

/-- A piece that is not empty has a malformed escape in its name or its value. -/
def Malformed (query : Bytes) : Prop :=
  ∃ piece ∈ query.splitOn (byte '&'), piece ≠ [] ∧
    (Escape.Malformed (Bytes.before (byte '=') piece) ∨
      Escape.Malformed (Bytes.behind (byte '=') piece))

/-- The map of names and values, the first value of a name staying. -/
def collect (entries : List (Bytes × Bytes)) (p : Parameters) : Parameters :=
  entries.foldl (fun d e => d.insertIfNew e.1 e.2) p

theorem piece?_eq (piece : Bytes) :
    piece? piece = (Escape.decode (Bytes.before (byte '=') piece)).bind fun name =>
      (Escape.decode (Bytes.behind (byte '=') piece)).map fun value => (name, value) := by
  rw [piece?]
  simp only [← Bytes.cut_before, ← Bytes.cut_behind]
  cases Escape.decode (Bytes.cut (byte '=') piece).1 with
  | none => rfl
  | some name =>
    cases Escape.decode ((Bytes.cut (byte '=') piece).2.getD []) with
    | none => rfl
    | some value => rfl

theorem piece?_eq_none_iff {piece : Bytes} :
    piece? piece = none ↔ Escape.Malformed (Bytes.before (byte '=') piece) ∨
      Escape.Malformed (Bytes.behind (byte '=') piece) := by
  rw [piece?_eq, ← Escape.decode_eq_none_iff, ← Escape.decode_eq_none_iff]
  cases Escape.decode (Bytes.before (byte '=') piece) with
  | none => simp
  | some name => simp

/-- Pieces are read apart from what is made of them. -/
theorem foldlM_eq (l : List Bytes) (p : Parameters) :
    l.foldlM (fun d p => (piece? p).map fun (k, v) => d.insertIfNew k v) p =
      (l.mapM piece?).map fun entries => collect entries p := by
  induction l generalizing p with
  | nil => rfl
  | cons piece l ih =>
    rw [List.foldlM_cons, List.mapM_cons]
    cases piece? piece with
    | none => rfl
    | some e =>
      refine (ih _).trans ?_
      cases l.mapM piece? with
      | none => rfl
      | some entries => rfl

theorem parse?_eq (query : Bytes) :
    parse? query = ((pieces query).mapM piece?).map fun entries =>
      collect entries SortedMap.empty :=
  foldlM_eq _ _

theorem mapM_eq_none_iff {α β : Type} {f : α → Option β} {l : List α} :
    l.mapM f = none ↔ ∃ a ∈ l, f a = none := by
  induction l with
  | nil => simp
  | cons a l ih =>
    rw [List.mapM_cons]
    cases ha : f a with
    | none => simp [ha]
    | some b =>
      cases hl : l.mapM f with
      | none =>
        obtain ⟨c, hc, hnone⟩ := ih.mp hl
        simp only [Option.bind_eq_bind, Option.bind_some, Option.bind_none, true_iff]
        exact ⟨c, List.mem_cons_of_mem _ hc, hnone⟩
      | some bs =>
        have hsome : ¬ ∃ a ∈ l, f a = none := fun h => by
          rw [ih.mpr h] at hl
          cases hl
        simpa [ha] using hsome

theorem parse?_eq_none_iff {query : Bytes} : parse? query = none ↔ Malformed query := by
  rw [parse?_eq, Option.map_eq_none_iff, mapM_eq_none_iff, pieces, Bytes.pieces_eq_splitOn]
  refine exists_congr fun piece => ?_
  rw [List.mem_filter, piece?_eq_none_iff, and_assoc]
  simp

theorem get?_collect (entries : List (Bytes × Bytes)) (p : Parameters) (name : Bytes) :
    (collect entries p).get? name = (p.get? name).or (entries.lookup name) := by
  rw [collect]
  induction entries generalizing p with
  | nil => simp
  | cons e entries ih =>
    rw [List.foldl_cons, ih, SortedMap.get?_insertIfNew, List.lookup_cons]
    by_cases hname : name = e.1
    · subst hname
      rw [if_pos rfl, beq_self_eq_true]
      cases p.get? e.1 with
      | none => rfl
      | some value => rfl
    · rw [if_neg hname, beq_false_of_ne hname]

end Parameters

end TargetDiscovery
