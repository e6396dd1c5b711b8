import TargetDiscovery.Proofs.Query.Routing
import TargetDiscovery.Proofs.Query.Serving

/-!
# The targets of an instance by path and by parameter

The targets of an instance can be asked for in two ways: with its name in the path, or with its name
as the first parameter of all targets. Both give the same answer, whatever parameters follow.
-/

set_option autoImplicit false

namespace TargetDiscovery.Answer

open Resource

/-- A byte that separates nothing: the bytes of names, and those that write others. -/
def isPlain (b : UInt8) : Bool :=
  Bytes.isAlphanumeric b || b == byte '_' || b == byte '-' || b == byte '%' ||
    (Bytes.hexValue b).isSome

theorem isPlain_of_reads {escaped name : Bytes} (hread : Escape.Reads escaped name)
    (hname : Naming.isInstanceName name = true) {b : UInt8} (hb : b ∈ escaped) :
    isPlain b = true := by
  rw [Naming.isInstanceName, Bool.and_eq_true, List.all_eq_true] at hname
  have hspace : byte ' ' ∉ name := fun hmem => absurd (hname.2 _ hmem) (by decide)
  rcases hread.mem hspace hb with hmem | rfl | hhex
  · rw [isPlain, hname.2 b hmem]
    rfl
  · decide
  · rw [isPlain, hhex, Bool.or_true]

/-- A leading piece counts before all others. -/
theorem parse?_append {piece : Bytes} {e : Bytes × Bytes}
    (hpiece : Parameters.piece? piece = some e) (hne : piece ≠ []) (hsep : byte '&' ∉ piece)
    (query : Bytes) :
    Parameters.parse? (piece ++ byte '&' :: query) =
      ((Parameters.pieces query).mapM Parameters.piece?).map fun entries =>
        Parameters.collect (e :: entries) SortedMap.empty := by
  rw [Parameters.parse?_eq, Parameters.pieces, Bytes.pieces_append hsep,
    List.filter_cons_of_pos (by simpa using hne), List.mapM_cons, hpiece, ← Parameters.pieces]
  cases (Parameters.pieces query).mapM Parameters.piece? with
  | none => rfl
  | some entries => rfl

theorem filterOf_collect (name : Bytes) (entries : List (Bytes × Bytes)) :
    filterOf (Parameters.collect ((Naming.owner, name) :: entries) SortedMap.empty) =
      { filterOf (Parameters.collect entries SortedMap.empty) with owner := some name } := by
  have hjob : (Naming.job == Naming.owner) = false := by decide
  simp [filterOf, Parameters.get?_collect, List.lookup_cons, hjob]

theorem answer_path_eq_parameter {catalog : Catalog} {name escaped : Bytes}
    (hknown : name ∈ catalog.names) (hname : Naming.isInstanceName name = true)
    (hescaped : Escape.decode escaped = some name) (ledger : Ledger) (query : Bytes) :
    answer catalog ledger (ascii "GET")
        (ascii "/instances/" ++ escaped ++ ascii "/targets?" ++ query) =
      answer catalog ledger (ascii "GET")
        (ascii "/targets?instance=" ++ escaped ++ ascii "&" ++ query) := by
  have hread := Escape.decode_eq_some_iff.mp hescaped
  have hplain : ∀ sep, isPlain sep = false → sep ∉ escaped := by
    intro sep hsep hmem
    rw [isPlain_of_reads hread hname hmem] at hsep
    cases hsep
  have hne : escaped ≠ [] := by
    rintro rfl
    cases hescaped
    exact absurd hname (by decide)
  -- The first target, cut at its question mark.
  have hpath : ascii "/instances/" ++ escaped ++ ascii "/targets?" ++ query =
      (ascii "/instances/" ++ escaped ++ ascii "/targets") ++ byte '?' :: query := by
    rw [show ascii "/targets?" = ascii "/targets" ++ [byte '?'] by decide]
    simp
  have hmark : byte '?' ∉ ascii "/instances/" ++ escaped ++ ascii "/targets" := by
    have hstart : byte '?' ∉ ascii "/instances/" := by decide
    have hend : byte '?' ∉ ascii "/targets" := by decide
    simp [hstart, hend, hplain (byte '?') (by decide)]
  have hnames : Names (ascii "/instances/" ++ escaped ++ ascii "/targets") escaped := ⟨hne, rfl⟩
  -- The second one, whose query begins with the instance.
  have hparameter : ascii "/targets?instance=" ++ escaped ++ ascii "&" ++ query =
      ascii "/targets" ++ byte '?' ::
        ((Naming.owner ++ byte '=' :: escaped) ++ byte '&' :: query) := by
    rw [show ascii "/targets?instance=" =
      ascii "/targets" ++ byte '?' :: (Naming.owner ++ [byte '=']) by decide,
      show ascii "&" = [byte '&'] by decide]
    simp
  have hpiece : Parameters.piece? (Naming.owner ++ byte '=' :: escaped) =
      some (Naming.owner, name) := by
    rw [Parameters.piece?_eq, Bytes.before_append (by decide), Bytes.behind_append (by decide),
      hescaped]
    rfl
  have hsep : byte '&' ∉ Naming.owner ++ byte '=' :: escaped := by
    have hstart : byte '&' ∉ Naming.owner := by decide
    have heq : byte '&' ≠ byte '=' := by decide
    simp [hstart, heq, hplain (byte '&') (by decide)]
  have htargets : ofPath (ascii "/targets") = .targets := by decide
  rw [hpath, hparameter, answer_eq, answer_eq, Bytes.before_append hmark,
    Bytes.behind_append hmark, Bytes.before_append (by decide), Bytes.behind_append (by decide),
    ofPath_of_names hnames, htargets, parse?_append hpiece (by simp) hsep, Parameters.parse?_eq]
  cases (Parameters.pieces query).mapM Parameters.piece? with
  | none => rfl
  | some entries =>
    simp only [Option.map_some, ofResource, hescaped, listTargetsOf,
      if_pos (hasInstance_iff.mpr hknown), filterOf_collect]

/-- Two instances have published targets, and the query asks for the instance that the path does not
name. -/
theorem answer_east_eq :
    (ascii "east" ∈ Catalog.twins.names ∧ Naming.isInstanceName (ascii "east") = true ∧
      Escape.decode (ascii "%65ast") = some (ascii "east")) ∧
    (Catalog.twins.groups ⟨some (ascii "replica"), some (ascii "east")⟩).map Group.addresses =
      [[ascii "10.0.0.1:9090"]] ∧
    answer Catalog.twins SortedMap.empty (ascii "GET")
        (ascii "/instances/" ++ ascii "%65ast" ++ ascii "/targets?" ++
          ascii "job=replica&instance=west?") =
      ⟨200, groupsBody (Catalog.twins.groups ⟨some (ascii "replica"), some (ascii "east")⟩)⟩ ∧
    answer Catalog.twins SortedMap.empty (ascii "GET")
        (ascii "/instances/" ++ ascii "%65ast" ++ ascii "/targets?" ++
          ascii "job=replica&instance=west?") =
      answer Catalog.twins SortedMap.empty (ascii "GET")
        (ascii "/targets?instance=" ++ ascii "%65ast" ++ ascii "&" ++
          ascii "job=replica&instance=west?") := by
  have hknown : ascii "east" ∈ Catalog.twins.names := by decide +kernel
  have hname : Naming.isInstanceName (ascii "east") = true := by decide
  have hescaped : Escape.decode (ascii "%65ast") = some (ascii "east") := by decide
  refine ⟨⟨hknown, hname, hescaped⟩, by decide +kernel, rfl, ?_⟩
  exact answer_path_eq_parameter hknown hname hescaped _ _

end TargetDiscovery.Answer
