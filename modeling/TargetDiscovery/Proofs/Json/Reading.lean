import TargetDiscovery.Json.Reader

/-!
# What readers keep to

The documents of a reader are texts that denote values, by a format of its own. Two limits stand
beside the format. A document with a value that is nested too deeply is not read but ends in a
fault; and where a reader is strict, it refuses a document that has a name twice in an object. What
is proved from these laws holds for every reader that keeps to them, whatever its format is.
-/

set_option autoImplicit false

namespace TargetDiscovery.Json

/-! ## Depth -/

mutual

/-- How deep values stand inside each other; a value that holds no other has depth one. -/
def depth : Json → Nat
  | null | bool _ | number _ | string _ => 1
  | array items => itemsDepth items + 1
  | object members => membersDepth members + 1

def itemsDepth : List Json → Nat
  | [] => 0
  | j :: rest => max (depth j) (itemsDepth rest)

def membersDepth : List (Bytes × Json) → Nat
  | [] => 0
  | m :: rest => max (depth m.2) (membersDepth rest)

end

theorem itemsDepth_le_iff {items : List Json} {n : Nat} :
    itemsDepth items ≤ n ↔ ∀ item ∈ items, item.depth ≤ n := by
  induction items with
  | nil => simp [itemsDepth]
  | cons item rest ih => rw [itemsDepth, Nat.max_le, ih, List.forall_mem_cons]

theorem membersDepth_le_iff {members : List (Bytes × Json)} {n : Nat} :
    membersDepth members ≤ n ↔ ∀ m ∈ members, m.2.depth ≤ n := by
  induction members with
  | nil => simp [membersDepth]
  | cons m rest ih => rw [membersDepth, Nat.max_le, ih, List.forall_mem_cons]

/-! ## Laws -/

/-- The laws of a reader whose format is given by what a text denotes. -/
structure Reader.Follows [Reader] (Denotes : Bytes → Json → Prop) : Prop where
  read_eq_ok : ∀ strict text document, Reader.read strict text = .ok document ↔
    Denotes text document ∧ document.depth ≤ maxDepth ∧
      (strict = true → document.distinctNames = true)
  tooDeep : ∀ strict text document, Denotes text document → maxDepth < document.depth →
    (strict = true → document.distinctNames = true) →
      Reader.read strict text = .error (.thrown depthFault)

namespace Reader.Follows

variable [Reader] {Denotes : Bytes → Json → Prop} {text : Bytes} {document : Json}

theorem read_false (h : Follows Denotes) :
    Reader.read false text = .ok document ↔ Denotes text document ∧ document.depth ≤ maxDepth := by
  rw [h.read_eq_ok]
  simp only [reduceCtorEq, false_imp_iff, and_true]

theorem read_true (h : Follows Denotes) : Reader.read true text = .ok document ↔
    Denotes text document ∧ document.depth ≤ maxDepth ∧ document.distinctNames = true := by
  rw [h.read_eq_ok]
  simp only [forall_const]

/-- A text that denotes a value which is not too deep denotes no other one: that would be read as
well, or end the reading. -/
theorem unique (h : Follows Denotes) {other : Json} (hdocument : Denotes text document)
    (hdepth : document.depth ≤ maxDepth) (hother : Denotes text other) : document = other := by
  have hread := h.read_false.mpr ⟨hdocument, hdepth⟩
  rcases Nat.lt_or_ge maxDepth other.depth with hdeep | hdepth'
  · rw [h.tooDeep false text other hother hdeep nofun] at hread
    cases hread
  · exact Except.ok.inj (hread.symm.trans (h.read_false.mpr ⟨hother, hdepth'⟩))

end Reader.Follows

end TargetDiscovery.Json
