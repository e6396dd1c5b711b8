import TargetDiscovery.SortedMap

/-!
# The order of bytes

The tests of the ranks decide the orders that one would name: numbers of bytes, byte strings by the
first byte in which they differ, pairs by their first component, and maps as lists of pairs. A
proper initial part comes first.
-/

set_option autoImplicit false

namespace TargetDiscovery.Ranked

variable {α β : Type} [Ranked α] [Ranked β]

/-- The test of the rank decides a relation. -/
def Decides (α : Type) [Ranked α] (r : α → α → Prop) : Prop :=
  ∀ a b : α, before a b = true ↔ r a b

theorem decides_byte : Decides UInt8 (· < ·) :=
  fun _ _ => decide_eq_true_iff.trans UInt8.lt_iff_toNat_lt.symm

theorem Decides.list {r : α → α → Prop} (h : Decides α r) : Decides (List α) (List.Lex r) := by
  intro s
  induction s with
  | nil =>
    intro t
    cases t with
    | nil => exact ⟨nofun, nofun⟩
    | cons b t => exact ⟨fun _ => .nil, fun _ => rfl⟩
  | cons a s ih =>
    intro t
    cases t with
    | nil => exact ⟨nofun, nofun⟩
    | cons b t =>
      have hstep : before (a :: s) (b :: t) = (before a b || (!before b a && before s t)) := rfl
      rw [hstep, Bool.or_eq_true, Bool.and_eq_true, Bool.not_eq_true', h a b, ih t]
      constructor
      · rintro (hab | ⟨hba, hst⟩)
        · exact .rel hab
        · rcases total a b with k | rfl | k
          · exact .rel ((h a b).mp k)
          · exact .cons hst
          · rw [hba] at k
            cases k
      · intro hlex
        cases hlex with
        | rel hab => exact .inl hab
        | cons hst => exact .inr ⟨irrefl a, hst⟩

theorem Decides.prod {r : α → α → Prop} {s : β → β → Prop} (hr : Decides α r)
    (hs : Decides β s) : Decides (α × β) (Prod.Lex r s) := by
  intro p q
  have hstep : before p q = (before p.1 q.1 || (!before q.1 p.1 && before p.2 q.2)) := rfl
  rw [hstep, Prod.lex_def, Bool.or_eq_true, Bool.and_eq_true, Bool.not_eq_true', hr p.1 q.1,
    hs p.2 q.2]
  constructor
  · rintro (h | ⟨hqp, h⟩)
    · exact .inl h
    · rcases total p.1 q.1 with k | k | k
      · exact .inl ((hr p.1 q.1).mp k)
      · exact .inr ⟨k, h⟩
      · rw [hqp] at k
        cases k
  · rintro (h | ⟨heq, h⟩)
    · exact .inl h
    · rw [heq]
      exact .inr ⟨irrefl q.1, h⟩

theorem decides_bytes : Decides Bytes (· < ·) := decides_byte.list

theorem upTo_bytes {s t : Bytes} : upTo s t = true ↔ s ≤ t := by
  rw [upTo, Bool.not_eq_true', ← Bool.not_eq_true, decides_bytes t s]
  exact List.not_lt

theorem decides_dict : Decides (Dict Bytes) fun d e =>
    List.Lex (Prod.Lex (· < ·) (· < ·)) d.entries e.entries :=
  fun d e => (decides_bytes.prod decides_bytes).list d.entries e.entries

end TargetDiscovery.Ranked
