import TargetDiscovery.Bytes

/-!
# Strict total orders with a test

Labels, keys and addresses are put in byte order. `Ranked` is a strict total order given by a
Boolean test together with its laws; byte strings, lists and pairs are ranked lexicographically,
a proper initial part coming first.
-/

set_option autoImplicit false

namespace TargetDiscovery

/-- A strict total order: `before a b` says that `a` comes first. -/
class Ranked (α : Type) where
  before : α → α → Bool
  irrefl : ∀ a, before a a = false
  trans : ∀ a b c, before a b = true → before b c = true → before a c = true
  total : ∀ a b, before a b = true ∨ a = b ∨ before b a = true

namespace Ranked

variable {α β : Type}

theorem asymm [Ranked α] {a b : α} (h : before a b = true) : before b a = false := by
  cases hba : before b a
  · rfl
  · have := trans a b a h hba
    rw [irrefl] at this
    exact this.symm

theorem ne_of_before [Ranked α] {a b : α} (h : before a b = true) : a ≠ b := by
  intro e
  subst e
  rw [irrefl] at h
  exact Bool.noConfusion h

def upTo [Ranked α] (a b : α) : Bool := !before b a

instance : Ranked UInt8 where
  before a b := decide (a.toNat < b.toNat)
  irrefl a := by simp
  trans a b c := by simp only [decide_eq_true_eq]; exact Nat.lt_trans
  total a b := by
    simp only [decide_eq_true_eq]
    rcases Nat.lt_trichotomy a.toNat b.toNat with h | h | h
    · exact .inl h
    · exact .inr (.inl (UInt8.toNat_inj.mp h))
    · exact .inr (.inr h)

def listBefore [Ranked α] : List α → List α → Bool
  | _, [] => false
  | [], _ :: _ => true
  | a :: s, b :: t => before a b || (!before b a && listBefore s t)

theorem listBefore_irrefl [Ranked α] (s : List α) : listBefore s s = false := by
  induction s with
  | nil => rfl
  | cons a s ih => simp [listBefore, irrefl, ih]

theorem listBefore_trans [Ranked α] : ∀ s t u : List α,
    listBefore s t = true → listBefore t u = true → listBefore s u = true
  | _, [], _, h, _ => by simp [listBefore] at h
  | _, _ :: _, [], _, h => by simp [listBefore] at h
  | [], _ :: _, _ :: _, _, _ => rfl
  | a :: s, b :: t, c :: u, h, k => by
    simp only [listBefore, Bool.or_eq_true, Bool.and_eq_true, Bool.not_eq_true'] at h k ⊢
    rcases h with h | ⟨h, hs⟩ <;> rcases k with k | ⟨k, ks⟩
    · exact .inl (trans a b c h k)
    · rcases total b c with e | e | e
      · exact .inl (trans a b c h e)
      · subst e; exact .inl h
      · rw [k] at e; exact Bool.noConfusion e
    · rcases total a b with e | e | e
      · exact .inl (trans a b c e k)
      · subst e; exact .inl k
      · rw [h] at e; exact Bool.noConfusion e
    · rcases total a b with e | e | e
      · rcases total b c with f | f | f
        · exact .inl (trans a b c e f)
        · subst f; exact .inl e
        · rw [k] at f; exact Bool.noConfusion f
      · subst e
        exact .inr ⟨k, listBefore_trans s t u hs ks⟩
      · rw [h] at e; exact Bool.noConfusion e

theorem listBefore_total [Ranked α] : ∀ s t : List α,
    listBefore s t = true ∨ s = t ∨ listBefore t s = true
  | [], [] => .inr (.inl rfl)
  | [], _ :: _ => .inl rfl
  | _ :: _, [] => .inr (.inr rfl)
  | a :: s, b :: t => by
    simp only [listBefore, Bool.or_eq_true, Bool.and_eq_true, Bool.not_eq_true']
    rcases total a b with h | h | h
    · exact .inl (.inl h)
    · subst h
      rcases listBefore_total s t with k | k | k
      · exact .inl (.inr ⟨irrefl a, k⟩)
      · exact .inr (.inl (by rw [k]))
      · exact .inr (.inr (.inr ⟨irrefl a, k⟩))
    · exact .inr (.inr (.inl h))

instance [Ranked α] : Ranked (List α) where
  before := listBefore
  irrefl := listBefore_irrefl
  trans := listBefore_trans
  total := listBefore_total

instance [Ranked α] [Ranked β] : Ranked (α × β) where
  before p q := before p.1 q.1 || (!before q.1 p.1 && before p.2 q.2)
  irrefl p := by simp [irrefl]
  trans p q r h k := by
    simp only [Bool.or_eq_true, Bool.and_eq_true, Bool.not_eq_true'] at h k ⊢
    rcases total p.1 q.1 with e | e | e <;> rcases total q.1 r.1 with f | f | f
    · exact .inl (trans _ _ _ e f)
    · rw [← f]; exact .inl e
    · simp [asymm f, f] at k
    · rw [e]; exact .inl f
    · simp only [e, f, irrefl, Bool.false_eq_true, false_or, true_and] at h k ⊢
      exact trans _ _ _ h k
    · simp [asymm f, f] at k
    · simp [asymm e, e] at h
    · simp [asymm e, e] at h
    · simp [asymm e, e] at h
  total p q := by
    simp only [Bool.or_eq_true, Bool.and_eq_true, Bool.not_eq_true']
    rcases total p.1 q.1 with h | h | h
    · exact .inl (.inl h)
    · rcases total p.2 q.2 with k | k | k
      · exact .inl (.inr ⟨by rw [h, irrefl], k⟩)
      · exact .inr (.inl (Prod.ext h k))
      · exact .inr (.inr (.inr ⟨by rw [h, irrefl], k⟩))
    · exact .inr (.inr (.inl h))

/-- The order that `key` carries over from its target; `key` must tell values apart. -/
@[reducible] def pullback [Ranked β] (key : α → β) (inj : ∀ a b, key a = key b → a = b) :
    Ranked α where
  before a b := before (key a) (key b)
  irrefl a := irrefl (key a)
  trans a b c := trans (key a) (key b) (key c)
  total a b := by
    rcases total (key a) (key b) with h | h | h
    · exact .inl h
    · exact .inr (.inl (inj a b h))
    · exact .inr (.inr h)

end Ranked

end TargetDiscovery
