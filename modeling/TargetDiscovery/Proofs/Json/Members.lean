import TargetDiscovery.Json.Value
import TargetDiscovery.Proofs.SortedMap

/-!
# Members of objects

What a document says is said of its members: one that may be missing has a fallback, and one that is
there is of some kind. A member that is written more than once counts as it is written last.
-/

set_option autoImplicit false

namespace TargetDiscovery

/-! ## Results -/

section Results

variable {ε α β : Type} {e : ε} {a b : α} {x : Except ε α}

theorem ok_eq_ok : (Except.ok a : Except ε α) = .ok b ↔ b = a := by
  rw [Except.ok.injEq, eq_comm]

theorem bind_eq_ok {f : α → Except ε β} {b : β} :
    (x >>= f) = .ok b ↔ ∃ a, x = .ok a ∧ f a = .ok b := by
  cases x with
  | error e =>
    constructor
    · intro h
      cases h
    · rintro ⟨_, h, _⟩
      cases h
  | ok a =>
    constructor
    · exact fun h => ⟨a, rfl, h⟩
    · rintro ⟨_, ⟨⟩, h⟩
      exact h

variable {c : Prop} [Decidable c]

theorem guard_eq_ok : (if c then x else .error e) = .ok a ↔ c ∧ x = .ok a := by
  split
  · exact ⟨fun h => ⟨‹_›, h⟩, And.right⟩
  · constructor
    · intro h
      cases h
    · exact fun h => absurd h.1 ‹_›

theorem refuse_eq_ok : (if c then .error e else x) = .ok a ↔ ¬ c ∧ x = .ok a := by
  split
  · constructor
    · intro h
      cases h
    · exact fun h => absurd ‹_› h.1
  · exact ⟨fun h => ⟨‹_›, h⟩, And.right⟩

/-- What is said of a value before it is named is said of it by its name. -/
theorem and_eq_iff {p : α → Prop} : p a ∧ a = b ↔ a = b ∧ p b :=
  ⟨fun ⟨hp, h⟩ => ⟨h, h ▸ hp⟩, fun ⟨h, hp⟩ => ⟨h ▸ hp, h⟩⟩

end Results

/-! ## Members -/

namespace Json

/-- What a member gives: its own value if it is there, and otherwise the fallback. -/
def Given {α : Type} (object : Json) (name : Bytes) (fallback : α) (Is : Json → α → Prop) (a : α) :
    Prop :=
  match object.member? name with
  | none => a = fallback
  | some v => Is v a

def IfPresent (object : Json) (name : Bytes) (P : Json → Prop) : Prop :=
  ∀ v, object.member? name = some v → P v

theorem given_iff {α : Type} {object : Json} {name : Bytes} {fallback a : α}
    {Is : Json → α → Prop} :
    object.Given name fallback Is a ↔
      object.member? name = none ∧ a = fallback ∨ ∃ v, object.member? name = some v ∧ Is v a := by
  unfold Given
  cases object.member? name with
  | none => simp only [true_and, reduceCtorEq, false_and, exists_false, or_false]
  | some v => simp only [reduceCtorEq, false_and, false_or, Option.some.injEq, exists_eq_left']

theorem given_congr {α : Type} {object object' : Json} {name : Bytes} {fallback a : α}
    {Is : Json → α → Prop} (h : object.member? name = object'.member? name) :
    object.Given name fallback Is a ↔ object'.Given name fallback Is a := by
  rw [Given, h, Given]

theorem exists_given {α : Type} {object : Json} {name : Bytes} {fallback : α}
    {Is : Json → α → Prop} :
    (∃ a, object.Given name fallback Is a) ↔ object.IfPresent name fun v => ∃ a, Is v a := by
  unfold Given IfPresent
  cases object.member? name with
  | none => exact ⟨fun _ => nofun, fun _ => ⟨fallback, rfl⟩⟩
  | some v =>
    constructor
    · rintro ⟨a, ha⟩ _ ⟨⟩
      exact ⟨a, ha⟩
    · exact fun h => h v rfl

theorem given_eq_ok {ε α : Type} {object : Json} {name : Bytes} {fallback a : α}
    {Is : Json → α → Prop} {f : Json → Except ε α} (h : ∀ v, f v = .ok a ↔ Is v a) :
    (match object.member? name with
      | none => Except.ok fallback
      | some v => f v) = .ok a ↔ object.Given name fallback Is a := by
  unfold Given
  cases object.member? name with
  | none => exact ok_eq_ok
  | some v => exact h v

/-- A number that is a natural one, whether it is written as an integer or not. -/
def IsNat (v : Json) (n : Nat) : Prop := ∃ m, v = .number m ∧ m.integer? = some (n : Int)

def IsNumber (v : Json) (x : Float) : Prop := ∃ m, v = .number m ∧ m.toFloat = x

theorem string?_eq_some {v : Json} {s : Bytes} : v.string? = some s ↔ v = .string s := by
  cases v <;> simp [string?]

theorem bool?_eq_some {v : Json} {b : Bool} : v.bool? = some b ↔ v = .bool b := by
  cases v <;> simp [bool?]

theorem natBelow?_eq_some {bound n : Nat} {v : Json} :
    v.natBelow? bound = some n ↔ v.IsNat n ∧ n < bound := by
  constructor
  · intro h
    unfold natBelow? at h
    split at h
    · rename_i m
      split at h
      · rename_i k hk
        split at h
        · cases h
          exact ⟨⟨m, rfl, hk⟩, ‹_›⟩
        · cases h
      · cases h
    · cases h
  · rintro ⟨⟨m, rfl, hm⟩, hlt⟩
    have hm' : m.integer? = some (.ofNat n) := hm
    simp only [natBelow?, hm', if_pos hlt]

theorem positive_eq_ok {ε : Type} {largest n : Nat} {v : Json} {e e' : ε} :
    (match v.natBelow? (largest + 1) with
      | some n => if n = 0 then Except.error e else .ok n
      | none => .error e') = .ok n ↔ v.IsNat n ∧ 1 ≤ n ∧ n ≤ largest := by
  have hbelow : v.IsNat n ∧ 1 ≤ n ∧ n ≤ largest ↔
      v.natBelow? (largest + 1) = some n ∧ n ≠ 0 := by
    rw [natBelow?_eq_some, and_assoc]
    exact and_congr_right fun _ => by omega
  rw [hbelow]
  cases v.natBelow? (largest + 1) with
  | none => simp only [reduceCtorEq, false_and]
  | some k =>
    simp only [refuse_eq_ok, Except.ok.injEq, Option.some.injEq]
    exact and_eq_iff (p := (¬ · = 0))

theorem lastMember_append {name : Bytes} {ms ns : List (Bytes × Json)} :
    lastMember name (ms ++ ns) = (lastMember name ns).or (lastMember name ms) := by
  induction ms with
  | nil => exact Option.or_none.symm
  | cons m rest ih =>
    rw [List.cons_append, lastMember, ih, lastMember]
    cases lastMember name ns with
    | none => rfl
    | some v => rfl

theorem lastMember_eq_none {name : Bytes} {ms : List (Bytes × Json)} (h : ∀ m ∈ ms, m.1 ≠ name) :
    lastMember name ms = none := by
  induction ms with
  | nil => rfl
  | cons m rest ih =>
    obtain ⟨hm, hrest⟩ := List.forall_mem_cons.mp h
    rw [lastMember, ih hrest]
    exact if_neg hm

theorem get?_foldl_insert (members : List (Bytes × Json)) (d : Dict Json) (name : Bytes) :
    (members.foldl (fun d e => d.insert e.1 e.2) d).get? name =
      (lastMember name members).or (d.get? name) := by
  induction members generalizing d with
  | nil => rfl
  | cons m rest ih =>
    rw [List.foldl_cons, ih, SortedMap.get?_insert, lastMember]
    cases lastMember name rest with
    | some v => rfl
    | none =>
      by_cases hname : name = m.1
      · simp only [hname, ↓reduceIte, Option.none_or, Option.some_or]
      · simp only [hname, Ne.symm hname, ↓reduceIte, Option.none_or]

theorem get?_memberDict (v : Json) (name : Bytes) : v.memberDict.get? name = v.member? name := by
  unfold memberDict member?
  cases v with
  | object members =>
    exact (get?_foldl_insert members SortedMap.empty name).trans (Option.or_none)
  | _ => rfl

end Json

end TargetDiscovery
