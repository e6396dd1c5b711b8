import TargetDiscovery.Registry.Network

/-!
# Scripts

A script fixes the reply to each fetch of an instance by the number of the fetch. Asking for an
instance moves on in its own script alone.
-/

set_option autoImplicit false

namespace TargetDiscovery

namespace Script

/-- The reply to the fetch behind as many others. -/
def reply (s : Script) (k : Nat) : Reply := s.replies[k]?.getD s.rest

theorem next_fst (s : Script) : s.next.1 = s.reply 0 := by
  rw [next, reply]
  cases s.replies with
  | nil => rfl
  | cons r more => rfl

theorem next_snd_reply (s : Script) (k : Nat) : s.next.2.reply k = s.reply (k + 1) := by
  rw [next]
  cases hs : s.replies with
  | nil => simp [reply, hs]
  | cons r more => simp [reply, hs]

end Script

namespace Network

theorem scripted_of_some {scripts : List Script} {i : Nat} {script : Script}
    (h : scripts[i]? = some script) (since : UInt64) (timeout : Nat) :
    scripted.ask scripts i since timeout = (script.next.1, scripts.set i script.next.2) := by
  simp only [scripted, h]

theorem scripted_of_none {scripts : List Script} {i : Nat} (h : scripts[i]? = none)
    (since : UInt64) (timeout : Nat) :
    scripted.ask scripts i since timeout = (.refused, scripts) := by
  simp only [scripted, h]

theorem scripted_self (scripts : List Script) (i : Nat) (since : UInt64) (timeout : Nat) :
    (scripted.ask scripts i since timeout).1 =
        (scripts[i]?.map fun s => s.next.1).getD .refused ∧
      (scripted.ask scripts i since timeout).2[i]? = scripts[i]?.map fun s => s.next.2 := by
  cases hs : scripts[i]? with
  | none => simp [scripted_of_none hs, hs]
  | some script =>
    have hlt := (List.getElem?_eq_some_iff.mp hs).1
    simp [scripted_of_some hs, List.getElem?_set_self hlt]

theorem scripted_other (scripts : List Script) {i j : Nat} (h : j ≠ i) (since : UInt64)
    (timeout : Nat) : (scripted.ask scripts j since timeout).2[i]? = scripts[i]? := by
  cases hs : scripts[j]? with
  | none => rw [scripted_of_none hs]
  | some script => rw [scripted_of_some hs, List.getElem?_set_ne h]

/-- The reply to the next fetch of an instance but `k`. -/
def replyOf (scripts : List Script) (i k : Nat) : Reply :=
  (scripts[i]?.map fun s => s.reply k).getD .refused

theorem ask_fst (scripts : List Script) (i : Nat) (since : UInt64) (timeout : Nat) :
    (scripted.ask scripts i since timeout).1 = replyOf scripts i 0 := by
  rw [(scripted_self scripts i since timeout).1, replyOf]
  simp only [Script.next_fst]

theorem replyOf_ask_self (scripts : List Script) (i : Nat) (since : UInt64) (timeout k : Nat) :
    replyOf (scripted.ask scripts i since timeout).2 i k = replyOf scripts i (k + 1) := by
  rw [replyOf, (scripted_self scripts i since timeout).2, Option.map_map, replyOf]
  congr 2
  funext s
  exact s.next_snd_reply k

theorem replyOf_ask_other (scripts : List Script) {i j : Nat} (h : j ≠ i) (since : UInt64)
    (timeout k : Nat) :
    replyOf (scripted.ask scripts j since timeout).2 i k = replyOf scripts i k := by
  rw [replyOf, scripted_other scripts h, replyOf]

end Network

end TargetDiscovery
