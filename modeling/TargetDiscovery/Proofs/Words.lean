import Mathlib.Algebra.Group.Nat.Defs
import TargetDiscovery.Bytes

/-!
# Numbers and words

What counts, counts in words of 64 bits. The sum of two words is the word of the sum, so a word that
was counted up by many steps is the word of the number of all of them, and holds that number up to
multiples of `2 ^ 64`.
-/

set_option autoImplicit false

namespace TargetDiscovery

theorem toNat_toUInt64 (n : Nat) : (n.toUInt64 : Nat) = n % 2 ^ 64 := UInt64.toNat_ofNat'

theorem add_toUInt64_zero (w : UInt64) : w + (0 : Nat).toUInt64 = w := UInt64.add_zero w

theorem toUInt64_add (m n : Nat) : (m + n).toUInt64 = m.toUInt64 + n.toUInt64 :=
  UInt64.ofNat_add m n

/-- To add two numbers to a word is to add their sum. -/
theorem add_toUInt64_add (w : UInt64) (m n : Nat) :
    w + m.toUInt64 + n.toUInt64 = w + (m + n).toUInt64 := by
  rw [UInt64.add_assoc, toUInt64_add]

/-- A length below `2 ^ 31` is what the signed word of 32 bits says. -/
theorem Bytes.intLength_of_lt {s : Bytes} (h : s.length < 2 ^ 31) : intLength s = s.length :=
  Int32.toInt_ofNat_of_lt h

end TargetDiscovery
