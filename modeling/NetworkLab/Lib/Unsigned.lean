import Mathlib.Data.UInt

/-!
# Sums of 64-bit words that do not wrap

An `unsigned long` sum is the sum of the numbers as long as that fits the word.
-/

namespace NetworkLab.Lib.Unsigned

/-- A sum that fits the word. -/
theorem toNat_add_of_lt {a b : UInt64} (h : a.toNat + b.toNat < 2 ^ 64) :
    (a + b).toNat = a.toNat + b.toNat := by
  rw [UInt64.toNat_add]
  exact Nat.mod_eq_of_lt h

/-- The successor of a word that is not the largest. -/
theorem toNat_succ {a : UInt64} (h : a.toNat + 1 < 2 ^ 64) : (a + 1).toNat = a.toNat + 1 :=
  toNat_add_of_lt h

/-- The same for a number that is added. -/
theorem toNat_add_ofNat {a : UInt64} {n : Nat} (h : a.toNat + n < 2 ^ 64) :
    (a + UInt64.ofNat n).toNat = a.toNat + n := by
  have hn : (UInt64.ofNat n).toNat = n := by
    rw [UInt64.toNat_ofNat']
    omega
  rw [toNat_add_of_lt (by rw [hn]; exact h), hn]

end NetworkLab.Lib.Unsigned
