import NetworkLab.Lib.Unsigned
import Mathlib.Data.List.Basic

/-!
# Arrays indexed by machine words

An array in memory as a function from its 64-bit index. What lies in a row of cells is the
list of their contents; storing a cell past the row extends it, and a cell outside the row
does not matter to it.
-/

namespace NetworkLab.Lib.Cells

variable {α : Type*}

/-- The array with one cell stored. -/
def set (m : UInt64 → α) (k : UInt64) (x : α) : UInt64 → α := fun i ↦ if i = k then x else m i

@[simp] theorem set_self (m : UInt64 → α) (k : UInt64) (x : α) : set m k x k = x := if_pos rfl

/-- Storing a cell leaves the others. -/
theorem set_of_ne (m : UInt64 → α) {i k : UInt64} (h : i ≠ k) (x : α) : set m k x i = m i :=
  if_neg h

/-- The contents of the `n` cells from `k` on. -/
def row (m : UInt64 → α) : (k : UInt64) → (n : Nat) → List α
  | _, 0 => []
  | k, n + 1 => m k :: row m (k + 1) n

/-- The last cell of a row. -/
theorem row_succ (m : UInt64 → α) (k : UInt64) (n : Nat) :
    row m k (n + 1) = row m k n ++ [m (k + UInt64.ofNat n)] := by
  induction n generalizing k with
  | zero =>
    change [m k] = [m (k + 0)]
    rw [UInt64.add_zero]
  | succ n ih =>
    have hindex : k + 1 + UInt64.ofNat n = k + UInt64.ofNat (n + 1) := by
      rw [UInt64.ofNat_add, UInt64.add_assoc, UInt64.add_comm 1]
      rfl
    rw [row, ih, hindex]
    rfl

/-- Arrays that agree on the cells of a row have the same row. -/
theorem row_congr {m m' : UInt64 → α} {k : UInt64} {n : Nat} (hk : k.toNat + n ≤ 2 ^ 64)
    (h : ∀ i : UInt64, k.toNat ≤ i.toNat → i.toNat < k.toNat + n → m i = m' i) :
    row m k n = row m' k n := by
  induction n generalizing k with
  | zero => rfl
  | succ n ih =>
    rw [row, row, h k (Nat.le_refl _) (by omega)]
    congr 1
    by_cases hlast : n = 0
    · rw [hlast]
      rfl
    · have hnext : (k + 1).toNat = k.toNat + 1 := Unsigned.toNat_succ (by omega)
      apply ih
      · omega
      · intro i hlow hhigh
        apply h <;> omega

/-- Storing a cell outside a row leaves the row. -/
theorem row_set_of_not_mem (m : UInt64 → α) {i k : UInt64} {n : Nat} (x : α)
    (hk : k.toNat + n ≤ 2 ^ 64) (hi : i.toNat < k.toNat ∨ k.toNat + n ≤ i.toNat) :
    row (set m i x) k n = row m k n := by
  apply row_congr hk
  intro l hlow hhigh
  apply set_of_ne
  intro heq
  rw [heq] at hlow hhigh
  omega

/-- Storing the cell behind a row at the start of the array extends the row. -/
theorem row_zero_set (m : UInt64 → α) (k : UInt64) (x : α) :
    row (set m k x) 0 (k.toNat + 1) = row m 0 k.toNat ++ [x] := by
  have hk := k.toNat_lt
  rw [row_succ, row_set_of_not_mem m x (by simp; omega) (by simp), UInt64.zero_add,
    UInt64.ofNat_toNat, set_self]

end NetworkLab.Lib.Cells
