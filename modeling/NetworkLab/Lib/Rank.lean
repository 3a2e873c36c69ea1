import Mathlib.Data.List.Basic

/-!
# Ranks in sorted lists

A property that holds of everything below a value it holds of is true of a first part of a
sorted list and false of the rest, so the number of elements with the property tells for
each position whether the element there has it.
-/

namespace NetworkLab.Lib.Rank

variable {α : Type*}

/-- The elements with a downward closed property are those in the positions below their
number. -/
theorem lt_countP_iff {p : α → Bool} {xs : List α}
    (h : xs.Pairwise fun x y ↦ p y = true → p x = true) {k : Nat} (hk : k < xs.length) :
    k < xs.countP p ↔ p xs[k] = true := by
  induction xs generalizing k with
  | nil => exact absurd hk (Nat.not_lt_zero k)
  | cons x xs ih =>
    obtain ⟨hx, hxs⟩ := List.pairwise_cons.mp h
    by_cases hp : p x = true
    · rw [List.countP_cons_of_pos hp]
      cases k with
      | zero => simp [hp]
      | succ k => simpa using ih hxs (by simpa using hk)
    · have hnone : (x :: xs).countP p = 0 := by
        rw [List.countP_eq_zero]
        intro y hy hpy
        rcases List.mem_cons.mp hy with rfl | hy
        · exact hp hpy
        · exact hp (hx y hy hpy)
      rw [hnone]
      constructor
      · intro hlt
        exact absurd hlt (Nat.not_lt_zero k)
      · intro hpk
        rcases List.mem_cons.mp (List.getElem_mem hk) with he | hm
        · exact absurd (he ▸ hpk) hp
        · exact absurd (hx _ hm hpk) hp

variable [LE α] [Std.IsLinearOrder α]

/-- More than `k` elements are at most `q` exactly when the one in position `k` is. -/
theorem lt_countP_le_iff [DecidableLE α] {xs : List α} (h : xs.Pairwise (· ≤ ·)) (q : α)
    {k : Nat} (hk : k < xs.length) : k < xs.countP (· ≤ q) ↔ xs[k] ≤ q := by
  have hdown : xs.Pairwise fun x y ↦ decide (y ≤ q) = true → decide (x ≤ q) = true :=
    h.imp fun hxy hy ↦ decide_eq_true (Std.le_trans hxy (of_decide_eq_true hy))
  rw [lt_countP_iff hdown hk, decide_eq_true_iff]

variable [LT α] [Std.LawfulOrderLT α] [DecidableLT α]

/-- More than `k` elements are below `q` exactly when the one in position `k` is. -/
theorem lt_countP_lt_iff {xs : List α} (h : xs.Pairwise (· ≤ ·)) (q : α) {k : Nat}
    (hk : k < xs.length) : k < xs.countP (· < q) ↔ xs[k] < q := by
  have hdown : xs.Pairwise fun x y ↦ decide (y < q) = true → decide (x < q) = true :=
    h.imp fun hxy hy ↦ decide_eq_true (Std.lt_of_le_of_lt hxy (of_decide_eq_true hy))
  rw [lt_countP_iff hdown hk, decide_eq_true_iff]

/-- Each element is below a bound or at least the bound. -/
theorem countP_lt_add_countP_ge [DecidableLE α] (xs : List α) (q : α) :
    xs.countP (· < q) + xs.countP (q ≤ ·) = xs.length := by
  have hsplit := List.length_eq_countP_add_countP (· < q) (l := xs)
  rw [hsplit]
  congr 1
  apply List.countP_congr
  intro x _
  simp [Std.not_lt]

/-- At least all but `k` elements are at least `q` exactly when the one in position `k` is. -/
theorem le_countP_ge_iff [DecidableLE α] {xs : List α} (h : xs.Pairwise (· ≤ ·)) (q : α)
    {k : Nat} (hk : k < xs.length) : xs.length ≤ k + xs.countP (q ≤ ·) ↔ q ≤ xs[k] := by
  have hsplit := countP_lt_add_countP_ge xs q
  have hat := lt_countP_lt_iff h q hk
  rw [← Std.not_lt (a := xs[k]), ← hat]
  omega

end NetworkLab.Lib.Rank
