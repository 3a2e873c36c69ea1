import Mathlib.Algebra.Ring.GeomSum
import Mathlib.Algebra.Order.Ring.Int
import Mathlib.Data.Int.ModEq
import Mathlib.RingTheory.Int.Basic
import Mathlib.Tactic.LinearCombination

/-!
# Linear congruential generators

`x ↦ (a * x + c) mod 2 ^ k` has full period from every seed when `a` is one modulo four and
`c` is odd: the theorem of Hull and Dobell for a power of two.
-/

namespace NetworkLab.Lib.Lcg

open Finset

variable {a c : ℤ}

/-- One step of a generator. -/
def next (a c m x : ℤ) : ℤ := (a * x + c) % m

/-- The first values of a generator, without its seed. -/
def values (a c m : ℤ) : ℕ → ℤ → List ℤ
  | 0, _ => []
  | n + 1, x => next a c m x :: values a c m n (next a c m x)

/-! ### Powers of two in a geometric sum -/

private theorem odd_of_mod_four (ha : a % 4 = 1) : Odd a := by
  rw [Int.odd_iff]
  omega

private theorem geom_sum_mod_two (ha : Odd a) (d : ℕ) :
    (∑ i ∈ range d, a ^ i) % 2 = (d : ℤ) % 2 := by
  induction d with
  | zero => rfl
  | succ d ih =>
    have hpow : a ^ d % 2 = 1 := Int.odd_iff.mp ha.pow
    rw [sum_range_succ]
    push_cast
    omega

private theorem geom_sum_double (d : ℕ) :
    ∑ i ∈ range (2 * d), a ^ i = (∑ i ∈ range d, a ^ i) * (1 + a ^ d) := by
  rw [two_mul, sum_range_add, mul_add, mul_one, sum_mul]
  congr 1
  exact sum_congr rfl fun i _ ↦ by rw [pow_add, mul_comm]

private theorem one_add_pow (ha : a % 4 = 1) (d : ℕ) : ∃ r, Odd r ∧ 1 + a ^ d = 2 * r := by
  have hpow : a ^ d % 4 = 1 := by
    have hmod : a ^ d ≡ 1 ^ d [ZMOD 4] := Int.ModEq.pow d ha
    rwa [one_pow] at hmod
  refine ⟨(1 + a ^ d) / 2, ?_, by omega⟩
  rw [Int.odd_iff]
  omega

private theorem dvd_of_dvd_mul_odd {k : ℕ} {x r : ℤ} (hr : Odd r) (h : (2 : ℤ) ^ k ∣ x * r) :
    (2 : ℤ) ^ k ∣ x :=
  (Int.isCoprime_two_left.mpr hr).pow_left.dvd_of_dvd_mul_right h

/-- A geometric sum has no more factors of two than its number of terms. -/
theorem two_pow_dvd_of_dvd_geom_sum (ha : a % 4 = 1) {k d : ℕ}
    (h : (2 : ℤ) ^ k ∣ ∑ i ∈ range d, a ^ i) : 2 ^ k ∣ d := by
  induction k generalizing d with
  | zero => exact one_dvd d
  | succ k ih =>
    have heven : d % 2 = 0 := by
      have htwo : (2 : ℤ) ∣ ∑ i ∈ range d, a ^ i := dvd_trans (dvd_pow_self 2 k.succ_ne_zero) h
      have hmod := geom_sum_mod_two (odd_of_mod_four ha) d
      omega
    obtain ⟨e, rfl⟩ := Nat.dvd_of_mod_eq_zero heven
    obtain ⟨r, hodd, hr⟩ := one_add_pow ha e
    have hhalf : (2 : ℤ) ^ k ∣ (∑ i ∈ range e, a ^ i) * r := by
      rw [geom_sum_double, hr, pow_succ', mul_left_comm] at h
      exact (mul_dvd_mul_iff_left two_ne_zero).mp h
    rw [pow_succ']
    exact mul_dvd_mul_left 2 (ih (dvd_of_dvd_mul_odd hodd hhalf))

/-! ### The period -/

/-- Some steps at once. -/
theorem iterate_next (m x : ℤ) (d : ℕ) :
    (next a c m)^[d] x ≡ a ^ d * x + c * ∑ i ∈ range d, a ^ i [ZMOD m] := by
  induction d with
  | zero => simp
  | succ d ih =>
    have hsum : a ^ (d + 1) * x + c * ∑ i ∈ range (d + 1), a ^ i =
        a * (a ^ d * x + c * ∑ i ∈ range d, a ^ i) + c := by
      rw [geom_sum_succ]
      ring
    rw [Function.iterate_succ_apply', hsum]
    exact (Int.mod_modEq _ _).trans ((ih.mul_left a).add_right c)

/-- A value comes back after a multiple of the modulus only. -/
theorem dvd_of_iterate_eq (ha : a % 4 = 1) (hc : Odd c) {k d : ℕ} {x : ℤ}
    (h : (next a c (2 ^ k))^[d] x = x) : 2 ^ k ∣ d := by
  have hmod := iterate_next (a := a) (c := c) (2 ^ k) x d
  rw [h, Int.modEq_iff_dvd] at hmod
  apply two_pow_dvd_of_dvd_geom_sum ha
  have hodd : Odd ((a - 1) * x + c) := by
    have heven : Even (a - 1) := by
      rw [Int.even_iff]
      omega
    exact (heven.mul_right x).add_odd hc
  apply dvd_of_dvd_mul_odd hodd
  have hsum : a ^ d * x + c * ∑ i ∈ range d, a ^ i - x =
      (∑ i ∈ range d, a ^ i) * ((a - 1) * x + c) := by
    have hgeom := geom_sum_mul a d
    linear_combination -x * hgeom
  rwa [hsum] at hmod

/-! ### The values -/

@[simp] theorem length_values (a c m : ℤ) (n : ℕ) (x : ℤ) : (values a c m n x).length = n := by
  induction n generalizing x with
  | zero => rfl
  | succ n ih => rw [values, List.length_cons, ih]

/-- The values are those of the steps. -/
theorem getElem?_values (a c m : ℤ) (n : ℕ) (x : ℤ) (i : ℕ) :
    (values a c m n x)[i]? = if i < n then some ((next a c m)^[i + 1] x) else none := by
  induction n generalizing x i with
  | zero => rfl
  | succ n ih =>
    rw [values]
    cases i with
    | zero => rfl
    | succ i =>
      rw [List.getElem?_cons_succ, ih, Function.iterate_succ_apply _ (i + 1)]
      simp only [Nat.add_lt_add_iff_right]

/-- Every value is below the modulus. -/
theorem mem_values {m : ℤ} (hm : 0 < m) {n : ℕ} {x v : ℤ} (hv : v ∈ values a c m n x) :
    0 ≤ v ∧ v < m := by
  induction n generalizing x with
  | zero => cases hv
  | succ n ih =>
    rw [values] at hv
    rcases List.mem_cons.mp hv with rfl | hv
    · exact ⟨Int.emod_nonneg _ (ne_of_gt hm), Int.emod_lt_of_pos _ hm⟩
    · exact ih hv

/-- As many values as the modulus are distinct, from every seed. -/
theorem nodup_values (ha : a % 4 = 1) (hc : Odd c) {k n : ℕ} (hn : n ≤ 2 ^ k) (x : ℤ) :
    (values a c (2 ^ k) n x).Nodup := by
  rw [List.nodup_iff_getElem?_ne_getElem?]
  intro i j hij hj
  rw [length_values] at hj
  rw [getElem?_values, getElem?_values, if_pos (hij.trans hj), if_pos hj]
  intro heq
  obtain ⟨d, rfl⟩ := Nat.exists_eq_add_of_lt hij
  have hcycle : (next a c (2 ^ k))^[d + 1] ((next a c (2 ^ k))^[i + 1] x) =
      (next a c (2 ^ k))^[i + 1] x := by
    rw [← Function.iterate_add_apply]
    have hindex : d + 1 + (i + 1) = i + d + 1 + 1 := by omega
    rw [hindex]
    exact (Option.some.inj heq).symm
  have hdvd := Nat.le_of_dvd d.succ_pos (dvd_of_iterate_eq ha hc hcycle)
  omega

end NetworkLab.Lib.Lcg
