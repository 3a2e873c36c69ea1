import Mathlib.Algebra.BigOperators.Ring.Finset
import Mathlib.Data.List.GetD

/-!
# Convolution of two sequences

`convolve` of numpy in its mode `valid` keeps of the convolution the coefficients at which the
two sequences overlap completely, and refuses an empty sequence. A window of equal weights makes
each of them a sum over as many neighbours.
-/

namespace NetworkLab.Lib.Convolution

variable {K : Type*} [CommSemiring K]

/-- A coefficient of the convolution. -/
def coeff (a v : List K) (n : Nat) : K :=
  ∑ i ∈ Finset.range (n + 1), a.getD i 0 * v.getD (n - i) 0

/-- What a `convolve` in mode `valid` is documented to return. -/
structure ConvolvesValid (convolve : List K → List K → Option (List K)) : Prop where
  empty : ∀ {a v : List K}, a = [] ∨ v = [] → convolve a v = none
  overlap : ∀ {a v : List K}, a ≠ [] → v ≠ [] → ∃ y, convolve a v = some y ∧
    y.length = max a.length v.length - min a.length v.length + 1 ∧
    ∀ k (hk : k < y.length), y[k] = coeff a v (min a.length v.length - 1 + k)

/-- Such a `convolve`. -/
def convolve (a v : List K) : Option (List K) :=
  if a.isEmpty || v.isEmpty then none
  else
    some ((List.range (max a.length v.length - min a.length v.length + 1)).map fun k ↦
      coeff a v (min a.length v.length - 1 + k))

/-- It returns what is documented. -/
theorem convolve_convolvesValid : ConvolvesValid (convolve (K := K)) where
  empty := by
    rintro a v (rfl | rfl)
    · rfl
    · rw [convolve, List.isEmpty_nil, Bool.or_true, if_pos rfl]
  overlap := by
    intro a v ha hv
    have hne : ¬ (a.isEmpty || v.isEmpty) = true := by
      rw [Bool.or_eq_true, List.isEmpty_iff, List.isEmpty_iff, not_or]
      exact ⟨ha, hv⟩
    refine ⟨_, if_neg hne, ?_, fun k hk ↦ ?_⟩
    · rw [List.length_map, List.length_range]
    · rw [List.getElem_map, List.getElem_range]

/-- With a window of equal weights, a coefficient is the weight times a sum of neighbours. -/
theorem coeff_replicate (c : K) {m n : Nat} (h : m ≤ n + 1) (v : List K) :
    coeff (List.replicate m c) v n = c * ∑ i ∈ Finset.range m, v.getD (n - i) 0 := by
  have hsub : Finset.range m ⊆ Finset.range (n + 1) := Finset.range_subset_range.mpr h
  rw [coeff, ← Finset.sum_subset hsub, Finset.mul_sum]
  · apply Finset.sum_congr rfl
    intro i hi
    rw [List.getD_replicate _ (Finset.mem_range.mp hi)]
  · intro i _ hi
    have hlength : (List.replicate m c).length ≤ i := by
      rw [List.length_replicate]
      exact Nat.not_lt.mp (mt Finset.mem_range.mpr hi)
    rw [List.getD_eq_default _ _ hlength, zero_mul]

end NetworkLab.Lib.Convolution
