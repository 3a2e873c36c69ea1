import Mathlib.Data.List.Basic

/-!
# Slices as Python takes them

A bound counts from the end when it is negative, and one that is still outside of the sequence
is moved to the nearest end of it: a slice never fails, it comes out shorter.
-/

namespace NetworkLab.Lib.PySlice

variable {α : Type*}

/-- The place of a bound in a sequence of `n` elements; it may be outside of the sequence. -/
def place (n : Nat) (i : Int) : Int := if i < 0 then i + n else i

/-- A bound that is not negative is a place. -/
theorem place_of_nonneg {n : Nat} {i : Int} (h : 0 ≤ i) : place n i = i := if_neg (by omega)

/-- A negative bound counts from the end. -/
theorem place_of_neg {n : Nat} {i : Int} (h : i < 0) : place n i = i + n := if_pos h

/-- `xs[start:stop]`. -/
def slice (xs : List α) (start stop : Int) : List α :=
  (xs.take (place xs.length stop).toNat).drop (place xs.length start).toNat

/-- `xs[start:stop:-1]`: from `start` down to the element after `stop`. -/
def sliceDown (xs : List α) (start stop : Int) : List α :=
  ((xs.take (place xs.length start + 1).toNat).drop (place xs.length stop + 1).toNat).reverse

/-- A slice has the elements between its bounds, cut to the sequence. -/
theorem length_slice (xs : List α) (start stop : Int) :
    (slice xs start stop).length =
      min (place xs.length stop).toNat xs.length - (place xs.length start).toNat := by
  rw [slice, List.length_drop, List.length_take]

/-- So has a slice that goes down. -/
theorem length_sliceDown (xs : List α) (start stop : Int) :
    (sliceDown xs start stop).length =
      min (place xs.length start + 1).toNat xs.length - (place xs.length stop + 1).toNat := by
  rw [sliceDown, List.length_reverse, List.length_drop, List.length_take]

/-- Element `k` is the one that many places after `start`. -/
theorem getElem_slice {xs : List α} {start stop : Int} {k a : Nat}
    (hk : k < (slice xs start stop).length) (hstart : place xs.length start = a)
    (ha : a + k < xs.length) : (slice xs start stop)[k] = xs[a + k] := by
  simp only [slice, List.getElem_drop, List.getElem_take, hstart, Int.toNat_natCast]

/-- Element `k` is the one that many places before `start`, or before the end of the sequence
if `start` is past it. -/
theorem getElem_sliceDown {xs : List α} {start stop : Int} {k a : Nat}
    (hk : k < (sliceDown xs start stop).length)
    (ha : min (place xs.length start + 1).toNat xs.length = a + k + 1) (hlt : a < xs.length) :
    (sliceDown xs start stop)[k] = xs[a] := by
  have hlength := length_sliceDown xs start stop
  simp only [sliceDown, List.getElem_reverse, List.getElem_drop, List.getElem_take,
    List.length_drop, List.length_take]
  congr 1
  omega

end NetworkLab.Lib.PySlice
