import NetworkLab.Lib.Rank
import Mathlib.Data.UInt

/-!
# Percentiles of the recorded cycles

`percentile` and `mad` are the same in `lab-routes-ipv4/2026/kbench_mod.c:91–123` and
`lab-routes-ipv6/2026/kbench_mod.c:83–115`. A read outside the array that a function is
given is an error that names the position. The array that `mad` allocates is granted.
-/

namespace NetworkLab.Kbench

open NetworkLab.Lib

/-- A read outside an array, with its position. -/
structure OutOfBounds where
  position : Int
  deriving DecidableEq, Repr

/-- The element in a position of an array. -/
def readAt (a : List UInt64) (position : Int) : Except OutOfBounds UInt64 :=
  if position < 0 then .error ⟨position⟩
  else match a[position.toNat]? with
    | some v => .ok v
    | none => .error ⟨position⟩

/-- `p * count`, in which `p` becomes unsigned. -/
def scaledRank (p : Int32) (count : UInt32) : UInt32 := p.toUInt32 * count

/-- `percentile`. -/
def percentile (p : Int32) (sorted : List UInt64) (count : UInt32) :
    Except OutOfBounds UInt64 :=
  let index := (scaledRank p count / 100).toInt32
  if scaledRank p count % 100 = 0 then readAt sorted index.toInt
  else do
    let low ← readAt sorted index.toInt
    let high ← readAt sorted (index + 1).toInt
    return (low + high) / 2

/-- The distance of a sample from the median. -/
def deviation (median v : UInt64) : UInt64 := if median < v then v - median else median - v

/-- The loop of `mad` that fills the first elements of `dmedian`. -/
def deviations (sorted : List UInt64) (median : UInt64) : Nat → Except OutOfBounds (List UInt64)
  | 0 => .ok []
  | i + 1 => do
    let dmedian ← deviations sorted median i
    let v ← readAt sorted i
    return dmedian ++ [deviation median v]

/-- The kernel's `sort` of an array by `compare`. -/
def sort (a : List UInt64) : List UInt64 := a.mergeSort (· ≤ ·)

/-- `mad`. -/
def mad (sorted : List UInt64) (median : UInt64) (count : UInt32) :
    Except OutOfBounds UInt64 := do
  let dmedian ← deviations sorted median count.toNat
  percentile 50 (sort dmedian) count

/-- The order statistics that `do_bench` prints. -/
structure OrderStatistics where
  p95 : UInt64
  p90 : UInt64
  p50 : UInt64
  mad : UInt64

/-- The calls of `do_bench`, `lab-routes-ipv4/2026/kbench_mod.c:149–169` and
`lab-routes-ipv6/2026/kbench_mod.c:396–415`. The `unsigned long` total loses its upper half. -/
def orderStatistics (results : List UInt64) (total : UInt64) :
    Except OutOfBounds OrderStatistics := do
  let results := sort results
  let p95 ← percentile 95 results total.toUInt32
  let p90 ← percentile 90 results total.toUInt32
  let p50 ← percentile 50 results total.toUInt32
  let mad ← mad results p50 total.toUInt32
  return { p95, p90, p50, mad }

/-! ### Positions -/

/-- A read in a position counted from the start. -/
theorem readAt_ofNat (a : List UInt64) (k : Nat) :
    readAt a k = if h : k < a.length then .ok a[k] else .error ⟨k⟩ := by
  have hk : ¬ (k : Int) < 0 := by omega
  rw [readAt, if_neg hk, Int.toNat_natCast]
  split
  · next v h =>
    obtain ⟨hlt, rfl⟩ := List.getElem?_eq_some_iff.mp h
    rw [dif_pos hlt]
  · next h =>
    rw [dif_neg (by simpa using h)]

/-- The product of a percentage and a count that an allocation bounds does not wrap. -/
theorem toNat_scaledRank {p : Int32} {count : UInt32} (h0 : 0 ≤ p) (h100 : p.toNatClampNeg < 100)
    (hc : count.toNat ≤ 2 ^ 25) :
    (scaledRank p count).toNat = p.toNatClampNeg * count.toNat := by
  have hm : p.toNatClampNeg * count.toNat ≤ 100 * 2 ^ 25 := Nat.mul_le_mul h100.le hc
  rw [scaledRank, UInt32.toNat_mul, Int32.toNat_toUInt32_of_le h0, Nat.mod_eq_of_lt]
  omega

private theorem toInt_toInt32 (x : UInt32) (h : x.toNat < 2 ^ 31) :
    x.toInt32.toInt = (x.toNat : Int) := by
  have hb : 2 * x.toBitVec.toNat < 2 ^ 32 := by
    change 2 * x.toNat < 2 ^ 32
    omega
  change x.toBitVec.toInt = (x.toBitVec.toNat : Int)
  exact BitVec.toInt_eq_toNat_of_lt hb

theorem toInt_index (x : UInt32) :
    (x / 100).toInt32.toInt = ((x.toNat / 100 : Nat) : Int) := by
  have hx := x.toNat_lt
  have hq : (x / 100).toNat = x.toNat / 100 := UInt32.toNat_div x 100
  rw [toInt_toInt32, hq]
  omega

theorem toInt_index_add_one (x : UInt32) :
    ((x / 100).toInt32 + 1).toInt = ((x.toNat / 100 + 1 : Nat) : Int) := by
  have hx := x.toNat_lt
  have hq : (x / 100 + 1).toNat = x.toNat / 100 + 1 := by
    rw [UInt32.toNat_add, UInt32.toNat_div]
    change (x.toNat / 100 + 1) % 2 ^ 32 = x.toNat / 100 + 1
    omega
  change (x / 100 + 1).toInt32.toInt = _
  rw [toInt_toInt32, hq]
  omega

/-- `p * count` as a number: a hundred times the place of the percentile in the samples. -/
def scaledPlace (p : Int32) (count : UInt32) : Nat := p.toNatClampNeg * count.toNat

/-- `percentile` on numbers: the element in the place of the percentile where that is a
whole number, and the mean of the two elements from there on elsewhere. -/
theorem percentile_eq {p : Int32} {count : UInt32} (sorted : List UInt64) (h0 : 0 ≤ p)
    (h100 : p.toNatClampNeg < 100) (hc : count.toNat ≤ 2 ^ 25) :
    percentile p sorted count =
      if scaledPlace p count % 100 = 0 then readAt sorted (scaledPlace p count / 100 : Nat)
      else do
        let low ← readAt sorted (scaledPlace p count / 100 : Nat)
        let high ← readAt sorted (scaledPlace p count / 100 + 1 : Nat)
        return (low + high) / 2 := by
  have hr : (scaledRank p count).toNat = scaledPlace p count := toNat_scaledRank h0 h100 hc
  have hz : scaledRank p count % 100 = 0 ↔ scaledPlace p count % 100 = 0 := by
    rw [← UInt32.toNat_inj, UInt32.toNat_mod, hr]
    rfl
  unfold percentile
  simp only [toInt_index, toInt_index_add_one, hr, hz]

/-! ### Reads in bounds -/

/-- A hundred percent of the samples lie below or from the place on. -/
private theorem scaledPlace_add {p : Int32} (h100 : p.toNatClampNeg < 100) (count : UInt32) :
    scaledPlace p count + (100 - p.toNatClampNeg) * count.toNat = 100 * count.toNat := by
  rw [scaledPlace, ← Nat.add_mul, Nat.add_sub_cancel' h100.le]

/-- `percentile` stays in its array exactly when at least one sample lies above the
percentile. -/
theorem percentile_ok_iff {p : Int32} {count : UInt32} {sorted : List UInt64} (h0 : 0 ≤ p)
    (h100 : p.toNatClampNeg < 100) (h1 : 1 ≤ count.toNat) (hc : count.toNat ≤ 2 ^ 25)
    (hl : sorted.length = count.toNat) :
    (∃ q, percentile p sorted count = .ok q) ↔ 100 ≤ (100 - p.toNatClampNeg) * count.toNat := by
  have hsum := scaledPlace_add h100 count
  have hpos : 0 < (100 - p.toNatClampNeg) * count.toNat := Nat.mul_pos (by omega) h1
  rw [percentile_eq sorted h0 h100 hc]
  simp only [readAt_ofNat, hl]
  split
  · next hz =>
    have hin : scaledPlace p count / 100 < count.toNat := by omega
    rw [dif_pos hin]
    constructor
    · intro _
      omega
    · intro _
      exact ⟨_, rfl⟩
  · next hz =>
    have hin : scaledPlace p count / 100 < count.toNat := by omega
    rw [dif_pos hin]
    by_cases hnext : scaledPlace p count / 100 + 1 < count.toNat
    · rw [dif_pos hnext]
      constructor
      · intro _
        omega
      · intro _
        exact ⟨_, rfl⟩
    · rw [dif_neg hnext]
      constructor
      · rintro ⟨q, hq⟩
        cases hq
      · intro _
        omega

/-! ### Deviations -/

theorem deviations_eq (sorted : List UInt64) (median : UInt64) {n : Nat} (h : n ≤ sorted.length) :
    deviations sorted median n = .ok ((sorted.take n).map (deviation median)) := by
  induction n with
  | zero => rfl
  | succ n ih =>
    have hn : n < sorted.length := h
    rw [deviations, ih hn.le, readAt_ofNat, dif_pos hn, List.take_add_one,
      List.getElem?_eq_getElem hn, List.map_append]
    rfl

/-- Sorting moves the elements only. -/
theorem sort_perm (a : List UInt64) : (sort a).Perm a := List.mergeSort_perm a _

/-- The elements of a sorted array ascend. -/
theorem sort_pairwise (a : List UInt64) : (sort a).Pairwise (· ≤ ·) := by
  have htrans : ∀ a b c : UInt64, decide (a ≤ b) = true → decide (b ≤ c) = true →
      decide (a ≤ c) = true :=
    fun a b c hab hbc ↦ decide_eq_true (UInt64.le_trans (of_decide_eq_true hab)
      (of_decide_eq_true hbc))
  have htotal : ∀ a b : UInt64, (decide (a ≤ b) || decide (b ≤ a)) = true := by
    intro a b
    rcases UInt64.le_total a b with h | h <;> simp [h]
  exact (List.pairwise_mergeSort htrans htotal a).imp of_decide_eq_true

@[simp] theorem length_sort (a : List UInt64) : (sort a).length = a.length :=
  (sort_perm a).length_eq

/-- `mad` on a whole array is the percentile of the sorted distances. -/
theorem mad_eq {sorted : List UInt64} {count : UInt32} (median : UInt64)
    (hl : sorted.length = count.toNat) :
    mad sorted median count = percentile 50 (sort (sorted.map (deviation median))) count := by
  rw [mad, deviations_eq sorted median hl.ge, List.take_of_length_le hl.le]
  rfl

/-- Two samples are never further apart than the larger of them. -/
theorem toNat_deviation_lt {median v : UInt64} {bound : Nat} (hm : median.toNat < bound)
    (hv : v.toNat < bound) : (deviation median v).toNat < bound := by
  unfold deviation
  split
  · next h =>
    rw [UInt64.toNat_sub_of_le _ _ (UInt64.le_of_lt h)]
    omega
  · next h =>
    rw [UInt64.toNat_sub_of_le _ _ (UInt64.not_lt.mp h)]
    omega

/-- `percentile` reads positions of its array only, and its product does not wrap. -/
structure WithinArray (p : Int32) (sorted : List UInt64) (count : UInt32) : Prop where
  reads : ∃ q, percentile p sorted count = .ok q
  product : (scaledRank p count).toNat = p.toNatClampNeg * count.toNat

private theorem withinArray_iff {p : Int32} {count : UInt32} {sorted : List UInt64} (h0 : 0 ≤ p)
    (h100 : p.toNatClampNeg < 100) (h1 : 1 ≤ count.toNat) (hc : count.toNat ≤ 2 ^ 25)
    (hl : sorted.length = count.toNat) :
    WithinArray p sorted count ↔ 100 ≤ (100 - p.toNatClampNeg) * count.toNat := by
  rw [← percentile_ok_iff h0 h100 h1 hc hl]
  constructor
  · exact WithinArray.reads
  · intro h
    exact ⟨h, toNat_scaledRank h0 h100 hc⟩

private theorem mad_ok_iff {count : UInt32} {sorted : List UInt64} (median : UInt64)
    (h1 : 1 ≤ count.toNat) (hc : count.toNat ≤ 2 ^ 25) (hl : sorted.length = count.toNat) :
    (∃ q, mad sorted median count = .ok q) ↔ 2 ≤ count.toNat := by
  have hlen : (sort (sorted.map (deviation median))).length = count.toNat := by
    rw [length_sort, List.length_map, hl]
  rw [mad_eq median hl, percentile_ok_iff (p := 50) (by decide) (by decide) h1 hc hlen]
  change 100 ≤ (100 - 50) * count.toNat ↔ 2 ≤ count.toNat
  omega

private theorem orderStatistics_ok_iff {count : UInt32} {results : List UInt64} {total : UInt64}
    (htotal : total.toUInt32 = count) (h1 : 1 ≤ count.toNat) (hc : count.toNat ≤ 2 ^ 25)
    (hl : results.length = count.toNat) :
    (∃ s, orderStatistics results total = .ok s) ↔ 20 ≤ count.toNat := by
  have hlen : (sort results).length = count.toNat := by rw [length_sort, hl]
  have h95 := percentile_ok_iff (p := 95) (by decide) (by decide) h1 hc hlen
  have h90 := percentile_ok_iff (p := 90) (by decide) (by decide) h1 hc hlen
  have h50 := percentile_ok_iff (p := 50) (by decide) (by decide) h1 hc hlen
  unfold orderStatistics
  rw [htotal]
  constructor
  · rintro ⟨s, hs⟩
    cases hq : percentile 95 (sort results) count with
    | error e =>
      dsimp only at hs
      rw [hq] at hs
      cases hs
    | ok q =>
      have hn : 100 ≤ (100 - 95) * count.toNat := h95.mp ⟨q, hq⟩
      omega
  · intro h20
    obtain ⟨p95, h95⟩ := h95.mpr (by change 100 ≤ (100 - 95) * count.toNat; omega)
    obtain ⟨p90, h90⟩ := h90.mpr (by change 100 ≤ (100 - 90) * count.toNat; omega)
    obtain ⟨p50, h50⟩ := h50.mpr (by change 100 ≤ (100 - 50) * count.toNat; omega)
    obtain ⟨m, hm⟩ := (mad_ok_iff p50 h1 hc hlen).mpr (by omega)
    refine ⟨⟨p95, p90, p50, m⟩, ?_⟩
    simp only [h95, h90, h50, hm, bind, Except.bind, pure, Except.pure]

/-- For the percentages that `do_bench` prints and every total that an allocation allows,
`percentile` stays within its array exactly when a whole sample lies above the percentile:
from 2, 10 and 20 samples on. So does `mad` from 2 samples on, and the statistics as a
whole from 20 on. -/
theorem percentile_withinArray_iff (total : UInt64) (h1 : 1 ≤ total.toNat)
    (hc : total.toNat ≤ 2 ^ 25) (results : List UInt64) (hl : results.length = total.toNat) :
    (∀ p ∈ [(50 : Int32), 90, 95],
      WithinArray p results total.toUInt32 ↔ 100 ≤ (100 - p.toNatClampNeg) * total.toNat) ∧
    (∀ median, (∃ q, mad results median total.toUInt32 = .ok q) ↔ 2 ≤ total.toNat) ∧
    ((∃ s, orderStatistics results total = .ok s) ↔ 20 ≤ total.toNat) := by
  have hcount : total.toUInt32.toNat = total.toNat := by
    rw [UInt64.toNat_toUInt32, Nat.mod_eq_of_lt]
    omega
  rw [← hcount] at h1 hc hl ⊢
  refine ⟨?_, fun median ↦ mad_ok_iff median h1 hc hl, orderStatistics_ok_iff rfl h1 hc hl⟩
  intro p hp
  have hrange : 0 ≤ p ∧ p.toNatClampNeg < 100 := by
    simp only [List.mem_cons, List.not_mem_nil, or_false] at hp
    rcases hp with rfl | rfl | rfl <;> decide
  exact withinArray_iff hrange.1 hrange.2 h1 hc hl

/-- Twenty samples are enough for every statistic. -/
theorem twenty_samples_withinArray :
    (∀ p ∈ [(50 : Int32), 90, 95],
      WithinArray p (List.replicate 20 7) (20 : UInt64).toUInt32 ↔
        100 ≤ (100 - p.toNatClampNeg) * (20 : UInt64).toNat) ∧
    (∀ median, (∃ q, mad (List.replicate 20 7) median (20 : UInt64).toUInt32 = .ok q) ↔
      2 ≤ (20 : UInt64).toNat) ∧
    ((∃ s, orderStatistics (List.replicate 20 7) 20 = .ok s) ↔ 20 ≤ (20 : UInt64).toNat) :=
  percentile_withinArray_iff 20 (by decide) (by decide) (List.replicate 20 7) rfl

/-- With a single sample, the median is read from the position after it. -/
theorem one_sample_reads_outside :
    percentile 50 [7] (1 : UInt64).toUInt32 = .error ⟨1⟩ ∧
    ¬ WithinArray 50 [7] (1 : UInt64).toUInt32 := by
  have hread : percentile 50 [7] (1 : UInt64).toUInt32 = .error ⟨1⟩ := by decide
  refine ⟨hread, ?_⟩
  rintro ⟨⟨q, hq⟩, _⟩
  rw [hread] at hq
  cases hq

/-! ### Percentiles -/

/-- At least `p` percent of the samples are at most `q` and the other percent are at
least `q`. -/
structure IsPercentile (p : Nat) (samples : List UInt64) (q : UInt64) : Prop where
  below : p * samples.length ≤ 100 * samples.countP (· ≤ q)
  above : (100 - p) * samples.length ≤ 100 * samples.countP (q ≤ ·)

/-- The place of the percentile is a whole number, or the sample there and the next one are
equal or one apart. -/
def MeanIsLow (p : Nat) (sorted : List UInt64) : Prop :=
  p * sorted.length % 100 = 0 ∨
    ∃ low high, sorted[p * sorted.length / 100]? = some low ∧
      sorted[p * sorted.length / 100 + 1]? = some high ∧ high.toNat ≤ low.toNat + 1

/-- The order of the samples does not matter. -/
theorem IsPercentile.perm {p : Nat} {xs ys : List UInt64} (h : xs.Perm ys) (q : UInt64) :
    IsPercentile p xs q ↔ IsPercentile p ys q := by
  constructor
  · rintro ⟨hbelow, habove⟩
    exact ⟨by rwa [← h.length_eq, ← h.countP_eq], by rwa [← h.length_eq, ← h.countP_eq]⟩
  · rintro ⟨hbelow, habove⟩
    exact ⟨by rwa [h.length_eq, h.countP_eq], by rwa [h.length_eq, h.countP_eq]⟩

/-- A value is the percentile exactly when it lies between the samples at the place: from
the one before a whole place, or from the one at a broken place, up to the one at the place. -/
theorem isPercentile_iff {p : Nat} (hp : p < 100) {sorted : List UInt64}
    (hs : sorted.Pairwise (· ≤ ·)) (hk : p * sorted.length / 100 < sorted.length) (q : UInt64) :
    IsPercentile p sorted q ↔
      (if p * sorted.length % 100 = 0 then
        p * sorted.length / 100 = 0 ∨ sorted[p * sorted.length / 100 - 1] ≤ q
      else sorted[p * sorted.length / 100] ≤ q) ∧ q ≤ sorted[p * sorted.length / 100] := by
  have hsum : p * sorted.length + (100 - p) * sorted.length = 100 * sorted.length := by
    rw [← Nat.add_mul, Nat.add_sub_cancel' hp.le]
  have habove : (100 - p) * sorted.length ≤ 100 * sorted.countP (q ≤ ·) ↔
      q ≤ sorted[p * sorted.length / 100] := by
    rw [← Rank.le_countP_ge_iff hs q hk]
    omega
  have hbelow : p * sorted.length ≤ 100 * sorted.countP (· ≤ q) ↔
      if p * sorted.length % 100 = 0 then
        p * sorted.length / 100 = 0 ∨ sorted[p * sorted.length / 100 - 1] ≤ q
      else sorted[p * sorted.length / 100] ≤ q := by
    rw [← Rank.lt_countP_le_iff hs q hk, ← Rank.lt_countP_le_iff hs q (by omega)]
    split <;> omega
  rw [← habove, ← hbelow]
  constructor
  · rintro ⟨h, h'⟩
    exact ⟨h, h'⟩
  · rintro ⟨h, h'⟩
    exact ⟨h, h'⟩

private theorem toNat_mean {a b : UInt64} (ha : a.toNat < 2 ^ 63) (hb : b.toNat < 2 ^ 63) :
    ((a + b) / 2).toNat = (a.toNat + b.toNat) / 2 := by
  rw [UInt64.toNat_div, UInt64.toNat_add, Nat.mod_eq_of_lt (by omega)]
  rfl

/-- What `percentile` returns is the percentile exactly when the mean of the samples that it
takes at a broken place is the lower of them. -/
theorem percentile_eq_ok_iff {p : Int32} {count : UInt32} {sorted : List UInt64} (h0 : 0 ≤ p)
    (h95 : p.toNatClampNeg ≤ 95) (h20 : 20 ≤ count.toNat) (hc : count.toNat ≤ 2 ^ 25)
    (hl : sorted.length = count.toNat) (hs : sorted.Pairwise (· ≤ ·))
    (hv : ∀ v ∈ sorted, v.toNat < 2 ^ 63) :
    (∃ q, percentile p sorted count = .ok q ∧ IsPercentile p.toNatClampNeg sorted q) ↔
      MeanIsLow p.toNatClampNeg sorted := by
  have hp : p.toNatClampNeg < 100 := by omega
  have hsum := scaledPlace_add hp count
  have hge : (100 - 95) * count.toNat ≤ (100 - p.toNatClampNeg) * count.toNat :=
    Nat.mul_le_mul_right _ (by omega)
  have hk : scaledPlace p count / 100 < sorted.length := by omega
  have hplace : p.toNatClampNeg * sorted.length = scaledPlace p count := by
    rw [hl, scaledPlace]
  have hiff := isPercentile_iff hp hs
  rw [percentile_eq sorted h0 hp hc]
  unfold MeanIsLow
  simp only [hplace] at hiff ⊢
  simp only [readAt_ofNat, dif_pos hk]
  split
  · next hz =>
    -- At a whole place the sample there is returned.
    have hbefore : scaledPlace p count / 100 = 0 ∨
        sorted[scaledPlace p count / 100 - 1] ≤ sorted[scaledPlace p count / 100] := by
      by_cases hzero : scaledPlace p count / 100 = 0
      · exact Or.inl hzero
      · exact Or.inr (List.pairwise_iff_getElem.mp hs _ _ _ _ (by omega))
    have hq : IsPercentile p.toNatClampNeg sorted sorted[scaledPlace p count / 100] := by
      rw [hiff hk, if_pos hz]
      exact ⟨hbefore, UInt64.le_refl _⟩
    simp [hz, hq]
  · next hz =>
    -- At a broken place the mean is returned, and the sample there is the percentile.
    have hnext : scaledPlace p count / 100 + 1 < sorted.length := by omega
    have hlow := hv _ (List.getElem_mem hk)
    have hhigh := hv _ (List.getElem_mem hnext)
    have hle : sorted[scaledPlace p count / 100].toNat ≤
        sorted[scaledPlace p count / 100 + 1].toNat :=
      List.pairwise_iff_getElem.mp hs _ _ _ _ (Nat.lt_succ_self _)
    have hmean := toNat_mean hlow hhigh
    have hq := hiff hk ((sorted[scaledPlace p count / 100] +
      sorted[scaledPlace p count / 100 + 1]) / 2)
    rw [if_neg hz, UInt64.le_iff_toNat_le, UInt64.le_iff_toNat_le, hmean] at hq
    rw [dif_pos hnext]
    constructor
    · rintro ⟨q, hret, hpercentile⟩
      cases hret
      obtain ⟨_, habove⟩ := hq.mp hpercentile
      refine Or.inr ⟨_, _, List.getElem?_eq_getElem hk, List.getElem?_eq_getElem hnext, ?_⟩
      omega
    · rintro (hwhole | ⟨low, high, hl', hh', hgap⟩)
      · exact absurd hwhole hz
      · rw [List.getElem?_eq_getElem hk, Option.some.injEq] at hl'
        rw [List.getElem?_eq_getElem hnext, Option.some.injEq] at hh'
        subst hl' hh'
        exact ⟨_, rfl, hq.mpr (by omega)⟩

/-- From 20 samples on, what `percentile` returns is the percentile of the samples, and what
`mad` returns the median of the distances, exactly when the mean that is taken at a broken
place is the lower of its two samples. -/
theorem percentile_isPercentile_iff (count : UInt32) (h20 : 20 ≤ count.toNat)
    (hc : count.toNat ≤ 2 ^ 25) (sorted : List UInt64) (hl : sorted.length = count.toNat)
    (hs : sorted.Pairwise (· ≤ ·)) (hv : ∀ v ∈ sorted, v.toNat < 2 ^ 63) :
    (∀ p : Int32, 1 ≤ p → p ≤ 95 →
      ((∃ q, percentile p sorted count = .ok q ∧ IsPercentile p.toNatClampNeg sorted q) ↔
        MeanIsLow p.toNatClampNeg sorted)) ∧
    (∀ median : UInt64, median.toNat < 2 ^ 63 →
      ((∃ q, mad sorted median count = .ok q ∧
        IsPercentile 50 (sorted.map (deviation median)) q) ↔
        MeanIsLow 50 (sort (sorted.map (deviation median))))) := by
  constructor
  · intro p h1 h95
    have hp : p.toNatClampNeg ≤ 95 := Int32.toNatClampNeg_le h95
    exact percentile_eq_ok_iff (Int32.le_trans (by decide) h1) hp h20 hc hl hs hv
  · intro median hm
    have hlen : (sort (sorted.map (deviation median))).length = count.toNat := by
      rw [length_sort, List.length_map, hl]
    have hdev : ∀ v ∈ sort (sorted.map (deviation median)), v.toNat < 2 ^ 63 := by
      intro v hmem
      rw [(sort_perm _).mem_iff, List.mem_map] at hmem
      obtain ⟨w, hw, rfl⟩ := hmem
      exact toNat_deviation_lt hm (hv w hw)
    have hiff := percentile_eq_ok_iff (p := 50) (by decide) (by decide) h20 hc hlen
      (sort_pairwise _) hdev
    rw [mad_eq median hl]
    simp only [IsPercentile.perm (sort_perm _)] at hiff
    exact hiff

/-- Twenty equal samples. -/
def equalSamples : List UInt64 := List.replicate 20 7

/-- The percentiles of twenty equal samples, and the medians of their distances. -/
theorem equalSamples_isPercentile :
    (∀ p : Int32, 1 ≤ p → p ≤ 95 →
      ((∃ q, percentile p equalSamples 20 = .ok q ∧
        IsPercentile p.toNatClampNeg equalSamples q) ↔
        MeanIsLow p.toNatClampNeg equalSamples)) ∧
    (∀ median : UInt64, median.toNat < 2 ^ 63 →
      ((∃ q, mad equalSamples median 20 = .ok q ∧
        IsPercentile 50 (equalSamples.map (deviation median)) q) ↔
        MeanIsLow 50 (sort (equalSamples.map (deviation median))))) :=
  percentile_isPercentile_iff 20 (by decide) (by decide) equalSamples rfl (by decide) (by
    intro v hv
    rw [List.eq_of_mem_replicate hv]
    change 7 < 2 ^ 63
    omega)

/-- Eleven samples of 0 and ten of 10. -/
def splitSamples : List UInt64 := List.replicate 11 0 ++ List.replicate 10 10

/-- The median of eleven samples of 0 and ten of 10 comes out as 5, which fewer than half
of the samples reach. -/
theorem splitSamples_not_isPercentile :
    splitSamples.Pairwise (· ≤ ·) ∧ percentile 50 splitSamples 21 = .ok 5 ∧
      ¬ IsPercentile 50 splitSamples 5 := by
  refine ⟨by decide, by decide, ?_⟩
  rintro ⟨_, habove⟩
  revert habove
  decide

end NetworkLab.Kbench
