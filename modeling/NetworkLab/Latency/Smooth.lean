import NetworkLab.Lib.Convolution
import NetworkLab.Lib.PySlice
import Mathlib.Algebra.Order.BigOperators.Group.Finset
import Mathlib.Data.Int.ConditionallyCompleteOrder
import Mathlib.Data.Int.Interval
import Mathlib.Data.Rat.Floor

/-!
# Smoothing of the measured series

`graph_smooth` of `lab-latency/benchmark:367–377` and of `lab-latency/systemtap-graph:69–80`, on
exact samples. The series is extended with its two mirrored ends, convolved with a window and cut
to the samples of the middle. The convolution is the one of numpy.
-/

namespace NetworkLab.Latency

open Lib PySlice Convolution

/-- The series between its mirrored ends. -/
def mirrored (x : List ℚ) (win : Nat) : List ℚ :=
  sliceDown x ((win : Int) - 1) 0 ++ x ++ sliceDown x (-1) (-(win : Int))

/-- The body that the two functions share. -/
def smooth (convolve : List ℚ → List ℚ → Option (List ℚ)) (x : List ℚ) (win : Nat)
    (centered : Bool) : Option (List ℚ) := do
  let win := if centered then win else win * 2
  let s := mirrored x win
  let w : List ℚ :=
    if centered then List.replicate win 1
    else List.replicate (win / 2) 0 ++ List.replicate (win / 2) 1
  let y ← convolve (w.map (· / w.sum)) s
  return slice y (((win : Int) - 1) / 2) (-((win : Int) - 1) / 2)

/-- `graph_smooth` of `benchmark`. -/
def Benchmark.graphSmooth (convolve : List ℚ → List ℚ → Option (List ℚ)) (x : List ℚ)
    (win : Option Nat) (centered : Option Bool) : Option (List ℚ) :=
  smooth convolve x (win.getD 4) (centered.getD true)

/-- `graph_smooth` of `systemtap-graph`. -/
def SystemtapGraph.graphSmooth (convolve : List ℚ → List ℚ → Option (List ℚ)) (x : List ℚ)
    (win : Option Nat) (centered : Option Bool) : Option (List ℚ) :=
  smooth convolve x (win.getD 6) (centered.getD true)

/-! ### The mirrored ends -/

/-- The series read past its ends: position `-k` is `k`, and with the last position `n - 1` the
position `n - 1 + k` is `n - k`. -/
def reflected (x : List ℚ) (i : Int) : ℚ :=
  if i < 0 then x.getD (-i).toNat 0
  else if i < x.length then x.getD i.toNat 0
  else x.getD (2 * x.length - 1 - i).toNat 0

/-- A position that is at most a series away is that of a sample. -/
theorem reflected_mem {x : List ℚ} {i : Int} (hlow : -(x.length : Int) < i)
    (hhigh : i < 2 * x.length) : reflected x i ∈ x := by
  have hmem (k : Nat) (hk : k < x.length) : x.getD k 0 ∈ x := by
    rw [List.getD_eq_getElem _ _ hk]
    exact List.getElem_mem hk
  unfold reflected
  split
  · exact hmem _ (by omega)
  · split <;> exact hmem _ (by omega)

private theorem place_left (n : Nat) {win : Nat} (hwin : 1 ≤ win) :
    place n ((win : Int) - 1) = (win : Int) - 1 := place_of_nonneg (by omega)

private theorem place_last (n : Nat) : place n (-1) = -1 + n := place_of_neg (by decide)

private theorem length_left (x : List ℚ) {win : Nat} (hwin : 1 ≤ win) :
    (sliceDown x ((win : Int) - 1) 0).length = min win x.length - 1 := by
  have hzero : place x.length 0 = 0 := place_of_nonneg (Int.le_refl 0)
  rw [length_sliceDown, place_left _ hwin, hzero]
  omega

private theorem length_right (x : List ℚ) {win : Nat} (hwin : 1 ≤ win) :
    (sliceDown x (-1) (-(win : Int))).length = min x.length (win - 1) := by
  have hstop : place x.length (-(win : Int)) = -win + x.length := place_of_neg (by omega)
  rw [length_sliceDown, place_last, hstop]
  omega

/-- The mirrored ends are cut to the series. -/
theorem length_mirrored (x : List ℚ) {win : Nat} (hwin : 1 ≤ win) :
    (mirrored x win).length =
      (min win x.length - 1) + x.length + min x.length (win - 1) := by
  rw [mirrored, List.length_append, List.length_append, length_left x hwin, length_right x hwin]

/-- With a window not longer than the series, the mirrored ends are those of the reflection. -/
theorem getD_mirrored {x : List ℚ} {win : Nat} (hwin : 1 ≤ win) (hle : win ≤ x.length) {k : Nat}
    (hk : k < x.length + 2 * (win - 1)) :
    (mirrored x win).getD k 0 = reflected x ((k : Int) - (win - 1 : Nat)) := by
  have hplace := place_left x.length hwin
  have hlast := place_last x.length
  have hleft := length_left x hwin
  have hright := length_right x hwin
  rw [Nat.min_eq_left hle] at hleft
  rw [Nat.min_eq_right (by omega)] at hright
  unfold mirrored reflected
  rw [List.append_assoc]
  split
  · next hneg =>
    rw [List.getD_append _ _ _ _ (by omega), List.getD_eq_getElem _ _ (by omega),
      getElem_sliceDown (a := win - 1 - k) _ (by omega) (by omega),
      List.getD_eq_getElem _ _ (by omega)]
    congr 1
    omega
  · next hneg =>
    rw [List.getD_append_right _ _ _ _ (by omega), hleft]
    split
    · next hin =>
      rw [List.getD_append _ _ _ _ (by omega)]
      congr 1
      omega
    · next hout =>
      rw [List.getD_append_right _ _ _ _ (by omega), List.getD_eq_getElem _ _ (by omega),
        getElem_sliceDown (a := x.length - 1 - (k - (win - 1) - x.length)) _ (by omega)
          (by omega), List.getD_eq_getElem _ _ (by omega)]
      congr 1
      omega

/-! ### The centered window -/

variable {convolve : List ℚ → List ℚ → Option (List ℚ)}

private theorem weights_eq (win : Nat) :
    (List.replicate win (1 : ℚ)).map (· / (List.replicate win (1 : ℚ)).sum) =
      List.replicate win (1 / win : ℚ) := by
  rw [List.map_replicate, List.sum_replicate, nsmul_one]

/-- The samples of a centered window are the middle of the convolution, as many as its length
leaves without the window. -/
theorem smooth_centered (hconv : ConvolvesValid convolve) {x : List ℚ} (hx : x ≠ []) {win : Nat}
    (hwin : 2 ≤ win) :
    ∃ out, smooth convolve x win true = some out ∧
      out.length = max win (mirrored x win).length + 1 - min win (mirrored x win).length -
        (win - 1) ∧
      ∀ p (hp : p < out.length), out[p] = coeff (List.replicate win (1 / win : ℚ)) (mirrored x win)
        (min win (mirrored x win).length - 1 + ((win - 1) / 2 + p)) := by
  have hn : 0 < x.length := List.length_pos_iff.mpr hx
  have hlength := length_mirrored x (show 1 ≤ win by omega)
  have hw : List.replicate win (1 / win : ℚ) ≠ [] := by
    rw [Ne, List.replicate_eq_nil_iff]
    omega
  have hs : mirrored x win ≠ [] := by
    apply List.length_pos_iff.mp
    omega
  obtain ⟨y, hy, hylength, hycoeff⟩ := hconv.overlap hw hs
  rw [List.length_replicate] at hylength hycoeff
  have hstart : place y.length (((win : Int) - 1) / 2) = ((win - 1) / 2 : Nat) := by
    rw [place_of_nonneg (by omega)]
    omega
  have hstop : place y.length (-((win : Int) - 1) / 2) = -((win : Int) - 1) / 2 + y.length :=
    place_of_neg (by omega)
  have hout : (slice y (((win : Int) - 1) / 2) (-((win : Int) - 1) / 2)).length =
      max win (mirrored x win).length + 1 - min win (mirrored x win).length - (win - 1) := by
    rw [length_slice, hstart, hstop, hylength]
    omega
  refine ⟨_, ?_, hout, fun p hp ↦ ?_⟩
  · rw [smooth]
    simp only [if_true, weights_eq, hy]
    rfl
  · have hlt : (win - 1) / 2 + p < y.length := by omega
    rw [getElem_slice hp hstart hlt, hycoeff]

/-- The positions of a centered window around the one at `p`. -/
noncomputable def window (win p : Nat) : Finset Int :=
  Finset.Icc ((p : Int) - ⌈((win : ℚ) - 1) / 2⌉) ((p : Int) + ⌊((win : ℚ) - 1) / 2⌋)

/-- What the smoothed series promises the plot: a sample for each time stamp, between the least
and the largest one of the series, and, if the series is as long as the window, the mean of
those around its place. -/
structure KeepsTimeAxis (x : List ℚ) (win : Nat) (out : List ℚ) : Prop where
  length_eq : out.length = x.length
  bounds : ∀ v ∈ out, ∀ lo ∈ x.min?, ∀ hi ∈ x.max?, lo ≤ v ∧ v ≤ hi
  mean : win ≤ x.length → ∀ p (hp : p < out.length),
    out[p] = (∑ i ∈ window win p, reflected x i) / win

private theorem window_eq {win : Nat} (hwin : 1 ≤ win) (p : Nat) :
    window win p =
      Finset.Icc ((p : Int) - (win / 2 : Nat)) ((p : Int) + ((win - 1) / 2 : Nat)) := by
  have hcast : ((win : ℚ) - 1) / 2 = ((win - 1 : Nat) : ℚ) / (2 : Nat) := by
    rw [Nat.cast_sub hwin, Nat.cast_one, Nat.cast_ofNat]
  have hceil : -(-((win - 1 : Nat) : Int) / (2 : Nat)) = (win / 2 : Nat) := by omega
  have hfloor : ((win - 1 : Nat) : Int) / (2 : Nat) = ((win - 1) / 2 : Nat) := by omega
  rw [window, hcast, Rat.ceil_natCast_div_natCast, Rat.floor_natCast_div_natCast, hceil, hfloor]

private theorem card_window {win : Nat} (hwin : 1 ≤ win) (p : Nat) :
    (window win p).card = win := by
  rw [window_eq hwin, Int.card_Icc]
  omega

/-- A coefficient of the window is a mean of the reflected series. -/
theorem coeff_mirrored {x : List ℚ} {win : Nat} (hwin : 1 ≤ win) (hle : win ≤ x.length) {p : Nat}
    (hp : p < x.length) :
    coeff (List.replicate win (1 / win : ℚ)) (mirrored x win) (win - 1 + ((win - 1) / 2 + p)) =
      (∑ i ∈ window win p, reflected x i) / win := by
  rw [coeff_replicate _ (by omega), one_div_mul_eq_div, window_eq hwin]
  congr 1
  -- the convolution reads the window backwards, from its last position to its first
  refine Finset.sum_nbij' (fun i ↦ (p : Int) + ((win - 1) / 2 : Nat) - i)
    (fun z ↦ ((p : Int) + ((win - 1) / 2 : Nat) - z).toNat) ?_ ?_ ?_ ?_ ?_
  · intro i hi
    rw [Finset.mem_range] at hi
    rw [Finset.mem_Icc]
    omega
  · intro z hz
    rw [Finset.mem_Icc] at hz
    rw [Finset.mem_range]
    omega
  · intro i _
    omega
  · intro z hz
    rw [Finset.mem_Icc] at hz
    omega
  · intro i hi
    rw [Finset.mem_range] at hi
    rw [getD_mirrored hwin hle (by omega)]
    congr 1
    omega

/-- A mean of samples is between the bounds of the samples. -/
theorem mean_bounds {x : List ℚ} {win : Nat} (hwin : 1 ≤ win) (hle : win ≤ x.length) {p : Nat}
    (hp : p < x.length) {lo hi : ℚ} (hlo : ∀ a ∈ x, lo ≤ a) (hhi : ∀ a ∈ x, a ≤ hi) :
    lo ≤ (∑ i ∈ window win p, reflected x i) / win ∧
      (∑ i ∈ window win p, reflected x i) / win ≤ hi := by
  have hmem (i : Int) (hi : i ∈ window win p) : reflected x i ∈ x := by
    rw [window_eq hwin, Finset.mem_Icc] at hi
    exact reflected_mem (by omega) (by omega)
  have hpos : (0 : ℚ) < win := Nat.cast_pos.mpr hwin
  have hlow := Finset.card_nsmul_le_sum _ _ lo fun i hi ↦ hlo _ (hmem i hi)
  have hhigh := Finset.sum_le_card_nsmul _ _ hi fun i hi ↦ hhi _ (hmem i hi)
  rw [card_window hwin, nsmul_eq_mul, mul_comm] at hlow hhigh
  exact ⟨(le_div_iff₀ hpos).mpr hlow, (div_le_iff₀ hpos).mpr hhigh⟩

/-- The smoothed series keeps the time axis exactly when the series is as long as the window. -/
theorem smooth_keepsTimeAxis_iff (hconv : ConvolvesValid convolve) {x : List ℚ} (hx : x ≠ [])
    {win : Nat} (hwin : 2 ≤ win) :
    (∃ out, smooth convolve x win true = some out ∧ KeepsTimeAxis x win out) ↔
      win ≤ x.length := by
  have hn : 0 < x.length := List.length_pos_iff.mpr hx
  have hone : 1 ≤ win := by omega
  have hlength := length_mirrored x hone
  obtain ⟨out, hsmooth, hout, hcoeff⟩ := smooth_centered hconv hx hwin
  constructor
  · rintro ⟨out', hsmooth', hkeeps⟩
    obtain rfl : out = out' := Option.some.inj (hsmooth.symm.trans hsmooth')
    have hsame := hkeeps.length_eq
    -- a short series gives `3 * n + 1 - 2 * win` samples or none
    omega
  · intro hle
    have hsame : out.length = x.length := by omega
    have hmean (p : Nat) (hp : p < out.length) :
        out[p] = (∑ i ∈ window win p, reflected x i) / win := by
      have hmin : min win (mirrored x win).length = win := by omega
      rw [hcoeff p hp, hmin, coeff_mirrored hone hle (by omega)]
    refine ⟨out, hsmooth, hsame, ?_, fun _ ↦ hmean⟩
    intro v hv lo hlo hi hhi
    obtain ⟨p, hp, rfl⟩ := List.getElem_of_mem hv
    rw [hmean p hp]
    exact mean_bounds hone hle (by omega) (List.min?_eq_some_iff.mp hlo).2
      (List.max?_eq_some_iff.mp hhi).2

/-- Over a window of two samples or more, each of the two functions gives the plot a series of its
length, within its bounds and of the means around each position, exactly when the series has at
least as many samples as the window. -/
theorem graphSmooth_keepsTimeAxis_iff (convolve : List ℚ → List ℚ → Option (List ℚ))
    (hconv : ConvolvesValid convolve) (x : List ℚ) (hx : x ≠ []) (win : Nat) (hwin : 2 ≤ win) :
    ((∃ out, Benchmark.graphSmooth convolve x (some win) (some true) = some out ∧
        KeepsTimeAxis x win out) ↔ win ≤ x.length) ∧
      ((∃ out, SystemtapGraph.graphSmooth convolve x (some win) (some true) = some out ∧
        KeepsTimeAxis x win out) ↔ win ≤ x.length) :=
  ⟨smooth_keepsTimeAxis_iff hconv hx hwin, smooth_keepsTimeAxis_iff hconv hx hwin⟩

/-- Six samples keep their time axis with windows of four and of three. -/
theorem graphSmooth_keepsTimeAxis_six :
    (∃ out, Benchmark.graphSmooth Convolution.convolve [3, 5, 4, 9, 2, 6] (some 4) (some true) =
        some out ∧ KeepsTimeAxis [3, 5, 4, 9, 2, 6] 4 out) ∧
      ∃ out, SystemtapGraph.graphSmooth Convolution.convolve [3, 5, 4, 9, 2, 6] (some 3)
        (some true) = some out ∧ KeepsTimeAxis [3, 5, 4, 9, 2, 6] 3 out :=
  ⟨(graphSmooth_keepsTimeAxis_iff Convolution.convolve convolve_convolvesValid [3, 5, 4, 9, 2, 6]
      (List.cons_ne_nil _ _) 4 (by decide)).1.mpr (by decide),
    (graphSmooth_keepsTimeAxis_iff Convolution.convolve convolve_convolvesValid [3, 5, 4, 9, 2, 6]
      (List.cons_ne_nil _ _) 3 (by decide)).2.mpr (by decide)⟩

/-- Nothing is left of a single sample with the window of the plot. -/
theorem graphSmooth_single :
    ¬ ∃ out, Benchmark.graphSmooth Convolution.convolve [5] (some 4) (some true) = some out ∧
      KeepsTimeAxis [5] 4 out := by
  have hout : Benchmark.graphSmooth Convolution.convolve [5] (some 4) (some true) = some [] := rfl
  rintro ⟨out, hok, hkeeps⟩
  rw [hout] at hok
  obtain rfl := Option.some.inj hok
  exact absurd hkeeps.length_eq (by decide)

end NetworkLab.Latency
