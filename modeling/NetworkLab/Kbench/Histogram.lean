import NetworkLab.Lib.Loop
import NetworkLab.Lib.Rank
import NetworkLab.Lib.Unsigned
import NetworkLab.Lib.Utf8

/-!
# The histogram of the samples

The verbose part of `display_statistics`, `lab-routes-ipv4/2026/kbench_mod.c:170–215`, which
is also that of `do_bench`, `lab-routes-ipv6/2026/kbench_mod.c:429–474`. A row for each
interval of width `share` tells how many samples are in it, in a bar next to the bar of
those below it. The two modules differ in the count they print. The samples are any numbers of
64 bits, so the bounds of the intervals may wrap; those of samples below `2 ^ 32` do not.
-/

namespace NetworkLab.Kbench.Histogram

open Lib

/-- `HIST_BUCKETS`. -/
def histBuckets : UInt64 := 15

/-- `HIST_WIDTH`. -/
def histWidth : UInt64 := 50

/-- `PAGE_SIZE`. -/
def pageSize : Nat := 4096

/-- The sorted array `results` with its `total` samples. An object of the 57-bit address
space of x86-64 has less than `2 ^ 57` bytes. -/
structure Results where
  results : List UInt64
  nonempty : results ≠ []
  sorted : results.Pairwise (· ≤ ·)
  inMemory : 8 * results.length < 2 ^ 57

namespace Results

/-- The smallest sample, `results[0]`. -/
def first (v : Results) : UInt64 := v.results.head v.nonempty

/-- The largest sample, `results[total - 1]`. -/
def last (v : Results) : UInt64 := v.results.getLast v.nonempty

/-- `total`. -/
def total (v : Results) : UInt64 := UInt64.ofNat v.results.length

/-- `results[i]`, which the source reads below `total` only. -/
def result (v : Results) (i : UInt64) : UInt64 := v.results.getD i.toNat 0

end Results

/-- Samples below `2 ^ 32`. -/
structure Samples extends Results where
  small : ∀ x ∈ results, x.toNat < 2 ^ 32

instance : Coe Samples Results := ⟨Samples.toResults⟩

/-! ### The page -/

/-- `scnprintf` at the end of the text so far: what does not fit the page is cut off. -/
def scnprintf (histBuf : List UInt8) (text : String) : List UInt8 :=
  histBuf ++ text.toUTF8.toList.take (pageSize - 1 - histBuf.length)

/-- A text filled up with blanks on the left to a width. -/
def leftpad (width : Nat) (text : String) : String :=
  String.ofList (List.replicate (width - text.length) ' ') ++ text

/-- The same text printed `n` times. -/
def scnprintfTimes (text : String) : (n : Nat) → List UInt8 → List UInt8
  | 0, histBuf => histBuf
  | n + 1, histBuf => scnprintfTimes text n (scnprintf histBuf text)

/-- The line over the histogram, ipv4 `:184–188`. -/
def header (histBuf : List UInt8) : List UInt8 :=
  let histBuf := scnprintf histBuf (" " ++ leftpad 8 "value" ++ " │")
  let histBuf := scnprintf histBuf (leftpad 25 "" ++ "┊" ++ leftpad 24 "")
  scnprintf histBuf (" " ++ leftpad 8 "count" ++ "\n")

/-- One row, before it is printed: its lower bound, the glyphs of its two bars, the width of
the blanks behind them and the count. -/
structure Row where
  start : UInt64
  dark : Nat
  light : Nat
  padding : Int32
  count : UInt64
  deriving DecidableEq

/-- Printing of a row with its count as `shown`, ipv4 `:196–207`. A negative width would pad
on the other side, which an empty string does not tell apart. -/
def Row.print (shown : UInt64 → UInt64) (row : Row) (histBuf : List UInt8) : List UInt8 :=
  let histBuf := scnprintf histBuf (" " ++ leftpad 8 (toString row.start.toNat) ++ " │")
  let histBuf := scnprintfTimes "▒" row.dark histBuf
  let histBuf := scnprintfTimes "░" row.light histBuf
  scnprintf histBuf (leftpad row.padding.toInt.natAbs "" ++ " " ++
    leftpad 8 (toString (shown row.count).toNat) ++ "\n")

/-! ### The intervals -/

/-- The kernel's `ilog2`. -/
def ilog2 (x : UInt64) : Int := if x = 0 then -1 else x.toNat.log2

/-- The loop that multiplies `order` by ten while `i > 1`, ipv4 `:178–180`. -/
def powerOfTen : (i : Nat) → (order : Int32) → Int32
  | i + 2, order => powerOfTen (i + 1) (order * 10)
  | 1, order => order
  | 0, order => order

/-- The power of ten to round to, ipv4 `:174–180`. -/
def order (share : UInt64) : Int32 :=
  let order := (ilog2 share * 3 + 5).tdiv 10
  powerOfTen (if order ≤ 0 then 1 else order).toNat 1

/-- `x / order * order`; the kernel stops on a division by zero. -/
def roundDown (x : UInt64) (order : Int32) : Option UInt64 :=
  let divisor := order.toInt64.toUInt64
  if divisor = 0 then none else some (x / divisor * divisor)

/-- Where the intervals start and how wide they are. -/
structure Scale where
  start : UInt64
  share : UInt64
  deriving DecidableEq

/-- Set-up of the intervals, ipv4 `:172–183`. -/
def Results.scale (v : Results) (p95 : UInt64) : Option Scale := do
  let share := (p95 - v.first) / histBuckets
  let rounded ← roundDown share (order share)
  let start ← roundDown v.first (order share)
  return { start, share := if rounded ≤ 0 then 1 else rounded }

/-! ### The loop -/

/-- The locals of the loop, with the rows printed so far. -/
structure State where
  i : UInt64
  count : UInt64
  count2 : UInt64
  start : UInt64
  histBuf : List UInt8
  rows : List Row

/-- The row that the counters stand for, ipv4 `:196–207`: `j` runs up to the first bound
and from there to the second. -/
def State.row (total : UInt64) (s : State) : Row :=
  let dark := s.count * histWidth / total
  let both := s.count2 * histWidth / total
  { start := s.start, dark := dark.toNat, light := both.toNat - dark.toNat
    padding := (histWidth - both).toUInt32.toInt32, count := s.count }

/-- The locals after a row, ipv4 `:196–209`. -/
def State.emitRow (total share : UInt64) (shown : UInt64 → UInt64) (s : State) : State :=
  let row := s.row total
  { s with
    count := 0, start := s.start + share
    histBuf := row.print shown s.histBuf, rows := s.rows ++ [row] }

/-- One pass, ipv4 `:190–213`: it takes in a sample or prints a row. -/
def pass (v : Results) (p95 share : UInt64) (shown : UInt64 → UInt64) (s : State) :
    Loop.Outcome State :=
  if s.i < v.total ∧ v.result s.i < s.start + share then
    .goOn { s with count := s.count + 1, count2 := s.count2 + 1, i := s.i + 1 }
  else
    let s := s.emitRow v.total share shown
    if v.total ≤ s.i then .leave s
    else if p95 < v.result s.i then .leave s
    else if pageSize - histWidth.toNat - 20 ≤ s.histBuf.length then .leave s
    else .goOn s

/-- The histogram behind the text `buf`, cut after `fuel` passes. -/
def display (v : Results) (p95 : UInt64) (shown : UInt64 → UInt64) (buf : List UInt8)
    (fuel : Nat) : Option State := do
  let scale ← v.scale p95
  Loop.run (pass v p95 scale.share shown) fuel
    { i := 0, count := 0, count2 := 0, start := scale.start, histBuf := header buf, rows := [] }

/-- The histogram of `lab-routes-ipv4`, which prints `count*batch`, ipv4 `:170–215`. -/
def displayStatistics (v : Results) (p95 batch : UInt64) : List UInt8 → Nat → Option State :=
  display v p95 (· * batch)

/-- The histogram of `lab-routes-ipv6`, which prints `count`, ipv6 `:429–474`. -/
def doBench (v : Results) (p95 : UInt64) : List UInt8 → Nat → Option State :=
  display v p95 id

/-! ### Samples below a bound -/

namespace Results

/-- How many samples are below a bound. -/
def below (v : Results) (q : Nat) : Nat := v.results.countP (·.toNat < q)

/-- How many samples are in an interval. -/
def within (v : Results) (lo hi : Nat) : Nat :=
  v.results.countP fun x ↦ lo ≤ x.toNat ∧ x.toNat < hi

variable (v : Results)

theorem toNat_total : v.total.toNat = v.results.length := by
  have hlt := v.inMemory
  rw [total, UInt64.toNat_ofNat']
  exact Nat.mod_eq_of_lt (by omega)

theorem result_eq {i : UInt64} (h : i.toNat < v.results.length) :
    v.result i = v.results[i.toNat] := by
  rw [result, List.getD_eq_getElem?_getD, List.getElem?_eq_getElem h, Option.getD_some]

theorem below_le (q : Nat) : v.below q ≤ v.results.length := List.countP_le_length

/-- Raising the bound loses no sample. -/
theorem below_mono {p q : Nat} (h : p ≤ q) : v.below p ≤ v.below q := by
  apply List.countP_mono_left
  intro x _ hx
  have hlt : x.toNat < p := of_decide_eq_true hx
  exact decide_eq_true (by omega)

/-- The samples below the upper bound of an interval are below it or inside. -/
theorem below_add_within {lo hi : Nat} (h : lo ≤ hi) :
    v.below lo + v.within lo hi = v.below hi := by
  unfold below within
  induction v.results with
  | nil => rfl
  | cons x xs ih =>
    rw [List.countP_cons, List.countP_cons, List.countP_cons, ← ih]
    simp only [decide_eq_true_eq]
    split <;> split <;> split <;> omega

/-- The samples below a bound come first. -/
theorem lt_below_iff {k : Nat} (hk : k < v.results.length) (q : Nat) :
    k < v.below q ↔ v.results[k].toNat < q := by
  have hdown : v.results.Pairwise fun x y ↦
      decide (y.toNat < q) = true → decide (x.toNat < q) = true := by
    apply v.sorted.imp
    intro x y hxy hy
    have hle := UInt64.le_iff_toNat_le.mp hxy
    have hlt : y.toNat < q := of_decide_eq_true hy
    exact decide_eq_true (by omega)
  rw [below, Rank.lt_countP_iff hdown hk, decide_eq_true_iff]

/-- No sample is below the first one. -/
theorem first_le {x : UInt64} (hx : x ∈ v.results) : v.first.toNat ≤ x.toNat := by
  have hcons : v.results = v.first :: v.results.tail := (List.cons_head_tail v.nonempty).symm
  have hsorted := v.sorted
  rw [hcons] at hx hsorted
  rcases List.mem_cons.mp hx with rfl | hx
  · exact Nat.le_refl _
  · exact UInt64.le_iff_toNat_le.mp (List.rel_of_pairwise_cons hsorted hx)

theorem below_eq_zero {q : Nat} (h : q ≤ v.first.toNat) : v.below q = 0 := by
  rw [below, List.countP_eq_zero]
  intro x hx
  have hle := v.first_le hx
  simp only [decide_eq_true_eq]
  omega

end Results

/-! ### The intervals of a run -/

private theorem ilog2_mem (x : UInt64) : -1 ≤ ilog2 x ∧ ilog2 x ≤ 63 := by
  unfold ilog2
  split
  · decide
  · next hne =>
    have hlt : x.toNat.log2 < 64 := (Nat.log2_lt fun h ↦ hne (UInt64.toNat_inj.mp h)).mpr
      x.toNat_lt
    omega

private theorem powerOfTen_ne_zero :
    ∀ n < 20, (powerOfTen n 1).toInt64.toUInt64 ≠ 0 := by decide

/-- The power of ten is never zero, so the kernel may divide by it. -/
theorem order_ne_zero (share : UInt64) : (order share).toInt64.toUInt64 ≠ 0 := by
  obtain ⟨hlow, hhigh⟩ := ilog2_mem share
  apply powerOfTen_ne_zero
  rw [Int.tdiv_eq_ediv_of_nonneg (by omega)]
  split <;> omega

private theorem roundDown_le {x : UInt64} {order : Int32} (h : order.toInt64.toUInt64 ≠ 0) :
    ∃ y, roundDown x order = some y ∧ y.toNat ≤ x.toNat := by
  unfold roundDown
  dsimp only
  rw [if_neg h]
  refine ⟨_, rfl, ?_⟩
  rw [UInt64.toNat_mul, UInt64.toNat_div]
  exact Nat.le_trans (Nat.mod_le _ _) (Nat.div_mul_le_self _ _)

/-- The intervals start at or before the first sample, and they are not empty, whatever the
95th percentile. -/
theorem scale_spec (v : Results) (p95 : UInt64) :
    ∃ scale, v.scale p95 = some scale ∧ scale.start.toNat ≤ v.first.toNat ∧
      0 < scale.share.toNat ∧ scale.share.toNat < 2 ^ 61 := by
  have horder := order_ne_zero ((p95 - v.first) / histBuckets)
  obtain ⟨rounded, hround, hle⟩ :=
    roundDown_le (x := (p95 - v.first) / histBuckets) horder
  obtain ⟨start, hstart, hlow⟩ := roundDown_le (x := v.first) horder
  have hshare : ((p95 - v.first) / histBuckets).toNat < 2 ^ 61 := by
    have hlt := (p95 - v.first).toNat_lt
    rw [UInt64.toNat_div]
    change (p95 - v.first).toNat / 15 < _
    omega
  refine ⟨⟨start, if rounded ≤ 0 then 1 else rounded⟩, ?_, hlow, ?_⟩
  · unfold Results.scale
    dsimp only
    rw [hround, hstart]
    rfl
  · dsimp only
    split
    · decide
    · next hpos =>
      rw [UInt64.le_iff_toNat_le, UInt64.toNat_zero] at hpos
      omega

/-- The lower bound of the interval of row `k`. -/
def Scale.bound (scale : Scale) (k : Nat) : Nat :=
  scale.start.toNat + k * scale.share.toNat

/-- Later rows begin at higher bounds. -/
theorem Scale.bound_mono (scale : Scale) {j k : Nat} (h : j ≤ k) :
    scale.bound j ≤ scale.bound k := by
  rw [Scale.bound, Scale.bound]
  exact Nat.add_le_add_left (Nat.mul_le_mul_right _ h) _

/-- The same bound as the loop has it, which adds up `share` in 64 bits. -/
def Scale.lower (scale : Scale) (k : Nat) : Nat := scale.bound k % 2 ^ 64

/-- How many samples the first `k` rows take in. A bound that has wrapped takes in no more. -/
def Results.taken (v : Results) (scale : Scale) : (k : Nat) → Nat
  | 0 => 0
  | k + 1 => max (v.taken scale k) (v.below (scale.lower (k + 1)))

/-- The samples have row `k`: it is the first one, or the rows before it leave out a sample up
to the 95th percentile. -/
def Reached (v : Results) (scale : Scale) (p95 : UInt64) (k : Nat) : Prop :=
  k = 0 ∨ v.taken scale k < v.below (p95.toNat + 1)

/-- Row `k`: the count of the samples that it takes in, the bar up to their share of all samples
and the bar from there to the share of those taken in so far. -/
structure RowAt (v : Results) (scale : Scale) (k : Nat) (row : Row) : Prop where
  start : row.start.toNat = scale.lower k
  count : row.count.toNat = v.taken scale (k + 1) - v.taken scale k
  dark : row.dark = (v.taken scale (k + 1) - v.taken scale k) * 50 / v.results.length
  light : row.light = v.taken scale (k + 1) * 50 / v.results.length - row.dark
  width : (row.dark + row.light : Int) + row.padding.toInt = 50

/-- The rows printed are the first ones. -/
def RowsAt (v : Results) (scale : Scale) (rows : List Row) : Prop :=
  ∀ k (hk : k < rows.length), RowAt v scale k rows[k]

/-- The page behind some rows. -/
def pageOf (shown : UInt64 → UInt64) (buf : List UInt8) (rows : List Row) : List UInt8 :=
  rows.foldl (fun histBuf row ↦ row.print shown histBuf) (header buf)

namespace Results

variable (v : Results) (scale : Scale)

theorem taken_le_succ (k : Nat) : v.taken scale k ≤ v.taken scale (k + 1) := Nat.le_max_left _ _

/-- Later rows give back no sample. -/
theorem taken_mono {j k : Nat} (h : j ≤ k) : v.taken scale j ≤ v.taken scale k := by
  induction h with
  | refl => exact Nat.le_refl _
  | step _ ih => exact Nat.le_trans ih (v.taken_le_succ scale _)

theorem taken_le (k : Nat) : v.taken scale k ≤ v.results.length := by
  induction k with
  | zero => exact Nat.zero_le _
  | succ k ih => exact Nat.max_le.mpr ⟨ih, v.below_le _⟩

end Results

private theorem lt_length_scnprintf {histBuf : List UInt8} {text : String}
    (hroom : histBuf.length < 4095) (htext : 0 < text.utf8ByteSize) :
    histBuf.length < (scnprintf histBuf text).length := by
  have hbytes : text.toUTF8.toList.length = text.utf8ByteSize := Utf8.length_toUTF8 text
  have hcap : pageSize - 1 = 4095 := rfl
  rw [scnprintf, hcap, List.length_append, List.length_take, hbytes]
  omega

private theorem length_le_scnprintf (histBuf : List UInt8) (text : String) :
    histBuf.length ≤ (scnprintf histBuf text).length := by
  rw [scnprintf, List.length_append]
  exact Nat.le_add_right _ _

private theorem length_le_scnprintfTimes (text : String) (n : Nat) (histBuf : List UInt8) :
    histBuf.length ≤ (scnprintfTimes text n histBuf).length := by
  induction n generalizing histBuf with
  | zero => exact Nat.le_refl _
  | succ n ih => exact Nat.le_trans (length_le_scnprintf histBuf text) (ih _)

/-- A row lengthens a page that it does not fill. -/
theorem Row.lt_length_print (shown : UInt64 → UInt64) (row : Row) {histBuf : List UInt8}
    (h : (row.print shown histBuf).length < 4095) :
    histBuf.length < (row.print shown histBuf).length := by
  have hrest : (scnprintf histBuf (" " ++ leftpad 8 (toString row.start.toNat) ++ " │")).length ≤
      (row.print shown histBuf).length := by
    unfold Row.print
    exact Nat.le_trans (length_le_scnprintfTimes _ _ _)
      (Nat.le_trans (length_le_scnprintfTimes _ _ _) (length_le_scnprintf _ _))
  have hfirst := length_le_scnprintf histBuf
    (" " ++ leftpad 8 (toString row.start.toNat) ++ " │")
  apply Nat.lt_of_lt_of_le (lt_length_scnprintf (by omega) ?_) hrest
  rw [String.utf8ByteSize_append]
  exact Nat.lt_of_lt_of_le (by decide : 0 < " │".utf8ByteSize) (Nat.le_add_left _ _)

/-- Between two passes the samples of the rows so far are taken in, and of those of the next row
some; `count` is how many these are. -/
structure Running (v : Results) (scale : Scale) (p95 : UInt64) (shown : UInt64 → UInt64)
    (buf : List UInt8) (s : State) : Prop where
  start : s.start.toNat = scale.lower s.rows.length
  count2 : s.count2 = s.i
  count : s.count.toNat + v.taken scale s.rows.length = s.i.toNat
  most : s.i.toNat ≤ v.taken scale (s.rows.length + 1)
  rows : RowsAt v scale s.rows
  counted : (s.rows.map (·.count.toNat)).sum = v.taken scale s.rows.length
  page : s.histBuf = pageOf shown buf s.rows
  reached : Reached v scale p95 s.rows.length
  room : s.rows ≠ [] → s.histBuf.length < 4026

/-- Why the loop is left: all samples are counted, the next one is above the 95th percentile
or the page has no room for another row. -/
def Left (v : Results) (p95 : UInt64) (s : State) : Prop :=
  s.i = v.total ∨ s.i < v.total ∧ p95 < v.result s.i ∨
    pageSize - histWidth.toNat - 20 ≤ s.histBuf.length

namespace Running

variable {v : Results} {scale : Scale} {p95 : UInt64} {shown : UInt64 → UInt64}
  {buf : List UInt8} {s : State}

theorem i_le (h : Running v scale p95 shown buf s) : s.i.toNat ≤ v.results.length :=
  Nat.le_trans h.most (v.taken_le scale _)

theorem toNat_next (h : Running v scale p95 shown buf s) :
    (s.start + scale.share).toNat = scale.lower (s.rows.length + 1) := by
  rw [UInt64.toNat_add, h.start, Scale.lower, Scale.lower, Nat.mod_add_mod, Scale.bound,
    Scale.bound, Nat.succ_mul, Nat.add_assoc]

/-- The next sample belongs into the current row exactly when not all those of the row are
taken in. -/
theorem takes_iff (h : Running v scale p95 shown buf s) :
    (s.i < v.total ∧ v.result s.i < s.start + scale.share) ↔
      s.i.toNat < v.taken scale (s.rows.length + 1) := by
  have hcount := h.count
  have hmax : s.i.toNat < v.taken scale (s.rows.length + 1) ↔
      s.i.toNat < v.below (scale.lower (s.rows.length + 1)) := by
    rw [Results.taken, lt_max_iff]
    omega
  rw [hmax, UInt64.lt_iff_toNat_lt, UInt64.lt_iff_toNat_lt, v.toNat_total, h.toNat_next]
  constructor
  · rintro ⟨hlt, hbelow⟩
    rw [v.result_eq hlt] at hbelow
    exact (v.lt_below_iff hlt _).mpr hbelow
  · intro hlt
    have hi := Nat.lt_of_lt_of_le hlt (v.below_le _)
    rw [v.result_eq hi]
    exact ⟨hi, (v.lt_below_iff hi _).mp hlt⟩

/-- A pass that takes in a sample. -/
theorem take (h : Running v scale p95 shown buf s)
    (hlt : s.i.toNat < v.taken scale (s.rows.length + 1)) :
    Running v scale p95 shown buf
      { s with count := s.count + 1, count2 := s.count2 + 1, i := s.i + 1 } := by
  have hle := v.taken_le scale (s.rows.length + 1)
  have hmem := v.inMemory
  have hcount := h.count
  have hi : (s.i + 1).toNat = s.i.toNat + 1 := Unsigned.toNat_succ (by omega)
  have hc : (s.count + 1).toNat = s.count.toNat + 1 := Unsigned.toNat_succ (by omega)
  exact { h with
    count2 := congrArg (· + 1) h.count2
    count := by
      dsimp only
      omega
    most := by
      dsimp only
      omega }

private theorem toNat_share (v : Results) {c : UInt64} (hc : c.toNat ≤ v.results.length) :
    (c * histWidth / v.total).toNat = c.toNat * 50 / v.results.length := by
  have hmem := v.inMemory
  rw [UInt64.toNat_div, UInt64.toNat_mul, v.toNat_total]
  change c.toNat * 50 % 2 ^ 64 / _ = _
  rw [Nat.mod_eq_of_lt (by omega)]

private theorem toInt_padding :
    ∀ n < 51, ((histWidth - UInt64.ofNat n).toUInt32.toInt32).toInt = 50 - n := by decide

/-- The row printed once all its samples are taken in. -/
theorem row (h : Running v scale p95 shown buf s)
    (hall : s.i.toNat = v.taken scale (s.rows.length + 1)) :
    RowAt v scale s.rows.length (s.row v.total) := by
  have hcount := h.count
  have hle := h.i_le
  have hc : s.count.toNat = v.taken scale (s.rows.length + 1) - v.taken scale s.rows.length := by
    omega
  have hdark := toNat_share v (c := s.count) (by omega)
  have hboth := toNat_share v (c := s.count2) (by rw [h.count2]; exact hle)
  have hmono : s.count.toNat * 50 / v.results.length ≤ s.i.toNat * 50 / v.results.length :=
    Nat.div_le_div_right (Nat.mul_le_mul_right _ (by omega))
  have hwide : s.i.toNat * 50 / v.results.length ≤ 50 := by
    apply Nat.div_le_of_le_mul
    exact Nat.mul_le_mul_right _ hle
  rw [h.count2] at hboth
  exact {
    start := h.start
    count := hc
    dark := by
      change (s.count * histWidth / v.total).toNat = _
      rw [hdark, hc]
    light := by
      change (s.count2 * histWidth / v.total).toNat - _ = _
      rw [h.count2, hboth, hall]
      rfl
    width := by
      have hpadding := toInt_padding (s.i.toNat * 50 / v.results.length) (by omega)
      rw [← hboth, UInt64.ofNat_toNat] at hpadding
      change (((s.count * histWidth / v.total).toNat : Int) +
        ((s.count2 * histWidth / v.total).toNat - (s.count * histWidth / v.total).toNat : Nat)) +
          (histWidth - s.count2 * histWidth / v.total).toUInt32.toInt32.toInt = 50
      rw [h.count2, hpadding, hdark, hboth]
      omega }

/-- The rows after one more. -/
theorem rowsAt_emitRow (h : Running v scale p95 shown buf s)
    (hall : s.i.toNat = v.taken scale (s.rows.length + 1)) :
    RowsAt v scale (s.emitRow v.total scale.share shown).rows := by
  intro k hk
  change k < (s.rows ++ [s.row v.total]).length at hk
  change RowAt v _ _ (s.rows ++ [s.row v.total])[k]
  rw [List.length_append, List.length_singleton] at hk
  by_cases hlast : k = s.rows.length
  · subst hlast
    rw [List.getElem_concat_length rfl]
    exact h.row hall
  · rw [List.getElem_append_left (by omega)]
    exact h.rows k (by omega)

/-- Each sample taken in is counted in one row. -/
theorem counted_emitRow (h : Running v scale p95 shown buf s) :
    ((s.emitRow v.total scale.share shown).rows.map (·.count.toNat)).sum = s.i.toNat := by
  have hcount := h.count
  change ((s.rows ++ [s.row v.total]).map (·.count.toNat)).sum = _
  rw [List.map_append, List.sum_append, h.counted, List.map_singleton, List.sum_singleton]
  change _ + s.count.toNat = _
  omega

/-- The page after one more row. -/
theorem page_emitRow (h : Running v scale p95 shown buf s) :
    (s.emitRow v.total scale.share shown).histBuf =
      pageOf shown buf (s.emitRow v.total scale.share shown).rows := by
  change (s.row v.total).print shown s.histBuf = pageOf shown buf (s.rows ++ [s.row v.total])
  rw [h.page, pageOf, pageOf, List.foldl_append]
  rfl

/-- Where the loop is not left behind a row, there is a next sample, and it is not above the
95th percentile. -/
theorem next_of_not_left (h : Running v scale p95 shown buf s)
    (hleft : ¬ Left v p95 (s.emitRow v.total scale.share shown)) :
    s.i.toNat < v.results.length ∧ v.result s.i ≤ p95 := by
  obtain ⟨hne, hp95, -⟩ : s.i ≠ v.total ∧ ¬ (s.i < v.total ∧ p95 < v.result s.i) ∧
      ¬ pageSize - histWidth.toNat - 20 ≤
        (s.emitRow v.total scale.share shown).histBuf.length := by
    rw [Left, not_or, not_or] at hleft
    exact hleft
  have hlt : s.i.toNat < v.results.length := by
    apply Nat.lt_of_le_of_ne h.i_le
    rw [← v.toNat_total]
    exact fun heq ↦ hne (UInt64.toNat_inj.mp heq)
  refine ⟨hlt, UInt64.not_lt.mp fun hgt ↦ hp95 ⟨?_, hgt⟩⟩
  rw [UInt64.lt_iff_toNat_lt, v.toNat_total]
  exact hlt

/-- Where the loop is not left behind a row, it goes on. -/
theorem emitRow (h : Running v scale p95 shown buf s)
    (hall : s.i.toNat = v.taken scale (s.rows.length + 1))
    (hleft : ¬ Left v p95 (s.emitRow v.total scale.share shown)) :
    Running v scale p95 shown buf (s.emitRow v.total scale.share shown) := by
  obtain ⟨hi, hp95⟩ := h.next_of_not_left hleft
  have hlength : (s.emitRow v.total scale.share shown).rows.length = s.rows.length + 1 :=
    List.length_append
  exact {
    start := by
      rw [hlength]
      exact h.toNat_next
    count2 := h.count2
    count := by
      rw [hlength, ← hall]
      exact Nat.zero_add _
    most := by
      rw [hlength]
      exact Nat.le_trans h.most (v.taken_le_succ scale _)
    rows := h.rowsAt_emitRow hall
    counted := by
      rw [h.counted_emitRow, hlength, hall]
    page := h.page_emitRow
    reached := by
      rw [hlength, Reached, ← hall, v.lt_below_iff hi]
      rw [v.result_eq hi, UInt64.le_iff_toNat_le] at hp95
      exact Or.inr (Nat.lt_succ_of_le hp95)
    room := fun _ ↦ Nat.not_le.mp fun hfull ↦ hleft (Or.inr (Or.inr hfull)) }

end Running

/-! ### The whole histogram -/

/-- The start of the loop. -/
theorem running_start (v : Results) (scale : Scale) (p95 : UInt64) (shown : UInt64 → UInt64)
    (buf : List UInt8) : Running v scale p95 shown buf ⟨0, 0, 0, scale.start, header buf, []⟩ where
  start := by
    have hlt := scale.start.toNat_lt
    change scale.start.toNat = (scale.start.toNat + 0 * scale.share.toNat) % 2 ^ 64
    omega
  count2 := rfl
  count := rfl
  most := Nat.zero_le _
  rows := by
    intro k hk
    cases hk
  counted := rfl
  page := rfl
  reached := Or.inl rfl
  room := fun hne ↦ absurd rfl hne

section

variable {v : Results} {scale : Scale} {p95 : UInt64} {shown : UInt64 → UInt64}
  {buf : List UInt8} {s s' : State}

/-- A pass takes in a sample, or it prints a row that has all its samples and goes on or
leaves. -/
theorem pass_cases (h : Running v scale p95 shown buf s) :
    let next := v.taken scale (s.rows.length + 1)
    let s' := s.emitRow v.total scale.share shown
    (s.i.toNat < next ∧ pass v p95 scale.share shown s =
      .goOn { s with count := s.count + 1, count2 := s.count2 + 1, i := s.i + 1 }) ∨
    (s.i.toNat = next ∧ ¬ Left v p95 s' ∧ pass v p95 scale.share shown s = .goOn s') ∨
    (s.i.toNat = next ∧ Left v p95 s' ∧ pass v p95 scale.share shown s = .leave s') := by
  intro next s'
  have hmost : s.i.toNat ≤ next := h.most
  unfold pass
  by_cases hlt : s.i.toNat < next
  · rw [if_pos (h.takes_iff.mpr hlt)]
    exact Or.inl ⟨hlt, rfl⟩
  · rw [if_neg fun htakes ↦ hlt (h.takes_iff.mp htakes)]
    have hall : s.i.toNat = next := by omega
    change _ ∨ (_ ∧ _ ∧ (if v.total ≤ s.i then Loop.Outcome.leave s'
      else if p95 < v.result s.i then .leave s'
      else if pageSize - histWidth.toNat - 20 ≤ s'.histBuf.length then .leave s'
      else .goOn s') = _) ∨ (_ ∧ _ ∧ (if v.total ≤ s.i then Loop.Outcome.leave s'
      else if p95 < v.result s.i then .leave s'
      else if pageSize - histWidth.toNat - 20 ≤ s'.histBuf.length then .leave s'
      else .goOn s') = _)
    by_cases hend : v.total ≤ s.i
    · have hi : s.i = v.total := by
        apply UInt64.toNat_inj.mp
        have hle := h.i_le
        rw [UInt64.le_iff_toNat_le, v.toNat_total] at hend
        rw [v.toNat_total]
        omega
      rw [if_pos hend]
      exact Or.inr (Or.inr ⟨hall, Or.inl hi, rfl⟩)
    · have hi : s.i < v.total := UInt64.not_le.mp hend
      rw [if_neg hend]
      split
      · next hp95 => exact Or.inr (Or.inr ⟨hall, Or.inr (Or.inl ⟨hi, hp95⟩), rfl⟩)
      · next hp95 =>
        split
        · next hpage => exact Or.inr (Or.inr ⟨hall, Or.inr (Or.inr hpage), rfl⟩)
        · next hpage =>
          refine Or.inr (Or.inl ⟨hall, ?_, rfl⟩)
          rintro (heq | ⟨-, hgt⟩ | hfull)
          · exact UInt64.ne_of_lt hi heq
          · exact hp95 hgt
          · exact hpage hfull

/-- No pass faults. -/
theorem pass_ne_fault (h : Running v scale p95 shown buf s) :
    pass v p95 scale.share shown s ≠ .fault := by
  rcases pass_cases h with ⟨-, hp⟩ | ⟨-, -, hp⟩ | ⟨-, -, hp⟩
  all_goals
    rw [hp]
    exact fun hfault ↦ by cases hfault

/-- The loop is left behind a row. -/
theorem left_of_leave (h : Running v scale p95 shown buf s)
    (hleave : pass v p95 scale.share shown s = .leave s') :
    s.i.toNat = v.taken scale (s.rows.length + 1) ∧
      Left v p95 (s.emitRow v.total scale.share shown) ∧
      s' = s.emitRow v.total scale.share shown := by
  rcases pass_cases h with ⟨-, hp⟩ | ⟨-, -, hp⟩ | ⟨hall, hleft, hp⟩
  · rw [hp] at hleave
    cases hleave
  · rw [hp] at hleave
    cases hleave
  · rw [hp] at hleave
    cases hleave
    exact ⟨hall, hleft, rfl⟩

/-- The samples not taken in yet and the room left where a row may begin. -/
def remaining (v : Results) (s : State) : Nat :=
  v.results.length - s.i.toNat + (4026 - s.histBuf.length)

/-- A pass that stays in the loop takes in a sample or fills the page further. -/
theorem running_pass (h : Running v scale p95 shown buf s)
    (hstep : Loop.Pass (pass v p95 scale.share shown) s s') :
    Running v scale p95 shown buf s' ∧ remaining v s' < remaining v s := by
  have hle := h.i_le
  unfold Loop.Pass at hstep
  rcases pass_cases h with ⟨hlt, htake⟩ | ⟨hall, hleft, hgo⟩ | ⟨-, -, hleave⟩
  · rw [htake] at hstep
    cases hstep
    have htaken := v.taken_le scale (s.rows.length + 1)
    have hmem := v.inMemory
    have hi : (s.i + 1).toNat = s.i.toNat + 1 := Unsigned.toNat_succ (by omega)
    refine ⟨h.take hlt, ?_⟩
    unfold remaining
    dsimp only
    omega
  · rw [hgo] at hstep
    cases hstep
    refine ⟨h.emitRow hall hleft, ?_⟩
    have hroom : ((s.row v.total).print shown s.histBuf).length < 4026 :=
      (h.emitRow hall hleft).room (List.append_ne_nil_of_right_ne_nil _ (List.cons_ne_nil _ _))
    have hmore := @Row.lt_length_print shown (s.row v.total) s.histBuf (by omega)
    change v.results.length - s.i.toNat +
      (4026 - ((s.row v.total).print shown s.histBuf).length) < _
    unfold remaining
    omega
  · rw [hleave] at hstep
    cases hstep

end

/-- The state in which the loop is left: that behind the last row. -/
structure Finished (v : Results) (scale : Scale) (p95 : UInt64) (shown : UInt64 → UInt64)
    (buf : List UInt8) (s : State) : Prop where
  nonempty : s.rows ≠ []
  reached : Reached v scale p95 (s.rows.length - 1)
  taken : s.i.toNat = v.taken scale s.rows.length
  rows : RowsAt v scale s.rows
  counted : (s.rows.map (·.count.toNat)).sum = s.i.toNat
  page : s.histBuf = pageOf shown buf s.rows
  room : s.rows.dropLast ≠ [] → (pageOf shown buf s.rows.dropLast).length < 4026
  left : Left v p95 s

/-- The loop always ends. -/
theorem display_finished (v : Results) (p95 : UInt64) (shown : UInt64 → UInt64)
    (buf : List UInt8) :
    ∃ fuel s scale, v.scale p95 = some scale ∧ display v p95 shown buf fuel = some s ∧
      Finished v scale p95 shown buf s := by
  obtain ⟨scale, hscale, -⟩ := scale_spec v p95
  obtain ⟨fuel, s, s', hrun, h, hleave⟩ := Loop.run_of_variant (remaining v)
    (fun s h ↦ pass_ne_fault h) (fun s s' h hstep ↦ running_pass h hstep)
    (running_start v scale p95 shown buf)
  refine ⟨fuel, s', scale, hscale, ?_, ?_⟩
  · unfold display
    rw [hscale]
    exact hrun
  · obtain ⟨hall, hleft, rfl⟩ := left_of_leave h hleave
    have hlength : (s.emitRow v.total scale.share shown).rows.length = s.rows.length + 1 :=
      List.length_append
    exact {
      nonempty := List.append_ne_nil_of_right_ne_nil _ (List.cons_ne_nil _ _)
      reached := by
        rw [hlength]
        exact h.reached
      taken := by
        rw [hlength]
        exact hall
      rows := h.rowsAt_emitRow hall
      counted := h.counted_emitRow
      page := h.page_emitRow
      room := by
        have hbefore : (s.emitRow v.total scale.share shown).rows.dropLast = s.rows :=
          List.dropLast_concat
        rw [hbefore, ← h.page]
        exact h.room
      left := hleft }

/-! ### Samples below `2 ^ 32` -/

/-- A row for an interval: the count of the samples in it, the bar up to their share of all
samples and the bar from there to the share of those below the upper bound. -/
structure RowOf (v : Results) (lo hi : Nat) (row : Row) : Prop where
  start : row.start.toNat = lo
  count : row.count.toNat = v.within lo hi
  dark : row.dark = v.within lo hi * 50 / v.results.length
  light : row.light = v.below hi * 50 / v.results.length - row.dark
  width : (row.dark + row.light : Int) + row.padding.toInt = 50

/-- The rows printed are those of the first intervals. -/
def RowsOf (v : Results) (scale : Scale) (rows : List Row) : Prop :=
  ∀ k (hk : k < rows.length), RowOf v (scale.bound k) (scale.bound (k + 1)) rows[k]

/-- The samples have a row: it is the first one, or a sample up to the 95th percentile is not
below its interval. -/
def Due (v : Results) (scale : Scale) (p95 : UInt64) (k : Nat) : Prop :=
  k = 0 ∨ ∃ x ∈ v.results, x ≤ p95 ∧ scale.bound k ≤ x.toNat

section

variable {v : Samples} {scale : Scale} {p95 : UInt64}

/-- No bound up to that behind an interval with small samples wraps. -/
theorem Scale.lower_eq (hshare : scale.share.toNat < 2 ^ 61) {k : Nat}
    (hk : scale.bound k < 2 ^ 32) {j : Nat} (hj : j ≤ k + 1) : scale.lower j = scale.bound j := by
  have hmono := scale.bound_mono hj
  have hnext : scale.bound (k + 1) = scale.bound k + scale.share.toNat := by
    rw [Scale.bound, Scale.bound, Nat.succ_mul, Nat.add_assoc]
  rw [Scale.lower, Nat.mod_eq_of_lt (by omega)]

/-- So the samples below such a bound are those taken in. -/
theorem Results.taken_eq {v : Results} (hlow : scale.start.toNat ≤ v.first.toNat)
    (hshare : scale.share.toNat < 2 ^ 61) {k : Nat} (hk : scale.bound k < 2 ^ 32) {j : Nat}
    (hj : j ≤ k + 1) : v.taken scale j = v.below (scale.bound j) := by
  induction j with
  | zero =>
    have hzero : scale.bound 0 = scale.start.toNat := by
      rw [Scale.bound, Nat.zero_mul, Nat.add_zero]
    rw [hzero, v.below_eq_zero hlow]
    rfl
  | succ j ih =>
    have hmono := v.below_mono (scale.bound_mono (Nat.le_succ j))
    rw [Results.taken, ih (by omega), Scale.lower_eq hshare hk hj, Nat.max_eq_right hmono]

theorem bound_lt_of_due (hlow : scale.start.toNat ≤ v.first.toNat) {k : Nat}
    (h : Due v scale p95 k) : scale.bound k < 2 ^ 32 := by
  rcases h with rfl | ⟨x, hx, -, hbound⟩
  · have hsmall := v.small _ (List.head_mem v.nonempty)
    rw [Scale.bound, Nat.zero_mul, Nat.add_zero]
    exact Nat.lt_of_le_of_lt hlow hsmall
  · exact Nat.lt_of_le_of_lt hbound (v.small x hx)

/-- Some sample up to a limit is not below a bound. -/
theorem Results.below_lt_iff (v : Results) (q : Nat) (p95 : UInt64) :
    v.below q < v.below (p95.toNat + 1) ↔ ∃ x ∈ v.results, x ≤ p95 ∧ q ≤ x.toNat := by
  constructor
  · intro hlt
    have hlength := Nat.lt_of_lt_of_le hlt (v.below_le _)
    have hle := (v.lt_below_iff hlength (p95.toNat + 1)).mp hlt
    refine ⟨_, List.getElem_mem hlength, ?_, ?_⟩
    · exact UInt64.le_iff_toNat_le.mpr (Nat.le_of_lt_succ hle)
    · exact Nat.not_lt.mp fun hbelow ↦
        Nat.lt_irrefl _ ((v.lt_below_iff hlength q).mpr hbelow)
  · rintro ⟨x, hx, hp95, hq⟩
    obtain ⟨j, hj, rfl⟩ := List.getElem_of_mem hx
    rw [UInt64.le_iff_toNat_le] at hp95
    have hj' : j < v.below (p95.toNat + 1) := (v.lt_below_iff hj _).mpr (by omega)
    have hnot : ¬ j < v.below q := fun hbelow ↦
      absurd ((v.lt_below_iff hj q).mp hbelow) (by omega)
    omega

/-- The rows of small samples are those of the intervals with such a sample. -/
theorem reached_iff_due (hlow : scale.start.toNat ≤ v.first.toNat)
    (hshare : scale.share.toNat < 2 ^ 61) (k : Nat) :
    Reached v scale p95 k ↔ Due v scale p95 k := by
  have hnext {k : Nat} (h : Due v scale p95 k) :
      Reached v scale p95 (k + 1) ↔ Due v scale p95 (k + 1) := by
    have htaken := Results.taken_eq hlow hshare (bound_lt_of_due hlow h) (Nat.le_refl (k + 1))
    rw [Reached, Due, htaken, v.below_lt_iff]
  induction k with
  | zero => exact iff_of_true (Or.inl rfl) (Or.inl rfl)
  | succ k ih =>
    constructor
    · intro h
      have hbefore : Reached v scale p95 k := by
        rcases h with h | h
        · cases h
        · exact Or.inr (Nat.lt_of_le_of_lt (v.taken_le_succ scale k) h)
      exact (hnext (ih.mp hbefore)).mp h
    · intro h
      have hbefore : Due v scale p95 k := by
        rcases h with h | ⟨x, hx, hp95, hbound⟩
        · cases h
        · exact Or.inr ⟨x, hx, hp95, Nat.le_trans (scale.bound_mono (Nat.le_succ k)) hbound⟩
      exact (hnext hbefore).mpr h

/-- The rows of small samples are those of the intervals. -/
theorem Finished.rowsOf {shown : UInt64 → UInt64} {buf : List UInt8} {s : State}
    (h : Finished v scale p95 shown buf s) (hlow : scale.start.toNat ≤ v.first.toNat)
    (hshare : scale.share.toNat < 2 ^ 61) : RowsOf v scale s.rows := by
  intro k hk
  have hrow := h.rows k hk
  have hdue := (reached_iff_due hlow hshare _).mp h.reached
  have hlast := bound_lt_of_due hlow hdue
  have hstart := Scale.lower_eq hshare hlast (show k ≤ s.rows.length - 1 + 1 by omega)
  have hlo := Results.taken_eq hlow hshare hlast (show k ≤ s.rows.length - 1 + 1 by omega)
  have hhi := Results.taken_eq hlow hshare hlast (show k + 1 ≤ s.rows.length - 1 + 1 by omega)
  have hwithin : v.taken scale (k + 1) - v.taken scale k =
      v.within (scale.bound k) (scale.bound (k + 1)) := by
    have hle : scale.bound k ≤ scale.bound (k + 1) := scale.bound_mono (Nat.le_succ k)
    have hsum := v.below_add_within hle
    omega
  exact {
    start := hrow.start.trans hstart
    count := hrow.count.trans hwithin
    dark := by
      rw [hrow.dark, hwithin]
    light := by
      rw [hrow.light, hhi]
    width := hrow.width }

end

/-- What is displayed when the loop is left. The rows are those on the page. -/
structure Displays (v : Results) (p95 : UInt64) (scale : Scale) (shown : UInt64 → UInt64)
    (buf : List UInt8) (s : State) : Prop where
  first : ∀ x ∈ v.results, scale.start.toNat ≤ x.toNat
  share : 0 < scale.share.toNat
  rows : RowsOf v scale s.rows
  page : s.histBuf = pageOf shown buf s.rows
  counted : (s.rows.map (·.count.toNat)).sum = s.i.toNat
  left : Left v p95 s

/-- The loop always ends; each row counts the samples of its interval, draws their share and
that of the samples so far, and no sample up to where the loop ended is lost. -/
theorem display_displays (v : Samples) (p95 : UInt64) (shown : UInt64 → UInt64)
    (buf : List UInt8) :
    ∃ fuel s scale, v.scale p95 = some scale ∧ display v p95 shown buf fuel = some s ∧
      Displays v p95 scale shown buf s := by
  obtain ⟨scale', hscale', hlow, hpos, hshare⟩ := scale_spec v p95
  obtain ⟨fuel, s, scale, hscale, hrun, h⟩ := display_finished v p95 shown buf
  obtain rfl : scale' = scale := Option.some.inj (hscale'.symm.trans hscale)
  exact ⟨fuel, s, scale', hscale, hrun, {
    first := fun x hx ↦ Nat.le_trans hlow (v.first_le hx)
    share := hpos
    rows := h.rowsOf hlow hshare
    page := h.page
    counted := h.counted
    left := h.left }⟩

/-- So do the loops of both modules, whatever count they print and whatever the 95th
percentile. -/
theorem histogram_displays (v : Samples) (p95 batch : UInt64) (buf : List UInt8) :
    (∃ fuel s scale, v.scale p95 = some scale ∧
      displayStatistics v p95 batch buf fuel = some s ∧
      Displays v p95 scale (· * batch) buf s) ∧
    (∃ fuel s scale, v.scale p95 = some scale ∧
      doBench v p95 buf fuel = some s ∧ Displays v p95 scale id buf s) :=
  ⟨display_displays v p95 _ buf, display_displays v p95 _ buf⟩

/-- Three samples with the last one as the 95th percentile. -/
theorem threeSamples_displays :
    ∃ v : Samples, v.results = [100, 103, 250] ∧
      (∃ fuel s scale, v.scale 250 = some scale ∧
        displayStatistics v 250 2 [] fuel = some s ∧ Displays v 250 scale (· * 2) [] s) ∧
      (∃ fuel s scale, v.scale 250 = some scale ∧
        doBench v 250 [] fuel = some s ∧ Displays v 250 scale id [] s) := by
  have hsmall : ∀ x ∈ ([100, 103, 250] : List UInt64), x.toNat < 2 ^ 32 := by simp
  refine ⟨⟨⟨[100, 103, 250], by decide, by decide, by decide⟩, hsmall⟩, rfl, ?_⟩
  exact histogram_displays _ 250 2 []

end NetworkLab.Kbench.Histogram
