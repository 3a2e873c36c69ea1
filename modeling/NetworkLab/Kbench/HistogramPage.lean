import NetworkLab.Kbench.Output

/-!
# Whether the rows of a histogram fit their page

Behind a row the loop looks whether 70 bytes are left on the page,
`lab-routes-ipv4/2026/kbench_mod.c:212` and `lab-routes-ipv6/2026/kbench_mod.c:471`, but a
row may take more than twice as many. Where a row begins and ends follows from the samples.
-/

namespace NetworkLab.Kbench.Histogram

open Lib

/-! ### Where the rows begin -/

/-- The glyphs of the two bars of row `k`. -/
def Results.rowGlyphs (v : Results) (scale : Scale) (k : Nat) : Nat :=
  v.taken scale (k + 1) * 50 / v.results.length

/-- The bytes of row `k`. -/
def rowLength (v : Results) (scale : Scale) (shown : UInt64 → UInt64) (k : Nat) : Nat :=
  max 8 (digits (scale.lower k)) + 2 * v.rowGlyphs scale k +
    max 8 (digits (shown (UInt64.ofNat (v.taken scale (k + 1) - v.taken scale k))).toNat) + 57

/-- Where row `k` begins on a page with `before` bytes before the histogram. -/
def rowOffset (v : Results) (scale : Scale) (shown : UInt64 → UInt64) (before k : Nat) : Nat :=
  before + 75 + ((List.range k).map (rowLength v scale shown)).sum

/-- No row of the samples begins before the last 70 bytes of the page and ends behind it. -/
def PageFits (v : Results) (scale : Scale) (p95 : UInt64) (shown : UInt64 → UInt64)
    (before : Nat) : Prop :=
  ∀ k, Reached v scale p95 k → rowOffset v scale shown before k < 4026 →
    rowOffset v scale shown before (k + 1) ≤ 4095

/-- Every text of a histogram with some rows has room on its page. -/
def WrittenWhole (shown : UInt64 → UInt64) (buf : List UInt8) (rows : List Row) : Prop :=
  Page.Whole (pageSize - 1) buf ((texts shown rows).map bytes)

/-- A bar is as wide as `HIST_WIDTH` at most. -/
theorem Results.rowGlyphs_le (v : Results) (scale : Scale) (k : Nat) :
    v.rowGlyphs scale k ≤ 50 := by
  apply Nat.div_le_of_le_mul
  exact Nat.mul_le_mul_right _ (v.taken_le scale _)

section

variable {v : Results} {scale : Scale} {p95 : UInt64} {shown : UInt64 → UInt64}

theorem rowOffset_succ (before k : Nat) :
    rowOffset v scale shown before (k + 1) =
      rowOffset v scale shown before k + rowLength v scale shown k := by
  rw [rowOffset, rowOffset, List.range_succ, List.map_append, List.sum_append, List.map_singleton,
    List.sum_singleton, Nat.add_assoc, Nat.add_assoc, Nat.add_assoc]

/-- Rows begin one behind the other. -/
theorem rowOffset_mono (before : Nat) {j k : Nat} (h : j ≤ k) :
    rowOffset v scale shown before j ≤ rowOffset v scale shown before k := by
  induction h with
  | refl => exact Nat.le_refl _
  | step _ ih =>
    rw [rowOffset_succ]
    omega

/-- The two bars of a row have the glyphs of the samples taken in so far. -/
theorem RowAt.dark_add_light {k : Nat} {row : Row} (h : RowAt v scale k row) :
    row.dark + row.light = v.rowGlyphs scale k := by
  have hdark : row.dark ≤ v.rowGlyphs scale k := by
    rw [h.dark]
    exact Nat.div_le_div_right (Nat.mul_le_mul_right _ (Nat.sub_le _ _))
  have hlight : row.light = v.rowGlyphs scale k - row.dark := h.light
  omega

/-- A row has the bytes that its samples say. -/
theorem RowAt.sum_texts {k : Nat} {row : Row} (h : RowAt v scale k row) :
    ((row.texts shown).map fun text ↦ (bytes text).length).sum = rowLength v scale shown k := by
  have hcount : row.count = UInt64.ofNat (v.taken scale (k + 1) - v.taken scale k) := by
    rw [← h.count, UInt64.ofNat_toNat]
  have hfull := v.rowGlyphs_le scale k
  have hglyphs := h.dark_add_light
  have hwidth := h.width
  rw [Row.sum_texts, h.start, hcount, rowLength]
  omega

/-- The rows of a histogram end where the next one would begin. -/
theorem RowsAt.sum_texts {rows : List Row} (h : RowsAt v scale rows) (before : Nat) :
    before + ((texts shown rows).map fun text ↦ (bytes text).length).sum =
      rowOffset v scale shown before rows.length := by
  have hrows : rows.map (fun row ↦ ((row.texts shown).map fun text ↦ (bytes text).length).sum) =
      (List.range rows.length).map (rowLength v scale shown) := by
    apply List.ext_getElem
    · rw [List.length_map, List.length_map, List.length_range]
    · intro k hk _
      rw [List.length_map] at hk
      rw [List.getElem_map, List.getElem_map, List.getElem_range, (h k hk).sum_texts]
  rw [texts, List.map_append, List.sum_append, sum_headerTexts, List.map_flatMap, rowOffset,
    ← hrows, List.flatMap_def, List.sum_flatten, List.map_map, ← Nat.add_assoc]
  rfl

/-- What is on the page after some rows. -/
theorem foldl_scnprintf (ts : List String) {buf : List UInt8} (hbuf : buf.length ≤ 4095) :
    (ts.foldl scnprintf buf).length =
      min 4095 (buf.length + (ts.map fun text ↦ (bytes text).length).sum) := by
  have hfold : ts.foldl scnprintf buf = (ts.map bytes).foldl (Page.print 4095) buf := by
    rw [List.foldl_map]
    rfl
  rw [hfold, Page.foldl_print hbuf, List.length_take, List.length_append, List.length_flatten,
    List.map_map]
  rfl

/-- The rows are written whole if the next row would begin on the page. -/
theorem RowsAt.writtenWhole_iff {rows : List Row} (h : RowsAt v scale rows) {buf : List UInt8}
    (hbuf : buf.length ≤ 4095) :
    WrittenWhole shown buf rows ↔ rowOffset v scale shown buf.length rows.length ≤ 4095 := by
  have hcap : pageSize - 1 = 4095 := rfl
  rw [WrittenWhole, hcap, Page.whole_iff hbuf, ← h.sum_texts, List.map_map]
  rfl

/-- A page is printed text by text. -/
theorem pageOf_eq (shown : UInt64 → UInt64) (buf : List UInt8) (rows : List Row) :
    pageOf shown buf rows = (texts shown rows).foldl scnprintf buf := by
  have hrows (histBuf : List UInt8) :
      rows.foldl (fun histBuf row ↦ row.print shown histBuf) histBuf =
        (rows.flatMap (Row.texts shown)).foldl scnprintf histBuf := by
    induction rows generalizing histBuf with
    | nil => rfl
    | cons row rows ih =>
      rw [List.foldl_cons, ih, Row.print_eq, ← List.foldl_append, List.flatMap_cons]
  rw [pageOf, hrows, texts, List.foldl_append]
  rfl

/-- How far some rows fill the page. -/
theorem RowsAt.length_pageOf {rows : List Row} (h : RowsAt v scale rows) {buf : List UInt8}
    (hbuf : buf.length ≤ 4095) :
    (pageOf shown buf rows).length =
      min 4095 (rowOffset v scale shown buf.length rows.length) := by
  rw [pageOf_eq, foldl_scnprintf _ hbuf, h.sum_texts]

/-! ### The last row -/

/-- No later row is reached where the loop is left, unless the page is full. -/
private theorem Finished.full_of_reached {buf : List UInt8} {s : State}
    (h : Finished v scale p95 shown buf s) {k : Nat} (hk : s.rows.length ≤ k)
    (hreached : Reached v scale p95 k) : 4026 ≤ s.histBuf.length := by
  have hpos : 0 < s.rows.length := List.length_pos_iff.mpr h.nonempty
  have htaken := v.taken_mono scale hk
  have hmore : v.taken scale s.rows.length < v.below (p95.toNat + 1) := by
    rcases hreached with hzero | hlt
    · omega
    · omega
  rw [← h.taken] at hmore
  have hi := Nat.lt_of_lt_of_le hmore (v.below_le _)
  rcases h.left with hend | ⟨-, hp95⟩ | hfull
  · rw [hend, v.toNat_total] at hi
    exact absurd hi (Nat.lt_irrefl _)
  · have hle := (v.lt_below_iff hi _).mp hmore
    rw [v.result_eq hi, UInt64.lt_iff_toNat_lt] at hp95
    omega
  · exact hfull

/-- What the loop leaves: the last of its rows began where the loop saw room, and it ends on the
page if all rows fit. -/
structure Printed (v : Results) (scale : Scale) (p95 : UInt64) (shown : UInt64 → UInt64)
    (buf : List UInt8) (s : State) : Prop extends Finished v scale p95 shown buf s where
  begins : rowOffset v scale shown buf.length (s.rows.length - 1) < 4026
  fit : rowOffset v scale shown buf.length s.rows.length ≤ 4095 ↔
    PageFits v scale p95 shown buf.length

/-- Where the loop is left, the last row began where it saw room. -/
private theorem Finished.begins {buf : List UInt8} {s : State}
    (h : Finished v scale p95 shown buf s) (hbuf : buf.length + 75 < 4026) :
    rowOffset v scale shown buf.length (s.rows.length - 1) < 4026 := by
  have hlength : s.rows.dropLast.length = s.rows.length - 1 := List.length_dropLast
  have hrows : RowsAt v scale s.rows.dropLast := by
    intro k hk
    rw [List.getElem_dropLast]
    exact h.rows k (by omega)
  rw [← hlength]
  by_cases hnil : s.rows.dropLast = []
  · rw [hnil]
    exact hbuf
  · have hroom := h.room hnil
    rw [hrows.length_pageOf (by omega)] at hroom
    omega

/-- The loop always ends with such a page. -/
theorem Finished.printed {buf : List UInt8} {s : State} (h : Finished v scale p95 shown buf s)
    (hbuf : buf.length + 75 < 4026) : Printed v scale p95 shown buf s := by
  have hpos : 0 < s.rows.length := List.length_pos_iff.mpr h.nonempty
  have hbegins := h.begins hbuf
  have hlast : s.rows.length - 1 + 1 = s.rows.length := Nat.succ_pred_eq_of_pos hpos
  refine { h with begins := hbegins, fit := ⟨?_, ?_⟩ }
  · intro hend k hreached hroom
    by_cases hk : k < s.rows.length
    · have hmono : rowOffset v scale shown buf.length (k + 1) ≤
          rowOffset v scale shown buf.length s.rows.length := rowOffset_mono _ hk
      exact Nat.le_trans hmono hend
    · -- A row behind the last one is reached only if the page is full.
      have hfull := h.full_of_reached (Nat.not_lt.mp hk) hreached
      have hmono : rowOffset v scale shown buf.length s.rows.length ≤
          rowOffset v scale shown buf.length k := rowOffset_mono _ (Nat.not_lt.mp hk)
      rw [h.page, h.rows.length_pageOf (by omega)] at hfull
      omega
  · intro hfit
    have hfits := hfit _ h.reached hbegins
    rw [hlast] at hfits
    exact hfits

/-- The loop always ends. -/
theorem display_printed (v : Results) (p95 : UInt64) (shown : UInt64 → UInt64)
    {buf : List UInt8} (hbuf : buf.length + 75 < 4026) :
    ∃ fuel s scale, v.scale p95 = some scale ∧ display v p95 shown buf fuel = some s ∧
      Printed v scale p95 shown buf s := by
  obtain ⟨fuel, s, scale, hscale, hrun, h⟩ := display_finished v p95 shown buf
  exact ⟨fuel, s, scale, hscale, hrun, h.printed hbuf⟩

/-- The histogram does not depend on the fuel. -/
theorem display_unique {v : Results} {p95 : UInt64} {shown : UInt64 → UInt64} {buf : List UInt8}
    {m n : Nat} {s s' : State} (hm : display v p95 shown buf m = some s)
    (hn : display v p95 shown buf n = some s') : s = s' := by
  obtain ⟨scale, hscale, hm⟩ := Option.bind_eq_some_iff.mp hm
  obtain ⟨scale', hscale', hn⟩ := Option.bind_eq_some_iff.mp hn
  obtain rfl : scale = scale' := Option.some.inj (hscale.symm.trans hscale')
  exact Loop.run_unique hm hn

end

/-! ### Samples below `2 ^ 32` -/

/-- The glyphs of the two bars of a row up to a bound. -/
def Results.glyphs (v : Results) (hi : Nat) : Nat := v.below hi * 50 / v.results.length

/-- The bytes of row `k`. -/
def rowBytes (v : Results) (scale : Scale) (shown : UInt64 → UInt64) (k : Nat) : Nat :=
  max 8 (digits (scale.bound k)) + 2 * v.glyphs (scale.bound (k + 1)) +
    max 8 (digits (shown (UInt64.ofNat
      (v.within (scale.bound k) (scale.bound (k + 1))))).toNat) + 57

/-- Where row `k` begins on a page with `before` bytes before the histogram. -/
def offset (v : Results) (scale : Scale) (shown : UInt64 → UInt64) (before k : Nat) : Nat :=
  before + 75 + ((List.range k).map (rowBytes v scale shown)).sum

/-- No row of the samples begins before the last 70 bytes of the page and ends behind it. -/
def RowsFit (v : Results) (scale : Scale) (p95 : UInt64) (shown : UInt64 → UInt64)
    (before : Nat) : Prop :=
  ∀ k, Due v scale p95 k → offset v scale shown before k < 4026 →
    offset v scale shown before (k + 1) ≤ 4095

section

variable {v : Samples} {scale : Scale} {p95 : UInt64} {shown : UInt64 → UInt64}

private theorem rowLength_eq (hlow : scale.start.toNat ≤ v.first.toNat)
    (hshare : scale.share.toNat < 2 ^ 61) {k : Nat} (hk : scale.bound k < 2 ^ 32) {j : Nat}
    (hj : j ≤ k) : rowLength v scale shown j = rowBytes v scale shown j := by
  have hlo := Results.taken_eq hlow hshare hk (Nat.le_succ_of_le hj)
  have hhi := Results.taken_eq hlow hshare hk (show j + 1 ≤ k + 1 from Nat.succ_le_succ hj)
  have hle : scale.bound j ≤ scale.bound (j + 1) := scale.bound_mono (Nat.le_succ j)
  have hwithin : v.taken scale (j + 1) - v.taken scale j =
      v.within (scale.bound j) (scale.bound (j + 1)) := by
    have hsum := v.below_add_within hle
    omega
  rw [rowLength, rowBytes, hwithin, Results.rowGlyphs, hhi, Results.glyphs,
    Scale.lower_eq hshare hk (Nat.le_succ_of_le hj)]

/-- The rows of small samples begin where their intervals say. -/
theorem rowOffset_eq (hlow : scale.start.toNat ≤ v.first.toNat)
    (hshare : scale.share.toNat < 2 ^ 61) {k : Nat} (hdue : Due v scale p95 k) (before : Nat)
    {j : Nat} (hj : j ≤ k + 1) :
    rowOffset v scale shown before j = offset v scale shown before j := by
  have hk := bound_lt_of_due hlow hdue
  have hrows : (List.range j).map (rowLength v scale shown) =
      (List.range j).map (rowBytes v scale shown) := by
    apply List.map_congr_left
    intro i hi
    have hi := List.mem_range.mp hi
    exact rowLength_eq hlow hshare hk (by omega)
  rw [rowOffset, offset, hrows]

/-- So they fit the page or not by their intervals. -/
theorem pageFits_iff (hlow : scale.start.toNat ≤ v.first.toNat)
    (hshare : scale.share.toNat < 2 ^ 61) (before : Nat) :
    PageFits v scale p95 shown before ↔ RowsFit v scale p95 shown before := by
  apply forall_congr'
  intro k
  rw [reached_iff_due hlow hshare]
  apply imp_congr_right
  intro hdue
  rw [rowOffset_eq hlow hshare hdue before (Nat.le_succ k),
    rowOffset_eq hlow hshare hdue before (Nat.le_refl (k + 1))]

end

/-- The loop always ends, and its rows are written whole exactly when the rows of the samples
fit the page. -/
theorem display_writtenWhole_iff (v : Samples) (p95 : UInt64) (shown : UInt64 → UInt64)
    {buf : List UInt8} (hbuf : buf.length + 75 < 4026) :
    ∃ fuel s scale, v.scale p95 = some scale ∧ display v p95 shown buf fuel = some s ∧
      (WrittenWhole shown buf s.rows ↔ RowsFit v scale p95 shown buf.length) := by
  obtain ⟨scale', hscale', hlow, -, hshare⟩ := scale_spec v p95
  obtain ⟨fuel, s, scale, hscale, hrun, h⟩ := display_printed v p95 shown hbuf
  obtain rfl : scale' = scale := Option.some.inj (hscale'.symm.trans hscale)
  refine ⟨fuel, s, scale', hscale, hrun, ?_⟩
  rw [h.rows.writtenWhole_iff (by omega), h.fit, pageFits_iff hlow hshare]

/-- Whatever the statistics say, in both modules every text of the histogram has room exactly
when no row of the samples begins before the last 70 bytes of the page and ends behind it. -/
theorem histogram_writtenWhole_iff (v : Samples) (o : OrderStatistics) (average batch : UInt64)
    (depth : Option Depth) :
    (∃ fuel s scale, v.scale o.p95 = some scale ∧
      displayStatistics v o.p95 batch (Ipv4.statisticsPage v o average batch) fuel = some s ∧
      (WrittenWhole (· * batch) (Ipv4.statisticsPage v o average batch) s.rows ↔
        RowsFit v scale o.p95 (· * batch) (Ipv4.statisticsPage v o average batch).length)) ∧
    (∃ fuel s scale, v.scale o.p95 = some scale ∧
      doBench v o.p95 (Ipv6.statisticsPage v o average batch depth) fuel = some s ∧
      (WrittenWhole id (Ipv6.statisticsPage v o average batch depth) s.rows ↔
        RowsFit v scale o.p95 id (Ipv6.statisticsPage v o average batch depth).length)) := by
  obtain ⟨h4, h6⟩ := length_statisticsPage_le v o average batch depth
  constructor
  · exact display_writtenWhole_iff v o.p95 _ (by omega)
  · exact display_writtenWhole_iff v o.p95 _ (by omega)

/-- Nineteen samples of 100 and one of 129. -/
def lateSample : Samples where
  results := List.replicate 19 100 ++ [129]
  nonempty := by decide
  sorted := by decide
  inMemory := by decide
  small := by simp

private theorem orderStatistics_lateSample :
    orderStatistics lateSample.results lateSample.total = .ok ⟨129, 100, 100, 0⟩ := by
  have hsort : sort lateSample.results = lateSample.results :=
    List.mergeSort_of_pairwise (by decide)
  have h95 : percentile 95 lateSample.results 20 = .ok 129 := by decide
  have h90 : percentile 90 lateSample.results 20 = .ok 100 := by decide
  have h50 : percentile 50 lateSample.results 20 = .ok 100 := by decide
  have hmad : mad lateSample.results 100 20 = .ok 0 := by
    have hdeviations : sort (lateSample.results.map (deviation 100)) =
        lateSample.results.map (deviation 100) := List.mergeSort_of_pairwise (by decide)
    rw [mad_eq _ (by decide), hdeviations]
    decide
  unfold orderStatistics
  rw [hsort]
  change (do
    let p95 ← percentile 95 lateSample.results 20
    let p90 ← percentile 90 lateSample.results 20
    let p50 ← percentile 50 lateSample.results 20
    let mad ← mad lateSample.results p50 20
    return OrderStatistics.mk p95 p90 p50 mad) = _
  rw [h95, h90, h50]
  change (do
    let mad ← mad lateSample.results 100 20
    return OrderStatistics.mk 129 100 100 mad) = _
  rw [hmad]
  rfl

/-- The twenty-fourth row of these samples is due. -/
theorem lateSample_due : Due lateSample ⟨100, 1⟩ 129 23 := Or.inr (by decide)

private theorem lateSample_cut_of_length {shown : UInt64 → UInt64} {buf : List UInt8}
    (hbuf : buf.length = 78) (hroom : offset lateSample ⟨100, 1⟩ shown 78 23 < 4026)
    (hend : 4095 < offset lateSample ⟨100, 1⟩ shown 78 24) :
    ∃ fuel s, display lateSample 129 shown buf fuel = some s ∧ ¬ WrittenWhole shown buf s.rows := by
  have hshort : buf.length + 75 < 4026 := by omega
  obtain ⟨fuel, s, scale, hscale, hrun, hwhole⟩ :=
    display_writtenWhole_iff lateSample 129 shown hshort
  have hscale' : lateSample.scale 129 = some ⟨100, 1⟩ := by decide
  obtain rfl : scale = ⟨100, 1⟩ := Option.some.inj (hscale.symm.trans hscale')
  refine ⟨fuel, s, hrun, ?_⟩
  rw [hwhole, hbuf]
  intro hfit
  exact absurd (hfit 23 lateSample_due hroom) (Nat.not_le.mpr hend)

private theorem length_lateSample (st : Statistics) (h : (bytes st.line).length = 78) :
    (scnprintf [] st.line).length = 78 := by
  have hcap : pageSize - 1 = 4095 := rfl
  rw [scnprintf_eq, hcap, Page.length_print (Nat.zero_le _), h]
  rfl

/-- With one sample 29 above the others each row but the last has 47 glyphs, and the
twenty-fourth row is cut: it begins before byte 4026 and ends behind byte 4095. -/
theorem lateSample_cut :
    orderStatistics lateSample.results lateSample.total = .ok ⟨129, 100, 100, 0⟩ ∧
    (∃ fuel s, displayStatistics lateSample 129 1
        (Ipv4.statisticsPage lateSample ⟨129, 100, 100, 0⟩ 101 1) fuel = some s ∧
      ¬ WrittenWhole (· * 1) (Ipv4.statisticsPage lateSample ⟨129, 100, 100, 0⟩ 101 1) s.rows) ∧
    (∃ fuel s, doBench lateSample 129
        (Ipv6.statisticsPage lateSample ⟨129, 100, 100, 0⟩ 101 1 none) fuel = some s ∧
      ¬ WrittenWhole id (Ipv6.statisticsPage lateSample ⟨129, 100, 100, 0⟩ 101 1 none) s.rows) := by
  refine ⟨orderStatistics_lateSample, ?_, ?_⟩
  · apply lateSample_cut_of_length
    · apply length_lateSample
      rw [length_line]
      decide
    · decide
    · decide
  · apply lateSample_cut_of_length
    · apply length_lateSample
      rw [length_line]
      decide
    · decide
    · decide

end NetworkLab.Kbench.Histogram
