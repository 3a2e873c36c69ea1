import NetworkLab.Kbench.Report

/-!
# The lines that a run prints

The page of a run as text: a statistics line or a message, lines that the reader of the report
passes over, and what is left of the last line of a histogram that does not fit.
-/

namespace NetworkLab.Kbench

open Lib Histogram

/-- The statistics line without its line end. -/
def Statistics.chars (s : Statistics) : List Char :=
  [' '].intercalate (s.fields.map fun f ↦ f.1.toList ++ '=' :: Nat.toDigits 10 f.2.toNat)

/-- The line of the depths without its line end. -/
def Depth.chars (d : Depth) : List Char :=
  ("table=" ++ toString d.table.toNat ++ " avgdepth=" ++ toString (d.avgdepth / 10).toNat ++ "." ++
    toString (d.avgdepth % 10).toNat ++ " maxdepth=" ++ toString d.maxdepth.toNat).toList

namespace Report

/-- A text without line ends that the reader of the report passes over. -/
structure IsPassed (l : List Char) : Prop where
  marker : ¬ ['#', '#', '#', ' '] <+: l
  min : ¬ ['m', 'i', 'n', '='] <+: l
  guest : ¬ "--- Guest".toList <+: l
  newline : '\n' ∉ l
  carriage : '\r' ∉ l

private theorem not_mem_toString (n : Nat) {c : Char} (hc : c.isDigit = false) :
    c ∉ (toString n).toList := by
  intro h
  rw [Nat.toString_eq_ofList_toDigits, String.toList_ofList] at h
  rw [Nat.isDigit_of_mem_toDigits (by decide) (by decide) h] at hc
  exact nomatch hc

private theorem not_mem_toString_int (i : Int) {c : Char} (hc : c.isDigit = false)
    (hneg : c ≠ '-') : c ∉ (toString i).toList := by
  cases i with
  | ofNat n => exact not_mem_toString n hc
  | negSucc n =>
    have hminus : (toString (Int.negSucc n)).toList = '-' :: (toString (n + 1)).toList := by
      change ("-" ++ toString (n + 1)).toList = _
      rw [String.toList_append]
      rfl
    rw [hminus, List.mem_cons, not_or]
    exact ⟨hneg, not_mem_toString (n + 1) hc⟩

private theorem mem_intercalate {sep : List Char} {ts : List (List Char)} {c : Char}
    (h : c ∈ sep.intercalate ts) : c ∈ sep ∨ ∃ t ∈ ts, c ∈ t := by
  induction ts with
  | nil => exact nomatch h
  | cons t ts ih =>
    cases ts with
    | nil =>
      rw [List.intercalate_singleton] at h
      exact .inr ⟨t, List.mem_cons_self, h⟩
    | cons u us =>
      rw [List.intercalate_cons_cons, List.mem_append, List.mem_append] at h
      rcases h with (h | h) | h
      · exact .inr ⟨t, List.mem_cons_self, h⟩
      · exact .inl h
      · rcases ih h with hsep | ⟨x, hx, hc⟩
        · exact .inl hsep
        · exact .inr ⟨x, List.mem_cons_of_mem _ hx, hc⟩

/-- The line that is printed. -/
theorem line_eq (s : Statistics) : s.line.toList = s.chars ++ ['\n'] := by
  rw [Statistics.line, String.toList_append, String.toList_intercalate, List.map_map,
    Statistics.chars]
  congr 2
  apply List.map_congr_left
  intro f _
  rw [Function.comp_apply, field, String.toList_append, String.toList_append, List.append_assoc,
    Nat.toString_eq_ofList_toDigits]
  simp only [String.toList_ofList]
  rfl

theorem depthLine_eq (d : Depth) : d.line.toList = d.chars ++ ['\n'] := by
  rw [Depth.line, String.toList_append]
  rfl

private theorem not_mem_chars (s : Statistics) {c : Char} (hc : c.isDigit = false)
    (hblank : c ≠ ' ') (heq : c ≠ '=')
    (hkeys : ∀ k ∈ ["min", "max", "count", "batch", "average", "95th", "90th", "50th", "mad"],
      c ∉ k.toList) : c ∉ s.chars := by
  intro h
  rcases mem_intercalate h with h | ⟨t, ht, h⟩
  · exact hblank (List.mem_singleton.mp h)
  · obtain ⟨f, hf, rfl⟩ := List.mem_map.mp ht
    have hkey : f.1 ∈ s.fields.map (·.1) := List.mem_map_of_mem hf
    rw [List.mem_append, List.mem_cons] at h
    rcases h with h | h | h
    · exact hkeys f.1 hkey h
    · exact heq h
    · rw [Nat.isDigit_of_mem_toDigits (by decide) (by decide) h] at hc
      exact nomatch hc

/-- A statistics line has no line end in it. -/
theorem chars_noBreak (s : Statistics) : '\n' ∉ s.chars ∧ '\r' ∉ s.chars :=
  ⟨not_mem_chars s (by decide) (by decide) (by decide) (by decide),
    not_mem_chars s (by decide) (by decide) (by decide) (by decide)⟩

private theorem not_mem_depth (d : Depth) {c : Char} (hc : c.isDigit = false)
    (hkeys : c ∉ "table= avgdepth=. maxdepth=".toList) : c ∉ d.chars := by
  simp only [Depth.chars, String.toList_append, List.mem_append, not_mem_toString _ hc, or_false]
  intro h
  apply hkeys
  revert h
  simp
  grind

/-- The line of the depths is passed over. -/
theorem isPassed_depth (d : Depth) : IsPassed d.chars where
  marker := by simp [Depth.chars]
  min := by simp [Depth.chars]
  guest := by simp [Depth.chars]
  newline := not_mem_depth d (by decide) (by decide)
  carriage := not_mem_depth d (by decide) (by decide)

/-- A text is passed over if its first character begins no mark. -/
theorem isPassed_of_head {c : Char} {l : List Char} (hhead : l.head? = some c)
    (hc : c ∉ ['#', 'm', '-']) (hl : '\n' ∉ l ∧ '\r' ∉ l) : IsPassed l := by
  obtain ⟨rest, rfl⟩ := List.head?_eq_some_iff.mp hhead
  have hmark {m : Char} {mark : List Char} (hm : m ∈ ['#', 'm', '-']) :
      ¬ m :: mark <+: c :: rest := by
    rw [List.cons_prefix_cons]
    rintro ⟨rfl, -⟩
    exact hc hm
  exact ⟨hmark (by decide), hmark (by decide), hmark (by decide), hl.1, hl.2⟩

/-- A line of a histogram is passed over. -/
theorem isPassed_histogram {l : List Char} (h : IsHistogramLine l) : IsPassed l :=
  isPassed_of_head h.head (by decide) ⟨h.newline, h.carriage⟩

/-! ### Pages -/

private theorem unlines_cons (l : List Char) (ls : List (List Char)) :
    unlines (l :: ls) = l ++ '\n' :: unlines ls := by
  rw [unlines, List.flatMap_cons, ← unlines, List.append_assoc, List.singleton_append]

private theorem scnprintf_of_le {buf : List UInt8} {text : String}
    (h : buf.length + (bytes text).length ≤ 4095) :
    scnprintf buf text = buf ++ Utf8.encode text.toList := by
  have hcap : pageSize - 1 = 4095 := rfl
  rw [scnprintf_eq, hcap, Page.print_of_le h, bytes, Utf8.toList_toUTF8]

private theorem scnprintf_line (s : Statistics) :
    scnprintf [] s.line = Utf8.encode (unlines [s.chars]) := by
  have hline := length_line_le s
  rw [scnprintf_of_le (by rw [List.length_nil]; omega), line_eq, unlines_cons]
  rfl

/-- The lines of the depths on a page. -/
def Measurement.depthLines (mod : Module) (m : Measurement) : List (List Char) :=
  match mod with
  | .ipv4 => []
  | .ipv6 => m.depth.toList.map Depth.chars

/-- The lines of a page before the histogram. -/
theorem Measurement.statisticsPage_eq (mod : Module) (m : Measurement) :
    m.statisticsPage mod =
      Utf8.encode (unlines ((m.statistics mod).chars :: m.depthLines mod)) := by
  cases mod with
  | ipv4 => exact scnprintf_line _
  | ipv6 =>
    unfold Measurement.statisticsPage Ipv6.statisticsPage Measurement.depthLines
    dsimp only
    cases m.depth with
    | none => exact scnprintf_line _
    | some d =>
      have hdepth := length_depthLine_le d
      have hline := length_line_le (Ipv6.statistics m.v m.o m.average m.batch)
      have hbuf : (scnprintf [] (Ipv6.statistics m.v m.o m.average m.batch).line).length ≤ 236 := by
        rw [scnprintf_eq, Page.print, List.length_append, List.length_nil, Nat.zero_add]
        exact Nat.le_trans (List.length_take_le' _ _) hline
      dsimp only
      rw [scnprintf_of_le (by omega), scnprintf_line, depthLine_eq, ← Utf8.encode_append]
      simp [unlines, Measurement.statistics]

private theorem Measurement.length_statisticsPage (mod : Module) (m : Measurement) :
    (m.statisticsPage mod).length ≤ 326 := by
  obtain ⟨h4, h6⟩ := length_statisticsPage_le m.v m.o m.average m.batch m.depth
  cases mod with
  | ipv4 => exact h4
  | ipv6 => exact h6

private theorem Measurement.histogram_eq (mod : Module) (m : Measurement) (fuel : Nat) :
    m.histogram mod fuel =
      display m.v m.o.p95 (m.shown mod) (m.statisticsPage mod) fuel := by
  cases mod with
  | ipv4 => rfl
  | ipv6 => rfl

private theorem Measurement.histogram_printed (mod : Module) (m : Measurement) :
    ∃ fuel s scale, m.v.scale m.o.p95 = some scale ∧ m.histogram mod fuel = some s ∧
      Printed m.v scale m.o.p95 (m.shown mod) (m.statisticsPage mod) s := by
  have hlength := m.length_statisticsPage mod
  obtain ⟨fuel, s, scale, hscale, hrun, hprinted⟩ := display_printed m.v m.o.p95 (m.shown mod)
    (show (m.statisticsPage mod).length + 75 < 4026 by omega)
  rw [← Measurement.histogram_eq] at hrun
  exact ⟨fuel, s, scale, hscale, hrun, hprinted⟩

/-- Every histogram ends, whatever is measured. -/
theorem Measurement.exists_page (mod : Module) (m : Measurement) :
    ∃ fuel output, m.page mod fuel = some output := by
  unfold Measurement.page
  by_cases hverbose : m.verbose = true
  · obtain ⟨fuel, s, -, -, hrun, -⟩ := m.histogram_printed mod
    refine ⟨fuel, s.histBuf, ?_⟩
    rw [if_pos hverbose, hrun]
    rfl
  · exact ⟨0, _, if_neg hverbose⟩

/-- The state that a histogram is left in. -/
theorem Measurement.printed {mod : Module} {m : Measurement} {fuel : Nat} {output : List UInt8}
    (hverbose : m.verbose = true) (h : m.page mod fuel = some output) :
    ∃ s scale, m.v.scale m.o.p95 = some scale ∧ s.histBuf = output ∧
      Printed m.v scale m.o.p95 (m.shown mod) (m.statisticsPage mod) s := by
  rw [Measurement.page, if_pos hverbose] at h
  obtain ⟨s, hrun, rfl⟩ := Option.map_eq_some_iff.mp h
  obtain ⟨fuel', s', scale, hscale, hrun', hprinted⟩ := m.histogram_printed mod
  rw [Measurement.histogram_eq] at hrun hrun'
  obtain rfl := display_unique hrun hrun'
  exact ⟨s, scale, hscale, rfl, hprinted⟩

/-! ### Sheets -/

/-- The first line of a run. -/
def FirstLine (stats : Option Statistics) (l : List Char) : Prop :=
  match stats with
  | some st => l = st.chars
  | none => IsPassed l

/-- What is on the page of a run: its first line, lines that are passed over, and the rest of a
row of the histogram. -/
structure Sheet (mod : Module) (outcome : Outcome) (first : List Char) (others : List (List Char))
    (rest : List Char) : Prop where
  first : FirstLine (outcome.statistics? mod) first
  others : ∀ l ∈ others, IsPassed l
  rest : rest = [] ∧ ¬ outcome.Overflows mod ∨ IsHistogramLine rest ∧ outcome.Overflows mod

/-- A run whose page ends within a glyph. -/
theorem Outcome.exists_cut {mod : Module} {outcome : Outcome} {fuel : Nat} {output : List UInt8}
    (h : outcome.page mod fuel = some output) (hcut : outcome.CutsGlyph mod) :
    ∃ cs c m, 0 < m ∧ m < c.utf8Size ∧
      output = Utf8.encode cs ++ (String.utf8EncodeChar c).take m := by
  cases outcome with
  | measured meas =>
    obtain ⟨hverbose, scale, hscale, hglyph⟩ := hcut
    obtain ⟨s, scale', hscale', rfl, hprinted⟩ := Measurement.printed hverbose h
    obtain rfl : scale = scale' := Option.some.inj (hscale.symm.trans hscale')
    have hlength := meas.length_statisticsPage mod
    obtain ⟨cs, c, m, hpos, hm, hpage⟩ :=
      (hprinted.page_of_cut (by omega) hglyph.not_pageFits).1 hglyph
    refine ⟨unlines ((meas.statistics mod).chars :: meas.depthLines mod) ++ cs, c, m, hpos, hm, ?_⟩
    rw [hpage, meas.statisticsPage_eq, ← Utf8.encode_append]
  | noMemory => exact nomatch hcut
  | lookupError err => exact nomatch hcut
  | noMatch => exact nomatch hcut

private theorem isPassed_depthLines {mod : Module} {m : Measurement} {l : List Char}
    (h : l ∈ m.depthLines mod) : IsPassed l := by
  cases mod with
  | ipv4 => exact nomatch h
  | ipv6 =>
    obtain ⟨d, -, rfl⟩ := List.mem_map.mp h
    exact isPassed_depth d

private theorem Measurement.exists_sheet {mod : Module} {m : Measurement} {fuel : Nat}
    {output : List UInt8} (h : m.page mod fuel = some output) (hcut : ¬ m.CutsGlyph mod) :
    ∃ first others rest, output = Utf8.encode (unlines (first :: others) ++ rest) ∧
      Sheet mod (.measured m) first others rest := by
  by_cases hverbose : m.verbose = true
  · obtain ⟨s, scale, hscale, rfl, hprinted⟩ := Measurement.printed hverbose h
    have hlength := m.length_statisticsPage mod
    by_cases hfit : PageFits m.v scale m.o.p95 (m.shown mod) (m.statisticsPage mod).length
    · refine ⟨(m.statistics mod).chars,
        m.depthLines mod ++ histogramLines (m.shown mod) s.rows, [], ?_, rfl, ?_, .inl ⟨rfl, ?_⟩⟩
      · rw [hprinted.page_of_fit (by omega) hfit, m.statisticsPage_eq, ← Utf8.encode_append]
        simp [unlines]
      · intro l hl
        rcases List.mem_append.mp hl with hl | hl
        · exact isPassed_depthLines hl
        · exact isPassed_histogram (isHistogramLine hl)
      · rintro ⟨-, scale', hscale', hnot⟩
        obtain rfl : scale = scale' := Option.some.inj (hscale.symm.trans hscale')
        exact hnot hfit
    · obtain ⟨ls, rest, hls, hrest, hpage⟩ :=
        (hprinted.page_of_cut (by omega) hfit).2 fun hglyph ↦ hcut ⟨hverbose, scale, hscale, hglyph⟩
      refine ⟨(m.statistics mod).chars, m.depthLines mod ++ ls, rest, ?_, rfl, ?_,
        .inr ⟨hrest, hverbose, scale, hscale, hfit⟩⟩
      · rw [hpage, m.statisticsPage_eq, ← Utf8.encode_append]
        simp [unlines]
      · intro l hl
        rcases List.mem_append.mp hl with hl | hl
        · exact isPassed_depthLines hl
        · exact isPassed_histogram (hls l hl)
  · rw [Measurement.page, if_neg hverbose] at h
    refine ⟨(m.statistics mod).chars, m.depthLines mod, [], ?_, rfl,
      fun l hl ↦ isPassed_depthLines hl, .inl ⟨rfl, fun hover ↦ hverbose hover.1⟩⟩
    rw [List.append_nil, ← m.statisticsPage_eq]
    exact (Option.some.inj h).symm

private theorem utf8ByteSize_int (err : Int32) : (toString err.toInt).utf8ByteSize ≤ 11 := by
  have hlow := err.le_toInt
  have hhigh := err.toInt_lt
  cases herr : err.toInt with
  | ofNat n =>
    have hcast : err.toInt = (n : Int) := herr
    have hdigits : digits n ≤ 10 :=
      (Nat.length_toDigits_le_iff (by decide) (by decide)).mpr (by omega)
    have hsize := utf8ByteSize_toString n
    change (toString n).utf8ByteSize ≤ 11
    omega
  | negSucc n =>
    have hdigits : digits (n + 1) ≤ 10 :=
      (Nat.length_toDigits_le_iff (by decide) (by decide)).mpr (by omega)
    have hsize := utf8ByteSize_toString (n + 1)
    have hminus : "-".utf8ByteSize = 1 := by decide
    change ("-" ++ toString (n + 1)).utf8ByteSize ≤ 11
    rw [String.utf8ByteSize_append]
    omega

private theorem exists_sheet_message {mod : Module} {outcome : Outcome} {text : String}
    {l : List Char} (htext : text.toList = l ++ ['\n']) (hlength : text.utf8ByteSize ≤ 4095)
    (hl : IsPassed l) (hnone : outcome.statistics? mod = none)
    (hover : ¬ outcome.Overflows mod) :
    ∃ first others rest, scnprintf [] text = Utf8.encode (unlines (first :: others) ++ rest) ∧
      Sheet mod outcome first others rest := by
  refine ⟨l, [], [], ?_, ?_, (fun _ hmem ↦ nomatch hmem), .inl ⟨rfl, hover⟩⟩
  · have hbytes : (bytes text).length = text.utf8ByteSize := Utf8.length_toUTF8 text
    rw [scnprintf_of_le (by rw [List.length_nil]; omega), htext, unlines_cons]
    simp [unlines]
  · rw [hnone]
    exact hl

/-- The page of a run that does not end within a glyph. -/
theorem Outcome.exists_sheet {mod : Module} {outcome : Outcome} {fuel : Nat}
    {output : List UInt8} (h : outcome.page mod fuel = some output)
    (hcut : ¬ outcome.CutsGlyph mod) :
    ∃ first others rest, output = Utf8.encode (unlines (first :: others) ++ rest) ∧
      Sheet mod outcome first others rest := by
  cases outcome with
  | measured m => exact Measurement.exists_sheet h hcut
  | noMemory =>
    obtain rfl := Option.some.inj h
    exact exists_sheet_message (l := "msg=\"no memory\"".toList) (by decide) (by decide)
      ⟨by decide, by decide, by decide, by decide, by decide⟩ rfl id
  | noMatch =>
    obtain rfl := Option.some.inj h
    exact exists_sheet_message (l := "msg=\"no match\"".toList) (by decide) (by decide)
      ⟨by decide, by decide, by decide, by decide, by decide⟩ rfl id
  | lookupError err =>
    obtain rfl := Option.some.inj h
    have hsize := utf8ByteSize_int err
    have hmarks : "err=".utf8ByteSize = 4 ∧ " msg=\"lookup error\"\n".utf8ByteSize = 20 := by decide
    refine exists_sheet_message (l := "err=".toList ++ (toString err.toInt).toList ++
      " msg=\"lookup error\"".toList) ?_ ?_ ⟨?_, ?_, ?_, ?_, ?_⟩ rfl id
    · rw [String.toList_append, String.toList_append, List.append_assoc _ _ ['\n']]
      rfl
    · rw [String.utf8ByteSize_append, String.utf8ByteSize_append]
      omega
    · simp
    · simp
    · simp
    · rw [List.mem_append, List.mem_append, not_or, not_or]
      exact ⟨⟨by decide, not_mem_toString_int _ (by decide) (by decide)⟩, by decide⟩
    · rw [List.mem_append, List.mem_append, not_or, not_or]
      exact ⟨⟨by decide, not_mem_toString_int _ (by decide) (by decide)⟩, by decide⟩

end Report
end NetworkLab.Kbench
