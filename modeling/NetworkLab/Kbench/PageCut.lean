import NetworkLab.Kbench.HistogramPage
import NetworkLab.Lib.PyText

/-!
# Where a histogram is cut

The page of a histogram as text: its lines, and what is left of the last one where the page ends
within it. Whether that is within one of the glyphs of three bytes follows from the samples.
-/

namespace NetworkLab.Kbench.Histogram

open Lib

/-! ### Lines -/

/-- The line over the histogram. -/
def headerLine : List Char :=
  (" " ++ leftpad 8 "value" ++ " │" ++ leftpad 25 "" ++ "┊" ++ leftpad 24 "" ++ " " ++
    leftpad 8 "count").toList

/-- A row up to its bar. -/
def Row.front (row : Row) : List Char :=
  (" " ++ leftpad 8 (toString row.start.toNat) ++ " ").toList

/-- The glyphs of a row. -/
def Row.bar (row : Row) : List Char :=
  '│' :: (List.replicate row.dark '▒' ++ List.replicate row.light '░')

/-- A row behind its bar. -/
def Row.back (shown : UInt64 → UInt64) (row : Row) : List Char :=
  (leftpad row.padding.toInt.natAbs "" ++ " " ++
    leftpad 8 (toString (shown row.count).toNat)).toList

/-- The line of a row. -/
def Row.line (shown : UInt64 → UInt64) (row : Row) : List Char :=
  row.front ++ row.bar ++ row.back shown

/-- The lines of a histogram with some rows. -/
def histogramLines (shown : UInt64 → UInt64) (rows : List Row) : List (List Char) :=
  headerLine :: rows.map (Row.line shown)

private theorem bytes_eq (text : String) : bytes text = Utf8.encode text.toList :=
  Utf8.toList_toUTF8 text

private theorem flatten_bytes (ts : List String) :
    (ts.map bytes).flatten = Utf8.encode (ts.flatMap String.toList) := by
  induction ts with
  | nil => rfl
  | cons t ts ih =>
    rw [List.map_cons, List.flatten_cons, ih, List.flatMap_cons, Utf8.encode_append, bytes_eq]

private theorem flatMap_headerTexts : headerTexts.flatMap String.toList = headerLine ++ ['\n'] := by
  decide

private theorem flatMap_texts (shown : UInt64 → UInt64) (row : Row) :
    (row.texts shown).flatMap String.toList = row.line shown ++ ['\n'] := by
  have hdark (n : Nat) : (List.replicate n "▒").flatMap String.toList = List.replicate n '▒' := by
    induction n with
    | zero => rfl
    | succ n ih => rw [List.replicate_succ, List.flatMap_cons, ih]; rfl
  have hlight (n : Nat) : (List.replicate n "░").flatMap String.toList = List.replicate n '░' := by
    induction n with
    | zero => rfl
    | succ n ih => rw [List.replicate_succ, List.flatMap_cons, ih]; rfl
  rw [Row.texts, List.flatMap_cons, List.flatMap_append, List.flatMap_append, hdark, hlight]
  simp [Row.line, Row.front, Row.bar, Row.back]

/-- The texts of a histogram make up its lines. -/
theorem flatten_texts (shown : UInt64 → UInt64) (rows : List Row) :
    ((texts shown rows).map bytes).flatten =
      Utf8.encode ((histogramLines shown rows).flatMap (· ++ ['\n'])) := by
  have hrows : (rows.flatMap (Row.texts shown)).flatMap String.toList =
      (rows.map (Row.line shown)).flatMap (· ++ ['\n']) := by
    rw [List.flatMap_assoc, List.flatMap_map]
    exact congrArg (List.flatMap · rows) (funext (flatMap_texts shown))
  rw [flatten_bytes, texts, List.flatMap_append, flatMap_headerTexts, hrows, histogramLines,
    List.flatMap_cons]

/-- A line of a histogram: it begins with a blank and has no line end in it. -/
structure IsHistogramLine (l : List Char) : Prop where
  head : l.head? = some ' '
  newline : '\n' ∉ l
  carriage : '\r' ∉ l

private theorem leftpad_toList (width : Nat) (text : String) :
    (leftpad width text).toList = List.replicate (width - text.length) ' ' ++ text.toList := by
  rw [leftpad, String.toList_append, String.toList_ofList]

private theorem mem_number {width n : Nat} {c : Char}
    (h : c ∈ (leftpad width (toString n)).toList) : c = ' ' ∨ c.isDigit = true := by
  rw [leftpad_toList, List.mem_append] at h
  rcases h with h | h
  · exact .inl (List.eq_of_mem_replicate h)
  · rw [Nat.toString_eq_ofList_toDigits, String.toList_ofList] at h
    exact .inr (Nat.isDigit_of_mem_toDigits (by decide) (by decide) h)

theorem Row.mem_front {row : Row} {c : Char} (h : c ∈ row.front) : c = ' ' ∨ c.isDigit = true := by
  simp only [Row.front, String.toList_append, List.mem_append] at h
  rcases h with (h | h) | h
  · exact .inl (List.mem_singleton.mp h)
  · exact mem_number h
  · exact .inl (List.mem_singleton.mp h)

theorem Row.mem_back {shown : UInt64 → UInt64} {row : Row} {c : Char} (h : c ∈ row.back shown) :
    c = ' ' ∨ c.isDigit = true := by
  simp only [Row.back, String.toList_append, List.mem_append] at h
  rcases h with (h | h) | h
  · rw [leftpad_toList, List.mem_append] at h
    exact .inl (List.eq_of_mem_replicate (h.resolve_right (List.not_mem_nil)))
  · exact .inl (List.mem_singleton.mp h)
  · exact mem_number h

theorem Row.mem_bar {row : Row} {c : Char} (h : c ∈ row.bar) : c = '│' ∨ c = '▒' ∨ c = '░' := by
  rw [Row.bar, List.mem_cons, List.mem_append] at h
  rcases h with h | h | h
  · exact .inl h
  · exact .inr (.inl (List.eq_of_mem_replicate h))
  · exact .inr (.inr (List.eq_of_mem_replicate h))

private theorem not_mem_line {shown : UInt64 → UInt64} {row : Row} {c : Char}
    (hc : c ≠ ' ' ∧ c.isDigit = false ∧ c ≠ '│' ∧ c ≠ '▒' ∧ c ≠ '░') : c ∉ row.line shown := by
  intro h
  rw [Row.line, List.mem_append, List.mem_append] at h
  rcases h with (h | h) | h
  · have := Row.mem_front h
    simp_all
  · have := Row.mem_bar h
    simp_all
  · have := Row.mem_back h
    simp_all

/-- The line of a row is one. -/
theorem Row.isHistogramLine (shown : UInt64 → UInt64) (row : Row) :
    IsHistogramLine (row.line shown) := by
  refine ⟨?_, not_mem_line (by decide), not_mem_line (by decide)⟩
  simp [Row.line, Row.front]

/-- The lines of a histogram are such lines. -/
theorem isHistogramLine {shown : UInt64 → UInt64} {rows : List Row} {l : List Char}
    (h : l ∈ histogramLines shown rows) : IsHistogramLine l := by
  rcases List.mem_cons.mp h with rfl | h
  · exact ⟨by decide, by decide, by decide⟩
  · obtain ⟨row, -, rfl⟩ := List.mem_map.mp h
    exact row.isHistogramLine shown

/-! ### The cut -/

/-- The page ends within a glyph of a row of the samples: the row begins before the last 70 bytes
of the page, and so many of its bytes have room that the last of them are not a whole glyph. -/
def GlyphCut (v : Results) (scale : Scale) (p95 : UInt64) (shown : UInt64 → UInt64)
    (before : Nat) : Prop :=
  ∃ k, Reached v scale p95 k ∧ rowOffset v scale shown before k < 4026 ∧
    4095 < rowOffset v scale shown before k + (max 8 (digits (scale.lower k)) + 2) +
      3 * (v.rowGlyphs scale k + 1) ∧
    (4095 - rowOffset v scale shown before k - (max 8 (digits (scale.lower k)) + 2)) % 3 ≠ 0

variable {v : Results} {scale : Scale} {p95 : UInt64} {shown : UInt64 → UInt64}

private theorem size_of_ascii {c : Char} (h : c = ' ' ∨ c.isDigit = true) : c.utf8Size = 1 := by
  rcases h with rfl | h
  · rfl
  · exact utf8Size_of_isDigit h

private theorem size_of_glyph {row : Row} {c : Char} (h : c ∈ row.bar) : c.utf8Size = 3 := by
  rcases Row.mem_bar h with rfl | rfl | rfl
  · rfl
  · rfl
  · rfl

private theorem size_behind {row : Row} {c : Char} (h : c ∈ row.back shown ++ ['\n']) :
    c.utf8Size = 1 := by
  rcases List.mem_append.mp h with h | h
  · exact size_of_ascii (Row.mem_back h)
  · rw [List.mem_singleton.mp h]
    rfl

/-- The columns before the glyphs of a row. -/
theorem RowAt.length_front {k : Nat} {row : Row} (h : RowAt v scale k row) :
    row.front.length = max 8 (digits (scale.lower k)) + 2 := by
  have hdigits : (toString row.start.toNat).toList.length = digits (scale.lower k) := by
    rw [Nat.toString_eq_ofList_toDigits, String.toList_ofList, h.start, digits]
  rw [Row.front, String.toList_append, String.toList_append, List.length_append,
    List.length_append, leftpad_toList, List.length_append, List.length_replicate, hdigits,
    ← String.length_toList, hdigits]
  change 1 + _ + 1 = _
  omega

/-- The glyphs of a row. -/
theorem RowAt.length_bar {k : Nat} {row : Row} (h : RowAt v scale k row) :
    row.bar.length = v.rowGlyphs scale k + 1 := by
  rw [Row.bar, List.length_cons, List.length_append, List.length_replicate, List.length_replicate,
    h.dark_add_light]

/-- The page is cut in its last row if anywhere. -/
theorem Printed.page_eq {buf : List UInt8} {s : State} (h : Printed v scale p95 shown buf s)
    (hbuf : buf.length ≤ 4095) :
    ∃ rows row, s.rows = rows ++ [row] ∧ RowAt v scale rows.length row ∧
      s.histBuf =
        buf ++ Utf8.encode ((histogramLines shown rows).flatMap (· ++ ['\n'])) ++
          (Utf8.encode (row.line shown ++ ['\n'])).take
            (4095 - rowOffset v scale shown buf.length rows.length) := by
  obtain ⟨rows, row, hrows⟩ := List.eq_nil_or_concat' s.rows |>.resolve_left h.nonempty
  have hrow := h.rows rows.length (by rw [hrows, List.length_append]; exact Nat.lt_succ_self _)
  have hinit : RowsAt v scale rows := by
    intro k hk
    have hk' := h.rows k (by rw [hrows, List.length_append]; exact Nat.lt_add_right _ hk)
    simpa only [hrows, List.getElem_append_left hk] using hk'
  have hlines : (histogramLines shown s.rows).flatMap (· ++ ['\n']) =
      (histogramLines shown rows).flatMap (· ++ ['\n']) ++ (row.line shown ++ ['\n']) := by
    simp [histogramLines, hrows]
  have hlength : buf.length +
      (Utf8.encode ((histogramLines shown rows).flatMap (· ++ ['\n']))).length =
        rowOffset v scale shown buf.length rows.length := by
    rw [← flatten_texts, List.length_flatten, List.map_map, ← hinit.sum_texts]
    rfl
  have hroom := h.begins
  rw [hrows, List.length_append, List.length_singleton, Nat.add_sub_cancel] at hroom
  refine ⟨rows, row, hrows, by simpa only [hrows, List.getElem_concat_length] using hrow, ?_⟩
  have hfold : s.histBuf = ((texts shown s.rows).map bytes).foldl (Page.print 4095) buf := by
    rw [h.page, pageOf_eq, List.foldl_map]
    rfl
  rw [hfold, Page.foldl_print hbuf, flatten_texts, hlines, Utf8.encode_append,
    ← List.append_assoc, List.take_append, List.length_append, hlength, List.take_of_length_le]
  rw [List.length_append, hlength]
  omega

private theorem digits_front {k : Nat} {row : Row} (h : RowAt v scale k row) :
    max 8 (digits (scale.lower k)) ≤ 20 := by
  have hdigits := digits_le row.start
  rw [h.start] at hdigits
  omega

/-- The row that begins before the last 70 bytes of the page and ends behind it is the last one
on the page. -/
theorem Printed.last_of_cut {buf : List UInt8} {s : State}
    (h : Printed v scale p95 shown buf s) {k : Nat} (hreached : Reached v scale p95 k)
    (hroom : rowOffset v scale shown buf.length k < 4026)
    (hcut : 4095 < rowOffset v scale shown buf.length (k + 1)) : k + 1 = s.rows.length := by
  have hpos : 0 < s.rows.length := List.length_pos_iff.mpr h.nonempty
  have hlast := h.begins
  rcases Nat.lt_trichotomy (k + 1) s.rows.length with hlt | heq | hgt
  · have hmono : rowOffset v scale shown buf.length (k + 1) ≤
        rowOffset v scale shown buf.length (s.rows.length - 1) := rowOffset_mono _ (by omega)
    omega
  · exact heq
  · have hmono : rowOffset v scale shown buf.length s.rows.length ≤
        rowOffset v scale shown buf.length k := rowOffset_mono _ (by omega)
    have hfit := h.fit.mp (by omega) k hreached hroom
    omega

/-- The glyphs of a row end before the row does. -/
theorem glyphs_le_rowOffset (before k : Nat) :
    rowOffset v scale shown before k + (max 8 (digits (scale.lower k)) + 2) +
        3 * (v.rowGlyphs scale k + 1) ≤ rowOffset v scale shown before (k + 1) := by
  have hfull := v.rowGlyphs_le scale k
  rw [rowOffset_succ, rowLength]
  omega

/-- A glyph is cut only where a row is. -/
theorem GlyphCut.not_pageFits {before : Nat} (h : GlyphCut v scale p95 shown before) :
    ¬ PageFits v scale p95 shown before := by
  obtain ⟨k, hreached, hroom, hbar, -⟩ := h
  intro hfit
  have hend := hfit k hreached hroom
  have hglyphs := @glyphs_le_rowOffset v scale shown before k
  omega

/-- Only the row in which the page ends is cut, and not where whole glyphs have room. -/
theorem not_glyphCut {before k : Nat} (hroom : rowOffset v scale shown before k ≤ 4095)
    (hnext : 4026 ≤ rowOffset v scale shown before (k + 1))
    (hrem : (4095 - rowOffset v scale shown before k -
      (max 8 (digits (scale.lower k)) + 2)) % 3 = 0) :
    ¬ GlyphCut v scale p95 shown before := by
  rintro ⟨j, -, hroom', hbar, hrem'⟩
  rcases Nat.lt_trichotomy j k with hlt | rfl | hgt
  · have hglyphs := @glyphs_le_rowOffset v scale shown before j
    have hmono : rowOffset v scale shown before (j + 1) ≤ rowOffset v scale shown before k :=
      rowOffset_mono _ hlt
    omega
  · exact hrem' hrem
  · have hmono : rowOffset v scale shown before (k + 1) ≤ rowOffset v scale shown before j :=
      rowOffset_mono _ hgt
    omega

private theorem length_line_newline {k : Nat} {row : Row} (h : RowAt v scale k row) :
    (Utf8.encode (row.line shown ++ ['\n'])).length = rowLength v scale shown k := by
  rw [← flatMap_texts, ← flatten_bytes, List.length_flatten, List.map_map, ← h.sum_texts]
  rfl

/-- If all rows fit, the page has the lines of the histogram. -/
theorem Printed.page_of_fit {buf : List UInt8} {s : State}
    (h : Printed v scale p95 shown buf s) (hbuf : buf.length ≤ 4095)
    (hfit : PageFits v scale p95 shown buf.length) :
    s.histBuf = buf ++ Utf8.encode ((histogramLines shown s.rows).flatMap (· ++ ['\n'])) := by
  obtain ⟨rows, row, hrows, hrow, hpage⟩ := h.page_eq hbuf
  have hend := h.fit.mpr hfit
  rw [hrows, List.length_append, List.length_singleton, rowOffset_succ] at hend
  have hlines : (histogramLines shown s.rows).flatMap (· ++ ['\n']) =
      (histogramLines shown rows).flatMap (· ++ ['\n']) ++ (row.line shown ++ ['\n']) := by
    simp [histogramLines, hrows]
  rw [hpage, List.take_of_length_le, List.append_assoc, ← Utf8.encode_append, hlines]
  rw [length_line_newline hrow]
  omega

private theorem isHistogramLine_of_prefix {l rest : List Char} (hl : IsHistogramLine l)
    (hpre : rest <+: l ++ ['\n']) (hne : rest ≠ []) (hne' : rest ≠ l ++ ['\n']) :
    IsHistogramLine rest := by
  have hpre : rest <+: l := (List.prefix_concat_iff.mp hpre).resolve_left hne'
  obtain ⟨c, rest, rfl⟩ := List.exists_cons_of_ne_nil hne
  obtain ⟨more, hmore⟩ := hpre
  refine ⟨?_, fun hmem ↦ hl.newline ?_, fun hmem ↦ hl.carriage ?_⟩
  · rw [← hl.head, ← hmore]
    rfl
  · rw [← hmore]
    exact List.mem_append_left _ hmem
  · rw [← hmore]
    exact List.mem_append_left _ hmem

/-- If a row does not fit, the page ends in it: within a glyph, or between two characters of
its line. -/
theorem Printed.page_of_cut {buf : List UInt8} {s : State}
    (h : Printed v scale p95 shown buf s) (hbuf : buf.length ≤ 4095)
    (hcut : ¬ PageFits v scale p95 shown buf.length) :
    (GlyphCut v scale p95 shown buf.length → ∃ cs c m, 0 < m ∧ m < c.utf8Size ∧
      s.histBuf = buf ++ Utf8.encode cs ++ (String.utf8EncodeChar c).take m) ∧
    (¬ GlyphCut v scale p95 shown buf.length → ∃ (ls : List (List Char)) (rest : List Char),
      (∀ l ∈ ls, IsHistogramLine l) ∧ IsHistogramLine rest ∧
        s.histBuf = buf ++ Utf8.encode (ls.flatMap (· ++ ['\n']) ++ rest)) := by
  obtain ⟨rows, row, hrows, hrow, hpage⟩ := h.page_eq hbuf
  have hlength : s.rows.length = rows.length + 1 := by
    rw [hrows, List.length_append, List.length_singleton]
  have hend : 4095 < rowOffset v scale shown buf.length (rows.length + 1) := by
    rw [← hlength]
    exact Nat.not_le.mp fun hle ↦ hcut (h.fit.mp hle)
  have hroom : rowOffset v scale shown buf.length rows.length < 4026 := by
    have hlast := h.begins
    rwa [hlength, Nat.add_sub_cancel] at hlast
  have hreached : Reached v scale p95 rows.length := by
    have hlast := h.reached
    rwa [hlength, Nat.add_sub_cancel] at hlast
  have hfront := hrow.length_front
  have hbar := hrow.length_bar
  have hcolumns := digits_front hrow
  have htake := Utf8.take_encode_between
    (fun c (hc : c ∈ row.front) ↦ size_of_ascii (Row.mem_front hc))
    (fun c (hc : c ∈ row.bar) ↦ size_of_glyph hc)
    (fun c (hc : c ∈ row.back shown ++ ['\n']) ↦ size_behind hc)
    (show row.front.length ≤ 4095 - rowOffset v scale shown buf.length rows.length by omega)
  have hglyph : GlyphCut v scale p95 shown buf.length ↔
      4095 - rowOffset v scale shown buf.length rows.length <
          row.front.length + 3 * row.bar.length ∧
        (4095 - rowOffset v scale shown buf.length rows.length - row.front.length) % 3 ≠ 0 := by
    rw [hfront, hbar]
    constructor
    · rintro ⟨k, hreached', hroom', hbar', hrem⟩
      have hglyphs := @glyphs_le_rowOffset v scale shown buf.length k
      have hk := h.last_of_cut hreached' hroom' (by omega)
      obtain rfl : k = rows.length := by omega
      exact ⟨by omega, hrem⟩
    · rintro ⟨hbar', hrem⟩
      exact ⟨rows.length, hreached, hroom, by omega, hrem⟩
  rw [← List.append_assoc, ← Row.line] at htake
  constructor
  · intro hin
    rw [if_pos (hglyph.mp hin)] at htake
    obtain ⟨cs, c, m, hpos, hm, heq⟩ := htake
    refine ⟨(histogramLines shown rows).flatMap (· ++ ['\n']) ++ cs, c, m, hpos, hm, ?_⟩
    rw [hpage, heq, Utf8.encode_append _ cs, ← List.append_assoc, ← List.append_assoc]
  · intro hout
    rw [if_neg (fun hin ↦ hout (hglyph.mpr hin))] at htake
    obtain ⟨cs, hpre, heq⟩ := htake
    have hwhole : (Utf8.encode (row.line shown ++ ['\n'])).length =
        rowLength v scale shown rows.length := length_line_newline hrow
    have hbytes := congrArg List.length heq
    rw [List.length_take, hwhole] at hbytes
    rw [rowOffset_succ] at hend
    refine ⟨histogramLines shown rows, cs, fun l hl ↦ isHistogramLine hl,
      isHistogramLine_of_prefix (row.isHistogramLine shown) hpre ?_ ?_, ?_⟩
    · intro hcs
      rw [hcs, Utf8.encode_nil, List.length_nil] at hbytes
      omega
    · intro hcs
      rw [hcs, hwhole] at hbytes
      omega
    · rw [hpage, heq, Utf8.encode_append _ cs, ← List.append_assoc]

end NetworkLab.Kbench.Histogram
