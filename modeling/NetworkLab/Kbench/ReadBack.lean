import NetworkLab.Kbench.Plot
import Mathlib.Data.List.Chain

/-!
# Whether a report is read back

A page that ends within a row leaves no line end, so what is written next is on the same line: the
marker of the next dump, which is then not seen, or the mark of the description, without which
there is no report. A page that ends within a glyph cannot be decoded.
-/

namespace NetworkLab.Kbench.Report

open Lib Histogram

variable {mod : Module}

/-! ### One run -/

/-- The loop of `parse` over some lines. -/
def scanLines (s : Scan) (ls : List (List Char)) : Except ParseError Scan :=
  ls.foldlM (fun s l ↦ scanLine s (l ++ ['\n'])) s

/-- Files entries one after the other. -/
def fileEntries (results : Dict (List Char) Numbers) (es : List (List Char × Numbers)) :
    Dict (List Char) Numbers :=
  es.foldl (fun d e ↦ d.set e.1 e.2) results

/-- The lines of a run, the first one behind what is left of the line before. -/
def runLines (carry : List Char) (r : Run mod × Nat) (first : List Char)
    (others : List (List Char)) : List (List Char) :=
  (carry ++ marker r) :: Nat.toDigits 10 r.1.routes :: first :: others

/-- What is left of the line before: nothing, or a part of a row of a histogram. -/
def IsCarry (glued : Prop) (carry : List Char) : Prop :=
  carry = [] ∧ ¬ glued ∨ IsHistogramLine carry ∧ glued

open Classical in
/-- What is filed for a run: nothing if its marker is not seen. -/
noncomputable def runEntries (glued : Prop) (r : Run mod × Nat) : List (List Char × Numbers) :=
  if glued then []
  else ((r.1.outcome.statistics? mod).map fun st ↦ (r.1.base, expected st)).toList

theorem scanLines_cons {s s' : Scan} {l : List Char} (h : scanLine s (l ++ ['\n']) = .ok s')
    (ls : List (List Char)) : scanLines s (l :: ls) = scanLines s' ls := by
  rw [scanLines, List.foldlM_cons, h]
  rfl

theorem scanLines_append {s s' : Scan} {ls : List (List Char)} (h : scanLines s ls = .ok s')
    (ls' : List (List Char)) : scanLines s (ls ++ ls') = scanLines s' ls' := by
  rw [scanLines] at h
  rw [scanLines, List.foldlM_append, h]
  rfl

/-- Lines that are passed over change nothing. -/
theorem scanLines_passed {ls : List (List Char)}
    (h : ∀ l ∈ ls, ¬ ['#', '#', '#', ' '] <+: l ∧ ¬ ['m', 'i', 'n', '='] <+: l) (s : Scan) :
    scanLines s ls = .ok s := by
  induction ls with
  | nil => rfl
  | cons l ls ih =>
    obtain ⟨hl, hls⟩ := List.forall_mem_cons.mp h
    rw [scanLines_cons (scanLine_passed hl.1 hl.2 s), ih hls]

private theorem isHistogramLine_append {carry l : List Char} (h : IsHistogramLine carry)
    (hl : '\n' ∉ l ∧ '\r' ∉ l) : IsHistogramLine (carry ++ l) := by
  refine ⟨?_, ?_, ?_⟩
  · rw [List.head?_append, h.head]
    rfl
  · rw [List.mem_append, not_or]
    exact ⟨h.newline, hl.1⟩
  · rw [List.mem_append, not_or]
    exact ⟨h.carriage, hl.2⟩

private theorem not_mem_of_noSpace {l : List Char} (h : ∀ c ∈ l, PyText.isSpace c = false)
    {c : Char} (hc : PyText.isSpace c = true) : c ∉ l := by
  intro hmem
  rw [h c hmem] at hc
  exact nomatch hc

private theorem marker_noBreak (r : Run mod × Nat) : '\n' ∉ marker r ∧ '\r' ∉ marker r := by
  have hname := noSpace_dumpName r
  constructor
  · simp [marker, not_mem_of_noSpace hname (show PyText.isSpace '\n' = true by decide)]
  · simp [marker, not_mem_of_noSpace hname (show PyText.isSpace '\r' = true by decide)]

private theorem isPassed_routes (n : Nat) : IsPassed (Nat.toDigits 10 n) := by
  have hdigit {c : Char} (hc : c ∈ Nat.toDigits 10 n) : c.isDigit = true :=
    Nat.isDigit_of_mem_toDigits (by decide) (by decide) hc
  have hnot {c : Char} (hc : c.isDigit = false) : c ∉ Nat.toDigits 10 n := by
    intro hmem
    rw [hdigit hmem] at hc
    exact nomatch hc
  obtain ⟨c, cs, hcons⟩ := List.exists_cons_of_ne_nil (Nat.toDigits_ne_nil (b := 10) (n := n))
  have hc : c.isDigit = true := hdigit (hcons ▸ List.mem_cons_self)
  have hmarks : ['#', 'm', '-'].any Char.isDigit = false := by decide
  refine isPassed_of_head (c := c) ?_ (fun hmem ↦ ?_) ⟨hnot (by decide), hnot (by decide)⟩
  · rw [hcons]
    rfl
  · exact List.any_eq_false.mp hmarks c hmem hc

/-- The numbers of a run are filed under its name unless its marker is not seen. -/
theorem scan_run {glued : Prop} {carry : List Char} (hcarry : IsCarry glued carry)
    {r : Run mod × Nat} {first : List Char} {others : List (List Char)} {rest : List Char}
    (hsheet : Sheet mod r.1.outcome first others rest) {s : Scan} (hs : glued → s.name = none) :
    ∃ s', scanLines s (runLines carry r first others) = .ok s' ∧
      s'.results = fileEntries s.results (runEntries glued r) ∧
      (r.1.outcome.statistics? mod ≠ none → s'.name = none) := by
  have hroutes (s : Scan) := scanLine_passed (isPassed_routes r.1.routes).marker
    (isPassed_routes r.1.routes).min s
  have hothers (s : Scan) : scanLines s others = .ok s :=
    scanLines_passed (fun l hl ↦ ⟨(hsheet.others l hl).marker, (hsheet.others l hl).min⟩) s
  have hfirst := hsheet.first
  rcases hcarry with ⟨rfl, hnot⟩ | ⟨hline, hglued⟩
  · rw [runLines, List.nil_append, scanLines_cons (scanLine_marker r s), scanLines_cons (hroutes _),
      runEntries, if_neg hnot]
    cases hstats : r.1.outcome.statistics? mod with
    | some st =>
      rw [hstats] at hfirst
      obtain rfl : first = st.chars := hfirst
      refine ⟨⟨s.results.set r.1.base (expected st), none⟩, ?_, rfl, fun _ ↦ rfl⟩
      rw [scanLines_cons (scanLine_chars st _), hothers]
    | none =>
      rw [hstats] at hfirst
      have hpassed : IsPassed first := hfirst
      refine ⟨{ s with name := some r.1.base }, ?_, rfl, fun h ↦ absurd rfl h⟩
      rw [scanLines_cons (scanLine_passed hpassed.marker hpassed.min _), hothers]
  · have hpassed := isPassed_histogram (isHistogramLine_append hline (marker_noBreak r))
    rw [runLines, scanLines_cons (scanLine_passed hpassed.marker hpassed.min s),
      scanLines_cons (hroutes _), runEntries, if_pos hglued]
    refine ⟨s, ?_, rfl, fun _ ↦ hs hglued⟩
    cases hstats : r.1.outcome.statistics? mod with
    | some st =>
      rw [hstats] at hfirst
      obtain rfl : first = st.chars := hfirst
      have hchars := scanLine_chars st s
      rw [hs hglued] at hchars
      rw [scanLines_cons hchars, hothers]
    | none =>
      rw [hstats] at hfirst
      have hpassed : IsPassed first := hfirst
      rw [scanLines_cons (scanLine_passed hpassed.marker hpassed.min _), hothers]

/-! ### The runs -/

/-- What is filed for some runs. -/
noncomputable def entries (glued : Prop) : List (Run mod × Nat) → List (List Char × Numbers)
  | [] => []
  | r :: rs => runEntries glued r ++ entries (r.1.outcome.Overflows mod) rs

/-- Whether the last line is still open behind some runs. -/
def EndsOpen (glued : Prop) : List (Run mod × Nat) → Prop
  | [] => glued
  | r :: rs => EndsOpen (r.1.outcome.Overflows mod) rs

/-- A line that is neither broken nor the mark of the description. -/
structure IsPlain (l : List Char) : Prop where
  newline : '\n' ∉ l
  carriage : '\r' ∉ l
  guest : ¬ "--- Guest".toList <+: l

private theorem IsPassed.isPlain {l : List Char} (h : IsPassed l) : IsPlain l :=
  ⟨h.newline, h.carriage, h.guest⟩

private theorem isPlain_runLines {glued : Prop} {carry : List Char} (hcarry : IsCarry glued carry)
    {r : Run mod × Nat} {first : List Char} {others : List (List Char)} {rest : List Char}
    (hsheet : Sheet mod r.1.outcome first others rest) :
    ∀ l ∈ runLines carry r first others, IsPlain l := by
  have hmarker := marker_noBreak r
  intro l hl
  simp only [runLines, List.mem_cons] at hl
  rcases hl with rfl | rfl | rfl | hl
  · rcases hcarry with ⟨rfl, -⟩ | ⟨hline, -⟩
    · exact ⟨hmarker.1, hmarker.2, by simp [marker]⟩
    · exact (isPassed_histogram (isHistogramLine_append hline hmarker)).isPlain
  · exact (isPassed_routes r.1.routes).isPlain
  · have hfirst := hsheet.first
    cases hstats : r.1.outcome.statistics? mod with
    | some st =>
      rw [hstats] at hfirst
      obtain rfl : l = st.chars := hfirst
      obtain ⟨rest, hchars⟩ := chars_eq_min st
      exact ⟨(chars_noBreak st).1, (chars_noBreak st).2, by simp [hchars]⟩
    | none =>
      rw [hstats] at hfirst
      exact IsPassed.isPlain hfirst
  · exact (hsheet.others l hl).isPlain

private theorem statistics?_ne_none {outcome : Outcome} (h : outcome.Overflows mod) :
    outcome.statistics? mod ≠ none := by
  cases outcome with
  | measured m => exact Option.some_ne_none _
  | noMemory => exact nomatch h
  | lookupError err => exact nomatch h
  | noMatch => exact nomatch h

private theorem unlines_append (ls ls' : List (List Char)) :
    unlines (ls ++ ls') = unlines ls ++ unlines ls' := List.flatMap_append

/-- Runs whose pages do not end within a glyph write lines, of which the reader files the
entries. -/
theorem blocks_lines {rs : List (Run mod × Nat)} (hcut : ∀ r ∈ rs, ¬ r.1.outcome.CutsGlyph mod)
    {glued : Prop} {carry : List Char} (hcarry : IsCarry glued carry) :
    ∃ ls rest, Utf8.encode carry ++ rs.flatMap block = Utf8.encode (unlines ls ++ rest) ∧
      IsCarry (EndsOpen glued rs) rest ∧ (∀ l ∈ ls, IsPlain l) ∧
      ∀ s : Scan, (glued → s.name = none) → ∃ s', scanLines s ls = .ok s' ∧
        s'.results = fileEntries s.results (entries glued rs) := by
  induction rs generalizing glued carry with
  | nil =>
    refine ⟨[], carry, ?_, hcarry, (fun _ h ↦ nomatch h), fun s _ ↦ ⟨s, rfl, rfl⟩⟩
    rw [List.flatMap_nil, List.append_nil]
    rfl
  | cons r rs ih =>
    obtain ⟨hr, hrs⟩ := List.forall_mem_cons.mp hcut
    obtain ⟨first, others, rest, houtput, hsheet⟩ := Outcome.exists_sheet r.1.printed hr
    obtain ⟨ls, rest', hbytes, hrest', hplain, hscan⟩ := ih hrs hsheet.rest
    refine ⟨runLines carry r first others ++ ls, rest', ?_, hrest', ?_, fun s hs ↦ ?_⟩
    · have hblock : Utf8.encode carry ++ block r =
          Utf8.encode (unlines (runLines carry r first others)) ++ Utf8.encode rest := by
        rw [block, houtput]
        simp only [← Utf8.encode_append, ← List.append_assoc]
        simp [runLines, unlines]
      rw [List.flatMap_cons, ← List.append_assoc, hblock, List.append_assoc, hbytes,
        ← Utf8.encode_append, unlines_append, List.append_assoc]
    · intro l hl
      rcases List.mem_append.mp hl with hl | hl
      · exact isPlain_runLines hcarry hsheet l hl
      · exact hplain l hl
    · obtain ⟨s', hrun, hresults, hname⟩ := scan_run hcarry hsheet hs
      obtain ⟨s'', hrun', hresults'⟩ := hscan s' fun h ↦ hname (statistics?_ne_none h)
      refine ⟨s'', ?_, ?_⟩
      · rw [scanLines_append hrun, hrun']
      · rw [hresults', hresults, entries, fileEntries, fileEntries, fileEntries, List.foldl_append]

/-! ### The report -/

/-- What stands before a newline on the serial line. -/
def carriage (onlcr : Bool) : List Char := if onlcr then ['\r'] else []

private theorem chars_line (onlcr : Bool) {l : List Char} (h : '\n' ∉ l) (cs : List Char) :
    Tty.chars onlcr (l ++ '\n' :: cs) = l ++ carriage onlcr ++ '\n' :: Tty.chars onlcr cs := by
  induction l with
  | nil => cases onlcr <;> rfl
  | cons c l ih =>
    rw [List.mem_cons, not_or] at h
    have hc : (c == '\n') = false := beq_eq_false_iff_ne.mpr (Ne.symm h.1)
    rw [List.cons_append, Tty.chars, List.flatMap_cons, ← Tty.chars, ih h.2, hc, Bool.and_false]
    rfl

private theorem splitOn_lines (onlcr : Bool) {ls : List (List Char)} (h : ∀ l ∈ ls, '\n' ∉ l) :
    (Utf8.encode (Tty.chars onlcr (unlines ls))).splitOn 0x0a =
      ls.map (fun l ↦ Utf8.encode (l ++ carriage onlcr)) ++ [[]] := by
  induction ls with
  | nil => rfl
  | cons l ls ih =>
    obtain ⟨hl, hls⟩ := List.forall_mem_cons.mp h
    have hline : 0x0a ∉ Utf8.encode (l ++ carriage onlcr) := by
      intro hmem
      obtain ⟨c, hc, hbyte⟩ := List.mem_flatMap.mp hmem
      refine Tty.newline_not_mem ?_ hbyte
      rintro rfl
      rcases List.mem_append.mp hc with hc | hc
      · exact hl hc
      · revert hc
        cases onlcr <;> decide
    have hnewline : Utf8.encode ('\n' :: Tty.chars onlcr (unlines ls)) =
        0x0a :: Utf8.encode (Tty.chars onlcr (unlines ls)) := rfl
    rw [unlines, List.flatMap_cons, ← unlines, List.append_assoc, List.singleton_append,
      chars_line onlcr hl, Utf8.encode_append, hnewline, List.splitOn_append_cons_self, ih hls,
      List.splitOn_eq_singleton hline]
    rfl

private theorem encode_prefix {p cs : List Char} :
    Utf8.encode p <+: Utf8.encode cs ↔ p <+: cs := by
  constructor
  · rintro ⟨x, hx⟩
    obtain ⟨es, rfl, -⟩ := Utf8.eq_append_of_encode_append hx
    exact List.prefix_append _ _
  · rintro ⟨es, rfl⟩
    rw [Utf8.encode_append]
    exact List.prefix_append _ _

/-- `grep` finds a text at the start of a line. -/
theorem grepStart_lines (onlcr : Bool) {text : List Char} (htext : text ≠ [])
    (hcarriage : '\r' ∉ text) {ls : List (List Char)} (h : ∀ l ∈ ls, '\n' ∉ l) :
    grepStart text (Tty.output onlcr (Utf8.encode (unlines ls))) = true ↔
      ∃ l ∈ ls, text <+: l := by
  have hline (l : List Char) : text <+: l ++ carriage onlcr ↔ text <+: l := by
    cases onlcr with
    | false => rw [carriage, if_neg Bool.false_ne_true, List.append_nil]
    | true =>
      rw [carriage, if_pos rfl, List.prefix_concat_iff]
      refine or_iff_right ?_
      rintro rfl
      exact hcarriage (List.mem_append_right _ (List.mem_singleton.mpr rfl))
  have hne : Utf8.encode text ≠ [] := by
    intro hnil
    apply htext
    have hback := Utf8.decode?_encode text
    rw [hnil] at hback
    exact (Option.some.inj hback).symm
  rw [grepStart, Tty.output_encode, splitOn_lines onlcr h, List.any_append, List.any_map,
    Bool.or_eq_true, List.any_eq_true]
  simp only [Function.comp_apply, List.isPrefixOf_iff_prefix, encode_prefix, hline]
  refine or_iff_left ?_
  simpa using hne

private theorem mem_runs {runs : List (Run mod)} {r : Run mod × Nat} (h : r ∈ rtdump runs) :
    r.1 ∈ runs := (rtdump_perm runs).mem_iff.mp (List.mem_map_of_mem h)

private theorem exists_mem_rtdump {runs : List (Run mod)} {r : Run mod} (h : r ∈ runs) :
    ∃ i, (r, i) ∈ rtdump runs := by
  obtain ⟨⟨r', i⟩, hr', rfl⟩ := List.mem_map.mp ((rtdump_perm runs).mem_iff.mpr h)
  exact ⟨i, hr'⟩

private theorem output_eq {s : Session mod} (h : s.runs ≠ []) :
    s.output = Tty.output s.onlcr (Utf8.encode (unlines s.header) ++
      ((rtdump s.runs).flatMap block ++ Utf8.encode (unlines s.guestLines))) := by
  rw [Session.output, Session.dumps, if_neg (mt List.isEmpty_iff.mp h)]

/-- What is on the serial line, as lines, when no page ends within a glyph. -/
theorem Session.exists_lines (s : Session mod) (hruns : s.runs ≠ [])
    (hcut : ∀ r ∈ rtdump s.runs, ¬ r.1.outcome.CutsGlyph mod) :
    ∃ ls rest, s.output = Tty.output s.onlcr (Utf8.encode (unlines
        (s.header ++ ls ++ (rest ++ "--- Guest".toList) :: s.guest.map (·.val)))) ∧
      IsCarry (EndsOpen False (rtdump s.runs)) rest ∧ (∀ l ∈ ls, IsPlain l) ∧
      ∀ scan : Scan, ∃ scan', scanLines scan ls = .ok scan' ∧
        scan'.results = fileEntries scan.results (entries False (rtdump s.runs)) := by
  obtain ⟨ls, rest, hbytes, hrest, hplain, hscan⟩ :=
    blocks_lines hcut (show IsCarry False [] from .inl ⟨rfl, not_false⟩)
  refine ⟨ls, rest, ?_, hrest, hplain, fun scan ↦ hscan scan False.elim⟩
  rw [Utf8.encode_nil, List.nil_append] at hbytes
  rw [output_eq hruns, hbytes, ← Utf8.encode_append, ← Utf8.encode_append, Session.guestLines]
  simp [unlines]

private theorem isPassed_append {p : List Char} {c : Char} (hhead : p.head? = some c)
    (hc : c ∉ ['#', 'm', '-']) (hp : '\n' ∉ p ∧ '\r' ∉ p) (l : Line) :
    IsPassed (p ++ l.val) := by
  refine isPassed_of_head (c := c) ?_ hc ?_
  · rw [List.head?_append, hhead]
    rfl
  · rw [List.mem_append, List.mem_append, not_or, not_or]
    exact ⟨⟨hp.1, l.property.1⟩, hp.2, l.property.2⟩

private theorem isPassed_header (s : Session mod) : ∀ l ∈ s.header, IsPassed l := by
  rw [Session.header, List.forall_mem_cons, List.forall_mem_singleton]
  constructor
  · exact isPassed_append (c := 'L') (by decide) (by decide) (by decide) s.version
  · exact isPassed_append (c := 'c') (by decide) (by decide) (by decide) s.kparams

/-- The first line of the description, behind what is left of the line before. -/
private theorem guest_line {glued : Prop} {rest : List Char} (hrest : IsCarry glued rest) :
    ("--- Guest".toList <+: rest ++ "--- Guest".toList ↔ ¬ glued) ∧
      ¬ ['#', '#', '#', ' '] <+: rest ++ "--- Guest".toList ∧
      ¬ ['m', 'i', 'n', '='] <+: rest ++ "--- Guest".toList ∧
      '\n' ∉ rest ++ "--- Guest".toList ∧ '\r' ∉ rest ++ "--- Guest".toList := by
  rcases hrest with ⟨rfl, hnot⟩ | ⟨hline, hglued⟩
  · refine ⟨iff_of_true (by simp) hnot, by decide, by decide, by decide, by decide⟩
  · have hpassed := isPassed_histogram (isHistogramLine_append hline
      (show '\n' ∉ "--- Guest".toList ∧ '\r' ∉ "--- Guest".toList by decide))
    exact ⟨iff_of_false hpassed.guest (not_not_intro hglued), hpassed.marker, hpassed.min,
      hpassed.newline, hpassed.carriage⟩

/-- There is a report unless the last page leaves its line open and no other line looks like the
mark of the description. -/
theorem Session.grep_iff (s : Session mod) (hruns : s.runs ≠ [])
    (hcut : ∀ r ∈ rtdump s.runs, ¬ r.1.outcome.CutsGlyph mod) :
    grepStart "--- Guest".toList s.output = true ↔
      (EndsOpen False (rtdump s.runs) → ∃ l ∈ s.guest, "--- Guest".toList <+: l.val) := by
  obtain ⟨ls, rest, houtput, hrest, hplain, -⟩ := s.exists_lines hruns hcut
  obtain ⟨hmark, -, -, hnewline, -⟩ := guest_line hrest
  rw [houtput, grepStart_lines s.onlcr (by decide) (by decide)]
  · constructor
    · rintro ⟨l, hl, hguest⟩ hopen
      rcases List.mem_append.mp hl with hl | hl
      · rcases List.mem_append.mp hl with hl | hl
        · exact absurd hguest (isPassed_header s l hl).guest
        · exact absurd hguest (hplain l hl).guest
      · rcases List.mem_cons.mp hl with rfl | hl
        · exact absurd hopen (hmark.mp hguest)
        · obtain ⟨line, hline, rfl⟩ := List.mem_map.mp hl
          exact ⟨line, hline, hguest⟩
    · intro h
      by_cases hopen : EndsOpen False (rtdump s.runs)
      · obtain ⟨line, hline, hguest⟩ := h hopen
        exact ⟨line.val, List.mem_append_right _ (List.mem_cons_of_mem _
          (List.mem_map_of_mem hline)), hguest⟩
      · exact ⟨_, List.mem_append_right _ List.mem_cons_self, hmark.mpr hopen⟩
  · rw [List.forall_mem_append, List.forall_mem_append, List.forall_mem_cons, List.forall_mem_map]
    exact ⟨⟨fun l hl ↦ (isPassed_header s l hl).newline, fun l hl ↦ (hplain l hl).newline⟩,
      hnewline, fun line _ ↦ line.property.1⟩

/-- What `parse` makes of lines that are neither broken nor cut. -/
theorem parse_lines (onlcr : Bool) {ls ls' : List (List Char)}
    (h : ∀ l ∈ ls ++ ls', '\n' ∉ l ∧ '\r' ∉ l) :
    parse (Tty.output onlcr (Utf8.encode (unlines ls)) ++ Utf8.encode (unlines ls')) =
      (scanLines ⟨Dict.empty, none⟩ (ls ++ ls')).map (·.results) := by
  have hcarriage (ks : List (List Char)) (hks : ∀ l ∈ ks, '\r' ∉ l) : '\r' ∉ unlines ks := by
    intro hmem
    obtain ⟨l, hl, hc⟩ := List.mem_flatMap.mp hmem
    rcases List.mem_append.mp hc with hc | hc
    · exact hks l hl hc
    · exact absurd hc (by decide)
  have hls := hcarriage ls fun l hl ↦ (h l (List.mem_append_left _ hl)).2
  have hls' := hcarriage ls' fun l hl ↦ (h l (List.mem_append_right _ hl)).2
  have hplain : PyText.universalNewlines (unlines ls') = unlines ls' := by
    have hback := Tty.universalNewlines_chars false hls' []
    rw [List.append_nil] at hback
    have hsame : Tty.chars false (unlines ls') = unlines ls' := by
      rw [Tty.chars]
      simp
    rw [hsame] at hback
    rw [hback]
    exact List.append_nil _
  have hlines := PyText.lines_flatMap (ls ++ ls') fun l hl ↦ (h l hl).1
  rw [parse, Tty.output_encode, ← Utf8.encode_append, Utf8.decode?_encode]
  dsimp only
  rw [Tty.universalNewlines_chars onlcr hls, hplain, ← unlines_append, unlines, hlines, scanLines,
    List.foldlM_map]
  rfl

/-- A report of which no page ends within a glyph is read to the entries. -/
theorem Session.parse_file (s : Session mod) (hruns : s.runs ≠ [])
    (hcut : ∀ r ∈ rtdump s.runs, ¬ r.1.outcome.CutsGlyph mod) :
    parse (s.output ++ Utf8.encode (unlines s.hostLines)) =
      .ok (fileEntries Dict.empty (entries False (rtdump s.runs))) := by
  obtain ⟨ls, rest, houtput, hrest, hplain, hscan⟩ := s.exists_lines hruns hcut
  obtain ⟨-, hmarker, hmin, hnewline, hcarriage⟩ := guest_line hrest
  obtain ⟨scan, hrun, hresults⟩ := hscan ⟨Dict.empty, none⟩
  have hheader : scanLines ⟨Dict.empty, none⟩ s.header = .ok ⟨Dict.empty, none⟩ :=
    scanLines_passed (fun l hl ↦ ⟨(isPassed_header s l hl).marker, (isPassed_header s l hl).min⟩) _
  have hsilent : ∀ l ∈ (rest ++ "--- Guest".toList) :: s.guest.map (·.val) ++ s.hostLines,
      ¬ ['#', '#', '#', ' '] <+: l ∧ ¬ ['m', 'i', 'n', '='] <+: l := by
    rw [Session.hostLines, List.forall_mem_append, List.forall_mem_cons, List.forall_mem_cons,
      List.forall_mem_map, List.forall_mem_map]
    obtain ⟨hguest, hhost⟩ := List.forall_mem_append.mp s.silent
    exact ⟨⟨⟨hmarker, hmin⟩, hguest⟩, ⟨by decide, by decide⟩, hhost⟩
  rw [houtput, parse_lines, List.append_assoc, List.append_assoc, scanLines_append hheader,
    scanLines_append hrun, scanLines_passed hsilent, Except.map, hresults]
  rw [Session.hostLines, List.forall_mem_append, List.forall_mem_append, List.forall_mem_append,
    List.forall_mem_cons, List.forall_mem_cons, List.forall_mem_map, List.forall_mem_map]
  have hheader (l : List Char) (hl : l ∈ s.header) := isPassed_header s l hl
  exact ⟨⟨⟨fun l hl ↦ ⟨(hheader l hl).newline, (hheader l hl).carriage⟩,
      fun l hl ↦ ⟨(hplain l hl).newline, (hplain l hl).carriage⟩⟩,
    ⟨hnewline, hcarriage⟩, fun line _ ↦ line.property⟩,
    ⟨by decide, by decide⟩, fun line _ ↦ line.property⟩

/-! ### A glyph that is cut -/

/-- Behind the runs the mark of a dump or that of the description comes next, and neither begins
with a byte that goes on with a character. -/
private theorem exists_next (onlcr : Bool) (rs : List (Run mod × Nat)) (x y : List UInt8) :
    ∃ b z, Utf8.isContinuation b = false ∧
      Tty.output onlcr (rs.flatMap block ++ 0x2d :: x) ++ y = b :: z := by
  cases rs with
  | nil =>
    refine ⟨0x2d, Tty.output onlcr x ++ y, by decide, ?_⟩
    rw [List.flatMap_nil, List.nil_append, Tty.output, List.flatMap_cons, ← Tty.output]
    cases onlcr <;> rfl
  | cons r rs =>
    obtain ⟨z, hz⟩ : ∃ z, block r = 0x23 :: z := ⟨_, rfl⟩
    refine ⟨0x23, Tty.output onlcr (z ++ (rs.flatMap block ++ 0x2d :: x)) ++ y, by decide, ?_⟩
    rw [List.flatMap_cons, hz, List.append_assoc, List.cons_append, Tty.output, List.flatMap_cons,
      ← Tty.output]
    cases onlcr <;> rfl

/-- A report of which a page ends within a glyph is not decoded. -/
theorem decode?_blocks (onlcr : Bool) {rs : List (Run mod × Nat)} {r : Run mod × Nat} (hr : r ∈ rs)
    (hcut : r.1.outcome.CutsGlyph mod) (x y : List UInt8) :
    Utf8.decode? (Tty.output onlcr (rs.flatMap block ++ 0x2d :: x) ++ y) = none := by
  induction rs with
  | nil => exact nomatch hr
  | cons r' rs ih =>
    obtain ⟨b, z, hb, hnext⟩ := exists_next onlcr rs x y
    rw [List.flatMap_cons, List.append_assoc, Tty.output_append, List.append_assoc]
    by_cases hcut' : r'.1.outcome.CutsGlyph mod
    · obtain ⟨cs, c, m, hpos, hm, houtput⟩ := Outcome.exists_cut r'.1.printed hcut'
      have hnewline : 0x0a ∉ (String.utf8EncodeChar c).take m := by
        intro hmem
        refine Tty.newline_not_mem ?_ (List.mem_of_mem_take hmem)
        rintro rfl
        have hsize : ('\n' : Char).utf8Size = 1 := rfl
        omega
      have hblock : block r' = Utf8.encode (marker r' ++ ['\n'] ++
          (Nat.toDigits 10 r'.1.routes ++ ['\n']) ++ cs) ++ (String.utf8EncodeChar c).take m := by
        rw [block, houtput]
        simp only [Utf8.encode_append, List.append_assoc]
      rw [hblock, Tty.output_append, Tty.output_encode, Tty.output_of_not_mem onlcr hnewline, hnext,
        List.append_assoc, Utf8.decode?_append, Utf8.decode?_cut hpos hm hb, Option.map_none]
    · obtain ⟨first, others, rest, houtput, -⟩ := Outcome.exists_sheet r'.1.printed hcut'
      have hmem : r ∈ rs := by
        rcases List.mem_cons.mp hr with rfl | hmem
        · exact absurd hcut hcut'
        · exact hmem
      rw [block, houtput, ← Utf8.encode_append, ← Utf8.encode_append, Tty.output_encode,
        Utf8.decode?_append, ih hmem, Option.map_none]

/-- So `parse` raises. -/
theorem Session.parse_cut (s : Session mod) {r : Run mod × Nat} (hr : r ∈ rtdump s.runs)
    (hcut : r.1.outcome.CutsGlyph mod) :
    parse (s.output ++ Utf8.encode (unlines s.hostLines)) = .error .unicodeDecodeError := by
  have hruns : s.runs ≠ [] := List.ne_nil_of_mem (mem_runs hr)
  obtain ⟨x, hx⟩ : ∃ x, Utf8.encode (unlines s.guestLines) = 0x2d :: x := ⟨_, rfl⟩
  have hdecode : Utf8.decode? (s.output ++ Utf8.encode (unlines s.hostLines)) = none := by
    rw [output_eq hruns, hx, Tty.output_append, Tty.output_encode, List.append_assoc,
      Utf8.decode?_append, decode?_blocks s.onlcr hr hcut, Option.map_none]
  rw [parse, hdecode]

/-! ### The entries -/

private theorem mem_runEntries {glued : Prop} {r : Run mod × Nat} {e : List Char × Numbers} :
    e ∈ runEntries glued r ↔
      ¬ glued ∧ ∃ st, r.1.outcome.statistics? mod = some st ∧ e = (r.1.base, expected st) := by
  rw [runEntries]
  split
  · next hglued => exact iff_of_false List.not_mem_nil fun h ↦ h.1 hglued
  · next hnot =>
    rw [Option.mem_toList, Option.map_eq_some_iff, and_iff_right hnot]
    exact exists_congr fun st ↦ and_congr_right fun _ ↦ eq_comm

/-- An entry is filed for a run of its name, with the numbers that this run prints. -/
theorem exists_run_of_entry {glued : Prop} {rs : List (Run mod × Nat)}
    {e : List Char × Numbers} (h : e ∈ entries glued rs) :
    ∃ r ∈ rs, ∃ st, r.1.outcome.statistics? mod = some st ∧ e = (r.1.base, expected st) := by
  induction rs generalizing glued with
  | nil => exact nomatch h
  | cons r rs ih =>
    rw [entries, List.mem_append] at h
    rcases h with h | h
    · obtain ⟨-, st, hst, he⟩ := mem_runEntries.mp h
      exact ⟨r, List.mem_cons_self, st, hst, he⟩
    · obtain ⟨r', hr', hentry⟩ := ih h
      exact ⟨r', List.mem_cons_of_mem _ hr', hentry⟩

private theorem entries_nodup {glued : Prop} {rs : List (Run mod × Nat)}
    (h : (rs.map (·.1.base)).Nodup) : ((entries glued rs).map (·.1)).Nodup := by
  induction rs generalizing glued with
  | nil => exact List.nodup_nil
  | cons r rs ih =>
    obtain ⟨hnew, hrs⟩ := List.nodup_cons.mp h
    rw [entries, List.map_append, List.nodup_append]
    refine ⟨?_, ih hrs, ?_⟩
    · rw [runEntries]
      split
      · exact List.nodup_nil
      · cases r.1.outcome.statistics? mod with
        | none => exact List.nodup_nil
        | some st => exact List.nodup_singleton _
    · rintro a ha b hb rfl
      obtain ⟨e, he, rfl⟩ := List.mem_map.mp ha
      obtain ⟨e', he', heq⟩ := List.mem_map.mp hb
      obtain ⟨-, st, -, rfl⟩ := mem_runEntries.mp he
      obtain ⟨r', hr', st', -, rfl⟩ := exists_run_of_entry he'
      exact hnew (List.mem_map.mpr ⟨r', hr', heq⟩)

/-- Each entry is found under its name, and nothing else is. -/
theorem get?_entries {rs : List (Run mod × Nat)} (h : (rs.map (·.1.base)).Nodup) {glued : Prop}
    {name : List Char} {numbers : Numbers} :
    (fileEntries Dict.empty (entries glued rs)).get? name = some numbers ↔
      (name, numbers) ∈ entries glued rs := by
  have hentries : (fileEntries Dict.empty (entries glued rs)).entries = entries glued rs :=
    Dict.entries_foldl_alter (fun v _ ↦ v) (fun _ ↦ rfl) (entries glued rs) Dict.empty
      (entries_nodup h)
  constructor
  · intro hget
    rw [← hentries]
    exact Dict.mem_of_get? hget
  · intro hmem
    rw [← hentries] at hmem
    exact Dict.get?_of_mem hmem

/-- Every run with statistics has its entry if and only if no such run stands directly behind a
page that leaves its line open. -/
theorem filed_iff {rs : List (Run mod × Nat)} (h : (rs.map (·.1.base)).Nodup) {glued : Prop} :
    (∀ r ∈ rs, ∀ st, r.1.outcome.statistics? mod = some st →
        (r.1.base, expected st) ∈ entries glued rs) ↔
      (glued → ∀ r ∈ rs.head?, r.1.outcome.statistics? mod = none) ∧
        rs.IsChain fun r next ↦
          r.1.outcome.Overflows mod → next.1.outcome.statistics? mod = none := by
  induction rs generalizing glued with
  | nil => simp
  | cons r rs ih =>
    obtain ⟨hnew, hrs⟩ := List.nodup_cons.mp h
    -- The entry of a run comes from this run, as no other one has its name.
    have hfirst (st : Statistics) : (r.1.base, expected st) ∈ entries glued (r :: rs) ↔
        (r.1.base, expected st) ∈ runEntries glued r := by
      rw [entries, List.mem_append]
      refine or_iff_left fun hmem ↦ ?_
      obtain ⟨r', hr', st', -, heq⟩ := exists_run_of_entry hmem
      exact hnew (List.mem_map.mpr ⟨r', hr', (Prod.mk.inj heq).1.symm⟩)
    have hrest (r' : Run mod × Nat) (hr' : r' ∈ rs) (st : Statistics) :
        (r'.1.base, expected st) ∈ entries glued (r :: rs) ↔
          (r'.1.base, expected st) ∈ entries (r.1.outcome.Overflows mod) rs := by
      rw [entries, List.mem_append]
      refine or_iff_right fun hmem ↦ ?_
      obtain ⟨-, st', -, heq⟩ := mem_runEntries.mp hmem
      exact hnew (List.mem_map.mpr ⟨r', hr', (Prod.mk.inj heq).1⟩)
    rw [List.forall_mem_cons, List.isChain_cons, List.head?_cons]
    constructor
    · rintro ⟨hr, hall⟩
      obtain ⟨hhead, hchain⟩ := (ih hrs).mp fun r' hr' st hst ↦
        (hrest r' hr' st).mp (hall r' hr' st hst)
      refine ⟨fun hglued r' hr' ↦ ?_, fun next hnext hover ↦ hhead hover next hnext, hchain⟩
      obtain rfl := Option.some.inj hr'
      cases hstats : r.1.outcome.statistics? mod with
      | none => rfl
      | some st =>
        obtain ⟨hnot, -⟩ := mem_runEntries.mp ((hfirst st).mp (hr st hstats))
        exact absurd hglued hnot
    · rintro ⟨hglued, hnext, hchain⟩
      have hall := (ih hrs).mpr ⟨fun hover next hmem ↦ hnext next hmem hover, hchain⟩
      refine ⟨fun st hst ↦ (hfirst st).mpr (mem_runEntries.mpr ⟨fun hg ↦ ?_, st, hst, rfl⟩),
        fun r' hr' st hst ↦ (hrest r' hr' st).mpr (hall r' hr' st hst)⟩
      rw [hglued hg r rfl] at hst
      exact nomatch hst

/-! ### Writer and reader -/

/-- There is a report, and the reader files under the name of each dump the numbers printed for
it, if any, and nothing under another name. -/
def ReadsBack (s : Session mod) : Prop :=
  ∃ file results, s.file = some file ∧ parse file = .ok results ∧
    (∀ r ∈ s.runs, results.get? r.base = (r.outcome.statistics? mod).map expected) ∧
    ∀ name, name ∉ s.runs.map (·.base) → results.get? name = none

theorem endsOpen_iff {glued : Prop} {rs : List (Run mod × Nat)} :
    EndsOpen glued rs ↔
      rs = [] ∧ glued ∨ ∃ r ∈ rs.getLast?, r.1.outcome.Overflows mod := by
  induction rs generalizing glued with
  | nil => simp [EndsOpen]
  | cons r rs ih =>
    rw [EndsOpen, ih, List.getLast?_cons]
    cases rs with
    | nil => simp
    | cons r' rs => simp [List.getLast?_cons]

private theorem rtdump_nodup (s : Session mod) : ((rtdump s.runs).map (·.1.base)).Nodup := by
  have hperm := (rtdump_perm s.runs).map (·.base)
  rw [List.map_map] at hperm
  exact hperm.nodup_iff.mpr s.distinct

/-- What is filed is what the runs print if and only if every run with statistics has its entry. -/
theorem get?_iff_entries (s : Session mod) :
    ((∀ r ∈ s.runs, (fileEntries Dict.empty (entries False (rtdump s.runs))).get? r.base =
        (r.outcome.statistics? mod).map expected) ∧
      ∀ name, name ∉ s.runs.map (·.base) →
        (fileEntries Dict.empty (entries False (rtdump s.runs))).get? name = none) ↔
      ∀ r ∈ rtdump s.runs, ∀ st, r.1.outcome.statistics? mod = some st →
        (r.1.base, expected st) ∈ entries False (rtdump s.runs) := by
  have hfiled {name : List Char} {numbers : Numbers} :
      (fileEntries Dict.empty (entries False (rtdump s.runs))).get? name = some numbers ↔
        (name, numbers) ∈ entries False (rtdump s.runs) := get?_entries (rtdump_nodup s)
  -- What is found under a name is printed by a run of this name.
  have hfound {name : List Char} {numbers : Numbers}
      (h : (fileEntries Dict.empty (entries False (rtdump s.runs))).get? name = some numbers) :
      ∃ r ∈ s.runs, r.base = name ∧ r.outcome.statistics? mod ≠ none := by
    obtain ⟨r, hr, st, hst, heq⟩ := exists_run_of_entry (hfiled.mp h)
    refine ⟨r.1, mem_runs hr, (Prod.mk.inj heq).1.symm, ?_⟩
    rw [hst]
    exact Option.some_ne_none st
  constructor
  · rintro ⟨hruns, -⟩ r hr st hst
    have hget := hruns r.1 (mem_runs hr)
    rw [hst] at hget
    exact hfiled.mp hget
  · intro hall
    refine ⟨fun r hr ↦ ?_, fun name hname ↦ ?_⟩
    · cases hstats : r.outcome.statistics? mod with
      | none =>
        rw [Option.map_none, Option.eq_none_iff_forall_ne_some]
        intro numbers hget
        obtain ⟨r', hr', hbase, hsome⟩ := hfound hget
        rw [List.inj_on_of_nodup_map s.distinct hr' hr hbase] at hsome
        exact hsome hstats
      | some st =>
        obtain ⟨i, hi⟩ := exists_mem_rtdump hr
        exact hfiled.mpr (hall (r, i) hi st hstats)
    · rw [Option.eq_none_iff_forall_ne_some]
      intro numbers hget
      obtain ⟨r, hr, rfl, -⟩ := hfound hget
      exact hname (List.mem_map_of_mem hr)

/-- Without a dump there is no report. -/
theorem Session.file_of_no_runs {s : Session mod} (h : s.runs = []) : s.file = none := by
  have houtput : s.output = Tty.output s.onlcr (Utf8.encode (unlines s.header)) := by
    rw [Session.output, Session.dumps, if_pos (List.isEmpty_iff.mpr h), List.append_nil]
  rw [Session.file, houtput, if_neg]
  rw [grepStart_lines s.onlcr (by decide) (by decide) fun l hl ↦ (isPassed_header s l hl).newline]
  rintro ⟨l, hl, hguest⟩
  exact (isPassed_header s l hl).guest hguest

/-- If no page ends within a glyph, the reader agrees if and only if there is a report and every
run with statistics has its entry. -/
theorem readsBack_iff_entries (s : Session mod) (hruns : s.runs ≠ [])
    (hcut : ∀ r ∈ rtdump s.runs, ¬ r.1.outcome.CutsGlyph mod) :
    ReadsBack s ↔ grepStart "--- Guest".toList s.output = true ∧
      ∀ r ∈ rtdump s.runs, ∀ st, r.1.outcome.statistics? mod = some st →
        (r.1.base, expected st) ∈ entries False (rtdump s.runs) := by
  have hparse := s.parse_file hruns hcut
  rw [← get?_iff_entries]
  constructor
  · rintro ⟨file, results, hfile, hread, hget⟩
    obtain ⟨hgrep, hfile⟩ := Option.ite_none_right_eq_some.mp hfile
    obtain rfl := Option.some.inj hfile
    obtain rfl := Except.ok.inj (hread.symm.trans hparse)
    exact ⟨hgrep, hget⟩
  · rintro ⟨hgrep, hget⟩
    exact ⟨_, _, if_pos hgrep, hparse, hget⟩

/-- If no page ends within a glyph, the reader agrees if and only if no line that a page leaves
open hides the mark that comes next. -/
theorem readsBack_iff_marks (s : Session mod) (hruns : s.runs ≠ [])
    (hcut : ∀ r ∈ s.runs, ¬ r.outcome.CutsGlyph mod) :
    ReadsBack s ↔
      ((rtdump s.runs).IsChain fun r next ↦
        r.1.outcome.Overflows mod → next.1.outcome.statistics? mod = none) ∧
      ∀ r ∈ (rtdump s.runs).getLast?, r.1.outcome.Overflows mod →
        ∃ l ∈ s.guest, "--- Guest".toList <+: l.val := by
  have hcut' (r : Run mod × Nat) (hr : r ∈ rtdump s.runs) : ¬ r.1.outcome.CutsGlyph mod :=
    hcut r.1 (mem_runs hr)
  have hopen : EndsOpen False (rtdump s.runs) ↔
      ∃ r ∈ (rtdump s.runs).getLast?, r.1.outcome.Overflows mod := by
    rw [endsOpen_iff]
    exact or_iff_right fun h ↦ h.2
  have hguest : grepStart "--- Guest".toList s.output = true ↔
      ∀ r ∈ (rtdump s.runs).getLast?, r.1.outcome.Overflows mod →
        ∃ l ∈ s.guest, "--- Guest".toList <+: l.val := by
    rw [s.grep_iff hruns hcut', hopen]
    exact ⟨fun h r hr hover ↦ h ⟨r, hr, hover⟩, fun h ⟨r, hr, hover⟩ ↦ h r hr hover⟩
  have hentries : (∀ r ∈ rtdump s.runs, ∀ st, r.1.outcome.statistics? mod = some st →
      (r.1.base, expected st) ∈ entries False (rtdump s.runs)) ↔
        (rtdump s.runs).IsChain fun r next ↦
          r.1.outcome.Overflows mod → next.1.outcome.statistics? mod = none := by
    rw [filed_iff (rtdump_nodup s)]
    exact and_iff_right fun h ↦ nomatch h
  rw [readsBack_iff_entries s hruns hcut', hguest, hentries, and_comm]

/-- A report of which a page ends within a glyph is not read back. -/
theorem ReadsBack.not_cutsGlyph {s : Session mod} (h : ReadsBack s) :
    ∀ r ∈ s.runs, ¬ r.outcome.CutsGlyph mod := by
  intro r hr hglyph
  obtain ⟨file, results, hfile, hread, -⟩ := h
  obtain ⟨-, hfile⟩ := Option.ite_none_right_eq_some.mp hfile
  obtain rfl := Option.some.inj hfile
  obtain ⟨i, hi⟩ := exists_mem_rtdump hr
  rw [s.parse_cut hi hglyph] at hread
  exact nomatch hread

theorem ReadsBack.runs_ne_nil {s : Session mod} (h : ReadsBack s) : s.runs ≠ [] := by
  intro hnil
  obtain ⟨file, results, hfile, -⟩ := h
  rw [Session.file_of_no_runs hnil] at hfile
  exact nomatch hfile

/-- Writer and reader agree if and only if there is a dump, no page ends within a glyph, no run
whose histogram has a row that does not fit comes directly before one with statistics, and if the
last run is such a one, another line of the description begins like its mark. -/
theorem readsBack_iff (s : Session mod) :
    ReadsBack s ↔ s.runs ≠ [] ∧ (∀ r ∈ s.runs, ¬ r.outcome.CutsGlyph mod) ∧
      ((rtdump s.runs).IsChain fun r next ↦
        r.1.outcome.Overflows mod → next.1.outcome.statistics? mod = none) ∧
      ∀ r ∈ (rtdump s.runs).getLast?, r.1.outcome.Overflows mod →
        ∃ l ∈ s.guest, "--- Guest".toList <+: l.val := by
  constructor
  · intro h
    exact ⟨h.runs_ne_nil, h.not_cutsGlyph,
      (readsBack_iff_marks s h.runs_ne_nil h.not_cutsGlyph).mp h⟩
  · rintro ⟨hruns, hcut, hmarks⟩
    exact (readsBack_iff_marks s hruns hcut).mpr hmarks

/-- Twenty samples of 100. -/
def evenSample : Samples where
  results := List.replicate 20 100
  nonempty := by decide
  sorted := by decide
  inMemory := by decide
  small := by simp

/-- A run of batches of 24 lookups, one of which takes longer. -/
def lateRun : Measurement := ⟨lateSample, ⟨129, 100, 100, 0⟩, 101, 24, none, true⟩

/-- A run of batches of 24 lookups that all take as long. -/
def evenRun : Measurement := ⟨evenSample, ⟨100, 100, 100, 0⟩, 100, 24, none, true⟩

private theorem length_lateRun : (lateRun.statisticsPage .ipv6).length = 79 := by
  rw [Measurement.statisticsPage_eq]
  decide

private theorem length_evenRun : (evenRun.statisticsPage .ipv6).length = 79 := by
  rw [Measurement.statisticsPage_eq]
  decide

private theorem lateRun_overflows : lateRun.Overflows .ipv6 := by
  refine ⟨rfl, ⟨100, 1⟩, by decide, ?_⟩
  rw [length_lateRun]
  change ¬ PageFits lateSample ⟨100, 1⟩ 129 id 79
  rw [pageFits_iff (by decide) (by decide)]
  intro hfit
  exact absurd (hfit 23 lateSample_due (by decide)) (by decide)

/-- Its page ends behind thirty glyphs. -/
private theorem lateRun_not_cutsGlyph : ¬ lateRun.CutsGlyph .ipv6 := by
  rintro ⟨-, scale, hscale, hcut⟩
  obtain rfl : ⟨100, 1⟩ = scale := Option.some.inj hscale
  rw [length_lateRun] at hcut
  have hoffset (j : Nat) (hj : j ≤ 24) :
      rowOffset lateSample ⟨100, 1⟩ id 79 j = offset lateSample ⟨100, 1⟩ id 79 j :=
    rowOffset_eq (by decide) (by decide) lateSample_due 79 hj
  refine not_glyphCut (k := 23) ?_ ?_ ?_ hcut
  · exact (hoffset 23 (by decide)).trans_le (by decide)
  · exact Nat.le_trans (by decide) (hoffset 24 (by decide)).ge
  · change (4095 - rowOffset lateSample ⟨100, 1⟩ id 79 23 - _) % 3 = 0
    rw [hoffset 23 (by decide)]
    decide

private theorem evenRun_not_overflows : ¬ evenRun.Overflows .ipv6 := by
  rintro ⟨-, scale, hscale, hover⟩
  obtain rfl : ⟨100, 1⟩ = scale := Option.some.inj hscale
  apply hover
  rw [length_evenRun]
  change PageFits evenSample ⟨100, 1⟩ 100 id 79
  rw [pageFits_iff (by decide) (by decide)]
  rintro k (rfl | ⟨x, hx, -, hbound⟩) -
  · decide
  · obtain rfl := List.eq_of_mem_replicate hx
    have hk : k = 0 := by
      have h100 : (100 : UInt64).toNat = 100 := rfl
      rw [Scale.bound, h100] at hbound
      change 100 + k * 1 ≤ 100 at hbound
      omega
    rw [hk]
    decide

private theorem evenRun_not_cutsGlyph : ¬ evenRun.CutsGlyph .ipv6 :=
  fun ⟨hverbose, scale, hscale, hcut⟩ ↦
    evenRun_not_overflows ⟨hverbose, scale, hscale, hcut.not_pageFits⟩

private theorem rtdump_pair {r r' : Run mod} (h : r.base = "bgp-40000".toList)
    (h' : r'.base = "many-48-40000".toList) : rtdump [r, r'] = [(r, 1), (r', 2)] := by
  have hname : Utf8.encode (Nat.toDigits 10 1 ++ '-' :: "bgp-40000".toList) ≤
      Utf8.encode (Nat.toDigits 10 2 ++ '-' :: "many-48-40000".toList) := by decide
  refine List.mergeSort_of_pairwise (List.pairwise_pair.mpr ?_)
  rw [dumpName, dumpName, h, h']
  exact decide_eq_true hname

/-- There is a report of these two runs, and it is read, but without the numbers of the second
one. -/
theorem lateRun_not_readsBack : ∃ s : Session .ipv6,
    s.runs.map (fun r ↦ (r.base, r.outcome)) =
      [("bgp-40000".toList, .measured lateRun), ("many-48-40000".toList, .measured evenRun)] ∧
    ¬ ReadsBack s ∧ ∃ file results, s.file = some file ∧ parse file = .ok results ∧
      results.get? "many-48-40000".toList = none := by
  obtain ⟨fuel, output, hpage⟩ := lateRun.exists_page .ipv6
  obtain ⟨fuel', output', hpage'⟩ := evenRun.exists_page .ipv6
  have hdistinct : ["bgp-40000".toList, "many-48-40000".toList].Nodup := by decide
  have hne : "many-48-40000".toList ≠ "bgp-40000".toList := by decide
  let s : Session .ipv6 := {
    version := ⟨"7.0".toList, by decide⟩
    kparams := ⟨[], by decide⟩
    runs := [
      ⟨"bgp-40000".toList, PyText.not_isSpace_of_any (by decide), 40000, .measured lateRun,
        fuel, output, hpage⟩,
      ⟨"many-48-40000".toList, PyText.not_isSpace_of_any (by decide), 40000, .measured evenRun,
        fuel', output', hpage'⟩]
    distinct := hdistinct
    guest := []
    host := []
    silent := fun _ h ↦ nomatch h
    onlcr := true }
  have hruns : s.runs ≠ [] := List.cons_ne_nil _ _
  have hdump : rtdump s.runs = [(_, 1), (_, 2)] := rtdump_pair rfl rfl
  have hcut : ∀ r ∈ s.runs, ¬ r.outcome.CutsGlyph .ipv6 := by
    intro r hr
    rcases List.mem_pair.mp hr with rfl | rfl
    · exact lateRun_not_cutsGlyph
    · exact evenRun_not_cutsGlyph
  have hcut' (r : Run .ipv6 × Nat) (hr : r ∈ rtdump s.runs) : ¬ r.1.outcome.CutsGlyph .ipv6 :=
    hcut r.1 (mem_runs hr)
  have hgrep : grepStart "--- Guest".toList s.output = true := by
    rw [s.grep_iff hruns hcut', hdump]
    exact fun hopen ↦ absurd hopen evenRun_not_overflows
  refine ⟨s, rfl, fun h ↦ ?_, _, _, if_pos hgrep, s.parse_file hruns hcut', ?_⟩
  · obtain ⟨hchain, -⟩ := (readsBack_iff_marks s hruns hcut).mp h
    rw [hdump, List.isChain_pair] at hchain
    exact nomatch hchain lateRun_overflows
  · rw [Option.eq_none_iff_forall_ne_some]
    intro numbers hget
    have hentry := (get?_entries (rtdump_nodup s)).mp hget
    rw [hdump, entries, entries, entries, List.append_nil, List.mem_append] at hentry
    rcases hentry with hentry | hentry
    · obtain ⟨-, st, -, heq⟩ := mem_runEntries.mp hentry
      exact hne (Prod.mk.inj heq).1
    · exact (mem_runEntries.mp hentry).1 lateRun_overflows

end NetworkLab.Kbench.Report
