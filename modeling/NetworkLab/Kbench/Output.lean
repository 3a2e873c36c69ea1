import NetworkLab.Kbench.Histogram
import NetworkLab.Kbench.Percentile
import NetworkLab.Lib.Page
import NetworkLab.Lib.Utf8
import Mathlib.Algebra.Order.BigOperators.Group.List
import Mathlib.Algebra.Order.Ring.Nat

/-!
# What a run prints

The statistics of `display_statistics`, `lab-routes-ipv4/2026/kbench_mod.c:143–217`, and of
`do_bench`, `lab-routes-ipv6/2026/kbench_mod.c:396–479`, on a page. The histogram comes
behind them, text by text.
-/

namespace NetworkLab.Kbench

open Lib Histogram

/-- The values of a statistics line. -/
structure Statistics where
  min : UInt64
  max : UInt64
  count : UInt64
  batch : UInt64
  average : UInt64
  p95 : UInt64
  p90 : UInt64
  p50 : UInt64
  mad : UInt64
  deriving DecidableEq

/-- The keys of a statistics line with their values. -/
def Statistics.fields (s : Statistics) : List (String × UInt64) :=
  [("min", s.min), ("max", s.max), ("count", s.count), ("batch", s.batch),
    ("average", s.average), ("95th", s.p95), ("90th", s.p90), ("50th", s.p50), ("mad", s.mad)]

/-- A key and its value. -/
def field (f : String × UInt64) : String := f.1 ++ "=" ++ toString f.2.toNat

/-- The statistics line, ipv4 `:158–169` and ipv6 `:405–415`. -/
def Statistics.line (s : Statistics) : String := " ".intercalate (s.fields.map field) ++ "\n"

/-- What the kernels from 3.18 on add, ipv6 `:416–428`. -/
structure Depth where
  table : UInt32
  avgdepth : UInt64
  maxdepth : UInt64
  deriving DecidableEq

/-- The line of the depths, ipv6 `:424–426`. -/
def Depth.line (d : Depth) : String :=
  "table=" ++ toString d.table.toNat ++ " avgdepth=" ++ toString (d.avgdepth / 10).toNat ++
    "." ++ toString (d.avgdepth % 10).toNat ++ " maxdepth=" ++ toString d.maxdepth.toNat ++ "\n"

namespace Ipv4

/-- The statistics of some samples, `:154–169`. -/
def statistics (v : Results) (o : OrderStatistics) (average batch : UInt64) : Statistics where
  min := v.first
  max := v.last
  count := v.total * batch
  batch := batch
  average := average
  p95 := o.p95
  p90 := o.p90
  p50 := o.p50
  mad := o.mad

/-- The page before the histogram, `:158–169`. -/
def statisticsPage (v : Results) (o : OrderStatistics) (average batch : UInt64) : List UInt8 :=
  scnprintf [] (statistics v o average batch).line

end Ipv4

namespace Ipv6

/-- The statistics of some samples, `:401–415`. -/
def statistics (v : Results) (o : OrderStatistics) (average batch : UInt64) : Statistics where
  min := v.first
  max := v.last
  count := v.total
  batch := batch
  average := average
  p95 := o.p95
  p90 := o.p90
  p50 := o.p50
  mad := o.mad

/-- The page before the histogram, `:405–428`. -/
def statisticsPage (v : Results) (o : OrderStatistics) (average batch : UInt64)
    (depth : Option Depth) : List UInt8 :=
  let buf := scnprintf [] (statistics v o average batch).line
  match depth with
  | none => buf
  | some d => scnprintf buf d.line

end Ipv6

namespace Histogram

/-! ### The texts of the histogram -/

/-- The texts of the line over the histogram. -/
def headerTexts : List String :=
  [" " ++ leftpad 8 "value" ++ " │", leftpad 25 "" ++ "┊" ++ leftpad 24 "",
    " " ++ leftpad 8 "count" ++ "\n"]

/-- The texts of a row. -/
def Row.texts (shown : UInt64 → UInt64) (row : Row) : List String :=
  (" " ++ leftpad 8 (toString row.start.toNat) ++ " │") ::
    (List.replicate row.dark "▒" ++ List.replicate row.light "░" ++
      [leftpad row.padding.toInt.natAbs "" ++ " " ++
        leftpad 8 (toString (shown row.count).toNat) ++ "\n"])

/-- The texts of a histogram with some rows, in the order in which they are printed. -/
def texts (shown : UInt64 → UInt64) (rows : List Row) : List String :=
  headerTexts ++ rows.flatMap (Row.texts shown)

/-- The bytes of a text. -/
def bytes (text : String) : List UInt8 := text.toUTF8.toList

/-- `scnprintf` prints into a page of `PAGE_SIZE` bytes, one of which is for the final NUL. -/
theorem scnprintf_eq (histBuf : List UInt8) (text : String) :
    scnprintf histBuf text = Page.print (pageSize - 1) histBuf (bytes text) := rfl

private theorem scnprintfTimes_eq (text : String) (n : Nat) (histBuf : List UInt8) :
    scnprintfTimes text n histBuf = (List.replicate n text).foldl scnprintf histBuf := by
  induction n generalizing histBuf with
  | zero => rfl
  | succ n ih => exact ih _

/-- A row is printed text by text. -/
theorem Row.print_eq (shown : UInt64 → UInt64) (row : Row) (histBuf : List UInt8) :
    row.print shown histBuf = (row.texts shown).foldl scnprintf histBuf := by
  rw [Row.texts, List.foldl_cons, List.foldl_append, List.foldl_append, ← scnprintfTimes_eq,
    ← scnprintfTimes_eq]
  rfl

/-! ### Sizes -/

/-- The decimal digits of a number. -/
def digits (n : Nat) : Nat := (Nat.toDigits 10 n).length

/-- A digit takes one byte. -/
theorem utf8Size_of_isDigit {c : Char} (h : c.isDigit = true) : c.utf8Size = 1 := by
  rw [Char.utf8Size_eq_one_iff]
  simp only [Char.isDigit, Bool.and_eq_true, decide_eq_true_eq] at h
  exact UInt32.le_trans h.2 (by decide)

/-- A number takes a byte for each digit. -/
theorem utf8ByteSize_toString (n : Nat) : (toString n).utf8ByteSize = digits n := by
  apply Utf8.utf8ByteSize_ofList
  intro c hc
  exact utf8Size_of_isDigit (Nat.isDigit_of_mem_toDigits (by decide) (by decide) hc)

/-- An `unsigned long` has at most twenty digits. -/
theorem digits_le (x : UInt64) : digits x.toNat ≤ 20 := by
  apply (Nat.length_toDigits_le_iff (by decide) (by decide)).mpr
  have hlt := x.toNat_lt
  omega

private theorem utf8ByteSize_leftpad (width : Nat) (text : String) :
    (leftpad width text).utf8ByteSize = width - text.length + text.utf8ByteSize := by
  rw [leftpad, String.utf8ByteSize_append, Utf8.utf8ByteSize_ofList, List.length_replicate]
  intro c hc
  rw [List.eq_of_mem_replicate hc]
  rfl

private theorem utf8ByteSize_number (n : Nat) :
    (leftpad 8 (toString n)).utf8ByteSize = max 8 (digits n) := by
  have hlength : (toString n).length = digits n := String.length_ofList
  rw [utf8ByteSize_leftpad, utf8ByteSize_toString, hlength]
  omega

/-- The statistics line has 56 bytes besides its numbers. -/
theorem length_line (s : Statistics) :
    (bytes s.line).length = 56 + (s.fields.map fun f ↦ digits f.2.toNat).sum := by
  simp only [bytes, Utf8.length_toUTF8, Statistics.line, Statistics.fields, field, List.map_cons,
    List.map_nil, String.intercalate_cons_cons, String.intercalate_singleton,
    String.utf8ByteSize_append, utf8ByteSize_toString, List.sum_cons, List.sum_nil]
  have hkeys : "min".utf8ByteSize = 3 ∧ "max".utf8ByteSize = 3 ∧ "count".utf8ByteSize = 5 ∧
      "batch".utf8ByteSize = 5 ∧ "average".utf8ByteSize = 7 ∧ "95th".utf8ByteSize = 4 ∧
      "90th".utf8ByteSize = 4 ∧ "50th".utf8ByteSize = 4 ∧ "mad".utf8ByteSize = 3 := by decide
  have hmarks : "=".utf8ByteSize = 1 ∧ " ".utf8ByteSize = 1 ∧ "\n".utf8ByteSize = 1 := by decide
  omega

/-- So it has at most 236. -/
theorem length_line_le (s : Statistics) : (bytes s.line).length ≤ 236 := by
  have hdigits : ∀ n ∈ s.fields.map fun f ↦ digits f.2.toNat, n ≤ 20 := by
    intro n hn
    obtain ⟨f, -, rfl⟩ := List.mem_map.mp hn
    exact digits_le f.2
  have hsum := List.sum_le_card_nsmul _ 20 hdigits
  rw [List.length_map] at hsum
  change _ ≤ 9 * 20 at hsum
  rw [length_line]
  omega

/-- A depth line has at most 90 bytes. -/
theorem length_depthLine_le (d : Depth) : (bytes d.line).length ≤ 90 := by
  have htable : digits d.table.toNat ≤ 20 := by
    apply (Nat.length_toDigits_le_iff (by decide) (by decide)).mpr
    have hlt := d.table.toNat_lt
    omega
  have htenths := digits_le (d.avgdepth / 10)
  have hdepth : (d.avgdepth % 10).toNat < 10 := by
    rw [UInt64.toNat_mod]
    exact Nat.mod_lt _ (by decide)
  have hdigit : digits (d.avgdepth % 10).toNat ≤ 1 :=
    (Nat.length_toDigits_le_iff (by decide) (by decide)).mpr hdepth
  have hmax := digits_le d.maxdepth
  have hmarks : "table=".utf8ByteSize = 6 ∧ " avgdepth=".utf8ByteSize = 10 ∧
      ".".utf8ByteSize = 1 ∧ " maxdepth=".utf8ByteSize = 10 ∧ "\n".utf8ByteSize = 1 := by decide
  rw [bytes, Utf8.length_toUTF8, Depth.line]
  simp only [String.utf8ByteSize_append, utf8ByteSize_toString]
  omega

private theorem length_scnprintf_le (buf : List UInt8) (text : String) :
    (scnprintf buf text).length ≤ buf.length + (bytes text).length := by
  rw [scnprintf_eq, Page.print, List.length_append]
  exact Nat.add_le_add_left (List.length_take_le' _ _) _

/-- The histogram begins in the first 326 bytes. -/
theorem length_statisticsPage_le (v : Results) (o : OrderStatistics) (average batch : UInt64)
    (depth : Option Depth) :
    (Ipv4.statisticsPage v o average batch).length ≤ 326 ∧
      (Ipv6.statisticsPage v o average batch depth).length ≤ 326 := by
  constructor
  · have hpage := length_scnprintf_le [] (Ipv4.statistics v o average batch).line
    have hline := length_line_le (Ipv4.statistics v o average batch)
    rw [Ipv4.statisticsPage]
    rw [List.length_nil] at hpage
    omega
  · have hpage := length_scnprintf_le [] (Ipv6.statistics v o average batch).line
    have hline := length_line_le (Ipv6.statistics v o average batch)
    rw [List.length_nil] at hpage
    unfold Ipv6.statisticsPage
    cases depth with
    | none =>
      dsimp only
      omega
    | some d =>
      have hdepth := length_scnprintf_le
        (scnprintf [] (Ipv6.statistics v o average batch).line) d.line
      have hdline := length_depthLine_le d
      dsimp only
      omega

/-- The line over the histogram takes 75 bytes. -/
theorem sum_headerTexts : (headerTexts.map fun text ↦ (bytes text).length).sum = 75 := by
  simp only [bytes, Utf8.length_toUTF8, headerTexts, List.map_cons, List.map_nil, List.sum_cons,
    List.sum_nil, String.utf8ByteSize_append, utf8ByteSize_leftpad]
  decide

private theorem length_number (n : Nat) (before behind : String) :
    (bytes (before ++ leftpad 8 (toString n) ++ behind)).length =
      before.utf8ByteSize + max 8 (digits n) + behind.utf8ByteSize := by
  rw [bytes, Utf8.length_toUTF8, String.utf8ByteSize_append, String.utf8ByteSize_append,
    utf8ByteSize_number]

/-- The bytes of a row: the bound and the count take eight columns or more, a glyph of a bar
takes three bytes and a blank one. -/
theorem Row.sum_texts (shown : UInt64 → UInt64) (row : Row) :
    ((row.texts shown).map fun text ↦ (bytes text).length).sum =
      max 8 (digits row.start.toNat) + 3 * (row.dark + row.light) +
        row.padding.toInt.natAbs + max 8 (digits (shown row.count).toNat) + 7 := by
  have hdark : (bytes "▒").length = 3 := Utf8.length_toUTF8 _
  have hlight : (bytes "░").length = 3 := Utf8.length_toUTF8 _
  have hblank : (leftpad row.padding.toInt.natAbs "" ++ " ").utf8ByteSize =
      row.padding.toInt.natAbs + 1 := by
    rw [String.utf8ByteSize_append, utf8ByteSize_leftpad]
    rfl
  have hline : " │".utf8ByteSize = 4 := by decide
  simp only [Row.texts, List.map_cons, List.map_append, List.map_replicate, List.sum_cons,
    List.sum_append, List.sum_replicate_nat, List.map_nil, List.sum_nil, length_number,
    hdark, hlight, hblank, hline]
  change 1 + _ + 4 + (_ + (_ + 1 + _ + 1 + 0)) = _
  omega

end Histogram
end NetworkLab.Kbench
