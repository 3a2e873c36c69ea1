import NetworkLab.Kbench.PageCut
import NetworkLab.Lib.Tty

/-!
# The report of a benchmark

What a run of the module prints, and the file that `lab-routes-ipv6/2026/run-kernel:70–164` makes
of the runs; that of `lab-routes-ipv4/2026` is the same but for how routes are loaded. The runs
write to a serial line, the host adds its description to the file.
-/

namespace NetworkLab.Kbench.Report

open Lib Histogram

/-- The directories `lab-routes-ipv4/2026` and `lab-routes-ipv6/2026`. -/
inductive Module where
  | ipv4
  | ipv6
  deriving DecidableEq

/-! ### The outcome of a run -/

/-- The samples of a run and what is printed with them. The depths are those of the trie of
`ipv6`. -/
structure Measurement where
  v : Results
  o : OrderStatistics
  average : UInt64
  batch : UInt64
  depth : Option Depth
  verbose : Bool

/-- How a run of the module ends. -/
inductive Outcome where
  | noMemory
  | lookupError (err : Int32)
  | noMatch
  | measured (m : Measurement)

namespace Measurement

/-- The numbers of the statistics line. -/
def statistics (mod : Module) (m : Measurement) : Statistics :=
  match mod with
  | .ipv4 => Ipv4.statistics m.v m.o m.average m.batch
  | .ipv6 => Ipv6.statistics m.v m.o m.average m.batch

/-- The page before the histogram. -/
def statisticsPage (mod : Module) (m : Measurement) : List UInt8 :=
  match mod with
  | .ipv4 => Ipv4.statisticsPage m.v m.o m.average m.batch
  | .ipv6 => Ipv6.statisticsPage m.v m.o m.average m.batch m.depth

/-- The histogram behind it. -/
def histogram (mod : Module) (m : Measurement) : (fuel : Nat) → Option State :=
  match mod with
  | .ipv4 => displayStatistics m.v m.o.p95 m.batch (m.statisticsPage mod)
  | .ipv6 => doBench m.v m.o.p95 (m.statisticsPage mod)

/-- The whole page, ipv4 `:143–217` and ipv6 `:400–479`. -/
def page (mod : Module) (m : Measurement) (fuel : Nat) : Option (List UInt8) :=
  if m.verbose then (m.histogram mod fuel).map (·.histBuf) else some (m.statisticsPage mod)

/-- The count that a row shows. -/
def shown (mod : Module) (m : Measurement) : UInt64 → UInt64 :=
  match mod with
  | .ipv4 => (· * m.batch)
  | .ipv6 => id

/-- A row of the histogram does not fit the page. -/
def Overflows (mod : Module) (m : Measurement) : Prop :=
  m.verbose = true ∧ ∃ scale, m.v.scale m.o.p95 = some scale ∧
    ¬ PageFits m.v scale m.o.p95 (m.shown mod) (m.statisticsPage mod).length

/-- The page ends within a glyph of the histogram. -/
def CutsGlyph (mod : Module) (m : Measurement) : Prop :=
  m.verbose = true ∧ ∃ scale, m.v.scale m.o.p95 = some scale ∧
    GlyphCut m.v scale m.o.p95 (m.shown mod) (m.statisticsPage mod).length

end Measurement

namespace Outcome

/-- The page of a run, ipv4 `:151`, `:277`, `:286` and ipv6 `:239`, `:293`, `:399`. -/
def page (mod : Module) (fuel : Nat) : Outcome → Option (List UInt8)
  | .noMemory => some (scnprintf [] "msg=\"no memory\"\n")
  | .lookupError err =>
    some (scnprintf [] ("err=" ++ toString err.toInt ++ " msg=\"lookup error\"\n"))
  | .noMatch => some (scnprintf [] "msg=\"no match\"\n")
  | .measured m => m.page mod fuel

/-- The numbers that a run prints. -/
def statistics? (mod : Module) : Outcome → Option Statistics
  | .measured m => some (m.statistics mod)
  | _ => none

/-- A row of the histogram of the run does not fit its page. -/
def Overflows (mod : Module) : Outcome → Prop
  | .measured m => m.Overflows mod
  | _ => False

/-- The page of the run ends within a glyph. -/
def CutsGlyph (mod : Module) : Outcome → Prop
  | .measured m => m.CutsGlyph mod
  | _ => False

end Outcome

/-! ### The file -/

/-- A text without line ends. -/
abbrev Line := { l : List Char // '\n' ∉ l ∧ '\r' ∉ l }

/-- A dump with the number of routes loaded from it and what the run prints. -/
structure Run (mod : Module) where
  base : List Char
  noSpace : ∀ c ∈ base, PyText.isSpace c = false
  routes : Nat
  outcome : Outcome
  fuel : Nat
  output : List UInt8
  printed : outcome.page mod fuel = some output

/-- The name of a dump under `rtdump`, `:126–129`. -/
def dumpName {mod : Module} (r : Run mod × Nat) : List Char :=
  Nat.toDigits 10 r.2 ++ '-' :: r.1.base

/-- The dumps in the order of `for f in /rtdump/*`, `:72`: that of the bytes of their names. -/
def rtdump {mod : Module} (runs : List (Run mod)) : List (Run mod × Nat) :=
  (runs.zipIdx 1).mergeSort fun r r' ↦
    decide (Utf8.encode (dumpName r) ≤ Utf8.encode (dumpName r'))

/-- They are the dumps of the command line in another order. -/
theorem rtdump_perm {mod : Module} (runs : List (Run mod)) :
    ((rtdump runs).map (·.1)).Perm runs := by
  have hperm := (List.mergeSort_perm (runs.zipIdx 1) fun r r' ↦
    decide (Utf8.encode (dumpName r) ≤ Utf8.encode (dumpName r'))).map (·.1)
  rwa [List.zipIdx_map_fst] at hperm

/-- The line over a run, `:95`. -/
def marker {mod : Module} (r : Run mod × Nat) : List Char := '#' :: '#' :: '#' :: ' ' :: dumpName r

/-- What the loop writes for a dump, `:95–98`. -/
def block {mod : Module} (r : Run mod × Nat) : List UInt8 :=
  Utf8.encode (marker r ++ ['\n']) ++
    Utf8.encode (Nat.toDigits 10 r.1.routes ++ ['\n']) ++ r.1.output

/-- Texts written as lines. -/
def unlines (ls : List (List Char)) : List Char := ls.flatMap (· ++ ['\n'])

/-- `grep -q` for a text at the start of a line. -/
def grepStart (text : List Char) (bytes : List UInt8) : Bool :=
  (bytes.splitOn 0x0a).any (Utf8.encode text).isPrefixOf

/-- A benchmark of a kernel: its version, the extra parameters, the runs in the order of the
dumps on the command line, the lines of the description of guest and host, and whether the
serial line writes a carriage return before a newline. -/
structure Session (mod : Module) where
  version : Line
  kparams : Line
  runs : List (Run mod)
  distinct : (runs.map (·.base)).Nodup
  guest : List Line
  host : List Line
  silent : ∀ l ∈ guest ++ host, ¬ ['#', '#', '#', ' '] <+: l.val ∧ ¬ ['m', 'i', 'n', '='] <+: l.val
  onlcr : Bool

namespace Session

variable {mod : Module}

/-- The lines before the runs, `:70–71`. -/
def header (s : Session mod) : List (List Char) :=
  ["Linux version ".toList ++ s.version.val,
    "console=ttyS0 panic=1 oops=panic 8250.nr_uarts=4 ".toList ++ s.kparams.val]

/-- What the guest writes behind the runs, `:100–102`. -/
def guestLines (s : Session mod) : List (List Char) :=
  "--- Guest".toList :: s.guest.map (·.val)

/-- What the host adds, `:155–162`. -/
def hostLines (s : Session mod) : List (List Char) := "--- Host".toList :: s.host.map (·.val)

/-- What the loop over the dumps and the lines behind it write, `:72–102`. Without a dump
`/rtdump/*` stands for itself: `ip route restore` cannot open it, and `set -e` ends the script. -/
def dumps (s : Session mod) : List UInt8 :=
  if s.runs.isEmpty then []
  else (rtdump s.runs).flatMap block ++ Utf8.encode (unlines s.guestLines)

/-- The file behind the serial line, `:142`. -/
def output (s : Session mod) : List UInt8 :=
  Tty.output s.onlcr (Utf8.encode (unlines s.header) ++ s.dumps)

/-- The file `OUTPUT`, `:148–164`. There is none if no line begins with `--- Guest`. -/
def file (s : Session mod) : Option (List UInt8) :=
  if grepStart "--- Guest".toList s.output then
    some (s.output ++ Utf8.encode (unlines s.hostLines))
  else none

end Session

end NetworkLab.Kbench.Report
