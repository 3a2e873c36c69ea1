import NetworkLab.Kbench.Store
import NetworkLab.Kbench.Trace
import NetworkLab.Kbench.Word

/-!
# The timed section of the IPv4 benchmark

`do_bench` of `lab-routes-ipv4/2026/kbench_mod.c:219–364` up to the statistics: range
set-up, warm-up and timed loop with its batches. Addresses are `__be32` values, kept in
network byte order. The lookup is taken to leave the flow it is given unchanged; the log
messages are left out.
-/

namespace NetworkLab.Kbench.Ipv4

/-- The module's globals, `:50–59`. -/
structure Settings where
  warmupCount : Count
  loopCount : Count
  batchCount : Count
  flowOif : Int32
  flowIif : Int32
  flowTos : UInt8
  flowMark : UInt32
  flowDstIpaddrS : UInt32
  flowDstIpaddrE : UInt32
  flowSrcIpaddr : UInt32
  deriving DecidableEq

/-- The arrays `do_bench` allocates, `:242` and `:273`. -/
inductive Buffer where
  | results
  | batchedFl4
  deriving DecidableEq, Repr

/-- `struct flowi4` as filled in `:254–267`. -/
structure Flowi4 where
  oif : Int32
  iif : Int32
  mark : UInt32
  tos : UInt8
  daddr : UInt32
  saddr : UInt32
  deriving DecidableEq

/-- The flow looked up for a destination, `:254–267` and `:302`. -/
def flowi4 (g : Settings) (daddr : UInt32) : Flowi4 :=
  { oif := g.flowOif, iif := g.flowIif, mark := g.flowMark, tos := g.flowTos
    daddr := daddr, saddr := g.flowSrcIpaddr }

abbrev Act := Event Flowi4 Buffer
abbrev Kernel := Env Flowi4 Buffer

/-- What stops the kernel: a division or a modulo by zero. -/
inductive Fault where
  | divideError
  deriving DecidableEq, Repr

/-- The `/` of two `unsigned long` values. -/
def udiv (a b : UInt64) : Except Fault UInt64 :=
  if b = 0 then .error .divideError else .ok (a / b)

/-- The `%` of two `unsigned long` values. -/
def umod (a b : UInt64) : Except Fault UInt64 :=
  if b = 0 then .error .divideError else .ok (a % b)

/-! ### Range set-up -/

/-- The swap of `:236–237`, with the unsigned difference the source compares with zero. -/
def Settings.swapRange (g : Settings) : Settings :=
  if ntohl g.flowDstIpaddrE - ntohl g.flowDstIpaddrS < 0 then
    { g with flowDstIpaddrE := g.flowDstIpaddrS, flowDstIpaddrS := g.flowDstIpaddrE }
  else g

/-- The locals that steer the scan once it is set up. -/
structure ScanPlan where
  scan : Bool
  delta : UInt64
  deriving DecidableEq

/-- Set-up of `scan` and `delta`, `:226` and `:269–272`. `scan` is assigned on one path
only, so the other path hands on the uninitialised content `scan0`. -/
def setUpScan (g : Settings) (scan0 : Bool) : ScanPlan :=
  if ntohl g.flowDstIpaddrS < ntohl g.flowDstIpaddrE then
    { scan := true, delta := (ntohl g.flowDstIpaddrE - ntohl g.flowDstIpaddrS).toUInt64 }
  else { scan := scan0, delta := 0 }

/-- The kernel's `ipv4_is_loopback`: whether an address is in `127.0.0.0/8`. -/
def ipv4IsLoopback (addr : UInt32) : Bool := (ntohl addr).toNat / 2 ^ 24 == 127

/-- The address of iteration `i` of a scan, `:293–296`. The 64-bit sum is cut to the
32 bits that `htonl` takes. -/
def scanDaddr (g : Settings) (delta i : UInt64) : Except Fault UInt32 :=
  let count := g.loopCount.val
  if delta < count then do
    let offset ← umod i delta
    return htonl ((ntohl g.flowDstIpaddrS).toUInt64 + offset).toUInt32
  else do
    let step ← udiv delta count
    return htonl ((ntohl g.flowDstIpaddrS).toUInt64 + step * i).toUInt32

/-! ### The loops -/

/-- Warm-up lookups, `:282–289`: any error but `-ENETUNREACH` and `-ESRCH` ends the run. -/
def warmUp (env : Kernel) (fl4 : Flowi4) : Nat → List Act → Except Int (List Act)
  | 0, trace => .ok trace
  | n + 1, trace =>
    let err := env.lookup trace fl4
    if err ≠ 0 ∧ err ≠ netUnreach ∧ err ≠ noSuchProcess then .error err
    else warmUp env fl4 n (.lookup fl4 :: trace)

/-- The locals of the timed loop, with the actions so far, newest first. `batchedFl4`
holds the first `j` elements of its array, and `results` the first `total`. -/
structure Timed where
  trace : List Act
  daddr : UInt32
  batchedFl4 : List Flowi4
  total : Nat
  results : List UInt64

/-- Timing of one lookup, `:330–339`. -/
def Timed.timePlain (env : Kernel) (g : Settings) (s : Timed) : Timed :=
  let fl4 := flowi4 g s.daddr
  let started := .getCycles :: s.trace
  let looked := .lookup fl4 :: started
  let stopped := .getCycles :: looked
  if env.lookup started fl4 = netUnreach then { s with trace := stopped }
  else { s with
    trace := .write .results s.total :: stopped
    results := s.results ++ [env.getCycles looked - env.getCycles s.trace]
    total := s.total + 1 }

/-- The lookups of a batch from element `j` on, `:348–350`: the actions and the errors,
each stored in its flow. -/
def lookupBatch (env : Kernel) : (j : Nat) → List Flowi4 → List Act → List Act × List Int
  | _, [], trace => (trace, [])
  | j, fl4 :: fl4s, trace =>
    let rest := lookupBatch env (j + 1) fl4s (.write .batchedFl4 j :: .lookup fl4 :: trace)
    (rest.1, env.lookup trace fl4 :: rest.2)

/-- Timing of a complete batch, `:347–364`. -/
def Timed.timeBatch (env : Kernel) (batch : UInt64) (s : Timed) : Except Fault Timed :=
  let looked := lookupBatch env 0 s.batchedFl4 (.getCycles :: s.trace)
  let stopped := .getCycles :: looked.1
  if netUnreach ∈ looked.2 then .ok { s with trace := stopped, batchedFl4 := [] }
  else do
    let cycles ← udiv (env.getCycles looked.1 - env.getCycles s.trace) batch
    return { s with
      trace := .write .results s.total :: stopped, batchedFl4 := []
      results := s.results ++ [cycles], total := s.total + 1 }

/-- Copy of the flow into the batch, timed once it is complete, `:340–364`. -/
def Timed.collect (env : Kernel) (g : Settings) (s : Timed) : Except Fault Timed :=
  let batch := g.batchCount.val
  let copied := { s with
    trace := .write .batchedFl4 s.batchedFl4.length :: s.trace
    batchedFl4 := s.batchedFl4 ++ [flowi4 g s.daddr] }
  if copied.batchedFl4.length ≠ batch.toNat then .ok copied else copied.timeBatch env batch

/-- The timing part of one iteration, `:330–364`. -/
def Timed.time (env : Kernel) (g : Settings) (s : Timed) : Except Fault Timed :=
  if g.batchCount.val ≤ 1 then .ok (s.timePlain env g) else s.collect env g

/-- One iteration, `:291–364`: a loopback address of a scan is skipped. -/
def Timed.iterate (env : Kernel) (g : Settings) (plan : ScanPlan) (i : UInt64) (s : Timed) :
    Except Fault Timed :=
  if plan.scan then do
    let daddr ← scanDaddr g plan.delta i
    if ipv4IsLoopback daddr then return s
    else Timed.time env g { s with daddr := daddr }
  else s.time env g

/-- The `n` last iterations of the timed loop, from iteration `i` on, `:290–364`. -/
def timedLoop (env : Kernel) (g : Settings) (plan : ScanPlan) :
    (n : Nat) → (i : UInt64) → Timed → Except Fault Timed
  | 0, _, s => .ok s
  | n + 1, i, s => do timedLoop env g plan n (i + 1) (← s.iterate env g plan i)

/-- The timed loop from its start, after the range set-up. -/
def runTimed (env : Kernel) (g : Settings) (scan0 : Bool) : Except Fault Timed :=
  let g := g.swapRange
  timedLoop env g (setUpScan g scan0) g.loopCount.toNat 0
    { trace := [], daddr := g.flowDstIpaddrS, batchedFl4 := [], total := 0, results := [] }

/-- How a run up to the statistics ends. -/
inductive Outcome where
  | noMemory
  | lookupError (err : Int)
  | timed (s : Timed)

/-- `do_bench` up to the statistics, `:236–364`. `grants` says which allocation succeeds
at which element count. -/
def doBench (env : Kernel) (grants : Buffer → UInt64 → Bool) (g : Settings) (scan0 : Bool) :
    Except Fault Outcome := do
  let g' := g.swapRange
  let batch := g'.batchCount.val
  let groups ← udiv g'.loopCount.val batch
  if !grants .results (groups + 1) || (decide (1 < batch) && !grants .batchedFl4 batch) then
    return .noMemory
  match warmUp env (flowi4 g' g'.flowDstIpaddrS) g'.warmupCount.toNat [] with
  | .error err => return .lookupError err
  | .ok trace => return .timed (← runTimed (env.after trace) g scan0)

end NetworkLab.Kbench.Ipv4
