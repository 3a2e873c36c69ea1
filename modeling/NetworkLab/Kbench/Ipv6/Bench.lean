import NetworkLab.Kbench.Ipv6.Scan
import NetworkLab.Kbench.Trace

/-!
# The timed section of the IPv6 benchmark

`do_bench` of `lab-routes-ipv6/2026/kbench_mod.c` between taking and releasing
`kb_lock`, `:242–394`: warm-up, timed loop and batched timing. The loops run on the
settings in force when the lock was taken, which no store can change meanwhile. The
references to the looked-up routes and the log messages are left out.
-/

namespace NetworkLab.Kbench.Ipv6

/-- The arrays `do_bench` allocates, `:228–233`. -/
inductive Buffer where
  | results
  | addrs
  | batchedFl6
  | batchedDst
  deriving DecidableEq, Repr

/-- `struct flowi6` as filled in `:243–250`. -/
structure Flowi6 where
  oif : Int32
  iif : Int32
  mark : UInt32
  proto : UInt8
  flowlabel : UInt32
  daddr : In6Addr
  saddr : In6Addr
  deriving DecidableEq

/-- `NEXTHDR_TCP`. -/
def nexthdrTcp : UInt8 := 6

/-- The flow looked up for a destination, `:243–250`. -/
def flowi6 (g : Settings) (daddr : In6Addr) : Flowi6 :=
  { oif := g.flowOif, iif := g.flowIif, mark := g.flowMark, proto := nexthdrTcp
    flowlabel := g.flowLabel, daddr := daddr, saddr := g.flowSrcIpaddr }

abbrev Act := Event Flowi6 Buffer
abbrev Kernel := Env Flowi6 Buffer

/-- The locals of the loops, with the actions so far, newest first. The lists hold the
elements of the arrays written so far. -/
structure Timed where
  trace : List Act
  cursor : Cursor
  total : Nat
  results : List UInt64
  average : UInt64
  addrs : List In6Addr

/-- Record one action. -/
def Timed.emit (e : Act) (s : Timed) : Timed := { s with trace := e :: s.trace }

@[simp] theorem Timed.trace_emit (e : Act) (s : Timed) : (s.emit e).trace = e :: s.trace := rfl

@[simp] theorem Timed.total_emit (e : Act) (s : Timed) : (s.emit e).total = s.total := rfl

/-- Warm-up lookups, `:283–296`: any error but `-ENETUNREACH` ends the run. -/
def warmUp (env : Kernel) (fl6 : Flowi6) : Nat → List Act → Except Int (List Act)
  | 0, trace => .ok trace
  | n + 1, trace =>
    let err := env.lookup trace fl6
    if err ≠ 0 ∧ err ≠ netUnreach then .error err
    else warmUp env fl6 n (.lookup fl6 :: trace)

/-- Collection of an address with a match, for batches, `:350–357`. -/
def Timed.collect (env : Kernel) (g : Settings) (s : Timed) : Timed :=
  let fl6 := flowi6 g s.cursor.daddr
  let looked := s.emit (.lookup fl6)
  if env.lookup s.trace fl6 = netUnreach then looked
  else { looked.emit (.write .addrs s.total) with
    addrs := s.addrs ++ [s.cursor.daddr], total := s.total + 1 }

/-- Timing of one lookup, `:359–370`. -/
def Timed.timePlain (env : Kernel) (g : Settings) (s : Timed) : Timed :=
  let fl6 := flowi6 g s.cursor.daddr
  let started := s.emit .getCycles
  let looked := started.emit (.lookup fl6)
  let stopped := looked.emit .getCycles
  let cycles := env.getCycles looked.trace - env.getCycles s.trace
  if env.lookup started.trace fl6 = netUnreach then stopped
  else { stopped.emit (.write .results s.total) with
    results := s.results ++ [cycles], average := s.average + cycles, total := s.total + 1 }

/-- One iteration of the timed loop, `:303–370`. -/
def Timed.iterate (env : Kernel) (g : Settings) (batch : UInt64) (plan : ScanPlan)
    (s : Timed) : Timed :=
  let s := { s with cursor := s.cursor.advance g plan }
  if 1 < batch then s.collect env g else s.timePlain env g

/-- The timed loop with that many iterations left before `max_loop_count`, `:299–371`. -/
def timedLoop (env : Kernel) (g : Settings) (batch : UInt64) (plan : ScanPlan) :
    Nat → Timed → Timed
  | 0, s => s
  | n + 1, s =>
    if g.loopCount.toNat ≤ s.total then s
    else timedLoop env g batch plan n (s.iterate env g batch plan)

/-- The flow copied for element `j` of the batch at `i`, `:376–377`. Past the collected
addresses, where only a wrapped `i + batch` leads, the content is unknown. -/
def batchedFlow (g : Settings) (s : Timed) (i : UInt64) (j : Nat) : Flowi6 :=
  flowi6 g (s.addrs[(i + UInt64.ofNat j).toNat]?.getD s.cursor.daddr)

/-- The copies of one batch, `:375–378`. -/
def Timed.fillBatch (batch : UInt64) (s : Timed) : Timed :=
  (List.range batch.toNat).foldl (fun s j ↦ s.emit (.write .batchedFl6 j)) s

/-- The lookups of one batch, `:380–381`. -/
def Timed.lookupBatch (g : Settings) (batch i : UInt64) (s : Timed) : Timed :=
  (List.range batch.toNat).foldl
    (fun s j ↦ (s.emit (.lookup (batchedFlow g s i j))).emit (.write .batchedDst j)) s

/-- One batch timed as a whole, `:375–387`. -/
def Timed.timeBatch (env : Kernel) (g : Settings) (batch i n : UInt64) (s : Timed) : Timed :=
  let filled := s.fillBatch batch
  let looked := (filled.emit .getCycles).lookupBatch g batch i
  let cycles := (env.getCycles looked.trace - env.getCycles filled.trace) / batch
  { (looked.emit .getCycles).emit (.write .results n.toNat) with
    results := s.results ++ [cycles], average := s.average + cycles }

/-- The batched timing, `:374–389`, cut after `fuel` batches: the unsigned sum
`i + batch` may wrap, so the loop alone does not say that it ends. -/
def batchLoop (env : Kernel) (g : Settings) (batch : UInt64) :
    (fuel : Nat) → (i n : UInt64) → Timed → Timed × UInt64
  | 0, _, n, s => (s, n)
  | fuel + 1, i, n, s =>
    if (i + batch).toNat ≤ s.total then
      batchLoop env g batch fuel (i + batch) (n + 1) (s.timeBatch env g batch i n)
    else (s, n)

/-- The loop state after the warm-up, `:298–299`. -/
def Timed.start (g : Settings) (trace : List Act) : Timed :=
  { trace, cursor := ⟨g.flowDstIpaddrS, 0⟩, total := 0, results := [], average := 0, addrs := [] }

/-- The timed loop from its start, `:298–371`. -/
def runTimed (env : Kernel) (g : Settings) (batch : UInt64) (scan0 : Bool)
    (trace : List Act) : Timed :=
  timedLoop env g batch (setUpScan g scan0) g.maxLoopCount.toNat (.start g trace)

/-- All of `:243–390` under the lock: the actions, newest first, cut after `fuel`
batches. A warm-up error ends the run before any array is written. -/
def lockedSection (env : Kernel) (g : Settings) (batch : UInt64) (scan0 : Bool) (fuel : Nat) :
    Except Int Timed :=
  match warmUp env (flowi6 g g.flowDstIpaddrS) g.warmupCount.toNat [] with
  | .error err => .error err
  | .ok trace =>
    let s := runTimed env g batch scan0 trace
    if 1 < batch then
      let r := batchLoop env g batch fuel 0 0 s
      .ok { r.1 with total := r.2.toNat }
    else .ok s

/-- Everything one iteration can do: in a batch run or a plain one, with or without a
route to the advanced destination. -/
theorem Timed.iterate_cases (env : Kernel) (g : Settings) (batch : UInt64)
    (plan : ScanPlan) (s : Timed) :
    let c := s.cursor.advance g plan
    let fl6 := flowi6 g c.daddr
    let cycles := env.getCycles (.lookup fl6 :: .getCycles :: s.trace) - env.getCycles s.trace
    let s' := s.iterate env g batch plan
    (1 < batch ∧ env.lookup s.trace fl6 = netUnreach ∧
      s' = { s with cursor := c, trace := .lookup fl6 :: s.trace }) ∨
    (1 < batch ∧ env.lookup s.trace fl6 ≠ netUnreach ∧
      s' = { s with
        cursor := c, trace := .write .addrs s.total :: .lookup fl6 :: s.trace
        addrs := s.addrs ++ [c.daddr], total := s.total + 1 }) ∨
    (¬ 1 < batch ∧ env.lookup (.getCycles :: s.trace) fl6 = netUnreach ∧
      s' = { s with
        cursor := c, trace := .getCycles :: .lookup fl6 :: .getCycles :: s.trace }) ∨
    (¬ 1 < batch ∧ env.lookup (.getCycles :: s.trace) fl6 ≠ netUnreach ∧
      s' = { s with
        cursor := c
        trace := .write .results s.total :: .getCycles :: .lookup fl6 :: .getCycles :: s.trace
        results := s.results ++ [cycles], average := s.average + cycles
        total := s.total + 1 }) := by
  intro c fl6 cycles s'
  by_cases hb : 1 < batch
  · by_cases hr : env.lookup s.trace fl6 = netUnreach
    · refine Or.inl ⟨hb, hr, ?_⟩
      simp only [s', iterate, if_pos hb, collect, emit]
      exact if_pos hr
    · refine Or.inr (Or.inl ⟨hb, hr, ?_⟩)
      simp only [s', iterate, if_pos hb, collect, emit]
      exact if_neg hr
  · by_cases hr : env.lookup (.getCycles :: s.trace) fl6 = netUnreach
    · refine Or.inr (Or.inr (Or.inl ⟨hb, hr, ?_⟩))
      simp only [s', iterate, if_neg hb, timePlain, emit]
      exact if_pos hr
    · refine Or.inr (Or.inr (Or.inr ⟨hb, hr, ?_⟩))
      simp only [s', iterate, if_neg hb, timePlain, emit]
      exact if_neg hr

/-- An iteration moves the cursor by one scan step. -/
theorem Timed.iterate_cursor (env : Kernel) (g : Settings) (batch : UInt64)
    (plan : ScanPlan) (s : Timed) :
    (s.iterate env g batch plan).cursor = s.cursor.advance g plan := by
  rcases s.iterate_cases env g batch plan with
    ⟨_, _, h⟩ | ⟨_, _, h⟩ | ⟨_, _, h⟩ | ⟨_, _, h⟩ <;> rw [h]

/-- An iteration looks up one flow, that of the advanced destination. -/
theorem Timed.lookup_mem_iterate (env : Kernel) (g : Settings) (batch : UInt64)
    (plan : ScanPlan) (s : Timed) (fl6 : Flowi6) :
    .lookup fl6 ∈ (s.iterate env g batch plan).trace ↔
      fl6 = flowi6 g (s.cursor.advance g plan).daddr ∨ .lookup fl6 ∈ s.trace := by
  rcases s.iterate_cases env g batch plan with
    ⟨_, _, h⟩ | ⟨_, _, h⟩ | ⟨_, _, h⟩ | ⟨_, _, h⟩ <;> simp [h]

end NetworkLab.Kbench.Ipv6
