import NetworkLab.Kbench.Ipv4.ScanRange
import NetworkLab.Lib.Cells

/-!
# The timed loop of the IPv4 benchmark on its locals

`do_bench` of `lab-routes-ipv4/2026/kbench_mod.c:290–364` with the one index `j` of its
inner loops and with the two arrays as they lie in memory, where the result of a lookup
replaces the output interface of its flow. A run goes on in step with the run on lists.
-/

namespace NetworkLab.Kbench.Ipv4

open Lib

/-- The `int` that `my_fib_lookup` returns. -/
def myFibLookup (env : Kernel) (trace : List Act) (fl4 : Flowi4) : Int32 :=
  .ofInt (env.lookup trace fl4)

/-- The kernel with every lookup cut to an `int`. -/
def ints (env : Kernel) : Kernel :=
  { env with lookup := fun trace fl4 ↦ (myFibLookup env trace fl4).toInt }

/-- An `int` that reads `-ENETUNREACH` is that `int`. -/
theorem toInt_eq_netUnreach_iff (err : Int32) : err.toInt = netUnreach ↔ err = -101 := by
  have hconst : (-101 : Int32).toInt = netUnreach := by decide
  rw [← hconst, Int32.toInt_inj]

/-- The locals of `:221–234` that live through the timed loop, with the actions so far,
newest first. The arrays start with whatever `kmalloc` returned. -/
structure Locals where
  trace : List Act
  fl4 : Flowi4
  j : UInt64
  total : UInt64
  batchedFl4 : UInt64 → Flowi4
  results : UInt64 → UInt64

namespace Locals

/-- Record one action. -/
def emit (e : Act) (l : Locals) : Locals := { l with trace := e :: l.trace }

/-- The next result, `:337–338` and `:362–363`. -/
def record (cycles : UInt64) (l : Locals) : Locals :=
  { l.emit (.write .results l.total.toNat) with
    results := Cells.set l.results l.total cycles, total := l.total + 1 }

/-- Timing of one lookup, `:330–339`. -/
def timePlain (env : Kernel) (l : Locals) : Locals :=
  let started := l.emit .getCycles
  let looked := started.emit (.lookup l.fl4)
  let stopped := looked.emit .getCycles
  if myFibLookup env started.trace l.fl4 = -101 then stopped
  else stopped.record (env.getCycles looked.trace - env.getCycles l.trace)

/-- The lookups of a batch with `n` of them left, `:348–350`. -/
def lookupFlows (env : Kernel) : (n : Nat) → Locals → Locals
  | 0, l => l
  | n + 1, l =>
    let fl4 := l.batchedFl4 l.j
    let err := myFibLookup env l.trace fl4
    let looked := l.emit (.lookup fl4)
    lookupFlows env n { looked.emit (.write .batchedFl4 l.j.toNat) with
      batchedFl4 := Cells.set l.batchedFl4 l.j { fl4 with oif := err }, j := l.j + 1 }

/-- Whether the scan of the results finds `-ENETUNREACH`, with `n` flows left from `j` on,
`:352–357`. -/
def unreachable (batchedFl4 : UInt64 → Flowi4) : (n : Nat) → (j : UInt64) → Bool
  | 0, _ => false
  | n + 1, j => if (batchedFl4 j).oif = -101 then true else unreachable batchedFl4 n (j + 1)

/-- Timing of a complete batch, `:347–364`. -/
def timeBatch (env : Kernel) (batch : UInt64) (l : Locals) : Except Fault Locals :=
  let looked := lookupFlows env batch.toNat { l.emit .getCycles with j := 0 }
  let stopped := looked.emit .getCycles
  if unreachable looked.batchedFl4 batch.toNat 0 then .ok { stopped with j := 0 }
  else do
    let cycles ← udiv (env.getCycles looked.trace - env.getCycles l.trace) batch
    return { stopped.record cycles with j := 0 }

/-- Copy of the flow into the batch, timed once it is complete, `:340–364`. -/
def collect (env : Kernel) (batch : UInt64) (l : Locals) : Except Fault Locals :=
  let copied := { l.emit (.write .batchedFl4 l.j.toNat) with
    batchedFl4 := Cells.set l.batchedFl4 l.j l.fl4, j := l.j + 1 }
  if copied.j ≠ batch then .ok copied else copied.timeBatch env batch

/-- The timing part of one iteration, `:330–364`. -/
def time (env : Kernel) (batch : UInt64) (l : Locals) : Except Fault Locals :=
  if batch ≤ 1 then .ok (l.timePlain env) else l.collect env batch

/-- One iteration, `:291–364`. -/
def iterate (env : Kernel) (g : Settings) (plan : ScanPlan) (i : UInt64) (l : Locals) :
    Except Fault Locals :=
  if plan.scan then do
    let daddr ← scanDaddr g plan.delta i
    if ipv4IsLoopback daddr then return l
    else time env g.batchCount.val { l with fl4 := { l.fl4 with daddr := daddr } }
  else l.time env g.batchCount.val

/-- The `n` last iterations of the timed loop, from iteration `i` on, `:290–364`. -/
def timedLoop (env : Kernel) (g : Settings) (plan : ScanPlan) :
    (n : Nat) → (i : UInt64) → Locals → Except Fault Locals
  | 0, _, l => .ok l
  | n + 1, i, l => do timedLoop env g plan n (i + 1) (← l.iterate env g plan i)

/-- The locals before the timed loop, on arrays with unknown contents. -/
def start (g : Settings) (batchedFl4 : UInt64 → Flowi4) (results : UInt64 → UInt64) : Locals :=
  { trace := [], fl4 := flowi4 g g.flowDstIpaddrS, j := 0, total := 0, batchedFl4, results }

/-- The timed loop from its start, after the range set-up. -/
def run (env : Kernel) (g : Settings) (scan0 : Bool) (batchedFl4 : UInt64 → Flowi4)
    (results : UInt64 → UInt64) : Except Fault Locals :=
  let g := g.swapRange
  timedLoop env g (setUpScan g scan0) g.loopCount.toNat 0 (start g batchedFl4 results)

end Locals

/-! ### In step with the run on lists -/

/-- The locals hold what the lists say: the first `j` flows of the batch and the first
`total` results. -/
structure Represents (g : Settings) (l : Locals) (s : Timed) : Prop where
  trace : l.trace = s.trace
  fl4 : l.fl4 = flowi4 g s.daddr
  j : l.j.toNat = s.batchedFl4.length
  batchedFl4 : Cells.row l.batchedFl4 0 s.batchedFl4.length = s.batchedFl4
  total : l.total.toNat = s.total
  results : Cells.row l.results 0 s.total = s.results

/-- The two loops are both stopped by the same fault or both go on, in states that belong
together, with at most `n` results. -/
inductive InStep (g : Settings) (n : Nat) : Except Fault Locals → Except Fault Timed → Prop
  | ok {l : Locals} {s : Timed} (rep : Represents g l s) (batched : WellBatched g s)
      (few : s.total ≤ n) : InStep g n (.ok l) (.ok s)
  | error (fault : Fault) : InStep g n (.error fault) (.error fault)

private theorem represents_record {g : Settings} {l : Locals} {s : Timed}
    (h : Represents g l s) (cycles : UInt64) (hroom : s.total + 1 < 2 ^ 64) :
    Represents g (l.record cycles)
      { s with
        trace := .write .results s.total :: s.trace
        results := s.results ++ [cycles], total := s.total + 1 } where
  trace := by
    change .write .results l.total.toNat :: l.trace = _
    rw [h.total, h.trace]
  fl4 := h.fl4
  j := h.j
  batchedFl4 := h.batchedFl4
  total := by
    have hnext : (l.total + 1).toNat = l.total.toNat + 1 :=
      Unsigned.toNat_succ (by rw [h.total]; exact hroom)
    rw [h.total] at hnext
    exact hnext
  results := by
    have hrow := Cells.row_zero_set l.results l.total cycles
    rw [h.total, h.results] at hrow
    exact hrow

private theorem represents_timePlain (env : Kernel) {g : Settings} {l : Locals} {s : Timed}
    (h : Represents g l s) (hroom : s.total + 1 < 2 ^ 64) :
    Represents g (l.timePlain env) (s.timePlain (ints env) g) := by
  have hstopped : Represents g
      (((l.emit .getCycles).emit (.lookup l.fl4)).emit .getCycles)
      { s with trace := .getCycles :: .lookup (flowi4 g s.daddr) :: .getCycles :: s.trace } :=
    { h with
      trace := by
        change .getCycles :: .lookup l.fl4 :: .getCycles :: l.trace = _
        rw [h.trace, h.fl4] }
  have herr : (ints env).lookup (.getCycles :: s.trace) (flowi4 g s.daddr) = netUnreach ↔
      myFibLookup env (l.emit .getCycles).trace l.fl4 = -101 := by
    change (myFibLookup env (.getCycles :: s.trace) (flowi4 g s.daddr)).toInt = _ ↔
      myFibLookup env (.getCycles :: l.trace) l.fl4 = -101
    rw [toInt_eq_netUnreach_iff, h.trace, h.fl4]
  unfold Locals.timePlain Timed.timePlain
  dsimp only
  by_cases hunreach : myFibLookup env (l.emit .getCycles).trace l.fl4 = -101
  · rw [if_pos hunreach, if_pos (herr.mpr hunreach)]
    exact hstopped
  · rw [if_neg hunreach, if_neg fun heq ↦ hunreach (herr.mp heq)]
    have hcycles : env.getCycles ((l.emit .getCycles).emit (.lookup l.fl4)).trace -
        env.getCycles l.trace = (ints env).getCycles
          (.lookup (flowi4 g s.daddr) :: .getCycles :: s.trace) -
        (ints env).getCycles s.trace := by
      change env.getCycles (.lookup l.fl4 :: .getCycles :: l.trace) - env.getCycles l.trace = _
      rw [h.trace, h.fl4]
      rfl
    rw [hcycles]
    exact represents_record hstopped _ hroom

private theorem unreachable_iff (batchedFl4 : UInt64 → Flowi4) (n : Nat) (j : UInt64) :
    Locals.unreachable batchedFl4 n j = true ↔
      netUnreach ∈ (Cells.row batchedFl4 j n).map (·.oif.toInt) := by
  induction n generalizing j with
  | zero => simp [Locals.unreachable, Cells.row]
  | succ n ih =>
    rw [Locals.unreachable, Cells.row, List.map_cons, List.mem_cons,
      eq_comm (a := netUnreach), toInt_eq_netUnreach_iff, ← ih (j + 1)]
    split
    · next h => simp [h]
    · next h => simp [h]

/-- The lookups leave everything but the trace and the flows, and each flow of the batch
ends up with its error. -/
private structure LookedUp (env : Kernel) (n : Nat) (l l' : Locals) : Prop where
  trace : l'.trace =
    (lookupBatch (ints env) l.j.toNat (Cells.row l.batchedFl4 l.j n) l.trace).1
  errors : (Cells.row l'.batchedFl4 l.j n).map (·.oif.toInt) =
    (lookupBatch (ints env) l.j.toNat (Cells.row l.batchedFl4 l.j n) l.trace).2
  below : ∀ k : UInt64, k.toNat < l.j.toNat → l'.batchedFl4 k = l.batchedFl4 k
  fl4 : l'.fl4 = l.fl4
  total : l'.total = l.total
  results : l'.results = l.results

private theorem lookedUp (env : Kernel) (n : Nat) (l : Locals) (hn : l.j.toNat + n < 2 ^ 64) :
    LookedUp env n l (l.lookupFlows env n) := by
  induction n generalizing l with
  | zero => exact ⟨rfl, rfl, fun _ _ ↦ rfl, rfl, rfl, rfl⟩
  | succ n ih =>
    have hj : (l.j + 1).toNat = l.j.toNat + 1 := Unsigned.toNat_succ (by omega)
    unfold Locals.lookupFlows
    dsimp only
    generalize herr : myFibLookup env l.trace (l.batchedFl4 l.j) = err
    -- The rest of the row does not see the error stored in front of it.
    have hrest : Cells.row (Cells.set l.batchedFl4 l.j { l.batchedFl4 l.j with oif := err })
        (l.j + 1) n = Cells.row l.batchedFl4 (l.j + 1) n :=
      Cells.row_set_of_not_mem _ _ (by omega) (by omega)
    obtain ⟨htrace, herrors, hbelow, hfl4, htotal, hresults⟩ := ih
      { (l.emit (.lookup (l.batchedFl4 l.j))).emit (.write .batchedFl4 l.j.toNat) with
        batchedFl4 := Cells.set l.batchedFl4 l.j { l.batchedFl4 l.j with oif := err }
        j := l.j + 1 } (by dsimp only; omega)
    dsimp only at htrace herrors hbelow
    rw [hrest, hj] at htrace herrors
    refine ⟨?_, ?_, ?_, hfl4, htotal, hresults⟩
    · rw [htrace]
      rfl
    · rw [Cells.row, List.map_cons, herrors, hbelow l.j (by omega), Cells.set_self]
      rw [Cells.row, lookupBatch, ← herr]
      rfl
    · intro k hk
      rw [hbelow k (by omega)]
      apply Cells.set_of_ne
      rintro rfl
      exact Nat.lt_irrefl _ hk

private theorem inStep_timeBatch (env : Kernel) {g : Settings} {l : Locals} {s : Timed}
    (h : Represents g l s) (hfull : s.batchedFl4.length = g.batchCount.toNat)
    (hroom : s.total + 1 < 2 ^ 64) {s' : Timed}
    (hs' : s.timeBatch (ints env) g.batchCount.val = .ok s') :
    ∃ l', l.timeBatch env g.batchCount.val = .ok l' ∧ Represents g l' s' ∧
      s'.total ≤ s.total + 1 := by
  have hlt := g.batchCount.val.toNat_lt
  obtain ⟨htrace, herrors, -, hfl4, htotal, hresults⟩ :=
    lookedUp env g.batchCount.val.toNat { l.emit .getCycles with j := 0 }
      (by change 0 + _ < _; omega)
  have hrow : Cells.row l.batchedFl4 0 g.batchCount.val.toNat = s.batchedFl4 := by
    rw [← h.batchedFl4, hfull]
    rfl
  have hne := g.batchCount.val_ne_zero
  unfold Locals.timeBatch
  unfold Timed.timeBatch at hs'
  dsimp only at hs' ⊢
  generalize Locals.lookupFlows env g.batchCount.val.toNat { l.emit .getCycles with j := 0 } =
    looked at *
  change looked.trace = (lookupBatch (ints env) 0
    (Cells.row l.batchedFl4 0 g.batchCount.val.toNat) (.getCycles :: l.trace)).1 at htrace
  change (Cells.row looked.batchedFl4 0 _).map _ = (lookupBatch (ints env) 0
    (Cells.row l.batchedFl4 0 g.batchCount.val.toNat) (.getCycles :: l.trace)).2 at herrors
  rw [hrow, h.trace] at htrace herrors
  have hunreach := unreachable_iff looked.batchedFl4 g.batchCount.val.toNat 0
  rw [herrors] at hunreach
  have hstopped : Represents g { looked.emit .getCycles with j := 0 }
      { s with
        trace := .getCycles :: (lookupBatch (ints env) 0 s.batchedFl4 (.getCycles :: s.trace)).1
        batchedFl4 := [] } :=
    { trace := by
        change .getCycles :: looked.trace = _
        rw [htrace]
      fl4 := hfl4.trans h.fl4
      j := rfl
      batchedFl4 := rfl
      total := by
        change looked.total.toNat = _
        rw [htotal]
        exact h.total
      results := by
        change Cells.row looked.results 0 _ = _
        rw [hresults]
        exact h.results }
  by_cases hmem : netUnreach ∈
      (lookupBatch (ints env) 0 s.batchedFl4 (.getCycles :: s.trace)).2
  · rw [if_pos hmem] at hs'
    cases hs'
    rw [if_pos (hunreach.mpr hmem)]
    exact ⟨_, rfl, hstopped, Nat.le_succ _⟩
  · rw [if_neg hmem, udiv, if_neg hne] at hs'
    cases hs'
    rw [if_neg fun htrue ↦ hmem (hunreach.mp htrue), udiv, if_neg hne, htrace, h.trace]
    exact ⟨_, rfl, represents_record hstopped _ hroom, Nat.le_refl _⟩

private theorem inStep_collect (env : Kernel) {g : Settings} {l : Locals} {s : Timed}
    (h : Represents g l s) (hb : WellBatched g s) (hroom : s.total + 1 < 2 ^ 64) {s' : Timed}
    (hs' : s.collect (ints env) g = .ok s') :
    ∃ l', l.collect env g.batchCount.val = .ok l' ∧ Represents g l' s' ∧
      s'.total ≤ s.total + 1 := by
  have hlt := g.batchCount.val.toNat_lt
  have hshort := h.j ▸ hb.short
  have hj : (l.j + 1).toNat = s.batchedFl4.length + 1 := by
    rw [← h.j]
    apply Unsigned.toNat_succ
    change l.j.toNat < g.batchCount.val.toNat at hshort
    omega
  have hcopied : Represents g
      { l.emit (.write .batchedFl4 l.j.toNat) with
        batchedFl4 := Cells.set l.batchedFl4 l.j l.fl4, j := l.j + 1 }
      { s with
        trace := .write .batchedFl4 s.batchedFl4.length :: s.trace
        batchedFl4 := s.batchedFl4 ++ [flowi4 g s.daddr] } :=
    { trace := by
        change .write .batchedFl4 l.j.toNat :: l.trace = _
        rw [h.j, h.trace]
      fl4 := h.fl4
      j := by
        rw [List.length_append, List.length_singleton]
        exact hj
      batchedFl4 := by
        have hrow := Cells.row_zero_set l.batchedFl4 l.j l.fl4
        rw [h.j, h.batchedFl4, h.fl4] at hrow
        rw [List.length_append, List.length_singleton]
        rw [h.fl4]
        exact hrow
      total := h.total
      results := h.results }
  have hfull : l.j + 1 ≠ g.batchCount.val ↔
      (s.batchedFl4 ++ [flowi4 g s.daddr]).length ≠ g.batchCount.val.toNat := by
    rw [List.length_append, List.length_singleton, ← hj, ne_eq, ne_eq, UInt64.toNat_inj]
  unfold Locals.collect
  unfold Timed.collect at hs'
  dsimp only at hs' ⊢
  by_cases hne : l.j + 1 ≠ g.batchCount.val
  · rw [if_pos (hfull.mp hne)] at hs'
    cases hs'
    rw [if_pos hne]
    exact ⟨_, rfl, hcopied, Nat.le_succ _⟩
  · rw [if_neg fun hlen ↦ hne (hfull.mpr hlen)] at hs'
    rw [if_neg hne]
    apply inStep_timeBatch env hcopied _ hroom hs'
    exact Decidable.not_not.mp fun hlen ↦ hne (hfull.mpr hlen)

/-- The timing part of an iteration goes on in step. -/
theorem inStep_time (env : Kernel) {g : Settings} {l : Locals} {s : Timed}
    (h : Represents g l s) (hb : WellBatched g s) {n : Nat} (hn : s.total ≤ n)
    (hroom : n + 1 < 2 ^ 64) :
    InStep g (n + 1) (l.time env g.batchCount.val) (s.time (ints env) g) := by
  obtain ⟨s', hs', -, -, hb'⟩ := Timed.time_spec (ints env) g s hb
  rw [hs']
  unfold Timed.time at hs'
  unfold Locals.time
  split at hs'
  · next hplain =>
    cases hs'
    rw [if_pos hplain]
    refine .ok (represents_timePlain env h (by omega)) hb' ?_
    unfold Timed.timePlain
    dsimp only
    split <;> dsimp only <;> omega
  · next hbatch =>
    rw [if_neg hbatch]
    obtain ⟨l', hl', h', hle⟩ := inStep_collect env h hb (by omega) hs'
    rw [hl']
    exact .ok h' hb' (by omega)

/-- One iteration goes on in step, or both loops stop by the same fault. -/
theorem inStep_iterate (env : Kernel) {g : Settings} (plan : ScanPlan) (i : UInt64)
    {l : Locals} {s : Timed} (h : Represents g l s) (hb : WellBatched g s) {n : Nat}
    (hn : s.total ≤ n) (hroom : n + 1 < 2 ^ 64) :
    InStep g (n + 1) (l.iterate env g plan i) (s.iterate (ints env) g plan i) := by
  unfold Locals.iterate Timed.iterate
  split
  · cases scanDaddr g plan.delta i with
    | error fault => exact .error fault
    | ok daddr =>
      rw [ok_bind, ok_bind]
      split
      · exact .ok h hb (by omega)
      · have hrep : Represents g { l with fl4 := { l.fl4 with daddr := daddr } }
            { s with daddr := daddr } :=
          { h with
            fl4 := by
              rw [h.fl4]
              rfl }
        have hshort : WellBatched g { s with daddr := daddr } := ⟨hb.short, hb.whole⟩
        exact inStep_time env hrep hshort hn hroom
  · exact inStep_time env h hb hn hroom

/-- The loops go on in step to their end. -/
theorem inStep_timedLoop (env : Kernel) {g : Settings} (plan : ScanPlan) (n : Nat)
    (i : UInt64) {l : Locals} {s : Timed} (h : Represents g l s) (hb : WellBatched g s)
    {few : Nat} (hfew : s.total ≤ few) (hroom : few + n < 2 ^ 64) :
    InStep g (few + n) (l.timedLoop env g plan n i)
      (timedLoop (ints env) g plan n i s) := by
  induction n generalizing i l s few with
  | zero => exact .ok h hb hfew
  | succ n ih =>
    have hstep := inStep_iterate env plan i h hb hfew (by omega)
    rw [Locals.timedLoop, timedLoop]
    generalize l.iterate env g plan i = x at *
    generalize s.iterate (ints env) g plan i = y at *
    cases hstep with
    | error fault => exact .error fault
    | ok h' hb' hfew' =>
      have hrest := ih (i + 1) h' hb' hfew' (by omega)
      rw [Nat.add_assoc, Nat.add_comm 1 n] at hrest
      exact hrest

/-- The run on locals is the run on lists, whatever the arrays held before. -/
theorem inStep_run (env : Kernel) (g : Settings) (scan0 : Bool)
    (batchedFl4 : UInt64 → Flowi4) (results : UInt64 → UInt64) :
    InStep g g.loopCount.toNat (Locals.run env g scan0 batchedFl4 results)
      (runTimed (ints env) g scan0) := by
  have hlt := g.loopCount.val.toNat_lt
  have hstart : Represents g (.start g batchedFl4 results) (.start g) :=
    ⟨rfl, rfl, rfl, rfl, rfl, rfl⟩
  have hrun := inStep_timedLoop env (setUpScan g scan0) g.loopCount.toNat 0 hstart
    (wellBatched_start g) (Nat.zero_le 0) (by rw [Nat.zero_add]; exact hlt)
  rw [Nat.zero_add] at hrun
  rw [runTimed_eq]
  unfold Locals.run
  rw [swapRange_eq]
  exact hrun

end NetworkLab.Kbench.Ipv4
