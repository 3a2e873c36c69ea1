import NetworkLab.Kbench.Ipv6.Buffers
import NetworkLab.Kbench.Percentile
import NetworkLab.Lib.Ledger

/-!
# Steps of the IPv6 benchmark

All that `do_bench` of `lab-routes-ipv6/2026/kbench_mod.c:212–479` does with the memory that it
allocates, with `kb_lock` and with the routes that it looks up, on each of its three ways out.
Under the lock it shows the trace of the locked section. What `collect_depth` reads of the
routing table is left out.
-/

namespace NetworkLab.Kbench.Ipv6

open Lib

/-- The memory of a run: the arrays of `do_bench`, and the one of `mad`. -/
inductive Memory where
  | array (b : Buffer)
  | dmedian
  deriving DecidableEq

/-- Where a route is kept: in `dst`, or in an element of `batched_dst`. -/
inductive RouteSlot where
  | dst
  | batchedDst (j : Nat)
  deriving DecidableEq

/-- What `do_bench` does, in order. Memory is asked for with a number of whole elements. -/
inductive Step where
  | kmalloc (m : Memory) (elements : Nat) (granted : Bool)
  | kfree (m : Memory)
  | mutexLock
  | mutexUnlock
  | ip6RouteOutput (fl6 : Flowi6) (slot : RouteSlot)
  | readError (slot : RouteSlot)
  | dstRelease (slot : RouteSlot)
  | getCycles
  | read (m : Memory) (index : Nat)
  | write (m : Memory) (index : Nat)

/-- What a step means for the ledger. -/
def Step.op? : Step → Option (ResourceOp Memory RouteSlot)
  | .kmalloc m elements granted => some (.alloc m elements granted)
  | .kfree m => some (.free m)
  | .mutexLock => some .lock
  | .mutexUnlock => some .unlock
  | .ip6RouteOutput _ slot => some (.take slot)
  | .readError slot => some (.use slot)
  | .dstRelease slot => some (.drop slot)
  | .getCycles => none
  | .read m index => some (.access m index)
  | .write m index => some (.access m index)

/-- What a step shows of the run under the lock. -/
def Step.act? : Step → Option Act
  | .ip6RouteOutput fl6 _ => some (.lookup fl6)
  | .getCycles => some .getCycles
  | .write (.array b) k => some (.write b k)
  | _ => none

/-- A step is one of the lock. -/
def Step.locks : Step → Bool
  | .mutexLock | .mutexUnlock => true
  | _ => false

/-- The ledger operations of some steps. -/
def ops (steps : List Step) : List (ResourceOp Memory RouteSlot) := steps.filterMap Step.op?

/-- The observable actions of some steps, oldest first. -/
def acts (steps : List Step) : List Act := steps.filterMap Step.act?

/-! ### The steps of a run -/

/-- A lookup whose route is looked at and released, as in the warm-up, `:285–296`. -/
def lookupOnce (fl6 : Flowi6) : List Step :=
  [.ip6RouteOutput fl6 .dst, .readError .dst, .dstRelease .dst]

/-- The warm-up, `:284–297`: after an error that counts, no other lookup. -/
def warmUpSteps (env : Kernel) (fl6 : Flowi6) : Nat → List Act → List Step
  | 0, _ => []
  | n + 1, trace =>
    let err := env.lookup trace fl6
    if err ≠ 0 ∧ err ≠ netUnreach then lookupOnce fl6
    else lookupOnce fl6 ++ warmUpSteps env fl6 n (.lookup fl6 :: trace)

/-- Collection of an address, `:350–357`. -/
def collectSteps (env : Kernel) (g : Settings) (s : Timed) : List Step :=
  let fl6 := flowi6 g s.cursor.daddr
  lookupOnce fl6 ++
    if env.lookup s.trace fl6 = netUnreach then [] else [.write (.array .addrs) s.total]

/-- Timing of one lookup, `:359–370`. -/
def timePlainSteps (env : Kernel) (g : Settings) (s : Timed) : List Step :=
  let fl6 := flowi6 g s.cursor.daddr
  [.getCycles, .ip6RouteOutput fl6 .dst, .getCycles, .readError .dst, .dstRelease .dst] ++
    if env.lookup (.getCycles :: s.trace) fl6 = netUnreach then []
    else [.write (.array .results) s.total, .read (.array .results) s.total]

/-- One iteration of the timed loop, `:303–370`. -/
def iterateSteps (env : Kernel) (g : Settings) (batch : UInt64) (plan : ScanPlan) (s : Timed) :
    List Step :=
  let s := { s with cursor := s.cursor.advance g plan }
  if 1 < batch then collectSteps env g s else timePlainSteps env g s

/-- The timed loop, `:299–371`. -/
def timedLoopSteps (env : Kernel) (g : Settings) (batch : UInt64) (plan : ScanPlan) :
    Nat → Timed → List Step
  | 0, _ => []
  | n + 1, s =>
    if g.loopCount.toNat ≤ s.total then []
    else iterateSteps env g batch plan s ++
      timedLoopSteps env g batch plan n (s.iterate env g batch plan)

/-- One batch, `:375–388`. -/
def timeBatchSteps (g : Settings) (batch i n : UInt64) (s : Timed) : List Step :=
  ((List.range batch.toNat).flatMap fun j ↦
    [.read (.array .addrs) (i + UInt64.ofNat j).toNat, .write (.array .batchedFl6) j]) ++
  .getCycles :: ((List.range batch.toNat).flatMap fun j ↦
    [.read (.array .batchedFl6) j, .ip6RouteOutput (batchedFlow g s i j) (.batchedDst j),
      .write (.array .batchedDst) j]) ++
  .getCycles :: ((List.range batch.toNat).flatMap fun j ↦
    [.read (.array .batchedDst) j, .dstRelease (.batchedDst j)]) ++
  [.write (.array .results) n.toNat, .read (.array .results) n.toNat]

/-- The batched timing, `:374–389`, cut after `fuel` batches. -/
def batchLoopSteps (env : Kernel) (g : Settings) (batch : UInt64) :
    (fuel : Nat) → (i n : UInt64) → Timed → List Step
  | 0, _, _, _ => []
  | fuel + 1, i, n, s =>
    if (i + batch).toNat ≤ s.total then
      timeBatchSteps g batch i n s ++
        batchLoopSteps env g batch fuel (i + batch) (n + 1) (s.timeBatch env g batch i n)
    else []

/-- All lookups under the lock once the warm-up is over, `:298–389`. -/
def timedSteps (env : Kernel) (g : Settings) (batch : UInt64) (scan0 : Bool) (fuel : Nat)
    (trace : List Act) : List Step :=
  timedLoopSteps env g batch (setUpScan g scan0) g.maxLoopCount.toNat (.start g trace) ++
    if 1 < batch then batchLoopSteps env g batch fuel 0 0 (runTimed env g batch scan0 trace)
    else []

/-- The locals at the end of the locked section, `:298–390`. -/
def endOfLock (env : Kernel) (g : Settings) (batch : UInt64) (scan0 : Bool) (fuel : Nat)
    (trace : List Act) : Timed :=
  let s := runTimed env g batch scan0 trace
  if 1 < batch then
    let r := batchLoop env g batch fuel 0 0 s
    { r.1 with total := r.2.toNat }
  else s

/-- `sort` of the first elements of an array: each is read and written, in whatever order. -/
def sortSteps (m : Memory) (count : Nat) : List Step :=
  (List.range count).flatMap fun i ↦ [.read m i, .write m i]

/-- `percentile`, `:83–96`. -/
def percentileSteps (m : Memory) (p : Int32) (count : UInt32) : List Step :=
  let index := (scaledRank p count / 100).toNat
  .read m index :: if scaledRank p count % 100 = 0 then [] else [.read m (index + 1)]

/-- What `mad` does with its array, `:105–112`. -/
def deviationSteps (count : UInt32) : List Step :=
  ((List.range count.toNat).flatMap fun i ↦
    [.read (.array .results) i, .read (.array .results) i, .write .dmedian i]) ++
  (sortSteps .dmedian count.toNat ++ percentileSteps .dmedian 50 count)

/-- `mad`, `:98–115`: what it allocates is not checked. -/
def madSteps (granted : Bool) (count : UInt32) : List Step :=
  .kmalloc .dmedian count.toNat granted :: (deviationSteps count ++ [.kfree .dmedian])

/-- The percentiles, the smallest and the largest result, `:401–413`. -/
def quantileSteps (total : Nat) : List Step :=
  percentileSteps (.array .results) 95 (UInt32.ofNat total) ++
    (percentileSteps (.array .results) 90 (UInt32.ofNat total) ++
      (percentileSteps (.array .results) 50 (UInt32.ofNat total) ++
        [.read (.array .results) 0, .read (.array .results) (total - 1)]))

/-- The loop of the histogram from sample `i` on, `:450–473`: each answer says whether the sample
is below the bound of the row. If not, the row is printed and the sample is compared with the
95th percentile. The loop is left where the answers end. -/
def histogramSteps (total : Nat) : (answers : List Bool) → (i : Nat) → List Step
  | [], _ => []
  | below :: answers, i =>
    if i < total then
      .read (.array .results) i ::
        if below then histogramSteps total answers (i + 1)
        else .read (.array .results) i :: histogramSteps total answers i
    else []

/-- The verbose part, `:429–474`: the smallest result is read for `share` and for `start`. -/
def verboseSteps (histogram : Option (List Bool)) (total : Nat) : List Step :=
  match histogram with
  | none => []
  | some answers =>
    .read (.array .results) 0 :: .read (.array .results) 0 :: histogramSteps total answers 0

/-- The statistics, `:396–475`, with the answers of the histogram if there is one. The
`unsigned long` total loses its upper half on the way to `percentile` and `mad`. -/
def statisticsSteps (madGranted : Bool) (histogram : Option (List Bool)) (total : Nat) :
    List Step :=
  sortSteps (.array .results) total ++
    if total = 0 then []
    else quantileSteps total ++ (madSteps madGranted (UInt32.ofNat total) ++
      verboseSteps histogram total)

/-- The arrays are freed, `:235–238` and `:290–293`. Those that are not there are null. -/
def freeSteps : List Step :=
  [.kfree (.array .results), .kfree (.array .addrs), .kfree (.array .batchedFl6),
    .kfree (.array .batchedDst)]

section

variable (flowi6Size : UInt64) (grants : Buffer → (bytes : UInt64) → Bool)

/-- The allocations, `:228–233`. For `addrs` it is `vmalloc`. -/
def kmallocSteps (a : Allocation) : List Step :=
  let kmalloc (b : Buffer) : Step :=
    .kmalloc (.array b) (a.elements flowi6Size b) (grants b (a.bytes flowi6Size b))
  kmalloc .results ::
    if 1 < a.batch then [kmalloc .addrs, kmalloc .batchedFl6, kmalloc .batchedDst] else []

/-- `do_bench`, `:212–479`, with the values that its allocations were made with and the settings
in force when it takes the lock. `madGranted` says whether `mad` gets its memory. -/
def doBenchSteps (env : Kernel) (g : Settings) (a : Allocation) (scan0 : Bool) (fuel : Nat)
    (madGranted : Bool) (histogram : Option (List Bool)) : List Step :=
  kmallocSteps flowi6Size grants a ++
    if a.granted flowi6Size grants then
      let fl6 := flowi6 g g.flowDstIpaddrS
      .mutexLock :: warmUpSteps env fl6 g.warmupCount.toNat [] ++
        match warmUp env fl6 g.warmupCount.toNat [] with
        | .error _ => .mutexUnlock :: freeSteps
        | .ok trace =>
          timedSteps env g a.batch scan0 fuel trace ++
            [.kfree (.array .addrs), .kfree (.array .batchedFl6), .kfree (.array .batchedDst),
              .mutexUnlock] ++
            statisticsSteps madGranted histogram
              (endOfLock env g a.batch scan0 fuel trace).total ++
            [.kfree (.array .results)]
    else freeSteps

end

/-- The steps of `percentile` are inside of an array where its model reads no other position. -/
theorem percentile_ok_iff_inside (m : Memory) (p : Int32) (sorted : List UInt64)
    (count : UInt32) :
    (∃ q, percentile p sorted count = .ok q) ↔
      ∀ op ∈ ops (percentileSteps m p count), op.Inside fun _ ↦ sorted.length := by
  have hindex : (scaledRank p count / 100).toNat = (scaledRank p count).toNat / 100 :=
    UInt32.toNat_div _ _
  unfold percentile percentileSteps
  simp only [toInt_index, toInt_index_add_one, readAt_ofNat, hindex]
  by_cases hlow : (scaledRank p count).toNat / 100 < sorted.length
  · by_cases hhigh : (scaledRank p count).toNat / 100 + 1 < sorted.length
    · split <;> simp [ops, Step.op?, ResourceOp.Inside, hlow, hhigh, bind, Except.bind, pure,
        Except.pure]
    · split <;> simp [ops, Step.op?, ResourceOp.Inside, hlow, hhigh, bind, Except.bind]
  · split <;> simp [ops, Step.op?, ResourceOp.Inside, hlow, bind, Except.bind]

/-! ### The run under the lock -/

/-- The locked section ends with the locals of the timed loops, or as the warm-up does. -/
theorem lockedSection_eq (env : Kernel) (g : Settings) (batch : UInt64) (scan0 : Bool)
    (fuel : Nat) :
    lockedSection env g batch scan0 fuel =
      (warmUp env (flowi6 g g.flowDstIpaddrS) g.warmupCount.toNat []).map
        (endOfLock env g batch scan0 fuel) := by
  unfold lockedSection
  cases warmUp env (flowi6 g g.flowDstIpaddrS) g.warmupCount.toNat [] with
  | error err => rfl
  | ok trace =>
    unfold endOfLock Except.map
    dsimp only
    split <;> rfl

/-- The steps lead from one trace to another. -/
def Shows (steps : List Step) (trace trace' : List Act) : Prop :=
  trace' = (acts steps).reverse ++ trace

theorem Shows.append {xs ys : List Step} {t t' t'' : List Act} (h : Shows xs t t')
    (h' : Shows ys t' t'') : Shows (xs ++ ys) t t'' := by
  rw [Shows, h', h, acts, acts, acts, List.filterMap_append, List.reverse_append,
    List.append_assoc]

/-- A loop over the first numbers that only records what its passes show. -/
theorem foldl_range_eq (body : Nat → List Step) {f : Timed → Nat → Timed} {s : Timed}
    (h : ∀ t j, f { s with trace := t } j = { s with trace := (acts (body j)).reverse ++ t })
    (n : Nat) :
    (List.range n).foldl f s =
      { s with trace := (acts ((List.range n).flatMap body)).reverse ++ s.trace } := by
  induction n with
  | zero => rfl
  | succ n ih =>
    rw [List.range_succ, List.flatMap_append, List.flatMap_singleton, List.foldl_append, ih,
      List.foldl_cons, List.foldl_nil, h, acts, acts, acts, List.filterMap_append,
      List.reverse_append, List.append_assoc]

/-- The warm-up. -/
theorem shows_warmUp {env : Kernel} {fl6 : Flowi6} {n : Nat} {t t' : List Act}
    (h : warmUp env fl6 n t = .ok t') : Shows (warmUpSteps env fl6 n t) t t' := by
  induction n generalizing t with
  | zero =>
    cases h
    rfl
  | succ n ih =>
    unfold warmUp at h
    unfold warmUpSteps
    dsimp only at h ⊢
    split at h
    · cases h
    · next hok =>
      rw [if_neg hok]
      have hone : Shows (lookupOnce fl6) t (.lookup fl6 :: t) := rfl
      exact hone.append (ih h)

/-- One iteration of the timed loop. -/
theorem shows_iterate (env : Kernel) (g : Settings) (batch : UInt64) (plan : ScanPlan)
    (s : Timed) :
    Shows (iterateSteps env g batch plan s) s.trace (s.iterate env g batch plan).trace := by
  unfold iterateSteps Timed.iterate
  dsimp only
  split
  · unfold collectSteps Timed.collect
    dsimp only
    split <;> rfl
  · unfold timePlainSteps Timed.timePlain
    dsimp only [Timed.emit]
    split <;> rfl

/-- The timed loop. -/
theorem shows_timedLoop (env : Kernel) (g : Settings) (batch : UInt64) (plan : ScanPlan)
    (n : Nat) (s : Timed) :
    Shows (timedLoopSteps env g batch plan n s) s.trace (timedLoop env g batch plan n s).trace := by
  induction n generalizing s with
  | zero => rfl
  | succ n ih =>
    unfold timedLoopSteps timedLoop
    split
    · rfl
    · exact (shows_iterate env g batch plan s).append (ih _)

/-- One batch. -/
theorem shows_timeBatch (env : Kernel) (g : Settings) (batch i n : UInt64) (s : Timed) :
    Shows (timeBatchSteps g batch i n s) s.trace (s.timeBatch env g batch i n).trace := by
  obtain ⟨t, hfill, hshown⟩ : ∃ t, s.fillBatch batch = { s with trace := t } ∧
      Shows ((List.range batch.toNat).flatMap fun j ↦
        [.read (.array .addrs) (i + UInt64.ofNat j).toNat, .write (.array .batchedFl6) j])
          s.trace t :=
    ⟨_, foldl_range_eq _ (fun _ _ ↦ rfl) batch.toNat, rfl⟩
  obtain ⟨t', hlook, hshown'⟩ : ∃ t', (Timed.emit .getCycles { s with trace := t }).lookupBatch g
        batch i = { s with trace := t' } ∧
      Shows ((List.range batch.toNat).flatMap fun j ↦
        [.read (.array .batchedFl6) j, .ip6RouteOutput (batchedFlow g s i j) (.batchedDst j),
          .write (.array .batchedDst) j]) (.getCycles :: t) t' :=
    ⟨_, foldl_range_eq _ (fun _ _ ↦ rfl) batch.toNat, rfl⟩
  have hreleased : Shows ((List.range batch.toNat).flatMap fun j ↦
      [.read (.array .batchedDst) j, .dstRelease (.batchedDst j)]) (.getCycles :: t')
        (.getCycles :: t') := by
    have hnone (is : List Nat) : acts (is.flatMap fun j ↦
        [.read (.array .batchedDst) j, .dstRelease (.batchedDst j)]) = [] :=
      List.filterMap_eq_nil_iff.mpr fun step hstep ↦ by
        obtain ⟨j, -, hj⟩ := List.mem_flatMap.mp hstep
        rcases List.mem_cons.mp hj with rfl | hj
        · rfl
        · rw [List.mem_singleton.mp hj]
          rfl
    rw [Shows, hnone]
    rfl
  have hcycles (t : List Act) : Shows [.getCycles] t (.getCycles :: t) := rfl
  have hwrite (t : List Act) : Shows [.write (.array .results) n.toNat,
      .read (.array .results) n.toNat] t (.write .results n.toNat :: t) := rfl
  unfold Timed.timeBatch
  rw [hfill]
  dsimp only
  rw [hlook]
  have hlooked := (hcycles t).append hshown'
  have hstopped := (hcycles t').append hreleased
  exact ((hshown.append hlooked).append hstopped).append (hwrite (.getCycles :: t'))

/-- The batched timing. -/
theorem shows_batchLoop (env : Kernel) (g : Settings) (batch : UInt64) (fuel : Nat)
    (i n : UInt64) (s : Timed) :
    Shows (batchLoopSteps env g batch fuel i n s) s.trace
      (batchLoop env g batch fuel i n s).1.trace := by
  induction fuel generalizing i n s with
  | zero => rfl
  | succ fuel ih =>
    unfold batchLoopSteps batchLoop
    split
    · exact (shows_timeBatch env g batch i n s).append (ih _ _ _)
    · rfl

/-- What the lookups after the warm-up show is what the locked section records of them. -/
theorem shows_timed (env : Kernel) (g : Settings) (batch : UInt64) (scan0 : Bool) (fuel : Nat)
    (trace : List Act) :
    Shows (timedSteps env g batch scan0 fuel trace) trace
      (endOfLock env g batch scan0 fuel trace).trace := by
  have hloop := shows_timedLoop env g batch (setUpScan g scan0) g.maxLoopCount.toNat
    (.start g trace)
  unfold timedSteps endOfLock
  dsimp only
  split
  · exact hloop.append (shows_batchLoop env g batch fuel 0 0 _)
  · rw [List.append_nil]
    exact hloop

end NetworkLab.Kbench.Ipv6
