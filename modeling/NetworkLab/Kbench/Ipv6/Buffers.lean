import NetworkLab.Kbench.Ipv6.Bench
import NetworkLab.Lib.Unsigned

/-!
# Array bounds of the IPv6 benchmark under concurrent stores

`do_bench` of `lab-routes-ipv6/2026/kbench_mod.c` reads `batch_count` and, for each
allocation, `loop_count` before it takes `kb_lock`, and both loop bounds again under
it, `:219–242` and `:299–301`. A store may run between any two of these reads. The
section under the lock is one step: stores wait for the lock.
-/

namespace NetworkLab.Kbench.Ipv6

open Lib

/-- The values that the allocations of a run were made with, `:219` and `:228–233`. -/
structure Allocation where
  batch : UInt64
  resultsCount : UInt64
  addrsCount : UInt64
  deriving DecidableEq, Repr

/-- Where a run of `do_bench` stands with respect to the lock. -/
inductive Phase where
  | entry
  | batchRead (batch : UInt64)
  | resultsRequested (batch resultsCount : UInt64)
  | allocated (a : Allocation)
  | noMemory
  | locked (g : Settings) (a : Allocation)

/-- The globals together with one run of `do_bench`. -/
structure Sys where
  g : Settings
  phase : Phase

/-- A store by another process, or the next step of `do_bench`. -/
inductive Action where
  | store (st : Store)
  | bench

section

-- `sizeof(struct flowi6)` depends on the kernel, as does the success of an allocation.
variable (flowi6Size : UInt64) (grants : Buffer → (bytes : UInt64) → Bool)

/-- The size of one element of an array, `:228–232`. -/
def elementSize : Buffer → UInt64
  | .results => 8
  | .addrs => 16
  | .batchedFl6 => flowi6Size
  | .batchedDst => 8

/-- The element count an allocation asks for, `:228–232`. -/
def Allocation.count (a : Allocation) : Buffer → UInt64
  | .results => a.resultsCount
  | .addrs => a.addrsCount
  | .batchedFl6 => a.batch
  | .batchedDst => a.batch

/-- The bytes requested: the product modulo `2 ^ 64`. -/
def Allocation.bytes (a : Allocation) (b : Buffer) : UInt64 :=
  elementSize flowi6Size b * a.count b

/-- The elements for which bytes were requested. -/
def Allocation.elements (a : Allocation) (b : Buffer) : Nat :=
  (a.bytes flowi6Size b).toNat / (elementSize flowi6Size b).toNat

/-- The test of `:234`: every array of the mode was granted. -/
def Allocation.granted (a : Allocation) : Bool :=
  grants .results (a.bytes flowi6Size .results) &&
    (!decide (1 < a.batch) ||
      grants .addrs (a.bytes flowi6Size .addrs) &&
      grants .batchedFl6 (a.bytes flowi6Size .batchedFl6) &&
      grants .batchedDst (a.bytes flowi6Size .batchedDst))

/-- One step of `do_bench` up to the end of its locked section, `:219–242`. -/
def Sys.bench (s : Sys) : Phase :=
  match s.phase with
  | .entry => .batchRead s.g.batchCount.val
  | .batchRead batch => .resultsRequested batch s.g.loopCount.val
  | .resultsRequested batch count => .allocated ⟨batch, count, s.g.loopCount.val⟩
  | .allocated a => if a.granted flowi6Size grants then .locked s.g a else .noMemory
  | .noMemory => .noMemory
  | .locked g a => .locked g a

/-- One step of the interleaving. -/
def Sys.step (s : Sys) : Action → Sys
  | .store st => { s with g := s.g.store st }
  | .bench => { s with phase := s.bench flowi6Size grants }

/-- The system after a sequence of steps. -/
def Sys.run (s : Sys) (acts : List Action) : Sys := acts.foldl (Sys.step flowi6Size grants) s

/-- Every array element written lies within the bytes requested for its array. -/
def WritesInBounds (a : Allocation) (trace : List Act) : Prop :=
  ∀ b k, .write b k ∈ trace → k < a.elements flowi6Size b

/-- Whatever the routes, the clock and the stack were, the locked section writes in bounds.
Before it, and without memory, nothing is written. -/
def Phase.Safe : Phase → Prop
  | .locked g a => ∀ env scan0 fuel t, lockedSection env g a.batch scan0 fuel = .ok t →
      WritesInBounds flowi6Size a t.trace
  | _ => True

/-- The bounds in force under the lock fit the allocations made before it. -/
def Fits (g : Settings) (a : Allocation) : Prop :=
  let total := min g.loopCount.toNat g.maxLoopCount.toNat
  if 1 < a.batch then
    total ≤ a.elements flowi6Size .addrs ∧
    (a.batch.toNat ≤ total →
      a.batch.toNat ≤ a.elements flowi6Size .batchedFl6 ∧
      a.batch.toNat ≤ a.elements flowi6Size .batchedDst ∧
      total / a.batch.toNat ≤ a.elements flowi6Size .results)
  else total ≤ a.elements flowi6Size .results

end

/-! ### Writes of the timed loop -/

/-- The array filled by the timed loop. -/
def filled (batch : UInt64) : Buffer := if 1 < batch then .addrs else .results

/-- The writes so far are those of positions `0` to `total - 1` of the filled array. -/
def FilledTo (batch : UInt64) (s : Timed) : Prop :=
  ∀ b k, .write b k ∈ s.trace ↔ b = filled batch ∧ k < s.total

private theorem iterate_filledTo (env : Kernel) (g : Settings) (batch : UInt64)
    (plan : ScanPlan) (s : Timed) (h : FilledTo batch s) :
    FilledTo batch (s.iterate env g batch plan) ∧
      (s.iterate env g batch plan).total ≤ s.total + 1 := by
  rcases s.iterate_cases env g batch plan with
    ⟨hb, _, he⟩ | ⟨hb, _, he⟩ | ⟨hb, _, he⟩ | ⟨hb, _, he⟩
  · rw [he]
    exact ⟨fun b k ↦ by simpa using h b k, Nat.le_succ _⟩
  · rw [he]
    refine ⟨fun b k ↦ ?_, Nat.le_refl _⟩
    have hf := h b k
    simp only [filled, if_pos hb] at hf ⊢
    simp only [List.mem_cons, Event.write.injEq, reduceCtorEq, false_or, hf]
    grind
  · rw [he]
    exact ⟨fun b k ↦ by simpa using h b k, Nat.le_succ _⟩
  · rw [he]
    refine ⟨fun b k ↦ ?_, Nat.le_refl _⟩
    have hf := h b k
    simp only [filled, if_neg hb] at hf ⊢
    simp only [List.mem_cons, Event.write.injEq, reduceCtorEq, false_or, hf]
    grind

/-- The timed loop fills its array from the front, never past either loop bound. -/
theorem timedLoop_filledTo (env : Kernel) (g : Settings) (batch : UInt64) (plan : ScanPlan)
    (n : Nat) (s : Timed) (h : FilledTo batch s) (ht : s.total ≤ g.loopCount.toNat) :
    FilledTo batch (timedLoop env g batch plan n s) ∧
      (timedLoop env g batch plan n s).total ≤ min g.loopCount.toNat (s.total + n) := by
  induction n generalizing s with
  | zero => exact ⟨h, Nat.le_min.mpr ⟨ht, Nat.le_refl _⟩⟩
  | succ n ih =>
    unfold timedLoop
    split
    · exact ⟨h, Nat.le_min.mpr ⟨ht, Nat.le_add_right _ _⟩⟩
    · next hlt =>
      obtain ⟨hf, hi⟩ := iterate_filledTo env g batch plan s h
      obtain ⟨hf', hi'⟩ := ih _ hf (by omega)
      exact ⟨hf', by omega⟩

/-- With a route to every destination the timed loop reaches one of its bounds. -/
theorem timedLoop_allReachable_total (g : Settings) (batch : UInt64) (plan : ScanPlan)
    (n : Nat) (s : Timed) (ht : s.total ≤ g.loopCount.toNat) :
    (timedLoop .allReachable g batch plan n s).total = min g.loopCount.toNat (s.total + n) := by
  induction n generalizing s with
  | zero => exact (Nat.min_eq_right ht).symm
  | succ n ih =>
    unfold timedLoop
    split
    · next hle => exact (by omega)
    · next hlt =>
      have hone : (s.iterate .allReachable g batch plan).total = s.total + 1 := by
        rcases s.iterate_cases .allReachable g batch plan with
          ⟨_, hu, _⟩ | ⟨_, _, he⟩ | ⟨_, hu, _⟩ | ⟨_, _, he⟩
        · simp [Env.allReachable, netUnreach] at hu
        · rw [he]
        · simp [Env.allReachable, netUnreach] at hu
        · rw [he]
      rw [ih _ (by omega), hone]
      omega

/-! ### Writes of the batched timing -/

-- A loop over the first numbers that writes to one array at each of them fills it that far.
private theorem write_mem_foldl_range {f : Timed → Nat → Timed} {buffer : Buffer}
    (hf : ∀ s j b k, .write b k ∈ (f s j).trace ↔
      (b = buffer ∧ k = j) ∨ .write b k ∈ s.trace) (n : Nat) (s : Timed) (b : Buffer) (k : Nat) :
    .write b k ∈ ((List.range n).foldl f s).trace ↔
      (b = buffer ∧ k < n) ∨ .write b k ∈ s.trace := by
  induction n with
  | zero => simp
  | succ n ih =>
    rw [List.range_succ, List.foldl_append, List.foldl_cons, List.foldl_nil, hf, ih]
    grind

private theorem write_mem_fillBatch (batch : UInt64) (s : Timed) (b : Buffer) (k : Nat) :
    .write b k ∈ (s.fillBatch batch).trace ↔
      (b = .batchedFl6 ∧ k < batch.toNat) ∨ .write b k ∈ s.trace := by
  refine write_mem_foldl_range (fun s j b k ↦ ?_) batch.toNat s b k
  simp

private theorem write_mem_lookupBatch (g : Settings) (batch i : UInt64) (s : Timed)
    (b : Buffer) (k : Nat) :
    .write b k ∈ (s.lookupBatch g batch i).trace ↔
      (b = .batchedDst ∧ k < batch.toNat) ∨ .write b k ∈ s.trace := by
  refine write_mem_foldl_range (fun s j b k ↦ ?_) batch.toNat s b k
  simp

/-- A timed batch writes the two batch arrays and one result. -/
theorem write_mem_timeBatch (env : Kernel) (g : Settings) (batch i n : UInt64)
    (s : Timed) (b : Buffer) (k : Nat) :
    .write b k ∈ (s.timeBatch env g batch i n).trace ↔
      (b = .results ∧ k = n.toNat) ∨
      ((b = .batchedFl6 ∨ b = .batchedDst) ∧ k < batch.toNat) ∨ .write b k ∈ s.trace := by
  simp only [Timed.timeBatch, Timed.trace_emit, List.mem_cons, Event.write.injEq, reduceCtorEq,
    false_or, write_mem_lookupBatch, write_mem_fillBatch]
  grind

theorem total_timeBatch (env : Kernel) (g : Settings) (batch i n : UInt64)
    (s : Timed) : (s.timeBatch env g batch i n).total = s.total := by
  have hfold {f : Timed → Nat → Timed} (hf : ∀ s j, (f s j).total = s.total) (l : List Nat)
      (s : Timed) : (l.foldl f s).total = s.total := by
    induction l generalizing s with
    | nil => rfl
    | cons j l ih => rw [List.foldl_cons, ih, hf]
  simp only [Timed.timeBatch, Timed.total_emit, Timed.lookupBatch, Timed.fillBatch]
  rw [hfold (by simp), Timed.total_emit, hfold (by simp)]

/-- The index of the batched timing does not wrap with room for a batch, and a batch fits as
long as the collected addresses fill a further group. -/
theorem batch_fits_iff {batch i n : UInt64} {total : Nat} (hb : 0 < batch.toNat)
    (hi : i.toNat = n.toNat * batch.toNat) (hroom : i.toNat + batch.toNat < 2 ^ 64) :
    (i + batch).toNat = i.toNat + batch.toNat ∧
      ((i + batch).toNat ≤ total ↔ n.toNat + 1 ≤ total / batch.toNat) := by
  have hadd : (i + batch).toNat = i.toNat + batch.toNat := Unsigned.toNat_add_of_lt hroom
  refine ⟨hadd, ?_⟩
  rw [hadd, Nat.le_div_iff_mul_le hb, hi, Nat.succ_mul]

/-- The batched timing from group `n` on writes one result for each group that fits, and
in each the two batch arrays. The bound excludes a wrap of `i + batch`. -/
theorem write_mem_batchLoop (env : Kernel) (g : Settings) (batch : UInt64) (fuel : Nat)
    (i n : UInt64) (s : Timed) (hb : 0 < batch.toNat) (hi : i.toNat = n.toNat * batch.toNat)
    (hs : s.total + batch.toNat < 2 ^ 64) (hle : i.toNat ≤ s.total) (b : Buffer) (k : Nat) :
    .write b k ∈ (batchLoop env g batch fuel i n s).1.trace ↔
      (b = .results ∧ n.toNat ≤ k ∧ k < min (n.toNat + fuel) (s.total / batch.toNat)) ∨
      ((b = .batchedFl6 ∨ b = .batchedDst) ∧ k < batch.toNat ∧
        n.toNat < min (n.toNat + fuel) (s.total / batch.toNat)) ∨
      .write b k ∈ s.trace := by
  induction fuel generalizing i n s with
  | zero =>
    simp only [batchLoop]
    grind
  | succ fuel ih =>
    have hroom : i.toNat + batch.toNat < 2 ^ 64 := by omega
    obtain ⟨hadd, hgroups⟩ : _ ∧ ((i + batch).toNat ≤ s.total ↔ _) :=
      batch_fits_iff hb hi hroom
    unfold batchLoop
    split
    · next h =>
      rw [hgroups] at h
      have hdiv := Nat.div_le_self s.total batch.toNat
      have hn : (n + 1).toNat = n.toNat + 1 := Unsigned.toNat_succ (by omega)
      have hrest := ih (i + batch) (n + 1) (s.timeBatch env g batch i n)
        (by rw [hadd, hn, hi, Nat.succ_mul]) (by rw [total_timeBatch]; exact hs)
        (by rw [total_timeBatch]; exact hgroups.mpr h)
      rw [hrest, write_mem_timeBatch, total_timeBatch, hn]
      clear hrest ih hadd hgroups hdiv hn hle hs hi
      generalize s.total / batch.toNat = groups at *
      generalize n.toNat = m at *
      rw [Nat.add_assoc, Nat.add_comm 1 fuel]
      have hmore : m < min (m + (fuel + 1)) groups := by omega
      constructor
      · rintro (⟨rfl, hk, hk'⟩ | ⟨hb, hk, -⟩ | ⟨rfl, rfl⟩ | ⟨hb, hk⟩ | hold)
        · exact Or.inl ⟨rfl, by omega, by omega⟩
        · exact Or.inr (Or.inl ⟨hb, hk, hmore⟩)
        · exact Or.inl ⟨rfl, Nat.le_refl _, hmore⟩
        · exact Or.inr (Or.inl ⟨hb, hk, hmore⟩)
        · exact Or.inr (Or.inr hold)
      · rintro (⟨rfl, hk, hk'⟩ | ⟨hb, hk, -⟩ | hold)
        · by_cases hkm : k = m
          · exact Or.inr (Or.inr (Or.inl ⟨rfl, hkm⟩))
          · exact Or.inl ⟨rfl, by omega, by omega⟩
        · exact Or.inr (Or.inr (Or.inr (Or.inl ⟨hb, hk⟩)))
        · exact Or.inr (Or.inr (Or.inr (Or.inr hold)))
    · next h =>
      rw [hgroups] at h
      constructor
      · intro hold
        exact Or.inr (Or.inr hold)
      · rintro (⟨-, hk, hk'⟩ | ⟨-, -, hk⟩ | hold)
        · omega
        · omega
        · exact hold

/-- If no batch fits, the batched timing stops at its first test. -/
theorem batchLoop_of_short (env : Kernel) (g : Settings) (batch : UInt64) (fuel : Nat) (s : Timed)
    (h : ¬ batch.toNat ≤ s.total) : batchLoop env g batch fuel 0 0 s = (s, 0) := by
  cases fuel with
  | zero => rfl
  | succ fuel =>
    have hfirst : ¬ (0 + batch).toNat ≤ s.total := by
      rw [UInt64.zero_add]
      exact h
    unfold batchLoop
    rw [if_neg hfirst]

/-! ### The locked section -/

/-- The warm-up writes no array. -/
theorem warmUp_writes (env : Kernel) (fl6 : Flowi6) (n : Nat) (t t' : List Act)
    (h : warmUp env fl6 n t = .ok t') (b : Buffer) (k : Nat) :
    .write b k ∈ t' ↔ .write b k ∈ t := by
  induction n generalizing t with
  | zero =>
    cases h
    rfl
  | succ n ih =>
    unfold warmUp at h
    dsimp only at h
    split at h
    · cases h
    · rw [ih _ h]
      simp

private theorem warmUp_allReachable (fl6 : Flowi6) (n : Nat) (t : List Act) :
    ∃ t', warmUp .allReachable fl6 n t = .ok t' := by
  induction n generalizing t with
  | zero => exact ⟨t, rfl⟩
  | succ n ih => exact ih _

/-- The timed loop of a run writes the front of its array, up to at most both bounds; with
a route to every destination, up to the smaller one. -/
theorem runTimed_filledTo (env : Kernel) (g : Settings) (batch : UInt64) (scan0 : Bool)
    (trace : List Act) (ht : ∀ b k, .write b k ∉ trace) :
    FilledTo batch (runTimed env g batch scan0 trace) ∧
      (runTimed env g batch scan0 trace).total ≤ min g.loopCount.toNat g.maxLoopCount.toNat ∧
      (env = .allReachable → (runTimed env g batch scan0 trace).total =
        min g.loopCount.toNat g.maxLoopCount.toNat) := by
  have hstart : FilledTo batch (.start g trace) := by
    intro b k
    simp [Timed.start, ht b k]
  obtain ⟨hf, hle⟩ := timedLoop_filledTo env g batch (setUpScan g scan0)
    g.maxLoopCount.toNat (.start g trace) hstart (Nat.zero_le _)
  have hzero : (Timed.start g trace).total + g.maxLoopCount.toNat = g.maxLoopCount.toNat :=
    Nat.zero_add _
  rw [hzero] at hle
  refine ⟨hf, hle, ?_⟩
  rintro rfl
  have heq := timedLoop_allReachable_total g batch (setUpScan g scan0)
    g.maxLoopCount.toNat (.start g trace) (Nat.zero_le _)
  rw [hzero] at heq
  exact heq

section

variable (flowi6Size : UInt64)

/-- The request for 16-byte addresses covers fewer than `2 ^ 60` of them. -/
theorem elements_addrs_lt (a : Allocation) : a.elements flowi6Size .addrs < 2 ^ 60 := by
  have hb := (a.bytes flowi6Size .addrs).toNat_lt
  change (a.bytes flowi6Size .addrs).toNat / 16 < 2 ^ 60
  omega

private theorem fits_of_safe (g : Settings) (a : Allocation)
    (h : (Phase.locked g a).Safe flowi6Size) : Fits flowi6Size g a := by
  obtain ⟨trace, hw⟩ := warmUp_allReachable (flowi6 g g.flowDstIpaddrS) g.warmupCount.toNat []
  have hempty (b : Buffer) (k : Nat) : .write b k ∉ trace := by
    rw [warmUp_writes _ _ _ _ _ hw]
    simp
  obtain ⟨hf, -, heq⟩ := runTimed_filledTo .allReachable g a.batch false trace hempty
  have htotal := heq rfl
  have hpos : 0 < min g.loopCount.toNat g.maxLoopCount.toNat :=
    Nat.lt_min.mpr ⟨g.loopCount.toNat_pos, g.maxLoopCount.toNat_pos⟩
  unfold Fits
  rw [← htotal] at hpos ⊢
  generalize hs : runTimed .allReachable g a.batch false trace = s at *
  split
  · next hb =>
    have hb' : 1 < a.batch.toNat := UInt64.lt_iff_toNat_lt.mp hb
    -- Every address position is written before any batch is timed.
    have hrun (fuel : Nat) := h .allReachable false fuel
      { (batchLoop .allReachable g a.batch fuel 0 0 s).1 with
        total := (batchLoop .allReachable g a.batch fuel 0 0 s).2.toNat }
      (by simp only [lockedSection, hw, hs, if_pos hb])
    have haddrs : s.total ≤ a.elements flowi6Size .addrs := by
      have hlast := hrun 0 .addrs (s.total - 1)
        ((hf _ _).mpr ⟨by simp [filled, hb], by omega⟩)
      omega
    refine ⟨haddrs, fun hbatch ↦ ?_⟩
    have hcap := elements_addrs_lt flowi6Size a
    have hwrite := write_mem_batchLoop .allReachable g a.batch (s.total / a.batch.toNat) 0 0 s
      (by omega) (by simp) (by omega) (Nat.zero_le _)
    have hgroups : 1 ≤ s.total / a.batch.toNat :=
      (Nat.le_div_iff_mul_le (by omega)).mpr (by omega)
    have hbound := hrun (s.total / a.batch.toNat)
    simp only [WritesInBounds, hwrite] at hbound
    have hfl6 := hbound .batchedFl6 (a.batch.toNat - 1)
      (Or.inr (Or.inl ⟨Or.inl rfl, by omega, by simp; omega⟩))
    have hdst := hbound .batchedDst (a.batch.toNat - 1)
      (Or.inr (Or.inl ⟨Or.inr rfl, by omega, by simp; omega⟩))
    have hres := hbound .results (s.total / a.batch.toNat - 1)
      (Or.inl ⟨rfl, by simp, by simp; omega⟩)
    omega
  · next hb =>
    have hlast := h .allReachable false 0 s (by simp only [lockedSection, hw, hs, if_neg hb])
      .results (s.total - 1) ((hf _ _).mpr ⟨by simp [filled, hb], by omega⟩)
    omega

private theorem safe_of_fits (g : Settings) (a : Allocation) (h : Fits flowi6Size g a) :
    (Phase.locked g a).Safe flowi6Size := by
  intro env scan0 fuel t ht b k hk
  unfold lockedSection at ht
  split at ht
  · cases ht
  · next trace hw =>
    have hempty (b : Buffer) (k : Nat) : .write b k ∉ trace := by
      rw [warmUp_writes _ _ _ _ _ hw]
      simp
    obtain ⟨hf, hle, -⟩ := runTimed_filledTo env g a.batch scan0 trace hempty
    generalize runTimed env g a.batch scan0 trace = s at *
    unfold Fits at h
    dsimp only at ht
    split at ht
    · next hb =>
      cases ht
      rw [if_pos hb] at h
      obtain ⟨haddrs, hbatched⟩ := h
      have hb' : 1 < a.batch.toNat := UInt64.lt_iff_toNat_lt.mp hb
      have hcap := elements_addrs_lt flowi6Size a
      by_cases hfit : a.batch.toNat ≤ s.total
      · obtain ⟨hfl6, hdst, hres⟩ := hbatched (by omega)
        have hdiv := Nat.div_le_div_right hle (c := a.batch.toNat)
        dsimp only at hk
        rw [write_mem_batchLoop env g a.batch fuel 0 0 s (by omega) (by simp) (by omega)
          (Nat.zero_le _)] at hk
        rcases hk with ⟨rfl, -, hk⟩ | ⟨hb | hb, hk, -⟩ | hk
        · omega
        · rw [hb]
          omega
        · rw [hb]
          omega
        · obtain ⟨rfl, hk⟩ := (hf b k).mp hk
          simp only [filled, if_pos hb]
          omega
      · dsimp only at hk
        rw [batchLoop_of_short env g a.batch fuel s hfit] at hk
        obtain ⟨rfl, hk⟩ := (hf b k).mp hk
        simp only [filled, if_pos hb]
        omega
    · next hb =>
      cases ht
      rw [if_neg hb] at h
      obtain ⟨rfl, hk⟩ := (hf b k).mp hk
      simp only [filled, if_neg hb]
      omega

/-- Under the lock, the writes stay in bounds exactly when the bounds fit. -/
theorem safe_iff_fits (g : Settings) (a : Allocation) :
    (Phase.locked g a).Safe flowi6Size ↔ Fits flowi6Size g a :=
  ⟨fits_of_safe flowi6Size g a, safe_of_fits flowi6Size g a⟩

end

/-! ### Interleavings -/

/-- The globals after a sequence of stores. -/
def Settings.stores (g : Settings) (l : List Store) : Settings := l.foldl Settings.store g

private theorem stores_append (g : Settings) (l l' : List Store) :
    g.stores (l ++ l') = (g.stores l).stores l' := List.foldl_append

private theorem split_bench (acts : List Action) :
    (∃ l : List Store, acts = l.map .store) ∨
      ∃ (l : List Store) (rest : List Action), acts = l.map .store ++ .bench :: rest := by
  induction acts with
  | nil => exact Or.inl ⟨[], rfl⟩
  | cons act acts ih =>
    cases act with
    | bench => exact Or.inr ⟨[], acts, rfl⟩
    | store st =>
      rcases ih with ⟨l, rfl⟩ | ⟨l, rest, rfl⟩
      · exact Or.inl ⟨st :: l, rfl⟩
      · exact Or.inr ⟨st :: l, rest, rfl⟩

section

variable (flowi6Size : UInt64) (grants : Buffer → (bytes : UInt64) → Bool)

private theorem run_bench (g : Settings) (p : Phase) (acts : List Action) :
    Sys.run flowi6Size grants ⟨g, p⟩ (.bench :: acts) =
      Sys.run flowi6Size grants ⟨g, Sys.bench flowi6Size grants ⟨g, p⟩⟩ acts := rfl

private theorem run_stores (g : Settings) (p : Phase) (l : List Store) (acts : List Action) :
    Sys.run flowi6Size grants ⟨g, p⟩ (l.map .store ++ acts) =
      Sys.run flowi6Size grants ⟨g.stores l, p⟩ acts := by
  induction l generalizing g with
  | nil => rfl
  | cons st l ih => exact ih (g.store st)

private theorem run_onlyStores (g : Settings) (p : Phase) (l : List Store) :
    Sys.run flowi6Size grants ⟨g, p⟩ (l.map .store) = ⟨g.stores l, p⟩ := by
  have hrun := run_stores flowi6Size grants g p l []
  rw [List.append_nil] at hrun
  exact hrun

private theorem run_ended (g : Settings) (p : Phase) (acts : List Action)
    (hp : ∀ g, Sys.bench flowi6Size grants ⟨g, p⟩ = p) :
    (Sys.run flowi6Size grants ⟨g, p⟩ acts).phase = p := by
  induction acts generalizing g with
  | nil => rfl
  | cons act acts ih =>
    cases act with
    | store st => exact ih (g.store st)
    | bench =>
      rw [run_bench, hp]
      exact ih g

/-- The values that a run reads when `s₁` to `s₄` are the stores before its four steps. -/
def readAllocation (g : Settings) (s₁ s₂ s₃ : List Store) : Allocation :=
  ⟨(g.stores s₁).batchCount.val, (g.stores (s₁ ++ s₂)).loopCount.val,
    (g.stores (s₁ ++ s₂ ++ s₃)).loopCount.val⟩

private theorem run_interleaved (g : Settings) (s₁ s₂ s₃ s₄ : List Store)
    (rest : List Action) :
    (Sys.run flowi6Size grants ⟨g, .entry⟩
      (s₁.map .store ++ .bench :: (s₂.map .store ++ .bench ::
        (s₃.map .store ++ .bench :: (s₄.map .store ++ .bench :: rest))))).phase =
      if (readAllocation g s₁ s₂ s₃).granted flowi6Size grants then
        .locked (g.stores (s₁ ++ s₂ ++ s₃ ++ s₄)) (readAllocation g s₁ s₂ s₃)
      else .noMemory := by
  simp only [run_stores, run_bench, Sys.bench, ← stores_append]
  change (Sys.run _ _ ⟨_, if (readAllocation g s₁ s₂ s₃).granted flowi6Size grants then _
    else _⟩ rest).phase = _
  split
  · exact run_ended flowi6Size grants _ _ rest fun _ ↦ rfl
  · exact run_ended flowi6Size grants _ _ rest fun _ ↦ rfl

/-- Over every interleaving of stores with one run, the run writes in bounds exactly when
the bounds in force under the lock fit what the reads before it saw. -/
theorem sys_run_safe_iff (g : Settings) (acts : List Action) :
    (Sys.run flowi6Size grants ⟨g, .entry⟩ acts).phase.Safe flowi6Size ↔
      ∀ (s₁ s₂ s₃ s₄ : List Store) (rest : List Action),
        acts = s₁.map .store ++ .bench :: (s₂.map .store ++ .bench ::
          (s₃.map .store ++ .bench :: (s₄.map .store ++ .bench :: rest))) →
        (readAllocation g s₁ s₂ s₃).granted flowi6Size grants →
        Fits flowi6Size (g.stores (s₁ ++ s₂ ++ s₃ ++ s₄)) (readAllocation g s₁ s₂ s₃) := by
  constructor
  · rintro hsafe s₁ s₂ s₃ s₄ rest rfl hgranted
    rw [run_interleaved, if_pos hgranted] at hsafe
    exact (safe_iff_fits flowi6Size _ _).mp hsafe
  · intro hfits
    rcases split_bench acts with ⟨s₁, rfl⟩ | ⟨s₁, acts, rfl⟩
    · rw [run_onlyStores]
      trivial
    rcases split_bench acts with ⟨s₂, rfl⟩ | ⟨s₂, acts, rfl⟩
    · rw [run_stores, run_bench, run_onlyStores]
      trivial
    rcases split_bench acts with ⟨s₃, rfl⟩ | ⟨s₃, acts, rfl⟩
    · rw [run_stores, run_bench, run_stores, run_bench, run_onlyStores]
      trivial
    rcases split_bench acts with ⟨s₄, rfl⟩ | ⟨s₄, rest, rfl⟩
    · rw [run_stores, run_bench, run_stores, run_bench, run_stores, run_bench, run_onlyStores]
      trivial
    rw [run_interleaved]
    split
    · next hgranted =>
      exact (safe_iff_fits flowi6Size _ _).mpr (hfits s₁ s₂ s₃ s₄ rest rfl hgranted)
    · trivial

end

/-- One address, one lookup, no batch. -/
def oneLookup : Settings where
  warmupCount := .one
  loopCount := .one
  maxLoopCount := .two
  batchCount := .one
  flowOif := 0
  flowIif := 0
  flowLabel := 0
  flowMark := 0
  flowDstIpaddrS := .ofHost 0x20010db8 0 0 0
  flowDstIpaddrE := .ofHost 0x20010db8 0 0 0
  flowSrcIpaddr := .ofHost 0 0 0 0

/-- `loop_count` goes from one to two between the allocations and the lock: `results[1]`
is written, past the one element requested. -/
theorem oneLookup_store_overflows :
    let s := Sys.run 100 (fun _ _ ↦ true) ⟨oneLookup, .entry⟩
      [.bench, .bench, .bench, .store (.loopCount 2), .bench]
    ∃ g a t, s.phase = .locked g a ∧ lockedSection .allReachable g a.batch false 0 = .ok t ∧
      .write .results 1 ∈ t.trace ∧ a.elements 100 .results = 1 ∧ ¬ s.phase.Safe 100 := by
  refine ⟨{ oneLookup with loopCount := .two }, ⟨1, 1, 1⟩, _, rfl, rfl, ?_, ?_, ?_⟩
  · decide
  · decide
  · intro hsafe
    have hlt := hsafe .allReachable false 0 _ rfl .results 1 (by decide)
    exact absurd hlt (by decide)

end NetworkLab.Kbench.Ipv6
