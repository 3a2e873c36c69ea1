import NetworkLab.Kbench.Ipv6.Resources

/-!
# Bounds of the IPv6 benchmark

Whether each index that `do_bench` of `lab-routes-ipv6/2026/kbench_mod.c:212–479` uses is one of
its memory: where the arrays have room for what is written to them, and where the statistics read
no more than there is.
-/

namespace NetworkLab.Kbench.Ipv6

open Lib

/-! ### Steps of the lookups -/

/-- A step of the lookups leaves the lock and what is allocated alone, and uses elements of the
arrays only that a condition allows. -/
def Step.Looks (ok : Buffer → Nat → Prop) : Step → Prop
  | .kmalloc .. | .kfree _ | .mutexLock | .mutexUnlock => False
  | .read (.array b) k | .write (.array b) k => ok b k
  | .read .dmedian _ | .write .dmedian _ => False
  | .ip6RouteOutput .. | .readError _ | .dstRelease _ | .getCycles => True

section

variable {ok : Buffer → Nat → Prop}

theorem looks_lookupOnce (fl6 : Flowi6) : ∀ step ∈ lookupOnce fl6, step.Looks ok := by
  simp [lookupOnce, Step.Looks]

theorem looks_warmUp (env : Kernel) (fl6 : Flowi6) (n : Nat) (t : List Act) :
    ∀ step ∈ warmUpSteps env fl6 n t, step.Looks ok := by
  induction n generalizing t with
  | zero => exact List.forall_mem_nil _
  | succ n ih =>
    unfold warmUpSteps
    dsimp only
    split
    · exact looks_lookupOnce fl6
    · exact List.forall_mem_append.mpr ⟨looks_lookupOnce fl6, ih _⟩

theorem looks_iterate {env : Kernel} {g : Settings} {batch : UInt64} {plan : ScanPlan}
    {s : Timed} (h : ∀ b k, .write b k ∈ (s.iterate env g batch plan).trace → ok b k) :
    ∀ step ∈ iterateSteps env g batch plan s, step.Looks ok := by
  have htimed (fl6 : Flowi6) : ∀ step ∈ [Step.getCycles, .ip6RouteOutput fl6 .dst, .getCycles,
      .readError .dst, .dstRelease .dst], step.Looks ok := by
    simp [Step.Looks]
  unfold iterateSteps collectSteps timePlainSteps
  dsimp only
  rcases s.iterate_cases env g batch plan with
    ⟨hb, hno, -⟩ | ⟨hb, hroute, he⟩ | ⟨hb, hno, -⟩ | ⟨hb, hroute, he⟩
  · rw [if_pos hb, if_pos hno, List.append_nil]
    exact looks_lookupOnce _
  · rw [if_pos hb, if_neg hroute]
    have haddr : ok .addrs s.total := by
      apply h
      rw [he]
      exact List.mem_cons_self
    exact List.forall_mem_append.mpr
      ⟨looks_lookupOnce _, List.forall_mem_singleton.mpr haddr⟩
  · rw [if_neg hb, if_pos hno, List.append_nil]
    exact htimed _
  · rw [if_neg hb, if_neg hroute]
    have hresult : ok .results s.total := by
      apply h
      rw [he]
      exact List.mem_cons_self
    exact List.forall_mem_append.mpr
      ⟨htimed _, List.forall_mem_cons.mpr ⟨hresult, List.forall_mem_singleton.mpr hresult⟩⟩

/-- What was shown stays shown. -/
theorem Shows.subset {xs : List Step} {t t' : List Act} (h : Shows xs t t') : t ⊆ t' := by
  rw [h]
  exact List.subset_append_right _ _

theorem looks_timedLoop {env : Kernel} {g : Settings} {batch : UInt64} {plan : ScanPlan} {n : Nat}
    {s : Timed} (h : ∀ b k, .write b k ∈ (timedLoop env g batch plan n s).trace → ok b k) :
    ∀ step ∈ timedLoopSteps env g batch plan n s, step.Looks ok := by
  induction n generalizing s with
  | zero => exact List.forall_mem_nil _
  | succ n ih =>
    unfold timedLoop at h
    unfold timedLoopSteps
    split
    · exact List.forall_mem_nil _
    · next hmore =>
      rw [if_neg hmore] at h
      have hrest := shows_timedLoop env g batch plan n (s.iterate env g batch plan)
      apply List.forall_mem_append.mpr ⟨looks_iterate fun b k hwrite ↦ ?_, ih h⟩
      exact h b k (hrest.subset hwrite)

theorem looks_timeBatch {env : Kernel} {g : Settings} {batch i n : UInt64} {s : Timed}
    (h : ∀ b k, .write b k ∈ (s.timeBatch env g batch i n).trace → ok b k)
    (haddrs : ∀ j < batch.toNat, ok .addrs (i + UInt64.ofNat j).toNat) :
    ∀ step ∈ timeBatchSteps g batch i n s, step.Looks ok := by
  have hbatched {b : Buffer} (hb : b = .batchedFl6 ∨ b = .batchedDst) {j : Nat}
      (hj : j < batch.toNat) : ok b j :=
    h b j ((write_mem_timeBatch env g batch i n s b j).mpr (Or.inr (Or.inl ⟨hb, hj⟩)))
  have hresult : ok .results n.toNat :=
    h .results n.toNat ((write_mem_timeBatch env g batch i n s _ _).mpr (Or.inl ⟨rfl, rfl⟩))
  have hloop {body : Nat → List Step} (hbody : ∀ j < batch.toNat, ∀ step ∈ body j, step.Looks ok) :
      ∀ step ∈ (List.range batch.toNat).flatMap body, step.Looks ok := by
    intro step hstep
    obtain ⟨j, hj, hmem⟩ := List.mem_flatMap.mp hstep
    exact hbody j (List.mem_range.mp hj) step hmem
  unfold timeBatchSteps
  simp only [List.forall_mem_append, List.forall_mem_cons]
  refine ⟨⟨⟨?_, trivial, ?_⟩, trivial, ?_⟩, hresult, hresult, List.forall_mem_nil _⟩
  · apply hloop
    intro j hj
    exact List.forall_mem_cons.mpr ⟨haddrs j hj,
      List.forall_mem_singleton.mpr (hbatched (Or.inl rfl) hj)⟩
  · apply hloop
    intro j hj
    exact List.forall_mem_cons.mpr ⟨hbatched (Or.inl rfl) hj,
      List.forall_mem_cons.mpr ⟨trivial,
        List.forall_mem_singleton.mpr (hbatched (Or.inr rfl) hj)⟩⟩
  · apply hloop
    intro j hj
    exact List.forall_mem_cons.mpr ⟨hbatched (Or.inr rfl) hj, List.forall_mem_singleton.mpr trivial⟩

theorem looks_batchLoop {env : Kernel} {g : Settings} {batch : UInt64} {fuel : Nat}
    {i n : UInt64} {s : Timed}
    (h : ∀ b k, .write b k ∈ (batchLoop env g batch fuel i n s).1.trace → ok b k)
    (haddrs : ∀ i : UInt64, i.toNat ≤ s.total → (i + batch).toNat ≤ s.total →
      ∀ j < batch.toNat, ok .addrs (i + UInt64.ofNat j).toNat) (hi : i.toNat ≤ s.total) :
    ∀ step ∈ batchLoopSteps env g batch fuel i n s, step.Looks ok := by
  induction fuel generalizing i n s with
  | zero => exact List.forall_mem_nil _
  | succ fuel ih =>
    unfold batchLoop at h
    unfold batchLoopSteps
    split
    · next hfit =>
      rw [if_pos hfit] at h
      have hrest := shows_batchLoop env g batch fuel (i + batch) (n + 1)
        (s.timeBatch env g batch i n)
      have hone := looks_timeBatch (fun b k hwrite ↦ h b k (hrest.subset hwrite))
        (haddrs i hi hfit)
      have htotal := total_timeBatch env g batch i n s
      apply List.forall_mem_append.mpr ⟨hone, ih h _ _⟩
      · rw [htotal]
        exact haddrs
      · rw [htotal]
        exact hfit
    · exact List.forall_mem_nil _

/-- All lookups after the warm-up use elements that the locked section writes, unless the index of
a batch wraps. -/
theorem looks_timed {env : Kernel} {g : Settings} {batch : UInt64} {scan0 : Bool} {fuel : Nat}
    {trace : List Act}
    (h : ∀ b k, .write b k ∈ (endOfLock env g batch scan0 fuel trace).trace → ok b k)
    (haddrs : batch.toNat ≤ (runTimed env g batch scan0 trace).total → 1 < batch → ∀ i : UInt64,
      i.toNat ≤ (runTimed env g batch scan0 trace).total →
      (i + batch).toNat ≤ (runTimed env g batch scan0 trace).total →
      ∀ j < batch.toNat, ok .addrs (i + UInt64.ofNat j).toNat) :
    ∀ step ∈ timedSteps env g batch scan0 fuel trace, step.Looks ok := by
  unfold endOfLock at h
  unfold timedSteps
  dsimp only at h ⊢
  split
  · next hb =>
    rw [if_pos hb] at h
    have hbatches := shows_batchLoop env g batch fuel 0 0 (runTimed env g batch scan0 trace)
    apply List.forall_mem_append.mpr
      ⟨looks_timedLoop fun b k hwrite ↦ h b k (hbatches.subset hwrite), _⟩
    by_cases hshort : batch.toNat ≤ (runTimed env g batch scan0 trace).total
    · exact looks_batchLoop h (haddrs hshort hb) (Nat.zero_le _)
    · cases fuel with
      | zero => exact List.forall_mem_nil _
      | succ fuel =>
        have hfirst : ¬ (0 + batch).toNat ≤ (runTimed env g batch scan0 trace).total := by
          rw [UInt64.zero_add]
          exact hshort
        unfold batchLoopSteps
        rw [if_neg hfirst]
        exact List.forall_mem_nil _
  · next hb =>
    rw [if_neg hb] at h
    rw [List.append_nil]
    exact looks_timedLoop h

/-- Whatever the indexes are. -/
theorem looks_timed_true (env : Kernel) (g : Settings) (batch : UInt64) (scan0 : Bool) (fuel : Nat)
    (trace : List Act) :
    ∀ step ∈ timedSteps env g batch scan0 fuel trace, step.Looks fun _ _ ↦ True :=
  looks_timed (fun _ _ _ ↦ trivial) fun _ _ _ _ _ _ _ ↦ trivial

end

/-! ### Room for the writes -/

/-- A batch leaves the collected addresses alone. -/
theorem addrs_timeBatch (env : Kernel) (g : Settings) (batch i n : UInt64) (s : Timed) :
    (s.timeBatch env g batch i n).addrs = s.addrs := by
  have hfill : s.fillBatch batch = { s with trace := _ } :=
    foldl_range_eq (fun j ↦ [.write (.array .batchedFl6) j]) (fun _ _ ↦ rfl) batch.toNat
  have hlook (s : Timed) : s.lookupBatch g batch i = { s with trace := _ } :=
    foldl_range_eq (fun j ↦ [.ip6RouteOutput (batchedFlow g s i j) (.batchedDst j),
      .write (.array .batchedDst) j]) (fun _ _ ↦ rfl) batch.toNat
  unfold Timed.timeBatch
  dsimp only [Timed.emit]
  rw [hlook, hfill]

/-- Between two iterations of a batch run as many addresses are collected as are counted. -/
theorem length_addrs_timedLoop {env : Kernel} {g : Settings} {batch : UInt64} {plan : ScanPlan}
    {n : Nat} {s : Timed} (hb : 1 < batch) (h : s.addrs.length = s.total) :
    (timedLoop env g batch plan n s).addrs.length = (timedLoop env g batch plan n s).total := by
  induction n generalizing s with
  | zero => exact h
  | succ n ih =>
    unfold timedLoop
    split
    · exact h
    · apply ih
      rcases s.iterate_cases env g batch plan with
        ⟨-, -, he⟩ | ⟨-, -, he⟩ | ⟨hno, -⟩ | ⟨hno, -⟩
      · rw [he]
        exact h
      · rw [he, List.length_append, h]
        rfl
      · exact absurd hb hno
      · exact absurd hb hno

theorem addrs_batchLoop (env : Kernel) (g : Settings) (batch : UInt64) (fuel : Nat)
    (i n : UInt64) (s : Timed) : (batchLoop env g batch fuel i n s).1.addrs = s.addrs := by
  induction fuel generalizing i n s with
  | zero => rfl
  | succ fuel ih =>
    unfold batchLoop
    split
    · rw [ih, addrs_timeBatch]
    · rfl

/-- The batches that are timed: as many as the addresses fill, or as the fuel allows. -/
theorem toNat_batchLoop (env : Kernel) (g : Settings) (batch : UInt64) (fuel : Nat)
    (i n : UInt64) (s : Timed) (hb : 0 < batch.toNat) (hi : i.toNat = n.toNat * batch.toNat)
    (hs : s.total + batch.toNat < 2 ^ 64) (hle : i.toNat ≤ s.total) :
    (batchLoop env g batch fuel i n s).2.toNat =
      min (n.toNat + fuel) (s.total / batch.toNat) := by
  have hgroups : n.toNat ≤ s.total / batch.toNat :=
    (Nat.le_div_iff_mul_le hb).mpr (hi ▸ hle)
  induction fuel generalizing i n s with
  | zero =>
    change n.toNat = _
    omega
  | succ fuel ih =>
    obtain ⟨hadd, hfits⟩ : _ ∧ ((i + batch).toNat ≤ s.total ↔ _) :=
      batch_fits_iff hb hi (by omega)
    have htotal := total_timeBatch env g batch i n s
    have hdiv := Nat.div_le_self s.total batch.toNat
    unfold batchLoop
    split
    · next hfit =>
      have hn : (n + 1).toNat = n.toNat + 1 := Unsigned.toNat_succ (by omega)
      rw [ih (i + batch) (n + 1) (s.timeBatch env g batch i n) (by rw [hadd, hn, hi, Nat.succ_mul])
        (by rw [htotal]; exact hs) (by rw [htotal]; exact hfit)
        (by rw [htotal, hn]; exact hfits.mp hfit), htotal, hn]
      omega
    · next hfull =>
      have hlast : ¬ n.toNat + 1 ≤ s.total / batch.toNat := fun h ↦ hfull (hfits.mpr h)
      change n.toNat = _
      omega

variable (flowi6Size : UInt64)

/-- The arrays have room for what a run writes: for a result of each lookup or batch, for the
addresses that are collected and for a batch, if one is timed. -/
structure Room (a : Allocation) (s : Timed) : Prop where
  results : s.total ≤ a.elements flowi6Size .results
  addrs : 1 < a.batch → s.addrs.length ≤ a.elements flowi6Size .addrs
  batched : 1 < a.batch → 0 < s.total →
    a.batch.toNat ≤ a.elements flowi6Size .batchedFl6 ∧
      a.batch.toNat ≤ a.elements flowi6Size .batchedDst

/-- If all addresses have room, batches write in bounds exactly if a result of each of them has
room, and one batch if there is any. -/
theorem writesInBounds_batchLoop_iff (env : Kernel) (g : Settings) (a : Allocation) (fuel : Nat)
    {s : Timed} (hb : 1 < a.batch) (hf : FilledTo a.batch s)
    (hcap : s.total ≤ a.elements flowi6Size .addrs) :
    let r := batchLoop env g a.batch fuel 0 0 s
    WritesInBounds flowi6Size a r.1.trace ↔
      r.2.toNat ≤ a.elements flowi6Size .results ∧
        (0 < r.2.toNat → a.batch.toNat ≤ a.elements flowi6Size .batchedFl6 ∧
          a.batch.toNat ≤ a.elements flowi6Size .batchedDst) := by
  intro r
  have hb' : 1 < a.batch.toNat := UInt64.lt_iff_toNat_lt.mp hb
  have hlimit := elements_addrs_lt flowi6Size a
  rw [FilledTo, filled, if_pos hb] at hf
  have hinside : ∀ b k, .write b k ∈ s.trace → k < a.elements flowi6Size b := by
    intro b k hk
    obtain ⟨rfl, hlt⟩ := (hf b k).mp hk
    exact Nat.lt_of_lt_of_le hlt hcap
  by_cases hfit : a.batch.toNat ≤ s.total
  · have hwrites := write_mem_batchLoop env g a.batch fuel 0 0 s (by omega) (by simp)
      (by omega) (Nat.zero_le _)
    have hcount : r.2.toNat = _ :=
      toNat_batchLoop env g a.batch fuel 0 0 s (by omega) (by simp) (by omega) (Nat.zero_le _)
    have hzero : (0 : UInt64).toNat = 0 := rfl
    rw [hzero, Nat.zero_add] at hcount hwrites
    rw [hcount]
    constructor
    · intro h
      refine ⟨forall_lt_iff_le.mp fun k hk ↦ ?_, fun hpos ↦ ?_⟩
      · exact h .results k ((hwrites _ _).mpr (Or.inl ⟨rfl, Nat.zero_le _, hk⟩))
      · have hwrite {b : Buffer} (hbuffer : b = .batchedFl6 ∨ b = .batchedDst) :
            a.batch.toNat ≤ a.elements flowi6Size b := by
          apply forall_lt_iff_le.mp
          intro k hk
          exact h b k ((hwrites _ _).mpr (Or.inr (Or.inl ⟨hbuffer, hk, hpos⟩)))
        exact ⟨hwrite (Or.inl rfl), hwrite (Or.inr rfl)⟩
    · rintro ⟨hresults, hroom⟩ b k hk
      rcases (hwrites b k).mp hk with ⟨rfl, -, hk⟩ | ⟨rfl | rfl, hk, hpos⟩ | hk
      · exact Nat.lt_of_lt_of_le hk hresults
      · exact Nat.lt_of_lt_of_le hk (hroom hpos).1
      · exact Nat.lt_of_lt_of_le hk (hroom hpos).2
      · exact hinside b k hk
  · have hr : r = (s, 0) := batchLoop_of_short env g a.batch fuel s hfit
    rw [hr]
    exact iff_of_true hinside ⟨Nat.zero_le _, fun hpos ↦ absurd hpos (Nat.lt_irrefl 0)⟩

/-- The locked section writes in bounds exactly if there is room. -/
theorem writesInBounds_iff_room {env : Kernel} {g : Settings} (a : Allocation) (scan0 : Bool)
    (fuel : Nat) {trace : List Act}
    (hwarm : warmUp env (flowi6 g g.flowDstIpaddrS) g.warmupCount.toNat [] = .ok trace) :
    WritesInBounds flowi6Size a (endOfLock env g a.batch scan0 fuel trace).trace ↔
      Room flowi6Size a (endOfLock env g a.batch scan0 fuel trace) := by
  have hempty (b : Buffer) (k : Nat) : .write b k ∉ trace := by
    rw [warmUp_writes _ _ _ _ _ hwarm]
    exact List.not_mem_nil
  obtain ⟨hf, -, -⟩ := runTimed_filledTo env g a.batch scan0 trace hempty
  have hlen : 1 < a.batch → (runTimed env g a.batch scan0 trace).addrs.length =
      (runTimed env g a.batch scan0 trace).total :=
    fun hb ↦ length_addrs_timedLoop hb rfl
  unfold endOfLock
  generalize runTimed env g a.batch scan0 trace = s at hf hlen ⊢
  by_cases hb : 1 < a.batch
  · have hbatched := addrs_batchLoop env g a.batch fuel 0 0 s
    have hlater := (shows_batchLoop env g a.batch fuel 0 0 s).subset
    dsimp only
    rw [if_pos hb]
    by_cases hcap : s.total ≤ a.elements flowi6Size .addrs
    · apply (writesInBounds_batchLoop_iff flowi6Size env g a fuel hb hf hcap).trans
      constructor
      · rintro ⟨hresults, hroom⟩
        exact ⟨hresults, fun _ ↦ hbatched ▸ (hlen hb).trans_le hcap, fun _ ↦ hroom⟩
      · exact fun h ↦ ⟨h.results, h.batched hb⟩
    · rw [FilledTo, filled, if_pos hb] at hf
      refine iff_of_false (fun h ↦ hcap ?_) fun h ↦ hcap ?_
      · apply forall_lt_iff_le.mp
        intro k hk
        exact h .addrs k (hlater ((hf _ _).mpr ⟨rfl, hk⟩))
      · have hroom := h.addrs hb
        rw [hbatched, hlen hb] at hroom
        exact hroom
  · rw [FilledTo, filled, if_neg hb] at hf
    dsimp only
    rw [if_neg hb]
    constructor
    · intro h
      refine ⟨?_, fun hbatch ↦ absurd hbatch hb, fun hbatch ↦ absurd hbatch hb⟩
      apply forall_lt_iff_le.mp
      intro k hk
      exact h .results k ((hf _ _).mpr ⟨rfl, hk⟩)
    · intro h b k hk
      obtain ⟨rfl, hlt⟩ := (hf b k).mp hk
      exact Nat.lt_of_lt_of_le hlt h.results

/-! ### Accesses of the statistics -/

section

variable {size : Memory → Nat}

/-- The places of a percentile: that of its rank, and the next one if the rank is no whole
number. -/
theorem inside_percentile_iff (m : Memory) (p : Int32) (count : UInt32) :
    (∀ op ∈ ops (percentileSteps m p count), op.Inside size) ↔
      (scaledRank p count).toNat / 100 < size m ∧
        ((scaledRank p count).toNat % 100 ≠ 0 → (scaledRank p count).toNat / 100 + 1 < size m) := by
  have hindex : (scaledRank p count / 100).toNat = (scaledRank p count).toNat / 100 :=
    UInt32.toNat_div _ _
  have hwhole : scaledRank p count % 100 = 0 ↔ (scaledRank p count).toNat % 100 = 0 := by
    rw [← UInt32.toNat_inj, UInt32.toNat_mod]
    rfl
  unfold percentileSteps
  simp only [hindex, hwhole]
  split
  · next hz => simp [ops, Step.op?, ResourceOp.Inside, hz]
  · next hz => simp [ops, Step.op?, ResourceOp.Inside, hz]

private theorem toNat_scaledRank_ofNat (p : Int32) (total : Nat) :
    (scaledRank p (UInt32.ofNat total)).toNat =
      p.toUInt32.toNat * (total % 2 ^ 32) % 2 ^ 32 := by
  rw [scaledRank, UInt32.toNat_mul, UInt32.toNat_ofNat']

-- A rank of at most 95 percent has a place, and one after it if it is no whole number.
private theorem place_inside {rank total elements : Nat} (hrank : rank ≤ 95 * total)
    (hpos : 0 < total) (hroom : total ≤ elements) (h : total < elements ∨ 20 ≤ total) :
    rank / 100 < elements ∧ (rank % 100 ≠ 0 → rank / 100 + 1 < elements) := by
  omega

/-- The percentiles stay in an array with room for the results where an element of it was left
over, or where at least 20 results are there. -/
theorem inside_quantiles_iff {total : Nat} (hpos : 0 < total)
    (hroom : total ≤ size (.array .results)) :
    (∀ op ∈ ops (quantileSteps total), op.Inside size) ↔
      total < size (.array .results) ∨ 20 ≤ total := by
  have h95 : (95 : Int32).toUInt32.toNat = 95 := by decide
  have h90 : (90 : Int32).toUInt32.toNat = 90 := by decide
  have h50 : (50 : Int32).toUInt32.toNat = 50 := by decide
  have hends : ∀ op ∈ ops [.read (.array .results) 0, .read (.array .results) (total - 1)],
      op.Inside size := by
    have hlast : total - 1 < size (.array .results) := by omega
    exact List.forall_mem_cons.mpr ⟨Nat.lt_of_lt_of_le hpos hroom,
      List.forall_mem_singleton.mpr hlast⟩
  unfold quantileSteps
  rw [ops_append, ops_append, ops_append]
  simp only [List.forall_mem_append, inside_percentile_iff, toNat_scaledRank_ofNat, h95, h90, h50]
  rw [and_iff_left hends]
  generalize size (.array .results) = elements at hroom ⊢
  have hrank {p : Nat} (hp : p ≤ 95) : p * (total % 2 ^ 32) % 2 ^ 32 ≤ 95 * total :=
    (Nat.mod_le _ _).trans (Nat.mul_le_mul hp (Nat.mod_le _ _))
  constructor
  · rintro ⟨⟨-, hnext⟩, -, -⟩
    by_contra hfew
    -- The rank is that of all elements, and no whole number.
    have hmod : 95 * (total % 2 ^ 32) % 2 ^ 32 = 95 * total := by omega
    rw [hmod] at hnext
    omega
  · intro h
    exact ⟨place_inside (hrank (by decide)) hpos hroom h,
      place_inside (hrank (by decide)) hpos hroom h, place_inside (hrank (by decide)) hpos hroom h⟩

/-- `mad` stays in its array exactly if it has two elements. -/
theorem inside_deviations_iff {count : UInt32} (hroom : count.toNat ≤ size (.array .results))
    (hown : size .dmedian = count.toNat) :
    (∀ op ∈ ops (deviationSteps count), op.Inside size) ↔ 2 ≤ count.toNat := by
  have h50 : (50 : Int32).toUInt32.toNat = 50 := by decide
  have hloop : ∀ op ∈ ops ((List.range count.toNat).flatMap fun i ↦
      [.read (.array .results) i, .read (.array .results) i, .write .dmedian i]),
      op.Inside size := by
    rw [ops_flatMap]
    intro op hop
    obtain ⟨i, hi, hmem⟩ := List.mem_flatMap.mp hop
    have hlt := List.mem_range.mp hi
    have hread : i < size (.array .results) := Nat.lt_of_lt_of_le hlt hroom
    have hwrite : i < size .dmedian := hown ▸ hlt
    have hbody : ∀ op ∈ ops [.read (.array .results) i, .read (.array .results) i,
        .write .dmedian i], op.Inside size :=
      List.forall_mem_cons.mpr ⟨hread, List.forall_mem_cons.mpr ⟨hread,
        List.forall_mem_singleton.mpr hwrite⟩⟩
    exact hbody op hmem
  have hsort : ∀ op ∈ ops (sortSteps .dmedian count.toNat), op.Inside size := by
    intro op hop
    obtain ⟨m, k, rfl, rfl, hk⟩ := (uses_sort .dmedian count.toNat).op op hop
    rw [← hown] at hk
    exact hk
  have hlt := count.toNat_lt
  unfold deviationSteps
  rw [ops_append, ops_append]
  simp only [List.forall_mem_append, inside_percentile_iff, scaledRank, UInt32.toNat_mul, h50, hown]
  rw [and_iff_right hloop, and_iff_right hsort]
  generalize count.toNat = c at hlt ⊢
  constructor
  · rintro ⟨hplace, hnext⟩
    by_contra hfew
    have hmod : 50 * c % 2 ^ 32 = 50 * c := by omega
    rw [hmod] at hplace hnext
    omega
  · intro htwo
    have hrank : 50 * c % 2 ^ 32 ≤ 50 * c := Nat.mod_le _ _
    generalize 50 * c % 2 ^ 32 = rank at hrank ⊢
    omega

/-- `mad` with what it allocates. -/
theorem within_mad_iff (granted : Bool) {count : UInt32}
    (hroom : count.toNat ≤ size (.array .results)) :
    (ResourceOp.Within size (ops (madSteps granted count)) ↔ 2 ≤ count.toNat) ∧
      ResourceOp.sizes size (ops (madSteps granted count)) =
        Function.update size .dmedian count.toNat := by
  let size' := Function.update size .dmedian count.toNat
  have hown : size' .dmedian = count.toNat := Function.update_self ..
  have hfixed := (uses_deviations count).fixed
  have hrest : ops (deviationSteps count ++ [.kfree .dmedian]) =
      ops (deviationSteps count) ++ ops [.kfree .dmedian] := ops_append _ _
  constructor
  · change True ∧ ResourceOp.Within size' (ops (deviationSteps count ++ [.kfree .dmedian])) ↔ _
    have hfree : ResourceOp.Within size' (ops [.kfree .dmedian]) := by
      simp [ops, Step.op?, ResourceOp.Within, ResourceOp.Inside]
    rw [true_and, hrest, ResourceOp.within_append, hfixed.sizes, and_iff_left hfree,
      hfixed.within_iff]
    exact inside_deviations_iff hroom hown
  · change ResourceOp.sizes size' (ops (deviationSteps count ++ [.kfree .dmedian])) = _
    rw [hrest, ResourceOp.sizes_append, hfixed.sizes]
    rfl

/-- The statistics of results that there is room for. -/
theorem within_statistics_iff (madGranted : Bool) (histogram : Option (List Bool)) {total : Nat}
    (hroom : total ≤ size (.array .results)) :
    ResourceOp.Within size (ops (statisticsSteps madGranted histogram total)) ↔
      total = 0 ∨ 2 ≤ total % 2 ^ 32 ∧ (total < size (.array .results) ∨ 20 ≤ total) := by
  have hsort := uses_sort (.array .results) total
  have hsorted : ResourceOp.Within size (ops (sortSteps (.array .results) total)) :=
    hsort.within fun m k h ↦ h.1 ▸ Nat.lt_of_lt_of_le h.2 hroom
  unfold statisticsSteps
  rw [ops_append, ResourceOp.within_append, and_iff_right hsorted, hsort.fixed.sizes]
  split
  · next hzero => exact iff_of_true trivial (Or.inl hzero)
  · next hzero =>
    have hquantiles := (uses_quantiles total).fixed
    have hcount : (UInt32.ofNat total).toNat = total % 2 ^ 32 := UInt32.toNat_ofNat'
    have hle : (UInt32.ofNat total).toNat ≤ size (.array .results) :=
      hcount.trans_le ((Nat.mod_le _ _).trans hroom)
    obtain ⟨hmad, hsizes⟩ := within_mad_iff madGranted hle
    have hverbose : ResourceOp.Within (Function.update size .dmedian (UInt32.ofNat total).toNat)
        (ops (verboseSteps histogram total)) :=
      (uses_verbose histogram (Nat.pos_of_ne_zero hzero)).within
        fun m k h ↦ h.1 ▸ Nat.lt_of_lt_of_le h.2 hroom
    rw [ops_append, ResourceOp.within_append, hquantiles.within_iff, hquantiles.sizes,
      inside_quantiles_iff (Nat.pos_of_ne_zero hzero) hroom, ops_append,
      ResourceOp.within_append, hmad, hsizes, and_iff_left hverbose, hcount]
    constructor
    · rintro ⟨h, htwo⟩
      exact Or.inr ⟨htwo, h⟩
    · rintro (h | ⟨htwo, h⟩)
      · exact absurd h hzero
      · exact ⟨h, htwo⟩

end

/-! ### Accesses of the lookups -/

section

variable {ok : Buffer → Nat → Prop} {xs : List Step}

theorem fixed_of_looks (h : ∀ step ∈ xs, step.Looks ok) : ResourceOp.Fixed (ops xs) := by
  intro p n granted hmem
  obtain ⟨step, hstep, heq⟩ := List.mem_filterMap.mp hmem
  have hlooks := h step hstep
  cases step with
  | kmalloc => exact hlooks
  | _ => cases heq

theorem inside_of_looks {size : Memory → Nat} (h : ∀ step ∈ xs, step.Looks ok)
    (hok : ∀ b k, ok b k → k < size (.array b)) : ∀ op ∈ ops xs, op.Inside size := by
  intro op hop
  obtain ⟨step, hstep, heq⟩ := List.mem_filterMap.mp hop
  have hlooks := h step hstep
  cases step with
  | read m k | write m k =>
    cases heq
    cases m with
    | array b => exact hok b k hlooks
    | dmedian => exact absurd hlooks id
  | getCycles => cases heq
  | _ =>
    cases heq
    trivial

theorem locks_of_looks (h : ∀ step ∈ xs, step.Looks ok) : ∀ step ∈ xs, step.locks = false := by
  intro step hstep
  have hlooks := h step hstep
  cases step with
  | mutexLock | mutexUnlock => exact absurd hlooks id
  | _ => rfl

end

section

variable {env : Kernel} {g : Settings} {a : Allocation} {scan0 : Bool} {fuel : Nat}
  {trace : List Act}

/-- Where there is room, the batches stay within the addresses that were collected. -/
theorem total_le_of_room (hb : 1 < a.batch)
    (h : Room flowi6Size a (endOfLock env g a.batch scan0 fuel trace)) :
    (runTimed env g a.batch scan0 trace).total ≤ a.elements flowi6Size .addrs := by
  have haddrs := h.addrs hb
  unfold endOfLock at haddrs
  dsimp only at haddrs
  rw [if_pos hb, addrs_batchLoop] at haddrs
  exact (length_addrs_timedLoop hb rfl).symm.trans_le haddrs

/-- A write that is shown is one to an element of an array. -/
theorem Step.op?_of_act?_write {step : Step} {b : Buffer} {k : Nat}
    (h : step.act? = some (.write b k)) : step.op? = some (.access (.array b) k) := by
  cases step with
  | write m j =>
    cases m with
    | array c =>
      cases h
      rfl
    | dmedian => cases h
  | _ => cases h

/-- The lookups use elements of their memory only exactly if there is room. Without batches there
is no array but `results`. -/
theorem within_timed_iff {size : Memory → Nat}
    (hwarm : warmUp env (flowi6 g g.flowDstIpaddrS) g.warmupCount.toNat [] = .ok trace)
    (hresults : size (.array .results) = a.elements flowi6Size .results)
    (hbatched : 1 < a.batch → ∀ b, size (.array b) = a.elements flowi6Size b) :
    ResourceOp.Within size (ops (timedSteps env g a.batch scan0 fuel trace)) ↔
      Room flowi6Size a (endOfLock env g a.batch scan0 fuel trace) := by
  have hempty (b : Buffer) (k : Nat) : .write b k ∉ trace := by
    rw [warmUp_writes _ _ _ _ _ hwarm]
    exact List.not_mem_nil
  obtain ⟨hf, -, -⟩ := runTimed_filledTo env g a.batch scan0 trace hempty
  have hshown := shows_timed env g a.batch scan0 fuel trace
  have hall := looks_timed_true env g a.batch scan0 fuel trace
  -- The elements of an array that the run writes to are those that were asked for.
  have hsize {b : Buffer} {k : Nat}
      (hk : .write b k ∈ (endOfLock env g a.batch scan0 fuel trace).trace) :
      size (.array b) = a.elements flowi6Size b := by
    by_cases hb : 1 < a.batch
    · exact hbatched hb b
    · unfold endOfLock at hk
      dsimp only at hk
      rw [if_neg hb] at hk
      obtain ⟨rfl, -⟩ := (hf b k).mp hk
      rw [filled, if_neg hb]
      exact hresults
  rw [(fixed_of_looks hall).within_iff, ← writesInBounds_iff_room flowi6Size a scan0 fuel hwarm]
  constructor
  · intro hinside b k hk
    rw [← hsize hk]
    rw [hshown] at hk
    rcases List.mem_append.mp hk with hk | hk
    · obtain ⟨step, hstep, hact⟩ := List.mem_filterMap.mp (List.mem_reverse.mp hk)
      exact hinside _ (mem_ops hstep (Step.op?_of_act?_write hact))
    · exact absurd hk (hempty b k)
  · intro hwrites
    have hroom := (writesInBounds_iff_room flowi6Size a scan0 fuel hwarm).mp hwrites
    apply inside_of_looks (looks_timed (fun b k hk ↦ hk) _)
    · intro b k hk
      rw [hsize hk]
      exact hwrites b k hk
    · intro hfit hb i hi hnext j hj
      have hcap := elements_addrs_lt flowi6Size a
      have hle := total_le_of_room flowi6Size hb hroom
      have hadd : (i + a.batch).toNat = i.toNat + a.batch.toNat :=
        Unsigned.toNat_add_of_lt (by omega)
      have hplace : (i + UInt64.ofNat j).toNat = i.toNat + j :=
        Unsigned.toNat_add_ofNat (by omega)
      have hlater : (runTimed env g a.batch scan0 trace).trace ⊆
          (endOfLock env g a.batch scan0 fuel trace).trace := by
        unfold endOfLock
        dsimp only
        rw [if_pos hb]
        exact (shows_batchLoop env g a.batch fuel 0 0 _).subset
      apply hlater
      rw [hplace, hf, filled, if_pos hb]
      exact ⟨rfl, by omega⟩

end

/-! ### The lock -/

/-- The lock is taken once and given back once, with these steps between. -/
def LocksOnce (steps locked : List Step) : Prop :=
  ∃ before after, steps = before ++ .mutexLock :: (locked ++ .mutexUnlock :: after) ∧
    ∀ step ∈ before ++ (locked ++ after), step.locks = false

theorem Uses.locks {ok : Memory → Nat → Prop} {xs : List Step} (h : Uses ok xs) :
    ∀ step ∈ xs, step.locks = false := by
  intro step hstep
  obtain ⟨m, k, -, rfl | rfl⟩ := h step hstep
  · rfl
  · rfl

theorem locks_statistics (madGranted : Bool) (histogram : Option (List Bool)) (total : Nat) :
    ∀ step ∈ statisticsSteps madGranted histogram total, step.locks = false := by
  unfold statisticsSteps madSteps
  apply List.forall_mem_append.mpr ⟨(uses_sort _ _).locks, _⟩
  split
  · exact List.forall_mem_nil _
  · next hzero =>
    have hmad : ∀ step ∈ .kmalloc .dmedian (UInt32.ofNat total).toNat madGranted ::
        (deviationSteps (UInt32.ofNat total) ++ [.kfree .dmedian]), step.locks = false :=
      List.forall_mem_cons.mpr ⟨rfl, List.forall_mem_append.mpr
        ⟨(uses_deviations _).locks, List.forall_mem_singleton.mpr rfl⟩⟩
    exact List.forall_mem_append.mpr ⟨(uses_quantiles total).locks, List.forall_mem_append.mpr
      ⟨hmad, (uses_verbose histogram (Nat.pos_of_ne_zero hzero)).locks⟩⟩

/-! ### Runs -/

section

variable (grants : Buffer → (bytes : UInt64) → Bool)

theorem locks_kmalloc (a : Allocation) :
    ∀ step ∈ kmallocSteps flowi6Size grants a, step.locks = false := by
  unfold kmallocSteps
  dsimp only
  split <;> simp [Step.locks]

/-- With the memory for its arrays a run takes the lock and gives it back once, and shows the trace
of the locked section in between. Without, it does not take it. -/
theorem locks_doBench (env : Kernel) (g : Settings) (a : Allocation) (scan0 : Bool) (fuel : Nat)
    (madGranted : Bool) (histogram : Option (List Bool)) :
    let steps := doBenchSteps flowi6Size grants env g a scan0 fuel madGranted histogram
    if a.granted flowi6Size grants then
      ∃ locked, LocksOnce steps locked ∧
        ∀ s, lockedSection env g a.batch scan0 fuel = .ok s → acts locked = s.trace.reverse
    else ∀ step ∈ steps, step.locks = false := by
  intro steps
  have hkmalloc := locks_kmalloc flowi6Size grants a
  have hwarmed : ∀ step ∈ warmUpSteps env (flowi6 g g.flowDstIpaddrS) g.warmupCount.toNat [],
      step.locks = false :=
    locks_of_looks (@looks_warmUp (fun _ _ ↦ True) env _ _ _)
  have hfree : ∀ step ∈ freeSteps, step.locks = false := by
    simp [freeSteps, Step.locks]
  simp only [steps, doBenchSteps]
  split
  · rw [lockedSection_eq]
    cases hwarm : warmUp env (flowi6 g g.flowDstIpaddrS) g.warmupCount.toNat [] with
    | error err =>
      refine ⟨warmUpSteps env (flowi6 g g.flowDstIpaddrS) g.warmupCount.toNat [],
        ⟨kmallocSteps flowi6Size grants a, freeSteps, rfl, ?_⟩,
        fun s hs ↦ by cases hs⟩
      exact List.forall_mem_append.mpr ⟨hkmalloc, List.forall_mem_append.mpr ⟨hwarmed, hfree⟩⟩
    | ok trace =>
      let batched : List Step :=
        [.kfree (.array .addrs), .kfree (.array .batchedFl6), .kfree (.array .batchedDst)]
      have htimed := locks_of_looks (looks_timed_true env g a.batch scan0 fuel trace)
      have hbatched : ∀ step ∈ batched, step.locks = false := by
        simp [batched, Step.locks]
      have hlast : ∀ step ∈ [Step.kfree (.array .results)], step.locks = false :=
        List.forall_mem_singleton.mpr rfl
      have hshown := (shows_warmUp hwarm).append (shows_timed env g a.batch scan0 fuel trace)
      refine ⟨warmUpSteps env (flowi6 g g.flowDstIpaddrS) g.warmupCount.toNat [] ++
        (timedSteps env g a.batch scan0 fuel trace ++ batched),
        ⟨kmallocSteps flowi6Size grants a, statisticsSteps madGranted histogram
          (endOfLock env g a.batch scan0 fuel trace).total ++ [.kfree (.array .results)], ?_, ?_⟩,
        ?_⟩
      · simp [batched]
      · simp only [List.forall_mem_append]
        exact ⟨hkmalloc, ⟨hwarmed, htimed, hbatched⟩, locks_statistics _ _ _, hlast⟩
      · rintro s ⟨⟩
        rw [hshown, List.append_nil, List.reverse_reverse, ← List.append_assoc, acts, acts,
          List.filterMap_append]
        exact List.append_nil _
  · exact List.forall_mem_append.mpr ⟨hkmalloc, hfree⟩

/-- The arrays of the mode have the elements that were asked for. -/
theorem sizes_kmalloc (a : Allocation) :
    let size := ResourceOp.sizes (fun _ ↦ 0) (ops (kmallocSteps flowi6Size grants a))
    ResourceOp.Within (fun _ ↦ 0) (ops (kmallocSteps flowi6Size grants a)) ∧
      size (.array .results) = a.elements flowi6Size .results ∧
      (1 < a.batch → ∀ b, size (.array b) = a.elements flowi6Size b) := by
  unfold kmallocSteps
  dsimp only
  split
  · refine ⟨by simp [ops, Step.op?, ResourceOp.Within, ResourceOp.Inside], rfl, fun _ b ↦ ?_⟩
    cases b <;> rfl
  · next hb =>
    exact ⟨by simp [ops, Step.op?, ResourceOp.Within, ResourceOp.Inside], rfl,
      fun h ↦ absurd h hb⟩

/-- A run uses elements of its memory only exactly if the arrays have room for its writes and the
statistics find two results to take the median of, and an element behind the results or 20 of
them. -/
theorem within_doBench_iff (env : Kernel) (g : Settings) (a : Allocation) (scan0 : Bool)
    (fuel : Nat) (madGranted : Bool) (histogram : Option (List Bool)) :
    ResourceOp.Within (fun _ ↦ 0)
        (ops (doBenchSteps flowi6Size grants env g a scan0 fuel madGranted histogram)) ↔
      (a.granted flowi6Size grants → ∀ s, lockedSection env g a.batch scan0 fuel = .ok s →
        Room flowi6Size a s ∧ (s.total = 0 ∨ 2 ≤ s.total % 2 ^ 32 ∧
          (s.total < a.elements flowi6Size .results ∨ 20 ≤ s.total))) := by
  obtain ⟨hkmalloc, hresults, hbatched⟩ := sizes_kmalloc flowi6Size grants a
  unfold doBenchSteps
  rw [ops_append, ResourceOp.within_append, and_iff_right hkmalloc]
  generalize ResourceOp.sizes (fun _ ↦ 0) (ops (kmallocSteps flowi6Size grants a)) = size
    at hresults hbatched
  have hfree : ResourceOp.Within size (ops freeSteps) := by
    simp [ops, freeSteps, Step.op?, ResourceOp.Within, ResourceOp.Inside]
  split
  · next hgranted =>
    have hwarmed : ∀ step ∈ warmUpSteps env (flowi6 g g.flowDstIpaddrS) g.warmupCount.toNat [],
        step.Looks fun _ _ ↦ False := looks_warmUp env _ _ _
    have hfixed := fixed_of_looks hwarmed
    have hwithin := (hfixed.within_iff size).mpr (inside_of_looks hwarmed fun _ _ h ↦ h.elim)
    rw [imp_iff_right hgranted, lockedSection_eq]
    change True ∧ ResourceOp.Within size (ops (warmUpSteps env (flowi6 g g.flowDstIpaddrS)
      g.warmupCount.toNat [] ++ _)) ↔ _
    rw [true_and, ops_append, ResourceOp.within_append, and_iff_right hwithin, hfixed.sizes]
    cases hwarm : warmUp env (flowi6 g g.flowDstIpaddrS) g.warmupCount.toNat [] with
    | error err =>
      apply iff_of_true _ fun s hs ↦ by cases hs
      exact ⟨trivial, hfree⟩
    | ok trace =>
      have htimed := fixed_of_looks (looks_timed_true env g a.batch scan0 fuel trace)
      have hfrees : ResourceOp.Within size (ops [.kfree (.array .addrs),
          .kfree (.array .batchedFl6), .kfree (.array .batchedDst), .mutexUnlock]) := by
        simp [ops, Step.op?, ResourceOp.Within, ResourceOp.Inside]
      have hlast (size : Memory → Nat) :
          ResourceOp.Within size (ops [.kfree (.array .results)]) := by
        simp [ops, Step.op?, ResourceOp.Within, ResourceOp.Inside]
      have hsizes : ResourceOp.sizes size (ops (timedSteps env g a.batch scan0 fuel trace) ++
          ops [.kfree (.array .addrs), .kfree (.array .batchedFl6), .kfree (.array .batchedDst),
            .mutexUnlock]) = size := by
        rw [ResourceOp.sizes_append, htimed.sizes]
        rfl
      have hstatistics (hroom : Room flowi6Size a (endOfLock env g a.batch scan0 fuel trace)) :=
        within_statistics_iff madGranted histogram (hroom.results.trans_eq hresults.symm)
      rw [hresults] at hstatistics
      rw [ops_append, ops_append, ops_append, ResourceOp.within_append, and_iff_left (hlast _),
        ResourceOp.within_append, hsizes, ResourceOp.within_append, htimed.sizes,
        and_iff_left hfrees,
        within_timed_iff flowi6Size hwarm hresults hbatched]
      constructor
      · rintro ⟨hroom, h⟩ s ⟨⟩
        exact ⟨hroom, (hstatistics hroom).mp h⟩
      · intro h
        obtain ⟨hroom, h⟩ := h _ rfl
        exact ⟨hroom, (hstatistics hroom).mpr h⟩
  · next hrefused => exact iff_of_true hfree fun h ↦ absurd h hrefused

/-- On every way out, whatever the kernel answers and grants and whatever the settings become
before the lock is taken, a run settles all it owns without a fault and uses elements of its
memory only, exactly if the arrays have room for what is written and the statistics, if there is a
result, have the memory for `mad`, two results or more to take its median of, and an element
behind the results or 20 of them. Unless a request for its arrays was refused it takes the lock
once and gives it back once, and shows the trace of the locked section in between. What a percentile
reads is inside of an array if and only if `percentile` ends on its elements. -/
theorem doBench_clean_iff (env : Kernel) (g : Settings) (a : Allocation) (scan0 : Bool)
    (fuel : Nat) (madGranted : Bool) (histogram : Option (List Bool)) :
    let steps := doBenchSteps flowi6Size grants env g a scan0 fuel madGranted histogram
    (atEntry.Clean (ops steps) ∧ ResourceOp.Within (fun _ ↦ 0) (ops steps) ↔
      (a.granted flowi6Size grants → ∀ s, lockedSection env g a.batch scan0 fuel = .ok s →
        Room flowi6Size a s ∧ (s.total = 0 ∨ madGranted ∧ 2 ≤ s.total % 2 ^ 32 ∧
          (s.total < a.elements flowi6Size .results ∨ 20 ≤ s.total)))) ∧
    (if a.granted flowi6Size grants then
      ∃ locked, LocksOnce steps locked ∧
        ∀ s, lockedSection env g a.batch scan0 fuel = .ok s → acts locked = s.trace.reverse
    else ∀ step ∈ steps, step.locks = false) ∧
    ∀ (m : Memory) (p : Int32) (sorted : List UInt64) (count : UInt32),
      (∃ q, percentile p sorted count = .ok q) ↔
        ∀ op ∈ ops (percentileSteps m p count), op.Inside fun _ ↦ sorted.length := by
  intro steps
  refine ⟨?_, locks_doBench flowi6Size grants env g a scan0 fuel madGranted histogram,
    percentile_ok_iff_inside⟩
  rw [clean_iff flowi6Size grants env g a scan0 fuel madGranted histogram,
    within_doBench_iff flowi6Size grants env g a scan0 fuel madGranted histogram]
  constructor
  · rintro ⟨hmad, hinside⟩ hgranted s hs
    obtain ⟨hroom, hcount⟩ := hinside hgranted s hs
    refine ⟨hroom, ?_⟩
    rcases hcount with hzero | hcount
    · exact Or.inl hzero
    · exact (hmad hgranted s hs).imp_right fun h ↦ ⟨h, hcount⟩
  · intro h
    refine ⟨fun hgranted s hs ↦ ?_, fun hgranted s hs ↦ ?_⟩
    · exact (h hgranted s hs).2.imp_right And.left
    · exact (h hgranted s hs).imp_right fun h ↦ h.imp_right And.right

end

end NetworkLab.Kbench.Ipv6
