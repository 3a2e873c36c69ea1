import NetworkLab.Kbench.Ipv6.Steps

/-!
# Memory, lock and routes of the IPv6 benchmark

What `do_bench` of `lab-routes-ipv6/2026/kbench_mod.c:212–479` owns, from its entry to each of its
three ways out: the memory, `kb_lock` and the routes. A run is clean if it settles all of it, and
within bounds if each access is to an element that its memory has.
-/

namespace NetworkLab.Kbench.Ipv6

open Lib

/-! ### The ledger -/

/-- The ledger at the start: `results` and `dmedian` have no value yet, the other arrays are null,
`:216–226`. -/
def atEntry : Ledger Memory RouteSlot where
  pointer
    | .array .results | .dmedian => .dangling
    | .array .addrs | .array .batchedFl6 | .array .batchedDst => .null
  locked := false
  held _ := false

/-- What the lookups need: the arrays of the mode, and no route that is held. -/
structure Equipped (batch : UInt64) (l : Ledger Memory RouteSlot) : Prop where
  results : l.pointer (.array .results) = .live
  batched : 1 < batch → ∀ b, l.pointer (.array b) = .live
  idle : ∀ slot, l.held slot = false

theorem mem_ops {step : Step} {op : ResourceOp Memory RouteSlot} {xs : List Step}
    (h : step ∈ xs) (hop : step.op? = some op) : op ∈ ops xs :=
  List.mem_filterMap.mpr ⟨step, h, hop⟩

theorem ops_append (xs ys : List Step) : ops (xs ++ ys) = ops xs ++ ops ys :=
  List.filterMap_append

theorem ops_flatMap {ι : Type} (f : ι → List Step) (is : List ι) :
    ops (is.flatMap f) = is.flatMap fun i ↦ ops (f i) := List.filterMap_flatMap

section

variable {l : Ledger Memory RouteSlot} {batch : UInt64}

/-- A route that is looked at and released leaves nothing behind. -/
theorem run_lookupOnce (h : Equipped batch l) (fl6 : Flowi6) :
    l.run (ops (lookupOnce fl6)) = some l := Ledger.run_take_use_drop (h.idle .dst)

theorem run_warmUp (h : Equipped batch l) (env : Kernel) (fl6 : Flowi6) (n : Nat)
    (t : List Act) : l.run (ops (warmUpSteps env fl6 n t)) = some l := by
  induction n generalizing t with
  | zero => rfl
  | succ n ih =>
    unfold warmUpSteps
    dsimp only
    split
    · exact run_lookupOnce h fl6
    · rw [ops_append]
      exact Ledger.run_append_of_eq (run_lookupOnce h fl6) (ih _)

private theorem run_access {m : Memory} (h : l.pointer m = .live) (k : Nat)
    (rest : List (ResourceOp Memory RouteSlot)) : l.run (.access m k :: rest) = l.run rest := by
  rw [Ledger.run_cons, Ledger.step_access h, Option.bind_some]

theorem run_iterate (h : Equipped batch l) (env : Kernel) (g : Settings) (plan : ScanPlan)
    (s : Timed) : l.run (ops (iterateSteps env g batch plan s)) = some l := by
  unfold iterateSteps
  dsimp only
  split
  · next hb =>
    unfold collectSteps
    dsimp only
    rw [ops_append]
    apply Ledger.run_append_of_eq (run_lookupOnce h _)
    split
    · rfl
    · exact run_access (h.batched hb .addrs) _ []
  · unfold timePlainSteps
    dsimp only
    rw [ops_append]
    apply Ledger.run_append_of_eq (Ledger.run_take_use_drop (h.idle .dst))
    split
    · rfl
    · exact (run_access h.results _ _).trans (run_access h.results _ [])

theorem run_timedLoop (h : Equipped batch l) (env : Kernel) (g : Settings) (plan : ScanPlan)
    (n : Nat) (s : Timed) : l.run (ops (timedLoopSteps env g batch plan n s)) = some l := by
  induction n generalizing s with
  | zero => rfl
  | succ n ih =>
    unfold timedLoopSteps
    split
    · rfl
    · rw [ops_append]
      exact Ledger.run_append_of_eq (run_iterate h env g plan s) (ih _)

/-- A batch holds as many routes as it has lookups, and releases all of them. -/
theorem run_timeBatch (h : Equipped batch l) (hb : 1 < batch) (g : Settings) (i n : UInt64)
    (s : Timed) : l.run (ops (timeBatchSteps g batch i n s)) = some l := by
  have hlive := h.batched hb
  have hnodup : ((List.range batch.toNat).map RouteSlot.batchedDst).Nodup :=
    List.nodup_range.map fun _ _ he ↦ by
      cases he
      rfl
  have hfill : l.run (ops ((List.range batch.toNat).flatMap fun j ↦
      [.read (.array .addrs) (i + UInt64.ofNat j).toNat, .write (.array .batchedFl6) j])) =
        some l := by
    rw [ops_flatMap]
    apply Ledger.run_flatMap
    intro j _
    exact (run_access (hlive .addrs) _ _).trans (run_access (hlive .batchedFl6) _ [])
  have hlook : l.run (ops ((List.range batch.toNat).flatMap fun j ↦
      [.read (.array .batchedFl6) j, .ip6RouteOutput (batchedFlow g s i j) (.batchedDst j),
        .write (.array .batchedDst) j])) =
      some (l.hold ((List.range batch.toNat).map .batchedDst)) := by
    rw [ops_flatMap]
    apply Ledger.run_flatMap_take hnodup
    intro j _ rs hrs
    change (l.hold rs).run [.access (.array .batchedFl6) j, .take (.batchedDst j),
      .access (.array .batchedDst) j] = _
    rw [run_access (l := l.hold rs) (hlive .batchedFl6), Ledger.run_cons,
      Ledger.step_take (h.idle _) hrs, Option.bind_some]
    exact run_access (l := l.hold _) (hlive .batchedDst) _ []
  have hrelease : (l.hold ((List.range batch.toNat).map .batchedDst)).run
      (ops ((List.range batch.toNat).flatMap fun j ↦
        [.read (.array .batchedDst) j, .dstRelease (.batchedDst j)])) = some l := by
    rw [ops_flatMap]
    apply Ledger.run_flatMap_drop hnodup
    intro j _ rs hrs
    change (l.hold (.batchedDst j :: rs)).run
      [.access (.array .batchedDst) j, .drop (.batchedDst j)] = _
    rw [run_access (l := l.hold _) (hlive .batchedDst), Ledger.run_cons,
      Ledger.step_drop (h.idle _) hrs, Option.bind_some, Ledger.run_nil]
  have hresult : l.run (ops [.write (.array .results) n.toNat,
      .read (.array .results) n.toNat]) = some l :=
    (run_access h.results _ _).trans (run_access h.results _ [])
  unfold timeBatchSteps
  rw [ops_append, ops_append, ops_append]
  exact Ledger.run_append_of_eq
    (Ledger.run_append_of_eq (Ledger.run_append_of_eq hfill hlook) hrelease) hresult

theorem run_batchLoop (h : Equipped batch l) (hb : 1 < batch) (env : Kernel) (g : Settings)
    (fuel : Nat) (i n : UInt64) (s : Timed) :
    l.run (ops (batchLoopSteps env g batch fuel i n s)) = some l := by
  induction fuel generalizing i n s with
  | zero => rfl
  | succ fuel ih =>
    unfold batchLoopSteps
    split
    · rw [ops_append]
      exact Ledger.run_append_of_eq (run_timeBatch h hb g i n s) (ih _ _ _)
    · rfl

/-- The lookups after the warm-up leave the ledger as it was. -/
theorem run_timed (h : Equipped batch l) (env : Kernel) (g : Settings) (scan0 : Bool) (fuel : Nat)
    (trace : List Act) : l.run (ops (timedSteps env g batch scan0 fuel trace)) = some l := by
  unfold timedSteps
  rw [ops_append]
  apply Ledger.run_append_of_eq (run_timedLoop h env g _ _ _)
  split
  · next hb => exact run_batchLoop h hb env g fuel 0 0 _
  · rfl

end

/-! ### Statistics -/

/-- All of some steps read or write elements that a condition allows. -/
def Uses (ok : Memory → Nat → Prop) (xs : List Step) : Prop :=
  ∀ step ∈ xs, ∃ m k, ok m k ∧ (step = .read m k ∨ step = .write m k)

namespace Uses

variable {ok ok' : Memory → Nat → Prop} {xs ys : List Step}

theorem nil (ok : Memory → Nat → Prop) : Uses ok [] := nofun

theorem read {m : Memory} {k : Nat} (hmk : ok m k) (h : Uses ok xs) : Uses ok (.read m k :: xs) :=
  List.forall_mem_cons.mpr ⟨⟨m, k, hmk, Or.inl rfl⟩, h⟩

theorem write {m : Memory} {k : Nat} (hmk : ok m k) (h : Uses ok xs) :
    Uses ok (.write m k :: xs) :=
  List.forall_mem_cons.mpr ⟨⟨m, k, hmk, Or.inr rfl⟩, h⟩

theorem append (hx : Uses ok xs) (hy : Uses ok ys) : Uses ok (xs ++ ys) :=
  List.forall_mem_append.mpr ⟨hx, hy⟩

theorem mono (h : Uses ok xs) (himp : ∀ m k, ok m k → ok' m k) : Uses ok' xs := by
  intro step hstep
  obtain ⟨m, k, hok, hcase⟩ := h step hstep
  exact ⟨m, k, himp m k hok, hcase⟩

theorem op (h : Uses ok xs) :
    ∀ op ∈ ops xs, ∃ m k, op = .access m k ∧ ok m k := by
  intro op hop
  obtain ⟨step, hstep, heq⟩ := List.mem_filterMap.mp hop
  obtain ⟨m, k, hok, rfl | rfl⟩ := h step hstep
  · exact ⟨m, k, (Option.some.inj heq).symm, hok⟩
  · exact ⟨m, k, (Option.some.inj heq).symm, hok⟩

/-- Memory that is there can be used. -/
theorem run {l : Ledger Memory RouteSlot} (h : Uses ok xs)
    (hlive : ∀ m k, ok m k → l.pointer m = .live) : l.run (ops xs) = some l := by
  apply Ledger.run_accesses
  intro op hop
  obtain ⟨m, k, rfl, hok⟩ := h.op op hop
  exact ⟨m, k, rfl, hlive m k hok⟩

theorem fixed (h : Uses ok xs) : ResourceOp.Fixed (ops xs) := by
  intro p n granted hmem
  obtain ⟨m, k, heq, -⟩ := h.op _ hmem
  cases heq

/-- Elements that are there can be used. -/
theorem within {size : Memory → Nat} (h : Uses ok xs) (hok : ∀ m k, ok m k → k < size m) :
    ResourceOp.Within size (ops xs) := by
  apply (h.fixed.within_iff size).mpr
  intro op hop
  obtain ⟨m, k, rfl, hmk⟩ := h.op op hop
  exact hok m k hmk

end Uses

private theorem uses_flatMap {ok : Memory → Nat → Prop} {body : Nat → List Step} {n : Nat}
    (h : ∀ i < n, Uses ok (body i)) : Uses ok ((List.range n).flatMap body) := by
  intro step hstep
  obtain ⟨i, hi, hmem⟩ := List.mem_flatMap.mp hstep
  exact h i (List.mem_range.mp hi) step hmem

theorem uses_sort (m : Memory) (count : Nat) :
    Uses (fun m' k ↦ m' = m ∧ k < count) (sortSteps m count) := by
  apply uses_flatMap
  intro i hi
  exact .read ⟨rfl, hi⟩ (.write ⟨rfl, hi⟩ (.nil _))

theorem uses_percentile (m : Memory) (p : Int32) (count : UInt32) :
    Uses (fun m' _ ↦ m' = m) (percentileSteps m p count) := by
  apply Uses.read rfl
  split
  · exact .nil _
  · exact .read rfl (.nil _)

theorem uses_histogram (total : Nat) (answers : List Bool) (i : Nat) :
    Uses (fun m k ↦ m = .array .results ∧ k < total) (histogramSteps total answers i) := by
  induction answers generalizing i with
  | nil => exact .nil _
  | cons below answers ih =>
    unfold histogramSteps
    split
    · next hi =>
      apply Uses.read ⟨rfl, hi⟩
      split
      · exact ih _
      · exact .read ⟨rfl, hi⟩ (ih _)
    · exact .nil _

theorem uses_deviations (count : UInt32) :
    Uses (fun m _ ↦ m = .array .results ∨ m = .dmedian) (deviationSteps count) := by
  have hloop : Uses (fun m _ ↦ m = .array .results ∨ m = .dmedian)
      ((List.range count.toNat).flatMap fun i ↦
        [.read (.array .results) i, .read (.array .results) i, .write .dmedian i]) :=
    uses_flatMap fun i _ ↦ .read (Or.inl rfl) (.read (Or.inl rfl) (.write (Or.inr rfl) (.nil _)))
  exact hloop.append (((uses_sort _ _).mono fun _ _ h ↦ Or.inr h.1).append
    ((uses_percentile _ _ _).mono fun _ _ h ↦ Or.inr h))

theorem uses_quantiles (total : Nat) :
    Uses (fun m _ ↦ m = .array .results) (quantileSteps total) :=
  (uses_percentile _ _ _).append ((uses_percentile _ _ _).append ((uses_percentile _ _ _).append
    (.read rfl (.read rfl (.nil _)))))

theorem uses_verbose (histogram : Option (List Bool)) {total : Nat} (h : 0 < total) :
    Uses (fun m k ↦ m = .array .results ∧ k < total) (verboseSteps histogram total) := by
  cases histogram with
  | none => exact .nil _
  | some answers => exact .read ⟨rfl, h⟩ (.read ⟨rfl, h⟩ (uses_histogram total answers 0))

/-- `mad` uses memory that it may not have got. -/
theorem run_mad {l : Ledger Memory RouteSlot} (hresults : l.pointer (.array .results) = .live)
    (hmad : l.pointer .dmedian = .dangling) (granted : Bool) (count : UInt32) :
    l.run (ops (madSteps granted count)) = if granted then some l else none := by
  have hlost : l.pointer .dmedian ≠ .live := by
    rw [hmad]
    decide
  have hother : Memory.array .results ≠ .dmedian := nofun
  have hops : ops (madSteps granted count) =
      .alloc .dmedian count.toNat granted :: (ops (deviationSteps count) ++ [.free .dmedian]) :=
    congrArg (List.cons _) (ops_append _ _)
  rw [hops, Ledger.run_cons, Ledger.step_alloc hlost, Option.bind_some, Ledger.run_append]
  cases granted with
  | true =>
    have hresults' : (l.point .dmedian .live).pointer (.array .results) = .live :=
      (Ledger.pointer_point_of_ne hother _).trans hresults
    have hdmedian : (l.point .dmedian .live).pointer .dmedian = .live :=
      Ledger.pointer_point_self l _ _
    have hused : (l.point .dmedian .live).run (ops (deviationSteps count)) =
        some (l.point .dmedian .live) := by
      apply (uses_deviations count).run
      rintro m _ (rfl | rfl)
      · exact hresults'
      · exact hdmedian
    have hlive : (l.point .dmedian .live).pointer .dmedian ≠ .dangling := by
      rw [hdmedian]
      decide
    rw [if_pos rfl, if_pos rfl, hused, Option.bind_some, Ledger.run_cons, Ledger.step_free hlive,
      hdmedian, Pointer.freed, Ledger.point_point_of_eq hmad]
    rfl
  | false =>
    have hdmedian : (l.point .dmedian .null).pointer .dmedian ≠ .live := by
      rw [Ledger.pointer_point_self]
      decide
    -- Even of no results the median is read, from a null pointer.
    have hread : .access .dmedian (scaledRank 50 count / 100).toNat ∈
        ops (deviationSteps count) :=
      mem_ops (List.mem_append_right _ (List.mem_append_right _ List.mem_cons_self)) rfl
    have hall : ∀ op ∈ ops (deviationSteps count), ∃ p k, op = .access p k := by
      intro op hop
      obtain ⟨m, k, rfl, -⟩ := (uses_deviations count).op op hop
      exact ⟨m, k, rfl⟩
    rw [if_neg Bool.false_ne_true, if_neg Bool.false_ne_true,
      Ledger.run_accesses_eq_none hall hread hdmedian]
    rfl

/-- The statistics, if there is a result. -/
theorem run_statistics {l : Ledger Memory RouteSlot}
    (hresults : l.pointer (.array .results) = .live) (hmad : l.pointer .dmedian = .dangling)
    (madGranted : Bool) (histogram : Option (List Bool)) (total : Nat) :
    l.run (ops (statisticsSteps madGranted histogram total)) =
      if total = 0 ∨ madGranted then some l else none := by
  have hsort : l.run (ops (sortSteps (.array .results) total)) = some l :=
    (uses_sort _ _).run fun m _ h ↦ h.1 ▸ hresults
  unfold statisticsSteps
  rw [ops_append, Ledger.run_append, hsort, Option.bind_some]
  split
  · next hzero =>
    rw [if_pos (Or.inl hzero)]
    rfl
  · next hzero =>
    have hquantiles : l.run (ops (quantileSteps total)) = some l :=
      (uses_quantiles total).run fun m _ h ↦ h ▸ hresults
    have hverbose : l.run (ops (verboseSteps histogram total)) = some l :=
      (uses_verbose histogram (Nat.pos_of_ne_zero hzero)).run fun m _ h ↦ h.1 ▸ hresults
    rw [ops_append, Ledger.run_append, hquantiles, Option.bind_some, ops_append,
      Ledger.run_append, run_mad hresults hmad]
    cases madGranted with
    | true => simpa [hzero] using hverbose
    | false => simp [hzero]

/-! ### The ways out -/

section

variable (flowi6Size : UInt64) (grants : Buffer → (bytes : UInt64) → Bool)

/-- After the allocations no array dangles, and if they were granted, the lookups have all that
they need. -/
theorem run_kmalloc (a : Allocation) :
    ∃ l, atEntry.run (ops (kmallocSteps flowi6Size grants a)) = some l ∧
      l.locked = false ∧ (∀ slot, l.held slot = false) ∧ l.pointer .dmedian = .dangling ∧
      (∀ b, l.pointer (.array b) ≠ .dangling) ∧
      (a.granted flowi6Size grants → Equipped a.batch l) := by
  unfold kmallocSteps Allocation.granted
  dsimp only
  generalize grants .results (a.bytes flowi6Size .results) = results
  generalize grants .addrs (a.bytes flowi6Size .addrs) = addrs
  generalize grants .batchedFl6 (a.bytes flowi6Size .batchedFl6) = batchedFl6
  generalize grants .batchedDst (a.bytes flowi6Size .batchedDst) = batchedDst
  have hanswer (granted : Bool) : (if granted then Pointer.live else .null) ≠ .dangling := by
    cases granted <;> decide
  by_cases hb : 1 < a.batch
  · simp only [if_pos hb, decide_eq_true hb, Bool.not_true, Bool.false_or, Bool.and_eq_true]
    refine ⟨_, rfl, rfl, fun _ ↦ rfl, rfl, ?_, ?_⟩
    · intro b
      cases b with
      | results => exact hanswer results
      | addrs => exact hanswer addrs
      | batchedFl6 => exact hanswer batchedFl6
      | batchedDst => exact hanswer batchedDst
    · rintro ⟨rfl, ⟨rfl, rfl⟩, rfl⟩
      refine ⟨rfl, ?_, fun _ ↦ rfl⟩
      intro _ b
      cases b <;> rfl
  · simp only [if_neg hb, decide_eq_false hb, Bool.not_false, Bool.true_or, Bool.and_true]
    refine ⟨_, rfl, rfl, fun _ ↦ rfl, rfl, ?_, ?_⟩
    · intro b
      cases b with
      | results => exact hanswer results
      | addrs | batchedFl6 | batchedDst => exact nofun
    · rintro rfl
      exact ⟨rfl, fun h ↦ absurd h hb, fun _ ↦ rfl⟩

/-- With the arrays freed a run owns nothing. -/
theorem clean_freeSteps {l : Ledger Memory RouteSlot} (hlock : l.locked = false)
    (hheld : ∀ slot, l.held slot = false) (hmad : l.pointer .dmedian = .dangling)
    (harrays : ∀ b, l.pointer (.array b) ≠ .dangling) : l.Clean (ops freeSteps) := by
  let arrays : List Memory :=
    [.array .results, .array .addrs, .array .batchedFl6, .array .batchedDst]
  have hall (b : Buffer) : Memory.array b ∈ arrays := by
    cases b <;> decide
  apply Ledger.clean_free arrays (by decide) _ _ hlock hheld
  · intro m hm
    cases m with
    | array b => exact harrays b
    | dmedian => exact absurd hm (by decide)
  · intro m hm
    cases m with
    | array b => exact hall b
    | dmedian =>
      rw [hmad] at hm
      cases hm

private theorem run_lock {l : Ledger Memory RouteSlot} (hlock : l.locked = false) :
    l.run (ops [.mutexLock]) = some l.lock :=
  congrArg (Option.bind · _) (Ledger.step_lock hlock)

private theorem run_unlock {l : Ledger Memory RouteSlot} (hlock : l.locked = false) :
    l.lock.run (ops [.mutexUnlock]) = some l :=
  congrArg (Option.bind · _) (Ledger.step_unlock hlock)

/-- The last way out: the arrays of the batches are freed under the lock, `results` after the
statistics. -/
theorem clean_afterLookups {batch : UInt64} {l : Ledger Memory RouteSlot} {lookups : List Step}
    (hready : Equipped batch l) (hlock : l.locked = false) (hmad : l.pointer .dmedian = .dangling)
    (harrays : ∀ b, l.pointer (.array b) ≠ .dangling)
    (hlookups : l.lock.run (ops lookups) = some l.lock) (madGranted : Bool)
    (histogram : Option (List Bool)) (total : Nat) :
    l.lock.Clean (ops (lookups ++ [.kfree (.array .addrs), .kfree (.array .batchedFl6),
      .kfree (.array .batchedDst), .mutexUnlock] ++ statisticsSteps madGranted histogram total ++
      [.kfree (.array .results)])) ↔ total = 0 ∨ madGranted := by
  let batched : List Memory := [.array .addrs, .array .batchedFl6, .array .batchedDst]
  let l' : Ledger Memory RouteSlot :=
    { l with pointer := fun m ↦ if m ∈ batched then (l.pointer m).freed else l.pointer m }
  have hfree : l.lock.run (batched.map .free) = some l'.lock := by
    apply Ledger.run_free (by decide)
    intro m hm
    cases m with
    | array b => exact harrays b
    | dmedian => exact absurd hm (by decide)
  have hunlocked : l.lock.run (ops (lookups ++ [.kfree (.array .addrs),
      .kfree (.array .batchedFl6), .kfree (.array .batchedDst), .mutexUnlock])) = some l' := by
    rw [ops_append]
    exact Ledger.run_append_of_eq hlookups (Ledger.run_append_of_eq hfree (run_unlock hlock))
  have hresults : l'.pointer (.array .results) = .live := hready.results
  rw [ops_append, ops_append, List.append_assoc, Ledger.clean_append_iff hunlocked]
  have hstatistics := run_statistics hresults hmad madGranted histogram total
  by_cases hgot : total = 0 ∨ madGranted
  · rw [if_pos hgot] at hstatistics
    rw [Ledger.clean_append_iff hstatistics]
    apply iff_of_true _ hgot
    apply Ledger.clean_free (l := l') [.array .results] (by decide) _ _ hlock hready.idle
    · intro m hm
      rw [List.mem_singleton.mp hm, hresults]
      decide
    · intro m hm
      cases m with
      | array b =>
        cases b with
        | results => exact List.mem_singleton_self _
        | addrs | batchedFl6 | batchedDst => exact absurd hm (Pointer.freed_ne_live _)
      | dmedian =>
        have hdmedian : l'.pointer .dmedian = .dangling := hmad
        rw [hdmedian] at hm
        cases hm
  · rw [if_neg hgot] at hstatistics
    exact iff_of_false (Ledger.not_clean_of_run_eq_none hstatistics) hgot

/-- On every way out, whatever the kernel answers and grants and whatever the settings become
before the lock is taken, a run frees what it allocated once, uses nothing that is not there and
releases the lock and each route once, exactly if `mad` gets its memory where it is called. -/
theorem clean_iff (env : Kernel) (g : Settings) (a : Allocation) (scan0 : Bool) (fuel : Nat)
    (madGranted : Bool) (histogram : Option (List Bool)) :
    atEntry.Clean (ops (doBenchSteps flowi6Size grants env g a scan0 fuel madGranted histogram)) ↔
      (a.granted flowi6Size grants → ∀ s, lockedSection env g a.batch scan0 fuel = .ok s →
        s.total = 0 ∨ madGranted) := by
  obtain ⟨l, halloc, hlock, hheld, hmad, harrays, hequipped⟩ := run_kmalloc flowi6Size grants a
  unfold doBenchSteps
  rw [ops_append, Ledger.clean_append_iff halloc]
  split
  · next hgranted =>
    have hready := hequipped hgranted
    have hlocked : Equipped a.batch l.lock := ⟨hready.results, hready.batched, hready.idle⟩
    have hwarm : l.run (ops (.mutexLock :: warmUpSteps env (flowi6 g g.flowDstIpaddrS)
        g.warmupCount.toNat [])) = some l.lock :=
      Ledger.run_append_of_eq (run_lock hlock) (run_warmUp hlocked env _ _ _)
    dsimp only
    rw [ops_append, Ledger.clean_append_iff hwarm, lockedSection_eq, imp_iff_right hgranted]
    cases warmUp env (flowi6 g g.flowDstIpaddrS) g.warmupCount.toNat [] with
    | error err =>
      apply iff_of_true _ nofun
      apply (Ledger.clean_append_iff (run_unlock hlock)).mpr
      exact clean_freeSteps hlock hheld hmad harrays
    | ok trace =>
      apply (clean_afterLookups hready hlock hmad harrays (run_timed hlocked env g scan0 fuel trace)
        madGranted histogram _).trans
      constructor
      · rintro h s ⟨⟩
        exact h
      · intro h
        exact h _ rfl
  · next hrefused =>
    exact iff_of_true (clean_freeSteps hlock hheld hmad harrays) fun h ↦ absurd h hrefused

end

end NetworkLab.Kbench.Ipv6
