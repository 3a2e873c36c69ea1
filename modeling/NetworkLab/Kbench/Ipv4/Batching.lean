import NetworkLab.Kbench.Ipv4.Locals
import NetworkLab.Kbench.Timeline
import NetworkLab.Lib.Chunks

/-!
# Batches of the IPv4 benchmark

The timed loop of `lab-routes-ipv4/2026/kbench_mod.c:290–364` cuts the addresses of the
scan into consecutive groups of `batch_count` and times one group after the other, with a
result for each group that is reached throughout.
-/

namespace NetworkLab.Kbench.Ipv4

open Lib

/-- The address that iteration `i` of a scan times, if it is no loopback address. -/
def scanAddress (g : Settings) (delta i : UInt64) : Option UInt32 :=
  match scanDaddr g delta i with
  | .ok daddr => if ipv4IsLoopback daddr then none else some daddr
  | .error _ => none

/-- The addresses that `n` iterations of a scan time, from iteration `i` on. -/
def scanAddresses (g : Settings) (delta : UInt64) (i n : Nat) : List UInt32 :=
  (List.range' i n).filterMap fun k ↦ scanAddress g delta (UInt64.ofNat k)

/-- The timed sections are the groups seen so far, the batch holds what is left over, and
the results count the groups reached throughout. -/
structure Grouped (env : Kernel) (g : Settings) (addrs : List UInt32) (s : Timed) :
    Prop where
  idle : (timeline env s.trace).current = none
  outside : (timeline env s.trace).outside = []
  seen : ((timeline env s.trace).sections.map (·.map Answer.flow)).flatten ++ s.batchedFl4 =
    addrs.map (flowi4 g)
  whole : ∀ x ∈ (timeline env s.trace).sections, x.length = g.batchCount.toNat
  short : s.batchedFl4.length < g.batchCount.toNat
  total : s.total = (timeline env s.trace).sections.countP reachedAll
  batchedFl4 : ∀ k, .write .batchedFl4 k ∈ s.trace → k < g.batchCount.toNat
  results : ∀ k, .write .results k ∈ s.trace → k < (timeline env s.trace).sections.length

/-- The groups timed are the chunks of the addresses seen. -/
theorem Grouped.sections_eq {env : Kernel} {g : Settings} {addrs : List UInt32} {s : Timed}
    (h : Grouped env g addrs s) :
    (timeline env s.trace).sections.map (·.map Answer.flow) =
      (chunks g.batchCount.toNat addrs).map (·.map (flowi4 g)) := by
  rw [← chunks_map, ← h.seen, chunks_flatten_append _ h.short]
  intro x hx
  obtain ⟨answers, hmem, rfl⟩ := List.mem_map.mp hx
  rw [List.length_map]
  exact h.whole answers hmem

/-- There are no more groups than the addresses seen fill. -/
theorem Grouped.length_sections {env : Kernel} {g : Settings} {addrs : List UInt32}
    {s : Timed} (h : Grouped env g addrs s) :
    (timeline env s.trace).sections.length = addrs.length / g.batchCount.toNat := by
  have hlen := congrArg List.length h.sections_eq
  rw [List.length_map, List.length_map, length_chunks] at hlen
  exact hlen

/-- A section that ends adds its group, and a result if the group was reached. -/
private theorem Grouped.close {env : Kernel} {g : Settings} {addrs : List UInt32}
    {s s' : Timed} {daddr : UInt32} (h : Grouped env g addrs s)
    (answers : List (Answer Flowi4))
    (hline : timeline env s'.trace =
      ⟨(timeline env s.trace).sections ++ [answers], none, (timeline env s.trace).outside⟩)
    (hflows : answers.map Answer.flow = s.batchedFl4 ++ [flowi4 g daddr])
    (hfull : answers.length = g.batchCount.toNat) (hempty : s'.batchedFl4 = [])
    (htotal : s'.total = if reachedAll answers then s.total + 1 else s.total)
    (hbatched : ∀ k, .write .batchedFl4 k ∈ s'.trace → k < g.batchCount.toNat)
    (hresults : ∀ k, .write .results k ∈ s'.trace →
      .write .results k ∈ s.trace ∨ k = s.total) :
    Grouped env g (addrs ++ [daddr]) s' where
  idle := by rw [hline]
  outside := by
    rw [hline]
    exact h.outside
  seen := by
    rw [hline, hempty, List.append_nil, List.map_append, List.flatten_append, List.map_cons,
      List.map_nil, List.flatten_cons, List.flatten_nil, List.append_nil, hflows,
      ← List.append_assoc, h.seen, List.map_append]
    rfl
  whole := by
    rw [hline]
    intro x hx
    rcases List.mem_append.mp hx with hx | hx
    · exact h.whole x hx
    · rw [List.mem_singleton.mp hx]
      exact hfull
  short := by
    rw [hempty]
    exact g.batchCount.toNat_pos
  total := by
    rw [hline, htotal, List.countP_append, List.countP_singleton, ← h.total]
    split <;> rfl
  batchedFl4 := hbatched
  results := by
    intro k hk
    have hle : s.total ≤ (timeline env s.trace).sections.length := by
      rw [h.total]
      exact List.countP_le_length
    rw [hline, List.length_append, List.length_singleton]
    rcases hresults k hk with hk | rfl
    · have hlt := h.results k hk
      omega
    · omega

private theorem timeline_lookupBatch (env : Kernel) (j : Nat) (fl4s : List Flowi4)
    (trace : List Act) {answers : List (Answer Flowi4)}
    (h : (timeline env trace).current = some answers) :
    timeline env (lookupBatch env j fl4s trace).1 =
      ⟨(timeline env trace).sections,
        some (answers ++ fl4s.zipWith Answer.mk (lookupBatch env j fl4s trace).2),
        (timeline env trace).outside⟩ := by
  induction fl4s generalizing j trace answers with
  | nil =>
    rw [lookupBatch]
    ext : 1
    · rfl
    · simp [h]
    · rfl
  | cons fl4 fl4s ih =>
    rw [lookupBatch]
    have hstep : timeline env (.write .batchedFl4 j :: .lookup fl4 :: trace) =
        ⟨(timeline env trace).sections, some (answers ++ [⟨fl4, env.lookup trace fl4⟩]),
          (timeline env trace).outside⟩ := by
      rw [timeline_write, timeline_lookup, Timeline.answer_of_some h]
    dsimp only
    rw [ih (j + 1) _ (congrArg Timeline.current hstep), hstep]
    simp

-- The section of a whole batch, between the two reads of the clock.
private theorem timeline_timedBatch (env : Kernel) (fl4s : List Flowi4) {trace : List Act}
    (h : (timeline env trace).current = none) :
    timeline env (.getCycles :: (lookupBatch env 0 fl4s (.getCycles :: trace)).1) =
      ⟨(timeline env trace).sections ++
          [fl4s.zipWith Answer.mk (lookupBatch env 0 fl4s (.getCycles :: trace)).2],
        none, (timeline env trace).outside⟩ := by
  have hbegun : timeline env (.getCycles :: trace) =
      ⟨(timeline env trace).sections, some [], (timeline env trace).outside⟩ := by
    rw [timeline_getCycles, Timeline.tick_of_none h]
  have hlooked := timeline_lookupBatch env 0 fl4s _ (congrArg Timeline.current hbegun)
  rw [List.nil_append, hbegun] at hlooked
  rw [timeline_getCycles, Timeline.tick_of_some (congrArg Timeline.current hlooked), hlooked]

private theorem length_lookupBatch (env : Kernel) (j : Nat) (fl4s : List Flowi4)
    (trace : List Act) : (lookupBatch env j fl4s trace).2.length = fl4s.length := by
  induction fl4s generalizing j trace with
  | nil => rfl
  | cons fl4 fl4s ih => rw [lookupBatch, List.length_cons, ih, List.length_cons]

private theorem write_mem_lookupBatch (env : Kernel) (j : Nat) (fl4s : List Flowi4)
    (trace : List Act) (b : Buffer) (k : Nat) :
    .write b k ∈ (lookupBatch env j fl4s trace).1 ↔
      b = .batchedFl4 ∧ j ≤ k ∧ k < j + fl4s.length ∨ .write b k ∈ trace := by
  induction fl4s generalizing j trace with
  | nil =>
    rw [lookupBatch, List.length_nil]
    constructor
    · exact Or.inr
    · rintro (⟨-, hk⟩ | hk)
      · omega
      · exact hk
  | cons fl4 fl4s ih =>
    rw [lookupBatch, ih]
    simp only [List.mem_cons, Event.write.injEq, reduceCtorEq, false_or, List.length_cons]
    constructor
    · rintro (⟨rfl, hk⟩ | ⟨rfl, rfl⟩ | hk)
      · exact Or.inl ⟨rfl, by omega⟩
      · exact Or.inl ⟨rfl, by omega⟩
      · exact Or.inr hk
    · rintro (⟨rfl, hk⟩ | hk)
      · by_cases hkj : k = j
        · exact Or.inr (Or.inl ⟨rfl, hkj⟩)
        · exact Or.inl ⟨rfl, by omega⟩
      · exact Or.inr (Or.inr hk)

private theorem grouped_timePlain (env : Kernel) {g : Settings} {addrs : List UInt32}
    {s : Timed} (h : Grouped env g addrs s) (hone : g.batchCount.toNat = 1) :
    Grouped env g (addrs ++ [s.daddr]) (s.timePlain env g) := by
  have hnil : s.batchedFl4 = [] := by
    apply List.length_eq_zero_iff.mp
    have hshort := h.short
    omega
  have hline := timeline_timed env (flowi4 g s.daddr) h.idle
  generalize herr : env.lookup (.getCycles :: s.trace) (flowi4 g s.daddr) = err at hline
  unfold Timed.timePlain
  dsimp only
  rw [herr]
  split
  · next hunreach =>
    apply h.close [⟨flowi4 g s.daddr, err⟩] hline
    · rw [hnil]
      rfl
    · exact hone.symm
    · exact hnil
    · simp [reachedAll, Answer.reached, hunreach]
    · intro k hk
      exact h.batchedFl4 k (by simpa using hk)
    · intro k hk
      exact Or.inl (by simpa using hk)
  · next hreach =>
    apply h.close [⟨flowi4 g s.daddr, err⟩] hline
    · rw [hnil]
      rfl
    · exact hone.symm
    · exact hnil
    · simp [reachedAll, Answer.reached, hreach]
    · intro k hk
      exact h.batchedFl4 k (by simpa using hk)
    · intro k hk
      simp only [List.mem_cons, Event.write.injEq, reduceCtorEq, false_or, true_and] at hk
      exact hk.symm

private theorem zipWith_flow (fl4s : List Flowi4) (errs : List Int)
    (h : errs.length = fl4s.length) :
    (fl4s.zipWith Answer.mk errs).map Answer.flow = fl4s := by
  induction fl4s generalizing errs with
  | nil => rfl
  | cons fl4 fl4s ih =>
    cases errs with
    | nil => cases h
    | cons err errs => rw [List.zipWith_cons_cons, List.map_cons, ih errs (Nat.succ.inj h)]

private theorem zipWith_reachedAll (fl4s : List Flowi4) (errs : List Int)
    (h : errs.length = fl4s.length) :
    reachedAll (fl4s.zipWith Answer.mk errs) = true ↔ netUnreach ∉ errs := by
  induction fl4s generalizing errs with
  | nil =>
    rw [List.length_eq_zero_iff.mp h]
    simp [reachedAll]
  | cons fl4 fl4s ih =>
    cases errs with
    | nil => cases h
    | cons err errs =>
      have hrest := ih errs (Nat.succ.inj h)
      unfold reachedAll at hrest ⊢
      rw [List.zipWith_cons_cons, List.all_cons, Bool.and_eq_true, hrest, Answer.reached,
        decide_eq_true_iff, List.mem_cons, not_or, ne_comm]

private theorem grouped_timeBatch (env : Kernel) {g : Settings} {addrs : List UInt32}
    {s : Timed} (h : Grouped env g addrs s)
    (hfull : s.batchedFl4.length + 1 = g.batchCount.toNat) {s' : Timed}
    (hs' : Timed.timeBatch env g.batchCount.val
      { s with
        trace := .write .batchedFl4 s.batchedFl4.length :: s.trace
        batchedFl4 := s.batchedFl4 ++ [flowi4 g s.daddr] } = .ok s') :
    Grouped env g (addrs ++ [s.daddr]) s' := by
  have hidle : (timeline env (.write .batchedFl4 s.batchedFl4.length :: s.trace)).current =
      none := h.idle
  have hline := timeline_timedBatch env (s.batchedFl4 ++ [flowi4 g s.daddr]) hidle
  have hlen := length_lookupBatch env 0 (s.batchedFl4 ++ [flowi4 g s.daddr])
    (.getCycles :: .write .batchedFl4 s.batchedFl4.length :: s.trace)
  have hwrites := write_mem_lookupBatch env 0 (s.batchedFl4 ++ [flowi4 g s.daddr])
    (.getCycles :: .write .batchedFl4 s.batchedFl4.length :: s.trace)
  unfold Timed.timeBatch at hs'
  dsimp only at hs'
  generalize lookupBatch env 0 (s.batchedFl4 ++ [flowi4 g s.daddr])
    (.getCycles :: .write .batchedFl4 s.batchedFl4.length :: s.trace) = looked at *
  have hreached := zipWith_reachedAll _ _ hlen
  have hflows := zipWith_flow _ _ hlen
  have hcount : ((s.batchedFl4 ++ [flowi4 g s.daddr]).zipWith Answer.mk looked.2).length =
      g.batchCount.toNat := by
    rw [List.length_zipWith, hlen, Nat.min_self, List.length_append, List.length_singleton,
      hfull]
  rw [List.length_append, List.length_singleton, hfull] at hwrites
  have hbatched (k : Nat) (hk : .write .batchedFl4 k ∈ looked.1) :
      k < g.batchCount.toNat := by
    rcases (hwrites .batchedFl4 k).mp hk with ⟨-, hk⟩ | hk
    · omega
    · simp only [List.mem_cons, Event.write.injEq, reduceCtorEq, false_or, true_and] at hk
      rcases hk with rfl | hk
      · omega
      · exact h.batchedFl4 k hk
  have hresults (k : Nat) (hk : .write .results k ∈ looked.1) : .write .results k ∈ s.trace := by
    rcases (hwrites .results k).mp hk with ⟨hb, -⟩ | hk
    · cases hb
    · simpa using hk
  split at hs'
  · next hmem =>
    cases hs'
    apply h.close _ hline hflows hcount rfl
    · rw [if_neg fun hall ↦ hreached.mp hall hmem]
    · intro k hk
      exact hbatched k (by simpa using hk)
    · intro k hk
      exact Or.inl (hresults k (by simpa using hk))
  · next hmem =>
    rw [udiv, if_neg g.batchCount.val_ne_zero] at hs'
    cases hs'
    apply h.close _ hline hflows hcount rfl
    · rw [if_pos (hreached.mpr hmem)]
    · intro k hk
      exact hbatched k (by simpa using hk)
    · intro k hk
      simp only [List.mem_cons, Event.write.injEq, reduceCtorEq, false_or, true_and] at hk
      rcases hk with rfl | hk
      · exact Or.inr rfl
      · exact Or.inl (hresults k hk)

/-- The timing part of an iteration takes the current destination into its group. -/
theorem grouped_time (env : Kernel) {g : Settings} {addrs : List UInt32} {s s' : Timed}
    (h : Grouped env g addrs s) (hs' : s.time env g = .ok s') :
    Grouped env g (addrs ++ [s.daddr]) s' := by
  unfold Timed.time at hs'
  split at hs'
  · next hplain =>
    cases hs'
    apply grouped_timePlain env h
    have hpos := g.batchCount.toNat_pos
    have hle : g.batchCount.toNat ≤ 1 := UInt64.le_iff_toNat_le.mp hplain
    omega
  · unfold Timed.collect at hs'
    dsimp only at hs'
    rw [List.length_append, List.length_singleton] at hs'
    split at hs'
    · next hne =>
      cases hs'
      change s.batchedFl4.length + 1 ≠ g.batchCount.toNat at hne
      have hshort := h.short
      exact {
        idle := h.idle
        outside := h.outside
        seen := by
          rw [timeline_write, ← List.append_assoc, h.seen, List.map_append]
          rfl
        whole := h.whole
        short := by
          rw [List.length_append, List.length_singleton]
          omega
        total := h.total
        batchedFl4 := by
          intro k hk
          simp only [List.mem_cons, Event.write.injEq, true_and] at hk
          rcases hk with rfl | hk
          · exact hshort
          · exact h.batchedFl4 k hk
        results := by
          intro k hk
          exact h.results k (by simpa using hk) }
    · next heq => exact grouped_timeBatch env h (Decidable.not_not.mp heq) hs'

private theorem grouped_iterate (env : Kernel) {g : Settings} {delta i : UInt64}
    {addrs : List UInt32} {s s' : Timed} (h : Grouped env g addrs s)
    (hs' : s.iterate env g ⟨true, delta⟩ i = .ok s') :
    Grouped env g (addrs ++ (scanAddress g delta i).toList) s' := by
  unfold Timed.iterate at hs'
  rw [if_pos rfl] at hs'
  unfold scanAddress
  cases hscan : scanDaddr g delta i with
  | error fault =>
    rw [hscan] at hs'
    cases hs'
  | ok daddr =>
    rw [hscan, ok_bind] at hs'
    dsimp only
    split at hs'
    · next hloop =>
      cases hs'
      rw [if_pos hloop, Option.toList_none, List.append_nil]
      exact h
    · next hloop =>
      rw [if_neg hloop, Option.toList_some]
      have hcurrent : Grouped env g addrs { s with daddr := daddr } := { h with }
      exact grouped_time env hcurrent hs'

/-- A scan sorts the addresses of its iterations into groups, in their order. -/
theorem grouped_timedLoop (env : Kernel) {g : Settings} {delta : UInt64} (n : Nat)
    {i : UInt64} {addrs : List UInt32} {s s' : Timed} (hi : i.toNat + n < 2 ^ 64)
    (h : Grouped env g addrs s) (hs' : timedLoop env g ⟨true, delta⟩ n i s = .ok s') :
    Grouped env g (addrs ++ scanAddresses g delta i.toNat n) s' := by
  induction n generalizing i addrs s with
  | zero =>
    cases hs'
    rw [scanAddresses, List.range'_zero, List.filterMap_nil, List.append_nil]
    exact h
  | succ n ih =>
    rw [timedLoop] at hs'
    cases hiter : s.iterate env g ⟨true, delta⟩ i with
    | error fault =>
      rw [hiter] at hs'
      cases hs'
    | ok s₁ =>
      rw [hiter, ok_bind] at hs'
      have hnext : (i + 1).toNat = i.toNat + 1 := Unsigned.toNat_succ (by omega)
      have hrest := ih (by omega) (grouped_iterate env h hiter) hs'
      rw [hnext, List.append_assoc] at hrest
      have hsplit : scanAddresses g delta i.toNat (n + 1) =
          (scanAddress g delta i).toList ++ scanAddresses g delta (i.toNat + 1) n := by
        rw [scanAddresses, List.range'_succ, List.filterMap_cons, UInt64.ofNat_toNat]
        cases scanAddress g delta i <;> rfl
      rw [hsplit]
      exact hrest

/-! ### The run on locals -/

/-- The run cuts the scanned addresses into chunks, times each chunk on its own with the
configured flow and has a result for each that is reached throughout. Its writes keep to
the elements that `:242` and `:273` ask for. -/
structure TimesChunks (env : Kernel) (g : Settings) (scanned : List UInt32) (l : Locals) :
    Prop where
  idle : (timeline (ints env) l.trace).current = none
  outside : (timeline (ints env) l.trace).outside = []
  sections : (timeline (ints env) l.trace).sections.map (·.map Answer.flow) =
    (chunks g.batchCount.toNat scanned).map (·.map (flowi4 g))
  total : l.total.toNat = (timeline (ints env) l.trace).sections.countP reachedAll
  batchedFl4 : ∀ j, .write .batchedFl4 j ∈ l.trace → j < g.batchCount.toNat
  results : ∀ total, .write .results total ∈ l.trace →
    total < g.loopCount.toNat / g.batchCount.toNat + 1

/-- Over ascending addresses the timed loop ends and times the chunks of the scan, whatever
the lookups return and the arrays held before. -/
theorem run_timesChunks (env : Kernel) (g : Settings) (scan0 : Bool)
    (batchedFl4 : UInt64 → Flowi4) (results : UInt64 → UInt64) (h : lower g < upper g) :
    ∃ l, Locals.run env g scan0 batchedFl4 results = .ok l ∧
      TimesChunks env g (scanAddresses g (setUpScan g scan0).delta 0 g.loopCount.toNat) l := by
  obtain ⟨s, hrun, -, -, -⟩ := runTimed_ascending (ints env) g scan0 h
  have hstep := inStep_run env g scan0 batchedFl4 results
  have hscan := (setUpScan_ascending g scan0 h).1
  rw [hrun] at hstep
  rw [runTimed_eq] at hrun
  generalize setUpScan g scan0 = plan at *
  obtain ⟨scan, delta⟩ := plan
  cases hscan
  have hlt := g.loopCount.val.toNat_lt
  have hstart : Grouped (ints env) g [] (.start g) :=
    ⟨rfl, rfl, rfl, by simp [Timed.start], g.batchCount.toNat_pos, rfl,
      by simp [Timed.start], by simp [Timed.start]⟩
  have hgrouped := grouped_timedLoop (ints env) g.loopCount.toNat (i := 0)
    (by rw [UInt64.toNat_zero, Nat.zero_add]; exact hlt) hstart hrun
  rw [List.nil_append, UInt64.toNat_zero] at hgrouped
  have hcount : (scanAddresses g delta 0 g.loopCount.toNat).length ≤ g.loopCount.toNat := by
    have hle := List.length_filterMap_le (fun k ↦ scanAddress g delta (UInt64.ofNat k))
      (List.range' 0 g.loopCount.toNat)
    rw [List.length_range'] at hle
    exact hle
  generalize Locals.run env g scan0 batchedFl4 results = x at *
  cases hstep with
  | ok hrep _ _ =>
    refine ⟨_, rfl, ?_⟩
    exact {
      idle := by rw [hrep.trace]; exact hgrouped.idle
      outside := by rw [hrep.trace]; exact hgrouped.outside
      sections := by rw [hrep.trace]; exact hgrouped.sections_eq
      total := by rw [hrep.trace, hrep.total]; exact hgrouped.total
      batchedFl4 := by rw [hrep.trace]; exact hgrouped.batchedFl4
      results := by
        rw [hrep.trace]
        intro total htotal
        have hless := hgrouped.results total htotal
        rw [hgrouped.length_sections] at hless
        have hdiv := Nat.div_le_div_right hcount (c := g.batchCount.toNat)
        omega }

/-- One batch of two, `192.0.2.1` and `192.0.2.2`, with a route to both. -/
theorem oneBatch_timesChunks :
    let g := { oneAddress with batchCount := .two, flowDstIpaddrE := htonl 0xc0000203 }
    ∃ l, Locals.run .allReachable g false (fun _ ↦ flowi4 g 0) (fun _ ↦ 0) = .ok l ∧
      TimesChunks .allReachable g (scanAddresses g (setUpScan g false).delta 0 2) l := by
  intro g
  exact run_timesChunks .allReachable g false (fun _ ↦ flowi4 g 0) (fun _ ↦ 0) (by decide)

end NetworkLab.Kbench.Ipv4
