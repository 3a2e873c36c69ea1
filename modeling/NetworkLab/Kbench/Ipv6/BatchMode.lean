import NetworkLab.Kbench.Ipv6.Buffers
import NetworkLab.Kbench.Timeline
import NetworkLab.Lib.Chunks
import NetworkLab.Lib.Unsigned

/-!
# Batch mode of the IPv6 benchmark

With `batch_count` above one `do_bench` of `lab-routes-ipv6/2026/kbench_mod.c:219–394` first
collects the destinations with a match and then times them in groups. With the same routes
it times what a run without batches times, up to an incomplete last group.
-/

namespace NetworkLab.Kbench.Ipv6

open Lib

/-- The settings with another `batch_count`. -/
def Settings.withBatch (g : Settings) (batch : Count) : Settings :=
  { g with batchCount := batch }

/-- What a run that no store disturbs reads before it takes the lock. -/
def Settings.allocation (g : Settings) : Allocation :=
  ⟨g.batchCount.val, g.loopCount.val, g.loopCount.val⟩

/-- How a run up to the statistics ends. -/
inductive Outcome where
  | noMemory
  | lookupError (err : Int)
  | overrun
  | timed (s : Timed)

section

variable (flowi6Size : UInt64) (grants : Buffer → (bytes : UInt64) → Bool)

/-- Whether an action keeps to the memory requested. -/
def Allocation.holds (a : Allocation) : Act → Bool
  | .write b k => k < a.elements flowi6Size b
  | .lookup _ => true
  | .getCycles => true

/-- `do_bench` up to the statistics, `:219–394`, with the batched timing cut after `fuel`
batches. A run that writes outside of its arrays ends there as far as the source says. -/
def doBench (env : Kernel) (g : Settings) (scan0 : Bool) (fuel : Nat) : Outcome :=
  if g.allocation.granted flowi6Size grants then
    match lockedSection env g g.batchCount.val scan0 fuel with
    | .error err => .lookupError err
    | .ok s => if s.trace.all (g.allocation.holds flowi6Size) then .timed s else .overrun
  else .noMemory

end

/-! ### The value of `batch_count` outside of `batch` -/

private theorem timedLoop_withBatch (env : Kernel) (g : Settings) (c : Count) (batch : UInt64)
    (plan : ScanPlan) (n : Nat) (s : Timed) :
    timedLoop env (g.withBatch c) batch plan n s = timedLoop env g batch plan n s := by
  induction n generalizing s with
  | zero => rfl
  | succ n ih =>
    rw [timedLoop, timedLoop, ih]
    rfl

private theorem batchLoop_withBatch (env : Kernel) (g : Settings) (c : Count) (batch : UInt64)
    (fuel : Nat) (i n : UInt64) (s : Timed) :
    batchLoop env (g.withBatch c) batch fuel i n s = batchLoop env g batch fuel i n s := by
  induction fuel generalizing i n s with
  | zero => rfl
  | succ fuel ih =>
    rw [batchLoop, batchLoop, ih]
    rfl

/-- Under the lock only the copy of `batch_count` made before counts. -/
theorem lockedSection_withBatch (env : Kernel) (g : Settings) (c : Count) (batch : UInt64)
    (scan0 : Bool) (fuel : Nat) :
    lockedSection env (g.withBatch c) batch scan0 fuel =
      lockedSection env g batch scan0 fuel := by
  have hrun (trace : List Act) : runTimed env (g.withBatch c) batch scan0 trace =
      runTimed env g batch scan0 trace :=
    timedLoop_withBatch env g c batch (setUpScan g scan0) g.maxLoopCount.toNat _
  have hflow : flowi6 (g.withBatch c) (g.withBatch c).flowDstIpaddrS =
      flowi6 g g.flowDstIpaddrS := rfl
  have hcount : (g.withBatch c).warmupCount = g.warmupCount := rfl
  unfold lockedSection
  rw [hflow, hcount]
  cases warmUp env (flowi6 g g.flowDstIpaddrS) g.warmupCount.toNat [] with
  | error err => rfl
  | ok trace =>
    dsimp only
    rw [hrun, batchLoop_withBatch]

/-! ### Plain timing and collection side by side -/

/-- The routes are a fixed function of the destination. -/
def FixedRoutes (env : Kernel) (unreachable : In6Addr → Bool) : Prop :=
  ∀ trace fl6, env.lookup trace fl6 = netUnreach ↔ unreachable fl6.daddr = true

/-- The flows whose timing was recorded by a run without batches, in order. -/
def timedFlows (env : Kernel) (trace : List Act) : List Flowi6 :=
  ((timeline env trace).sections.filter reachedAll).flatten.map Answer.flow

/-- A plain run `p` and a batch run `q` have come to the same point: what `p` has timed is
what `q` has collected, and `q` has read no clock. -/
structure SideBySide (env env' : Kernel) (g : Settings) (p q : Timed) : Prop where
  cursor : p.cursor = q.cursor
  total : p.total = q.total
  flows : timedFlows env p.trace = q.addrs.map (flowi6 g)
  length : q.addrs.length = q.total
  idle : (timeline env p.trace).current = none
  untimed : (timeline env' q.trace).current = none ∧ (timeline env' q.trace).sections = []
  results : q.results = []

private theorem timedFlows_section {env : Kernel} {trace trace' : List Act} {fl6 : Flowi6}
    {err : Int} {outside : List (Answer Flowi6)}
    (h : timeline env trace' =
      ⟨(timeline env trace).sections ++ [[⟨fl6, err⟩]], none, outside⟩) :
    timedFlows env trace' =
      timedFlows env trace ++ if err = netUnreach then [] else [fl6] := by
  rw [timedFlows, h, List.filter_append, List.flatten_append, List.map_append]
  by_cases herr : err = netUnreach <;> simp [timedFlows, reachedAll, Answer.reached, herr]

/-- An iteration with a match times the destination in one run and collects it in the other;
one without leaves both as they were. -/
theorem SideBySide.iterate {env env' : Kernel} {g : Settings} {p q : Timed}
    {unreachable : In6Addr → Bool} (h : SideBySide env env' g p q)
    (hp : FixedRoutes env unreachable) (hq : FixedRoutes env' unreachable) {batch : UInt64}
    (hb : 1 < batch) (plan : ScanPlan) :
    SideBySide env env' g (p.iterate env g 1 plan) (q.iterate env' g batch plan) := by
  have hone : ¬ (1 : UInt64) < 1 := by decide
  have hcursor : p.cursor.advance g plan = q.cursor.advance g plan := by rw [h.cursor]
  have hline := timeline_timed env (flowi6 g (p.cursor.advance g plan).daddr) h.idle
  have hflows := timedFlows_section hline
  have hlooked : timeline env'
      (.lookup (flowi6 g (q.cursor.advance g plan).daddr) :: q.trace) =
        ⟨[], none, (timeline env' q.trace).outside ++ [⟨flowi6 g (q.cursor.advance g plan).daddr,
          env'.lookup q.trace (flowi6 g (q.cursor.advance g plan).daddr)⟩]⟩ := by
    rw [timeline_lookup, Timeline.answer_of_none h.untimed.1, h.untimed.2]
  have hroutes : env.lookup (.getCycles :: p.trace) (flowi6 g (p.cursor.advance g plan).daddr) =
      netUnreach ↔
        env'.lookup q.trace (flowi6 g (q.cursor.advance g plan).daddr) = netUnreach := by
    rw [hp, hq, hcursor]
  rcases p.iterate_cases env g 1 plan with
    ⟨hb', -, -⟩ | ⟨hb', -, -⟩ | ⟨-, hu, hp'⟩ | ⟨-, hu, hp'⟩
  · exact absurd hb' hone
  · exact absurd hb' hone
  · rcases q.iterate_cases env' g batch plan with
      ⟨-, hu', hq'⟩ | ⟨-, hu', -⟩ | ⟨hb', -, -⟩ | ⟨hb', -, -⟩
    · rw [if_pos hu, List.append_nil] at hflows
      rw [hp', hq']
      exact {
        cursor := hcursor
        total := h.total
        flows := hflows.trans h.flows
        length := h.length
        idle := congrArg Timeline.current hline
        untimed := ⟨congrArg Timeline.current hlooked, congrArg Timeline.sections hlooked⟩
        results := h.results }
    · exact absurd (hroutes.mp hu) hu'
    · exact absurd hb hb'
    · exact absurd hb hb'
  · rcases q.iterate_cases env' g batch plan with
      ⟨-, hu', -⟩ | ⟨-, hu', hq'⟩ | ⟨hb', -, -⟩ | ⟨hb', -, -⟩
    · exact absurd (hroutes.mpr hu') hu
    · rw [if_neg hu, h.flows] at hflows
      rw [hp', hq']
      exact {
        cursor := hcursor
        total := congrArg (· + 1) h.total
        flows := by
          rw [List.map_append, List.map_cons, List.map_nil, ← hcursor]
          exact hflows
        length := by
          rw [List.length_append, List.length_singleton, h.length]
        idle := congrArg Timeline.current hline
        untimed := ⟨congrArg Timeline.current hlooked, congrArg Timeline.sections hlooked⟩
        results := h.results }
    · exact absurd hb hb'
    · exact absurd hb hb'

/-- Both timed loops stop at the same point. -/
theorem SideBySide.timedLoop {env env' : Kernel} {g : Settings} {p q : Timed}
    {unreachable : In6Addr → Bool} (h : SideBySide env env' g p q)
    (hp : FixedRoutes env unreachable) (hq : FixedRoutes env' unreachable) {batch : UInt64}
    (hb : 1 < batch) (plan : ScanPlan) (n : Nat) :
    SideBySide env env' g (timedLoop env g 1 plan n p) (timedLoop env' g batch plan n q) := by
  induction n generalizing p q with
  | zero => exact h
  | succ n ih =>
    unfold Ipv6.timedLoop
    rw [← h.total]
    split
    · exact h
    · exact ih (h.iterate hp hq hb plan)

private theorem timeline_warmUp {env : Kernel} {fl6 : Flowi6} {n : Nat} {t t' : List Act}
    (h : warmUp env fl6 n t = .ok t')
    (ht : (timeline env t).current = none ∧ (timeline env t).sections = []) :
    (timeline env t').current = none ∧ (timeline env t').sections = [] := by
  induction n generalizing t with
  | zero =>
    cases h
    exact ht
  | succ n ih =>
    unfold warmUp at h
    dsimp only at h
    split at h
    · cases h
    · apply ih h
      rw [timeline_lookup, Timeline.answer_of_none ht.1]
      exact ⟨rfl, ht.2⟩

/-! ### Timing of the groups -/

private theorem fillBatch_spec (env : Kernel) (batch : UInt64) (s : Timed) :
    ∃ t, s.fillBatch batch = { s with trace := t } ∧ timeline env t = timeline env s.trace := by
  unfold Timed.fillBatch
  induction batch.toNat with
  | zero => exact ⟨s.trace, rfl, rfl⟩
  | succ n ih =>
    obtain ⟨t, hfill, hline⟩ := ih
    rw [List.range_succ, List.foldl_append, hfill]
    refine ⟨.write .batchedFl6 n :: t, rfl, ?_⟩
    rw [timeline_write, hline]

private theorem lookupBatch_spec (env : Kernel) (g : Settings) (batch i : UInt64) (s : Timed)
    (hbegun : (timeline env s.trace).current = some []) :
    ∃ t answers, s.lookupBatch g batch i = { s with trace := t } ∧
      timeline env t = ⟨(timeline env s.trace).sections, some answers,
        (timeline env s.trace).outside⟩ ∧
      answers.map Answer.flow = (List.range batch.toNat).map (batchedFlow g s i) := by
  unfold Timed.lookupBatch
  induction batch.toNat with
  | zero =>
    refine ⟨s.trace, [], rfl, ?_, rfl⟩
    rw [← hbegun]
  | succ n ih =>
    obtain ⟨t, answers, hlook, hline, hflows⟩ := ih
    rw [List.range_succ, List.foldl_append, hlook]
    refine ⟨.write .batchedDst n :: .lookup (batchedFlow g s i n) :: t,
      answers ++ [⟨batchedFlow g s i n, env.lookup t (batchedFlow g s i n)⟩], rfl, ?_, ?_⟩
    · have hcurrent := congrArg Timeline.current hline
      rw [timeline_write, timeline_lookup, Timeline.answer_of_some hcurrent, hline]
    · rw [List.map_append, List.map_append, hflows]
      rfl

private theorem batchedFlows_eq (g : Settings) (s : Timed) (batch i : UInt64)
    (hfit : i.toNat + batch.toNat ≤ s.addrs.length) (hroom : i.toNat + batch.toNat < 2 ^ 64) :
    (List.range batch.toNat).map (batchedFlow g s i) =
      ((s.addrs.map (flowi6 g)).drop i.toNat).take batch.toNat := by
  apply List.ext_getElem
  · simp only [List.length_map, List.length_range, List.length_take, List.length_drop]
    omega
  · intro j hj _
    rw [List.length_map, List.length_range] at hj
    have hindex : (i + UInt64.ofNat j).toNat = i.toNat + j :=
      Unsigned.toNat_add_ofNat (by omega)
    have hlt : i.toNat + j < s.addrs.length := by omega
    rw [List.getElem_map, List.getElem_range, List.getElem_take, List.getElem_drop,
      List.getElem_map, batchedFlow, hindex, List.getElem?_eq_getElem hlt, Option.getD_some]

/-- A timed batch is a section of its own, with the collected destinations from `i` on. -/
theorem timeBatch_spec (env : Kernel) (g : Settings) (batch i n : UInt64) (s : Timed)
    (hidle : (timeline env s.trace).current = none)
    (hfit : i.toNat + batch.toNat ≤ s.addrs.length) (hroom : i.toNat + batch.toNat < 2 ^ 64) :
    let s' := s.timeBatch env g batch i n
    (∃ answers, timeline env s'.trace =
        ⟨(timeline env s.trace).sections ++ [answers], none, (timeline env s.trace).outside⟩ ∧
      answers.map Answer.flow = ((s.addrs.map (flowi6 g)).drop i.toNat).take batch.toNat) ∧
      s'.addrs = s.addrs ∧ s'.total = s.total ∧ s'.results.length = s.results.length + 1 := by
  obtain ⟨t, hfill, hline⟩ := fillBatch_spec env batch s
  have hbegun : timeline env (.getCycles :: t) =
      ⟨(timeline env s.trace).sections, some [], (timeline env s.trace).outside⟩ := by
    rw [timeline_getCycles, hline, Timeline.tick_of_none hidle]
  obtain ⟨t', answers, hlook, hline', hflows⟩ := lookupBatch_spec env g batch i
    (Timed.emit .getCycles { s with trace := t }) (congrArg Timeline.current hbegun)
  dsimp only
  unfold Timed.timeBatch
  rw [hfill]
  dsimp only
  rw [hlook]
  refine ⟨⟨answers, ?_, ?_⟩, rfl, rfl, ?_⟩
  · change timeline env (.write .results n.toNat :: .getCycles :: t') = _
    rw [Timed.trace_emit, hbegun] at hline'
    rw [timeline_write, timeline_getCycles,
      Timeline.tick_of_some (congrArg Timeline.current hline'), hline']
  · rw [hflows]
    exact batchedFlows_eq g s batch i hfit hroom
  · exact List.length_append

/-- What the batched timing of `m` more groups leaves: a section and a result for each. -/
private structure GroupsTimed (env : Kernel) (g : Settings) (batch i : UInt64) (m : Nat)
    (s : Timed) (r : Timed × UInt64) : Prop where
  idle : (timeline env r.1.trace).current = none
  sections : (timeline env r.1.trace).sections.map (·.map Answer.flow) =
    (timeline env s.trace).sections.map (·.map Answer.flow) ++
      cut batch.toNat m ((s.addrs.map (flowi6 g)).drop i.toNat)
  n : r.2.toNat = s.total / batch.toNat
  results : r.1.results.length = s.results.length + m

private theorem next_fits_iff {batch i n : UInt64} {m total : Nat} (hb : 0 < batch.toNat)
    (hi : i.toNat = n.toNat * batch.toNat) (hm : n.toNat + m = total / batch.toNat)
    (hroom : total / batch.toNat * batch.toNat + batch.toNat < 2 ^ 64) :
    (i + batch).toNat = i.toNat + batch.toNat ∧ ((i + batch).toNat ≤ total ↔ 0 < m) := by
  have hle : i.toNat ≤ total / batch.toNat * batch.toNat := by
    rw [hi, ← hm]
    exact Nat.mul_le_mul_right _ (Nat.le_add_right _ _)
  obtain ⟨hadd, hfits⟩ := batch_fits_iff hb hi (by omega)
  refine ⟨hadd, ?_⟩
  rw [hfits]
  omega

/-- With `m` groups left the batched timing ends after `m` of them, however long it may go
on. -/
theorem batchLoop_groups (env : Kernel) (g : Settings) {batch : UInt64} (hb : 0 < batch.toNat)
    {m fuel : Nat} (hfuel : m ≤ fuel) {i n : UInt64} {s : Timed}
    (hidle : (timeline env s.trace).current = none) (hi : i.toNat = n.toNat * batch.toNat)
    (hm : n.toNat + m = s.total / batch.toNat) (hlen : s.addrs.length = s.total)
    (hroom : s.total / batch.toNat * batch.toNat + batch.toNat < 2 ^ 64) :
    batchLoop env g batch fuel i n s = batchLoop env g batch m i n s ∧
      GroupsTimed env g batch i m s (batchLoop env g batch m i n s) := by
  induction m generalizing fuel i n s with
  | zero =>
    have hlast : ¬ (i + batch).toNat ≤ s.total := by
      rw [(next_fits_iff hb hi hm hroom).2]
      exact Nat.lt_irrefl 0
    constructor
    · cases fuel with
      | zero => rfl
      | succ fuel =>
        unfold batchLoop
        rw [if_neg hlast]
    · exact ⟨hidle, by simp [batchLoop, cut], hm, rfl⟩
  | succ m ih =>
    obtain ⟨fuel, rfl⟩ := Nat.exists_eq_succ_of_ne_zero (n := fuel) (by omega)
    obtain ⟨hadd, hgo⟩ := next_fits_iff hb hi hm hroom
    replace hgo := hgo.mpr (Nat.succ_pos m)
    have hlt := (i + batch).toNat_lt
    obtain ⟨⟨answers, hline, hflows⟩, haddrs, htotal, hresults⟩ :=
      timeBatch_spec env g batch i n s hidle (by omega) (by omega)
    generalize htimed : s.timeBatch env g batch i n = s' at *
    have hnext : (n + 1).toNat = n.toNat + 1 := by
      apply Unsigned.toNat_succ
      have hle : s.total / batch.toNat ≤ s.total / batch.toNat * batch.toNat :=
        Nat.le_mul_of_pos_right _ hb
      omega
    have hi' : (i + batch).toNat = (n + 1).toNat * batch.toNat := by
      rw [hadd, hnext, Nat.succ_mul, hi]
    obtain ⟨hsame, hrest⟩ := ih (show m ≤ fuel by omega) (congrArg Timeline.current hline)
      hi'
      (by rw [htotal, hnext]; omega) (by rw [haddrs, htotal]; exact hlen)
      (by rw [htotal]; exact hroom)
    have hstep (k : Nat) : batchLoop env g batch (k + 1) i n s =
        batchLoop env g batch k (i + batch) (n + 1) s' := by
      rw [batchLoop, if_pos hgo, htimed]
    rw [hstep, hstep]
    refine ⟨hsame, hrest.idle, ?_, ?_, ?_⟩
    · rw [hrest.sections, hline, haddrs, List.map_append, List.append_assoc, cut, List.drop_drop,
        hadd, ← hflows]
      rfl
    · rw [hrest.n, htotal]
    · rw [hrest.results, hresults]
      omega

private theorem write_mem_batchLoop_of_mem {env : Kernel} {g : Settings} {batch : UInt64}
    {b : Buffer} {k fuel : Nat} {i n : UInt64} {s : Timed} (h : .write b k ∈ s.trace) :
    .write b k ∈ (batchLoop env g batch fuel i n s).1.trace := by
  induction fuel generalizing i n s with
  | zero => exact h
  | succ fuel ih =>
    unfold batchLoop
    split
    · apply ih
      rw [write_mem_timeBatch]
      exact Or.inr (Or.inr h)
    · exact h

/-! ### The two runs of `do_bench` -/

section

variable {flowi6Size : UInt64} {grants : Buffer → (bytes : UInt64) → Bool}

private theorem lockedSection_of_timed {env : Kernel} {g : Settings} {scan0 : Bool} {fuel : Nat}
    {s : Timed} (h : doBench flowi6Size grants env g scan0 fuel = .timed s) :
    lockedSection env g g.batchCount.val scan0 fuel = .ok s := by
  unfold doBench at h
  split at h
  · split at h
    · cases h
    · next t hlocked =>
      split at h
      · cases h
        exact hlocked
      · cases h
  · cases h

private theorem runTimed_of_lockedSection {env : Kernel} {g : Settings} {scan0 : Bool}
    {fuel : Nat} {s : Timed} (h : lockedSection env g 1 scan0 fuel = .ok s) :
    ∃ trace, warmUp env (flowi6 g g.flowDstIpaddrS) g.warmupCount.toNat [] = .ok trace ∧
      s = runTimed env g 1 scan0 trace := by
  have hone : ¬ (1 : UInt64) < 1 := by decide
  unfold lockedSection at h
  cases hwarm : warmUp env (flowi6 g g.flowDstIpaddrS) g.warmupCount.toNat [] with
  | error err =>
    rw [hwarm] at h
    cases h
  | ok trace =>
    rw [hwarm] at h
    dsimp only at h
    rw [if_neg hone] at h
    cases h
    exact ⟨trace, rfl, rfl⟩

private theorem lockedSection_batch {env : Kernel} {g : Settings} {batch : UInt64}
    (hb : 1 < batch) {t : List Act}
    (hwarm : warmUp env (flowi6 g g.flowDstIpaddrS) g.warmupCount.toNat [] = .ok t)
    (scan0 : Bool) (fuel : Nat) :
    let r := batchLoop env g batch fuel 0 0 (runTimed env g batch scan0 t)
    lockedSection env g batch scan0 fuel = .ok { r.1 with total := r.2.toNat } := by
  unfold lockedSection
  rw [hwarm]
  exact if_pos hb

private theorem doBench_of_warmUp_error {env : Kernel} {g : Settings} {b : Count}
    (hgranted : (g.withBatch b).allocation.granted flowi6Size grants = true) {err : Int}
    (hwarm : warmUp env (flowi6 g g.flowDstIpaddrS) g.warmupCount.toNat [] = .error err)
    (scan0 : Bool) (fuel : Nat) :
    doBench flowi6Size grants env (g.withBatch b) scan0 fuel = .lookupError err := by
  unfold doBench
  rw [if_pos hgranted, lockedSection_withBatch]
  unfold lockedSection
  rw [hwarm]

private theorem doBench_of_lockedSection {env : Kernel} {g : Settings} {b : Count}
    (hgranted : (g.withBatch b).allocation.granted flowi6Size grants = true) {scan0 : Bool}
    {fuel : Nat} {s : Timed} (h : lockedSection env g b.val scan0 fuel = .ok s) :
    doBench flowi6Size grants env (g.withBatch b) scan0 fuel =
      if s.trace.all ((g.withBatch b).allocation.holds flowi6Size) then .timed s
      else .overrun := by
  have hlocked : lockedSection env (g.withBatch b) (g.withBatch b).batchCount.val scan0 fuel =
      .ok s := (lockedSection_withBatch env g b _ scan0 fuel).trans h
  unfold doBench
  rw [if_pos hgranted, hlocked]

/-- After their warm-ups the two runs start side by side. -/
private theorem sideBySide_runTimed {env env' : Kernel} {g : Settings}
    {unreachable : In6Addr → Bool} (hp : FixedRoutes env unreachable)
    (hq : FixedRoutes env' unreachable) {batch : UInt64} (hb : 1 < batch) (scan0 : Bool)
    {fl6 : Flowi6} {n n' : Nat} {t t' : List Act} (ht : warmUp env fl6 n [] = .ok t)
    (ht' : warmUp env' fl6 n' [] = .ok t') :
    SideBySide env env' g (runTimed env g 1 scan0 t) (runTimed env' g batch scan0 t') := by
  obtain ⟨hidle, hnone⟩ := timeline_warmUp ht ⟨rfl, rfl⟩
  have hstart : SideBySide env env' g (.start g t) (.start g t') :=
    { cursor := rfl
      total := rfl
      flows := by
        change timedFlows env t = []
        rw [timedFlows, hnone]
        rfl
      length := rfl
      idle := hidle
      untimed := timeline_warmUp ht' ⟨rfl, rfl⟩
      results := rfl }
  exact hstart.timedLoop hp hq hb (setUpScan g scan0) g.maxLoopCount.toNat

/-- A batch run `q` times the destinations that the plain run `p` times, in the same order
and in groups of `b`, but for an incomplete group at the end. -/
structure TimesBatchesOf (env env' : Kernel) (b : Nat) (p q : Timed) : Prop where
  timed : (timedFlows env p.trace).length = p.total
  sections : (timeline env' q.trace).sections.map (·.map Answer.flow) =
    chunks b (timedFlows env p.trace)
  size : ∀ x ∈ (timeline env' q.trace).sections, x.length = b
  flows : ((timeline env' q.trace).sections.map (·.map Answer.flow)).flatten =
    (timedFlows env p.trace).take (p.total / b * b)
  total : q.total = p.total / b
  results : q.results.length = q.total

/-- How a run with batches may end: without memory only if an array is refused, in the warm-up
only by its error, and outside of its arrays only if the size of one of them wraps. Otherwise
what it has timed is as `timed` says. -/
def EndsWith (flowi6Size : UInt64) (grants : Buffer → (bytes : UInt64) → Bool) (env : Kernel)
    (g : Settings) (b : Count) (timed : Timed → Prop) : Outcome → Prop
  | .noMemory => (g.withBatch b).allocation.granted flowi6Size grants = false
  | .lookupError err =>
    warmUp env (flowi6 g g.flowDstIpaddrS) g.warmupCount.toNat [] = .error err
  | .overrun => ∃ buffer, (g.withBatch b).allocation.elements flowi6Size buffer <
      ((g.withBatch b).allocation.count buffer).toNat
  | .timed q => timed q

private theorem timesBatchesOf {env env' : Kernel} {g : Settings} {p s : Timed}
    (h : SideBySide env env' g p s) {batch : UInt64} {r : Timed × UInt64}
    (hr : GroupsTimed env' g batch 0 (s.total / batch.toNat) s r) :
    TimesBatchesOf env env' batch.toNat p { r.1 with total := r.2.toNat } := by
  have htimed : (timedFlows env p.trace).length = p.total := by
    rw [h.flows, List.length_map, h.length, h.total]
  have hsections : (timeline env' r.1.trace).sections.map (·.map Answer.flow) =
      chunks batch.toNat (timedFlows env p.trace) := by
    rw [hr.sections, h.untimed.2, chunks, htimed, h.total, h.flows]
    rfl
  exact {
    timed := htimed
    sections := hsections
    size := by
      intro x hx
      have hmem : x.map Answer.flow ∈ chunks batch.toNat (timedFlows env p.trace) := by
        rw [← hsections]
        exact List.mem_map_of_mem hx
      have hlen := length_of_mem_chunks hmem
      rwa [List.length_map] at hlen
    flows := by
      rw [hsections, flatten_chunks, htimed]
    total := by
      rw [h.total]
      exact hr.n
    results := by
      change r.1.results.length = r.2.toNat
      rw [hr.results, h.results, hr.n]
      exact Nat.zero_add _ }

/-- With too many destinations the collection leaves the memory requested for it. -/
private theorem overruns_of_large {env : Kernel} {g : Settings} {a : Allocation} {batch : UInt64}
    (hb : 1 < batch) {s : Timed} (hfilled : FilledTo batch s) (hlarge : 2 ^ 60 ≤ s.total)
    (fuel : Nat) :
    ¬ (batchLoop env g batch fuel 0 0 s).1.trace.all (a.holds flowi6Size) = true := by
  intro hall
  have hlast : .write .addrs (s.total - 1) ∈ s.trace := by
    rw [hfilled, filled, if_pos hb]
    exact ⟨rfl, by omega⟩
  have hholds := List.all_eq_true.mp hall _ (write_mem_batchLoop_of_mem hlast)
  have hcap := elements_addrs_lt flowi6Size a
  have hlt : s.total - 1 < a.elements flowi6Size .addrs := of_decide_eq_true hholds
  omega

/-- The arrays of a run that no store disturbs are large enough unless a size wraps. -/
private theorem fits_allocation {g : Settings}
    (h : ∀ buffer, (g.allocation.count buffer).toNat ≤ g.allocation.elements flowi6Size buffer) :
    Fits flowi6Size g g.allocation := by
  have hloop := Nat.min_le_left g.loopCount.toNat g.maxLoopCount.toNat
  have hresults : g.loopCount.toNat ≤ g.allocation.elements flowi6Size .results := h .results
  have haddrs : g.loopCount.toNat ≤ g.allocation.elements flowi6Size .addrs := h .addrs
  unfold Fits
  dsimp only
  split
  · refine ⟨by omega, fun _ ↦ ⟨h .batchedFl6, h .batchedDst, ?_⟩⟩
    exact Nat.le_trans (Nat.div_le_self _ _) (by omega)
  · omega

private theorem short_of_overrun {env : Kernel} {g : Settings} {b : Count} {scan0 : Bool}
    {fuel : Nat} {s : Timed} (hlocked : lockedSection env g b.val scan0 fuel = .ok s)
    (h : ¬ s.trace.all ((g.withBatch b).allocation.holds flowi6Size) = true) :
    ∃ buffer, (g.withBatch b).allocation.elements flowi6Size buffer <
      ((g.withBatch b).allocation.count buffer).toNat := by
  by_contra hnone
  have hfits := fits_allocation fun buffer ↦ Nat.not_lt.mp fun hlt ↦ hnone ⟨buffer, hlt⟩
  have hbounds : WritesInBounds flowi6Size (g.withBatch b).allocation s.trace := by
    apply (safe_iff_fits flowi6Size (g.withBatch b) _).mpr hfits env scan0 fuel s
    exact (lockedSection_withBatch env g b _ scan0 fuel).trans hlocked
  apply h
  rw [List.all_eq_true]
  intro act hact
  cases act with
  | getCycles => rfl
  | lookup fl6 => rfl
  | write buffer k => exact decide_eq_true (hbounds buffer k hact)

/-- No index wraps over destinations that fit their array. -/
private theorem groups_room (batch : UInt64) {total : Nat} (h : total < 2 ^ 60) :
    total / batch.toNat * batch.toNat + batch.toNat < 2 ^ 64 := by
  have hlt := batch.toNat_lt
  have hle := Nat.div_mul_le_self total batch.toNat
  by_cases hfit : batch.toNat ≤ total
  · omega
  · rw [Nat.div_eq_of_lt (by omega)]
    omega

/-- Over the same routes and stack, a batch run ends after the batches that the destinations
of the plain run fill, and it times these destinations. -/
theorem doBench_endsWith (grants' : Buffer → (bytes : UInt64) → Bool)
    {env env' : Kernel} {unreachable : In6Addr → Bool} (hp : FixedRoutes env unreachable)
    (hq : FixedRoutes env' unreachable) {g : Settings} {b : Count} (hb : 1 < b.val)
    {scan0 : Bool} {fuel₀ : Nat} {p : Timed}
    (hplain : doBench flowi6Size grants env (g.withBatch .one) scan0 fuel₀ = .timed p) :
    ∃ outcome, (∀ fuel, p.total / b.toNat ≤ fuel →
        doBench flowi6Size grants' env' (g.withBatch b) scan0 fuel = outcome) ∧
      EndsWith flowi6Size grants' env' g b (TimesBatchesOf env env' b.toNat p) outcome := by
  have hlocked := lockedSection_of_timed hplain
  rw [lockedSection_withBatch] at hlocked
  obtain ⟨t, hwarm, rfl⟩ := runTimed_of_lockedSection hlocked
  by_cases hgranted : (g.withBatch b).allocation.granted flowi6Size grants' = true
  · cases hwarm' : warmUp env' (flowi6 g g.flowDstIpaddrS) g.warmupCount.toNat [] with
    | error err =>
      refine ⟨.lookupError err, fun fuel _ ↦ ?_, hwarm'⟩
      exact doBench_of_warmUp_error hgranted hwarm' scan0 fuel
    | ok t' =>
      have hside : SideBySide env env' g _ _ :=
        sideBySide_runTimed hp hq hb scan0 hwarm hwarm'
      have hwrites (b' : Buffer) (k : Nat) : .write b' k ∉ t' := by
        rw [warmUp_writes _ _ _ _ _ hwarm']
        exact List.not_mem_nil
      obtain ⟨hfilled, hmin, -⟩ := runTimed_filledTo env' g b.val scan0 t' hwrites
      have hlocked' := lockedSection_batch hb hwarm' scan0
      have hrun (fuel : Nat) := doBench_of_lockedSection hgranted (hlocked' fuel)
      generalize runTimed env' g b.val scan0 t' = s at *
      rw [hside.total]
      by_cases hsmall : s.total < 2 ^ 60
      · have hgroups (fuel : Nat) (hfuel : s.total / b.toNat ≤ fuel) :
            batchLoop env' g b.val fuel 0 0 s =
              batchLoop env' g b.val (s.total / b.toNat) 0 0 s ∧
            GroupsTimed env' g b.val 0 (s.total / b.toNat) s
              (batchLoop env' g b.val (s.total / b.toNat) 0 0 s) :=
          batchLoop_groups env' g b.toNat_pos hfuel hside.untimed.1 (by simp)
            (by simp [Count.toNat]) hside.length (groups_room b.val hsmall)
        refine ⟨doBench flowi6Size grants' env' (g.withBatch b) scan0 (s.total / b.toNat),
          fun fuel hfuel ↦ ?_, ?_⟩
        · rw [hrun, hrun, (hgroups fuel hfuel).1]
        · rw [hrun]
          split
          · exact timesBatchesOf hside (hgroups _ (Nat.le_refl _)).2
          · next hover => exact short_of_overrun (hlocked' _) hover
      · refine ⟨.overrun, fun fuel _ ↦ ?_, .addrs, ?_⟩
        · rw [hrun, if_neg (overruns_of_large hb hfilled (by omega) fuel)]
        · have hcap := elements_addrs_lt flowi6Size (g.withBatch b).allocation
          change _ < g.loopCount.toNat
          omega
  · refine ⟨.noMemory, fun fuel _ ↦ ?_, Bool.eq_false_of_not_eq_true hgranted⟩
    unfold doBench
    rw [if_neg hgranted]

end

/-- One destination, looked up twice. -/
def twoLookups : Settings := { oneLookup with loopCount := .two }

/-- The destination is timed twice on its own, or once in a batch of two. -/
theorem twoLookups_endsWith :
    ∃ p q, doBench 100 (fun _ _ ↦ true) .allReachable (twoLookups.withBatch .one) false 1 =
        .timed p ∧ p.total = 2 ∧
      doBench 100 (fun _ _ ↦ true) .allReachable (twoLookups.withBatch .two) false 1 =
        .timed q ∧ q.total = 1 ∧ TimesBatchesOf .allReachable .allReachable 2 p q := by
  have hroutes : FixedRoutes .allReachable fun _ ↦ false := by
    intro trace fl6
    constructor <;> intro h <;> cases h
  have hb : 1 < Count.two.val := by decide
  have hplain : ∃ p, doBench 100 (fun _ _ ↦ true) .allReachable (twoLookups.withBatch .one)
      false 1 = .timed p ∧ p.total = 2 := by
    refine ⟨_, rfl, ?_⟩
    rfl
  have hbatch : ∃ q, doBench 100 (fun _ _ ↦ true) .allReachable (twoLookups.withBatch .two)
      false 1 = .timed q ∧ q.total = 1 := by
    refine ⟨_, rfl, ?_⟩
    rfl
  obtain ⟨p, hp, htotal⟩ := hplain
  obtain ⟨q, hq, htotal'⟩ := hbatch
  obtain ⟨outcome, hends, htimes⟩ := doBench_endsWith (fun _ _ ↦ true) hroutes hroutes hb hp
  rw [htotal] at hends
  rw [← hends 1 (by decide), hq] at htimes
  exact ⟨p, q, hp, htotal, hq, htotal', htimes⟩

end NetworkLab.Kbench.Ipv6
