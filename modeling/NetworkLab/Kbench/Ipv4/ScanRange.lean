import NetworkLab.Kbench.Ipv4.Bench

/-!
# Scanned range of the IPv4 benchmark

Which destinations the timed loop of `do_bench` looks up,
`lab-routes-ipv4/2026/kbench_mod.c:236–364`. An iteration adds one destination to those
looked up or waiting in the batch, unless it skips a loopback address; whole batches are
looked up in order.
-/

namespace NetworkLab.Kbench.Ipv4

/-- The destinations of the lookups among some actions, oldest first. -/
def lookups : List Act → List UInt32
  | [] => []
  | .lookup fl4 :: trace => lookups trace ++ [fl4.daddr]
  | .getCycles :: trace => lookups trace
  | .write _ _ :: trace => lookups trace

@[simp] theorem lookups_lookup (fl4 : Flowi4) (trace : List Act) :
    lookups (.lookup fl4 :: trace) = lookups trace ++ [fl4.daddr] := rfl

@[simp] theorem lookups_getCycles (trace : List Act) :
    lookups (.getCycles :: trace) = lookups trace := rfl

@[simp] theorem lookups_write (buffer : Buffer) (k : Nat) (trace : List Act) :
    lookups (.write buffer k :: trace) = lookups trace := rfl

/-- The destinations looked up so far, oldest first. -/
def Timed.addresses (s : Timed) : List UInt32 := lookups s.trace

/-- The destinations looked up so far and those waiting in the batch. -/
def Timed.seen (s : Timed) : List UInt32 := s.addresses ++ s.batchedFl4.map (·.daddr)

/-- The batch is not complete, and only whole batches have been looked up. -/
structure WellBatched (g : Settings) (s : Timed) : Prop where
  short : s.batchedFl4.length < g.batchCount.toNat
  whole : g.batchCount.toNat ∣ s.addresses.length

/-- Whole batches are looked up in the order of the iterations. -/
theorem WellBatched.addresses_eq {g : Settings} {s : Timed} (h : WellBatched g s) :
    s.addresses = s.seen.take (g.batchCount.toNat * (s.seen.length / g.batchCount.toNat)) := by
  obtain ⟨k, hk⟩ := h.whole
  have hlen : s.seen.length = s.batchedFl4.length + g.batchCount.toNat * k := by
    rw [Timed.seen, List.length_append, List.length_map, hk, Nat.add_comm]
  rw [hlen, Nat.add_mul_div_left _ _ g.batchCount.toNat_pos, Nat.div_eq_of_lt h.short,
    Nat.zero_add, ← hk, Timed.seen, List.take_left]

/-- A waiting destination is not looked up yet, the others have been seen. -/
theorem Timed.mem_seen {s : Timed} {a : UInt32} (h : a ∈ s.addresses) : a ∈ s.seen :=
  List.mem_append_left _ h

/-! ### Iterations -/

private theorem lookupBatch_addresses (env : Kernel) (j : Nat) (fl4s : List Flowi4)
    (trace : List Act) :
    lookups (lookupBatch env j fl4s trace).1 = lookups trace ++ fl4s.map (·.daddr) := by
  induction fl4s generalizing j trace with
  | nil => simp [lookupBatch]
  | cons fl4 fl4s ih =>
    simp [lookupBatch, ih]

private theorem timePlain_addresses (env : Kernel) (g : Settings) (s : Timed) :
    (s.timePlain env g).addresses = s.addresses ++ [s.daddr] := by
  unfold Timed.timePlain
  dsimp only
  split <;> simp [Timed.addresses, flowi4]

private theorem timePlain_batchedFl4 (env : Kernel) (g : Settings) (s : Timed) :
    (s.timePlain env g).batchedFl4 = s.batchedFl4 := by
  unfold Timed.timePlain
  dsimp only
  split <;> rfl

private theorem timePlain_daddr (env : Kernel) (g : Settings) (s : Timed) :
    (s.timePlain env g).daddr = s.daddr := by
  unfold Timed.timePlain
  dsimp only
  split <;> rfl

private theorem timeBatch_spec (env : Kernel) (batch : UInt64) (hb : batch ≠ 0) (s : Timed) :
    ∃ s', s.timeBatch env batch = .ok s' ∧ s'.addresses = s.seen ∧ s'.batchedFl4 = [] ∧
      s'.daddr = s.daddr := by
  have hlook := lookupBatch_addresses env 0 s.batchedFl4 (.getCycles :: s.trace)
  unfold Timed.timeBatch
  dsimp only
  split
  · refine ⟨_, rfl, ?_, rfl, rfl⟩
    simp [Timed.addresses, Timed.seen, hlook]
  · rw [udiv, if_neg hb]
    refine ⟨_, rfl, ?_, rfl, rfl⟩
    simp [Timed.addresses, Timed.seen, hlook]

/-- The timing part of an iteration never faults and takes in the current destination. -/
theorem Timed.time_spec (env : Kernel) (g : Settings) (s : Timed) (h : WellBatched g s) :
    ∃ s', s.time env g = .ok s' ∧ s'.seen = s.seen ++ [s.daddr] ∧ s'.daddr = s.daddr ∧
      WellBatched g s' := by
  have hpos := g.batchCount.toNat_pos
  unfold Timed.time
  split
  · next hb =>
    have hone : g.batchCount.toNat = 1 := by
      have hle : g.batchCount.toNat ≤ 1 := UInt64.le_iff_toNat_le.mp hb
      omega
    have hnil : s.batchedFl4 = [] := by
      have hshort := h.short
      rw [hone] at hshort
      exact List.length_eq_zero_iff.mp (by omega)
    refine ⟨_, rfl, ?_, timePlain_daddr env g s, ?_, ?_⟩
    · simp [seen, timePlain_addresses, timePlain_batchedFl4, hnil]
    · rw [timePlain_batchedFl4]
      exact h.short
    · rw [hone]
      exact Nat.one_dvd _
  · unfold Timed.collect
    dsimp only
    split
    · next hne =>
      refine ⟨_, rfl, ?_, rfl, ?_, h.whole⟩
      · simp [seen, addresses, flowi4]
      · have hshort := h.short
        have hlen : (s.batchedFl4 ++ [flowi4 g s.daddr]).length = s.batchedFl4.length + 1 := by
          simp
        rw [hlen] at hne ⊢
        change _ ≠ g.batchCount.toNat at hne
        omega
    · next heq =>
      obtain ⟨s', hs', ha, hnil, hd⟩ := timeBatch_spec env g.batchCount.val
        g.batchCount.val_ne_zero { s with
          trace := .write .batchedFl4 s.batchedFl4.length :: s.trace
          batchedFl4 := s.batchedFl4 ++ [flowi4 g s.daddr] }
      have hseen : s'.addresses = s.seen ++ [s.daddr] := by
        rw [ha]
        simp [seen, addresses, flowi4]
      refine ⟨s', hs', ?_, hd, ?_, ?_⟩
      · rw [seen, hseen, hnil]
        simp
      · rw [hnil]
        exact hpos
      · have hlen := congrArg List.length hseen
        have hfull := Decidable.not_not.mp heq
        change (s.batchedFl4 ++ [flowi4 g s.daddr]).length = g.batchCount.toNat at hfull
        simp only [seen, List.length_append, List.length_map, List.length_singleton] at hlen hfull
        rw [hlen, Nat.add_assoc, hfull]
        exact (Nat.dvd_add_right h.whole).mpr (Nat.dvd_refl _)

/-! ### Addresses of a scan -/

/-- The start of the range as a number. -/
def lower (g : Settings) : Nat := (ntohl g.flowDstIpaddrS).toNat

/-- The end of the range as a number. -/
def upper (g : Settings) : Nat := (ntohl g.flowDstIpaddrE).toNat

private theorem toNat_htonl_sum (start : UInt32) (offset : UInt64)
    (h : start.toNat + offset.toNat < 2 ^ 32) :
    (ntohl (htonl (start.toUInt64 + offset).toUInt32)).toNat = start.toNat + offset.toNat := by
  rw [ntohl_htonl, UInt64.toNat_toUInt32, UInt64.toNat_add, UInt32.toNat_toUInt64]
  omega

/-- An iteration of a scan takes an address from the start on, below the end. -/
theorem scanDaddr_spec (g : Settings) (delta i : UInt64) (hd : 0 < delta.toNat)
    (hfit : lower g + delta.toNat < 2 ^ 32) (hi : i.toNat < g.loopCount.toNat) :
    ∃ a, scanDaddr g delta i = .ok a ∧ lower g ≤ (ntohl a).toNat ∧
      (ntohl a).toNat < lower g + delta.toNat := by
  have hne {x : UInt64} (hx : 0 < x.toNat) : x ≠ 0 := by
    intro hzero
    rw [hzero] at hx
    exact absurd hx (by decide)
  unfold scanDaddr
  dsimp only
  split
  · have hmod : (i % delta).toNat < delta.toNat := by
      rw [UInt64.toNat_mod]
      exact Nat.mod_lt _ hd
    have hsum := toNat_htonl_sum (ntohl g.flowDstIpaddrS) (i % delta)
      (by unfold lower at hfit; omega)
    rw [umod, if_neg (hne hd)]
    refine ⟨_, rfl, ?_, ?_⟩
    · rw [hsum]
      exact Nat.le_add_right _ _
    · rw [hsum]
      exact Nat.add_lt_add_left hmod _
  · next hge =>
    have hcount : g.loopCount.toNat ≤ delta.toNat :=
      UInt64.le_iff_toNat_le.mp (UInt64.not_lt.mp hge)
    have hstep : delta.toNat / g.loopCount.toNat * i.toNat < delta.toNat := by
      have hone : 0 < delta.toNat / g.loopCount.toNat :=
        Nat.div_pos hcount g.loopCount.toNat_pos
      calc delta.toNat / g.loopCount.toNat * i.toNat
          < delta.toNat / g.loopCount.toNat * g.loopCount.toNat :=
            Nat.mul_lt_mul_of_pos_left hi hone
        _ ≤ delta.toNat := Nat.div_mul_le_self _ _
    have hoffset : (delta / g.loopCount.val * i).toNat =
        delta.toNat / g.loopCount.toNat * i.toNat := by
      rw [UInt64.toNat_mul, UInt64.toNat_div]
      exact Nat.mod_eq_of_lt (Nat.lt_trans hstep delta.toNat_lt)
    have hsum := toNat_htonl_sum (ntohl g.flowDstIpaddrS) (delta / g.loopCount.val * i)
      (by unfold lower at hfit; omega)
    rw [udiv, if_neg (hne g.loopCount.toNat_pos)]
    refine ⟨_, rfl, ?_, ?_⟩
    · rw [hsum]
      exact Nat.le_add_right _ _
    · rw [hsum, hoffset]
      exact Nat.add_lt_add_left hstep _

/-! ### Runs of the timed loop -/

/-- A destination of a scan: inside the range, its end excluded, and no loopback. -/
def Scanned (g : Settings) (delta : UInt64) (a : UInt32) : Prop :=
  lower g ≤ (ntohl a).toNat ∧ (ntohl a).toNat < lower g + delta.toNat ∧
    ipv4IsLoopback a = false

private theorem timedLoop_succ {env : Kernel} {g : Settings} {plan : ScanPlan} {n : Nat}
    {i : UInt64} {s s' : Timed} (h : s.iterate env g plan i = .ok s') :
    timedLoop env g plan (n + 1) i s = timedLoop env g plan n (i + 1) s' := by
  rw [timedLoop, h]
  rfl

private theorem toNat_add_one_le (i : UInt64) : (i + 1).toNat ≤ i.toNat + 1 := by
  rw [UInt64.toNat_add, UInt64.toNat_one]
  exact Nat.mod_le _ _

-- Rewriting with this keeps the kernel from evaluating the test that follows a bind.
theorem ok_bind {α β : Type} (a : α) (f : α → Except Fault β) :
    (Except.ok a >>= f) = f a := rfl

/-- An iteration of a scan skips a loopback address or takes in a scanned destination. -/
theorem Timed.iterate_scan (env : Kernel) (g : Settings) (delta i : UInt64) (s : Timed)
    (hd : 0 < delta.toNat) (hfit : lower g + delta.toNat < 2 ^ 32)
    (hi : i.toNat < g.loopCount.toNat) (hs : WellBatched g s) :
    ∃ s', s.iterate env g ⟨true, delta⟩ i = .ok s' ∧ WellBatched g s' ∧
      (s'.seen = s.seen ∨ ∃ a, Scanned g delta a ∧ s'.seen = s.seen ++ [a]) := by
  obtain ⟨a, ha, hlow, hhigh⟩ := scanDaddr_spec g delta i hd hfit hi
  unfold iterate
  rw [if_pos rfl, ha, ok_bind]
  by_cases hl : ipv4IsLoopback a = true
  · rw [if_pos hl]
    exact ⟨s, rfl, hs, Or.inl rfl⟩
  · obtain ⟨s', htime, hseen, -, hs'⟩ := time_spec env g { s with daddr := a }
      ⟨hs.short, hs.whole⟩
    rw [if_neg hl, htime]
    exact ⟨s', rfl, hs',
      Or.inr ⟨a, ⟨hlow, hhigh, Bool.eq_false_of_not_eq_true hl⟩, hseen⟩⟩

/-- A scan over a range of several addresses runs through, on scanned destinations. -/
theorem timedLoop_scan (env : Kernel) (g : Settings) (delta : UInt64) (hd : 0 < delta.toNat)
    (hfit : lower g + delta.toNat < 2 ^ 32) (n : Nat) (i : UInt64) (s : Timed)
    (hn : i.toNat + n ≤ g.loopCount.toNat) (hs : WellBatched g s)
    (hseen : ∀ a ∈ s.seen, Scanned g delta a) :
    ∃ s', timedLoop env g ⟨true, delta⟩ n i s = .ok s' ∧ WellBatched g s' ∧
      (∀ a ∈ s'.seen, Scanned g delta a) ∧ s'.seen.length ≤ s.seen.length + n := by
  induction n generalizing i s with
  | zero => exact ⟨s, rfl, hs, hseen, Nat.le_refl _⟩
  | succ n ih =>
    obtain ⟨s₁, hiter, hs₁, hseen₁⟩ := s.iterate_scan env g delta i hd hfit (by omega) hs
    have hall₁ : ∀ x ∈ s₁.seen, Scanned g delta x := by
      rcases hseen₁ with heq | ⟨a, ha, heq⟩
      · rw [heq]
        exact hseen
      · intro x hx
        rw [heq] at hx
        rcases List.mem_append.mp hx with hx | hx
        · exact hseen x hx
        · rw [List.mem_singleton.mp hx]
          exact ha
    have hlen₁ : s₁.seen.length ≤ s.seen.length + 1 := by
      rcases hseen₁ with heq | ⟨a, -, heq⟩
      · rw [heq]
        exact Nat.le_succ _
      · rw [heq, List.length_append, List.length_singleton]
    have hnext := toNat_add_one_le i
    obtain ⟨s', hrun, hb, hall, hlen⟩ := ih (i + 1) s₁ (by omega) hs₁ hall₁
    exact ⟨s', (timedLoop_succ hiter).trans hrun, hb, hall, by omega⟩

/-- Without a scan every iteration takes the same destination. -/
theorem timedLoop_fixed (env : Kernel) (g : Settings) (delta : UInt64) (n : Nat) (i : UInt64)
    (s : Timed) (hs : WellBatched g s) :
    ∃ s', timedLoop env g ⟨false, delta⟩ n i s = .ok s' ∧ WellBatched g s' ∧
      s'.seen = s.seen ++ List.replicate n s.daddr := by
  induction n generalizing i s with
  | zero => exact ⟨s, rfl, hs, by simp⟩
  | succ n ih =>
    obtain ⟨s₁, htime, hseen₁, hd₁, hs₁⟩ := Timed.time_spec env g s hs
    have hiter : s.iterate env g ⟨false, delta⟩ i = .ok s₁ := by
      unfold Timed.iterate
      rw [if_neg Bool.false_ne_true, htime]
    obtain ⟨s', hrun, hb, hseen⟩ := ih (i + 1) s₁ hs₁
    refine ⟨s', (timedLoop_succ hiter).trans hrun, hb, ?_⟩
    rw [hseen, hseen₁, hd₁, List.append_assoc]
    rfl

/-- A scan over an empty range stops in its first iteration, on `i % 0`. -/
theorem timedLoop_emptyScan (env : Kernel) (g : Settings) (n : Nat) (i : UInt64) (s : Timed) :
    timedLoop env g ⟨true, 0⟩ (n + 1) i s = .error .divideError := by
  have hlt : (0 : UInt64) < g.loopCount.val := UInt64.lt_iff_toNat_lt.mpr g.loopCount.toNat_pos
  unfold timedLoop Timed.iterate scanDaddr
  rw [if_pos rfl, if_pos hlt]
  rfl

/-! ### The range set-up -/

/-- The unsigned difference is never below zero, so nothing is ever swapped. -/
@[simp] theorem swapRange_eq (g : Settings) : g.swapRange = g := by
  unfold Settings.swapRange
  rw [if_neg]
  rw [UInt32.lt_iff_toNat_lt]
  exact Nat.not_lt_zero _

/-- The settings with the two configured addresses exchanged. -/
def Settings.exchanged (g : Settings) : Settings :=
  { g with flowDstIpaddrS := g.flowDstIpaddrE, flowDstIpaddrE := g.flowDstIpaddrS }

/-- The loop state in which the timed loop starts. -/
def Timed.start (g : Settings) : Timed :=
  { trace := [], daddr := g.flowDstIpaddrS, batchedFl4 := [], total := 0, results := [] }

/-- The loop starts on an empty batch. -/
theorem wellBatched_start (g : Settings) : WellBatched g (.start g) :=
  ⟨g.batchCount.toNat_pos, Nat.dvd_zero _⟩

/-- The swap never takes effect, so the loop runs on the settings as stored. -/
theorem runTimed_eq (env : Kernel) (g : Settings) (scan0 : Bool) :
    runTimed env g scan0 =
      timedLoop env g (setUpScan g scan0) g.loopCount.toNat 0 (.start g) := by
  unfold runTimed
  rw [swapRange_eq]
  rfl

/-- Over ascending addresses the scan is set up with their distance. -/
theorem setUpScan_ascending (g : Settings) (scan0 : Bool) (h : lower g < upper g) :
    (setUpScan g scan0).scan = true ∧
      lower g + (setUpScan g scan0).delta.toNat = upper g := by
  have hlt : ntohl g.flowDstIpaddrS < ntohl g.flowDstIpaddrE := UInt32.lt_iff_toNat_lt.mpr h
  unfold setUpScan
  rw [if_pos hlt]
  refine ⟨rfl, ?_⟩
  rw [UInt32.toNat_toUInt64, UInt32.toNat_sub_of_le _ _ (UInt32.le_of_lt hlt)]
  unfold lower upper at *
  omega

private theorem setUpScan_other (g : Settings) (scan0 : Bool) (h : ¬ lower g < upper g) :
    setUpScan g scan0 = ⟨scan0, 0⟩ := by
  unfold setUpScan
  rw [if_neg]
  exact fun hlt ↦ h (UInt32.lt_iff_toNat_lt.mp hlt)

/-! ### What the runs look up -/

/-- With ascending addresses the run scans the range without its end. -/
theorem runTimed_ascending (env : Kernel) (g : Settings) (scan0 : Bool)
    (h : lower g < upper g) :
    ∃ s, runTimed env g scan0 = .ok s ∧ WellBatched g s ∧
      (∀ a ∈ s.addresses, lower g ≤ (ntohl a).toNat ∧ (ntohl a).toNat < upper g ∧
        ipv4IsLoopback a = false) ∧
      s.seen.length ≤ g.loopCount.toNat := by
  obtain ⟨hscan, hdelta⟩ := setUpScan_ascending g scan0 h
  have hupper : upper g < 2 ^ 32 := (ntohl g.flowDstIpaddrE).toNat_lt
  rw [runTimed_eq]
  generalize setUpScan g scan0 = plan at *
  obtain ⟨scan, delta⟩ := plan
  cases hscan
  dsimp only at hdelta
  obtain ⟨s, hrun, hb, hall, hlen⟩ := timedLoop_scan env g delta (by omega) (by omega)
    g.loopCount.toNat 0 (.start g) (by simp) (wellBatched_start g)
    (by intro a ha; cases ha)
  refine ⟨s, hrun, hb, ?_, ?_⟩
  · intro a ha
    obtain ⟨hlow, hhigh, hloop⟩ := hall a (Timed.mem_seen ha)
    exact ⟨hlow, by omega, hloop⟩
  · change s.seen.length ≤ 0 + g.loopCount.toNat at hlen
    omega

/-- With descending or equal addresses the run looks up the start address only, if the
uninitialised `scan` happens to be false, and faults otherwise. -/
theorem runTimed_other (env : Kernel) (g : Settings) (scan0 : Bool)
    (h : ¬ lower g < upper g) :
    if scan0 then runTimed env g scan0 = .error .divideError
    else ∃ s, runTimed env g scan0 = .ok s ∧ WellBatched g s ∧
      s.seen = List.replicate g.loopCount.toNat g.flowDstIpaddrS := by
  rw [runTimed_eq, setUpScan_other g scan0 h]
  cases scan0 with
  | true =>
    obtain ⟨n, hn⟩ := Nat.exists_eq_succ_of_ne_zero (Nat.ne_of_gt g.loopCount.toNat_pos)
    rw [if_pos rfl, hn]
    exact timedLoop_emptyScan env g n 0 _
  | false => exact timedLoop_fixed env g 0 g.loopCount.toNat 0 _ (wellBatched_start g)

/-- A destination inside the configured range, in either order. -/
def InRange (g : Settings) (a : UInt32) : Prop :=
  min (lower g) (upper g) ≤ (ntohl a).toNat ∧ (ntohl a).toNat ≤ max (lower g) (upper g)

/-- A run does not fault and keeps to its range and, while it scans, away from loopback. -/
def KeepsToRange (env : Kernel) (g : Settings) (scan0 : Bool) (s : Timed) : Prop :=
  runTimed env g scan0 = .ok s ∧ (∀ a ∈ s.addresses, InRange g a) ∧
    ((setUpScan g.swapRange scan0).scan = true → ∀ a ∈ s.addresses, ipv4IsLoopback a = false)

/-- For any routes and clock, the runs with the addresses as configured and exchanged
keep to the range and look up the same destinations. -/
def TimedOrderFree (g : Settings) (scan0 : Bool) : Prop :=
  ∀ env env', ∃ s s', KeepsToRange env g scan0 s ∧ KeepsToRange env' g.exchanged scan0 s' ∧
    s.addresses = s'.addresses

private theorem timedOrderFree_exchanged (g : Settings) (scan0 : Bool) :
    TimedOrderFree g.exchanged scan0 ↔ TimedOrderFree g scan0 := by
  constructor
  · intro h env env'
    obtain ⟨s, s', hs, hs', heq⟩ := h env' env
    exact ⟨s', s, hs', hs, heq.symm⟩
  · intro h env env'
    obtain ⟨s, s', hs, hs', heq⟩ := h env' env
    exact ⟨s', s, hs', hs, heq.symm⟩

private theorem addresses_nil (g : Settings) (s : Timed) (hb : WellBatched g s)
    (hlen : s.seen.length < g.batchCount.toNat) : s.addresses = [] := by
  rw [hb.addresses_eq, Nat.div_eq_of_lt hlen, Nat.mul_zero, List.take_zero]

private theorem keepsToRange_fixed (env : Kernel) (g : Settings) (s : Timed)
    (h : ¬ lower g < upper g) (hrun : runTimed env g false = .ok s)
    (hall : ∀ a ∈ s.addresses, a = g.flowDstIpaddrS) : KeepsToRange env g false s := by
  refine ⟨hrun, ?_, ?_⟩
  · intro a ha
    rw [hall a ha]
    change _ ≤ lower g ∧ lower g ≤ _
    omega
  · rw [swapRange_eq, setUpScan_other g false h]
    intro hscan
    cases hscan

private theorem timedOrderFree_iff_of_ascending (g : Settings) (scan0 : Bool)
    (h : lower g < upper g) :
    TimedOrderFree g scan0 ↔ scan0 = false ∧ g.loopCount.toNat < g.batchCount.toNat := by
  have hother : ¬ lower g.exchanged < upper g.exchanged := by
    change ¬ upper g < lower g
    omega
  constructor
  · intro hfree
    obtain ⟨s, s', ⟨hs, -, -⟩, ⟨hs', -, -⟩, heq⟩ := hfree .allReachable .allReachable
    obtain ⟨t, ht, -, hscanned, -⟩ := runTimed_ascending .allReachable g scan0 h
    obtain rfl : s = t := Except.ok.inj (hs.symm.trans ht)
    have hrun' := runTimed_other .allReachable g.exchanged scan0 hother
    cases scan0 with
    | true =>
      rw [if_pos rfl, hs'] at hrun'
      cases hrun'
    | false =>
      refine ⟨rfl, ?_⟩
      obtain ⟨t', ht', hb', hseen'⟩ := hrun'
      obtain rfl : s' = t' := Except.ok.inj (hs'.symm.trans ht')
      by_contra hge
      -- A whole batch of end addresses was looked up, and the scan never takes the end.
      have hlen : 0 < s'.addresses.length := by
        have hsum := congrArg List.length hseen'
        have hshort := hb'.short
        rw [Timed.seen, List.length_append, List.length_map, List.length_replicate] at hsum
        change s'.batchedFl4.length < g.batchCount.toNat at hshort
        change _ = g.loopCount.toNat at hsum
        omega
      obtain ⟨a, ha⟩ := List.exists_mem_of_length_pos hlen
      have hmem := Timed.mem_seen ha
      rw [hseen'] at hmem
      have haend : a = g.flowDstIpaddrE := List.eq_of_mem_replicate hmem
      rw [← heq] at ha
      have hlt := (hscanned a ha).2.1
      rw [haend] at hlt
      exact Nat.lt_irrefl _ hlt
  · rintro ⟨rfl, hlt⟩ env env'
    obtain ⟨s, hs, hb, -, hlen⟩ := runTimed_ascending env g false h
    obtain ⟨s', hs', hb', hseen'⟩ := runTimed_other env' g.exchanged false hother
    have hnil : s.addresses = [] := addresses_nil g s hb (by omega)
    have hnil' : s'.addresses = [] := by
      apply addresses_nil g.exchanged s' hb'
      rw [hseen', List.length_replicate]
      exact hlt
    refine ⟨s, s', ⟨hs, ?_, ?_⟩, ⟨hs', ?_, ?_⟩, hnil.trans hnil'.symm⟩ <;> simp [hnil, hnil']

private theorem addresses_eq_iff (g : Settings) :
    g.flowDstIpaddrS = g.flowDstIpaddrE ↔ lower g = upper g := by
  constructor
  · intro heq
    rw [lower, upper, heq]
  · intro heq
    have hhost : ntohl g.flowDstIpaddrS = ntohl g.flowDstIpaddrE := UInt32.toNat_inj.mp heq
    have hback := congrArg htonl hhost
    rwa [htonl_ntohl, htonl_ntohl] at hback

private theorem timedOrderFree_iff_of_equal (g : Settings) (scan0 : Bool)
    (heq : lower g = upper g) : TimedOrderFree g scan0 ↔ scan0 = false := by
  have hother : ¬ lower g < upper g := by omega
  have hsame : g.exchanged = g := by
    have hs := (addresses_eq_iff g).mpr heq
    cases g
    cases hs
    rfl
  constructor
  · intro hfree
    obtain ⟨s, -, ⟨hs, -, -⟩, -, -⟩ := hfree .allReachable .allReachable
    have hrun := runTimed_other .allReachable g scan0 hother
    cases scan0 with
    | true =>
      rw [if_pos rfl, hs] at hrun
      cases hrun
    | false => rfl
  · rintro rfl env env'
    obtain ⟨s, hs, hb, hseen⟩ := runTimed_other env g false hother
    obtain ⟨s', hs', hb', hseen'⟩ := runTimed_other env' g false hother
    have hall {t : Timed} (ht : t.seen = List.replicate g.loopCount.toNat g.flowDstIpaddrS) :
        ∀ a ∈ t.addresses, a = g.flowDstIpaddrS := by
      intro a ha
      have hmem := Timed.mem_seen ha
      rw [ht] at hmem
      exact List.eq_of_mem_replicate hmem
    rw [hsame]
    refine ⟨s, s', keepsToRange_fixed env g s hother hs (hall hseen),
      keepsToRange_fixed env' g s' hother hs' (hall hseen'), ?_⟩
    rw [hb.addresses_eq, hb'.addresses_eq, hseen, hseen']

private theorem timedOrderFree_iff (g : Settings) (scan0 : Bool) :
    TimedOrderFree g scan0 ↔ scan0 = false ∧
      (g.flowDstIpaddrS = g.flowDstIpaddrE ∨ g.loopCount.toNat < g.batchCount.toNat) := by
  rw [addresses_eq_iff]
  rcases Nat.lt_trichotomy (lower g) (upper g) with hlt | heq | hgt
  · rw [timedOrderFree_iff_of_ascending g scan0 hlt]
    have hne := Nat.ne_of_lt hlt
    simp [hne]
  · rw [timedOrderFree_iff_of_equal g scan0 heq]
    simp [heq]
  · rw [← timedOrderFree_exchanged, timedOrderFree_iff_of_ascending g.exchanged scan0 hgt]
    have hne := Nat.ne_of_gt hgt
    simp [hne, Settings.exchanged]

/-- Whatever the routes, the clock and the allocations, `do_bench` does not fault. -/
def Faultless (g : Settings) (scan0 : Bool) : Prop :=
  ∀ env grants, ∃ outcome, doBench env grants g scan0 = .ok outcome

/-- What the swap is for: no fault, and the same destinations, all in range, for the
addresses as configured and exchanged. -/
structure OrderFree (g : Settings) (scan0 : Bool) : Prop where
  faultless : Faultless g scan0
  exchanged : Faultless g.exchanged scan0
  timed : TimedOrderFree g scan0

-- No count is zero, so only the timed loop may divide by zero.
private theorem faultless_of_timed {g : Settings} {scan0 : Bool}
    (h : ∀ env, ∃ s, runTimed env g scan0 = .ok s) : Faultless g scan0 := by
  intro env grants
  unfold doBench
  dsimp only
  rw [udiv, if_neg g.swapRange.batchCount.val_ne_zero, ok_bind]
  split
  · exact ⟨_, rfl⟩
  · split
    · exact ⟨_, rfl⟩
    · next trace _ =>
      obtain ⟨s, hs⟩ := h (env.after trace)
      rw [hs]
      exact ⟨_, rfl⟩

/-- `do_bench` does not fault, keeps to the range and does not depend on the order of the
two addresses exactly when `scan` starts out false and the two addresses are equal or not
even one batch is complete. -/
theorem orderFree_iff (g : Settings) (scan0 : Bool) :
    OrderFree g scan0 ↔ scan0 = false ∧
      (g.flowDstIpaddrS = g.flowDstIpaddrE ∨ g.loopCount.toNat < g.batchCount.toNat) := by
  rw [← timedOrderFree_iff]
  constructor
  · intro h
    exact h.timed
  · intro h
    refine ⟨faultless_of_timed ?_, faultless_of_timed ?_, h⟩
    · intro env
      obtain ⟨s, -, ⟨hs, -, -⟩, -, -⟩ := h env env
      exact ⟨s, hs⟩
    · intro env
      obtain ⟨-, s', -, ⟨hs', -, -⟩, -⟩ := h env env
      exact ⟨s', hs'⟩

/-- One destination, looked up twice. -/
def oneAddress : Settings where
  warmupCount := .one
  loopCount := .two
  batchCount := .one
  flowOif := 0
  flowIif := 0
  flowTos := 0
  flowMark := 0
  flowDstIpaddrS := htonl 0xc0000201
  flowDstIpaddrE := htonl 0xc0000201
  flowSrcIpaddr := 0

/-- With equal addresses and a `scan` that starts out true the kernel divides by zero; with
`192.0.2.1` and `192.0.2.3` in the wrong order the run never leaves the first address. -/
theorem oneAddress_divideError :
    doBench .allReachable (fun _ _ ↦ true) oneAddress true = .error .divideError ∧
      ¬ OrderFree oneAddress true ∧
      ¬ OrderFree { oneAddress with flowDstIpaddrS := htonl 0xc0000203 } false := by
  refine ⟨rfl, ?_, ?_⟩
  · intro hfree
    obtain ⟨s, -, ⟨hs, -, -⟩, -, -⟩ := hfree.timed .allReachable .allReachable
    cases hs
  · intro hfree
    obtain ⟨s, s', ⟨hs, -, -⟩, ⟨hs', -, -⟩, heq⟩ := hfree.timed .allReachable .allReachable
    obtain rfl := Except.ok.inj hs
    obtain rfl := Except.ok.inj hs'
    exact absurd heq (by decide)

end NetworkLab.Kbench.Ipv4
