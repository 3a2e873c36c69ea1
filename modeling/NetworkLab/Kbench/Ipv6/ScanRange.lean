import NetworkLab.Kbench.Ipv6.Bench
import NetworkLab.Kbench.Ipv6.LongDivision
import Mathlib.Tactic.IntervalCases

/-!
# Destinations of the IPv6 scan

Where the addresses of `lab-routes-ipv6/2026/kbench_mod.c:299–336` lie. The steps drop
carries between limbs, so an address can fall below the start. A run that drops none
stays between the configured addresses; this holds even though the subtraction loop
negates a limb that borrows, since the first limb where start and end differ is exact
and the limbs after it cannot lift the sum past the end without a carry.
-/

namespace NetworkLab.Kbench.Ipv6

open Lib

/-- The configured range, inclusive, as 128-bit integers. -/
def InRange (g : Settings) (daddr : In6Addr) : Prop :=
  g.flowDstIpaddrS.toNat ≤ daddr.toNat ∧ daddr.toNat ≤ g.flowDstIpaddrE.toNat

instance (g : Settings) (daddr : In6Addr) : Decidable (InRange g daddr) :=
  inferInstanceAs (Decidable (_ ∧ _))

/-- No limb of a sum reaches `2 ^ 32`, so limb-wise addition drops nothing. -/
def NoCarry (xs ys : List Nat) : Prop :=
  Limbs.Bounded (2 ^ 32) (List.zipWith (· + ·) xs ys)

instance (xs ys : List Nat) : Decidable (NoCarry xs ys) :=
  inferInstanceAs (Decidable (∀ x ∈ List.zipWith (· + ·) xs ys, x < 2 ^ 32))

/-- The additions of the next iteration drop no carry: neither that of `delta` to the
current address nor, when that sum passes the end, that of the masked `delta` to the
start. -/
def KeepsCarries (g : Settings) (plan : ScanPlan) (c : Cursor) : Prop :=
  plan.scan = true →
    NoCarry (hostLimbs c.daddr.s6Addr32) (hostLimbs plan.delta.s6Addr32) ∧
    (passesEnd g (c.plainStep plan.delta) = true →
      NoCarry (hostLimbs g.flowDstIpaddrS.s6Addr32)
        (maskedLimbs c.rnd plan.delta.s6Addr32).1)

instance (g : Settings) (plan : ScanPlan) (c : Cursor) : Decidable (KeepsCarries g plan c) :=
  inferInstanceAs (Decidable (_ → _))

/-! ### The set-up -/

private theorem zipWith_mod_eq {xs ys : List Nat} (h : NoCarry xs ys) :
    List.zipWith (fun x y ↦ (x + y) % 2 ^ 32) xs ys = List.zipWith (· + ·) xs ys := by
  induction xs generalizing ys with
  | nil => simp
  | cons x xs ih =>
    cases ys with
    | nil => simp
    | cons y ys =>
      obtain ⟨hx, hxs⟩ := Limbs.bounded_cons.mp h
      simp only [List.zipWith_cons_cons, ih hxs, Nat.mod_eq_of_lt hx]

/-- Adding a limb-wise lowered `ds` to the start stays below the end whenever `ds` is at
most the computed difference and no limb carries. The induction runs from the most
significant limb; it stops at the first limb whose sum stays strictly below. -/
theorem value_start_add_le {ss es : List UInt32} {ds ms : List Nat}
    (hl : ss.length = es.length) (hds : ds.length = ss.length)
    (hb : Limbs.Bounded (2 ^ 32) ds) (hc : (subtractLimbs ss es).2 = 0)
    (hd : Limbs.value (2 ^ 32) ds ≤
      Limbs.value (2 ^ 32) (limbNats (subtractLimbs ss es).1))
    (hm : List.Forall₂ (· ≤ ·) ms ds) (hn : NoCarry (hostLimbs ss) ms) :
    Limbs.value (2 ^ 32) (List.zipWith (· + ·) (hostLimbs ss) ms) ≤
      Limbs.value (2 ^ 32) (hostLimbs es) := by
  induction ss generalizing es ds ms with
  | nil => simp
  | cons s ss ih =>
    cases es with
    | nil => simp at hl
    | cons e es =>
      cases hm with
      | nil => simp at hds
      | @cons m d ms ds hmd hms =>
        have hl' : ss.length = es.length := by simpa using hl
        have hds' : ds.length = ss.length := by simpa using hds
        have hms' : ms.length = ss.length := hms.length_eq.trans hds'
        obtain ⟨_, hbt⟩ := Limbs.bounded_cons.mp hb
        obtain ⟨_, hnt⟩ := Limbs.bounded_cons.mp hn
        obtain ⟨hle, hlimbs⟩ := subtractLimbs_head hl' hc
        have hdl : ds.length = (limbNats (subtractLimbs ss es).1).length := by
          simp [hds', hl']
        rw [hlimbs] at hd
        simp only [hostLimbs_cons, List.zipWith_cons_cons]
        -- The lexicographic comparison of `ds` with the difference, at this limb.
        have hlex := Limbs.value_cons_lt_iff hdl.symm (bounded_limbNats (subtractLimbs ss es).1)
          hbt (x := (ntohl e).toNat - (ntohl s).toNat - (subtractLimbs ss es).2.toNat)
          (y := d)
        have hnot := mt hlex.mpr (Nat.not_lt.mpr hd)
        have hstrict (h : (ntohl s).toNat + m < (ntohl e).toNat) :
            Limbs.value (2 ^ 32) (((ntohl s).toNat + m) ::
              List.zipWith (· + ·) (hostLimbs ss) ms) ≤
            Limbs.value (2 ^ 32) ((ntohl e).toNat :: hostLimbs es) :=
          Nat.le_of_lt (Limbs.value_cons_lt (by simp [hms', hl']) hnt h)
        by_cases hlt : (ntohl s).toNat + m < (ntohl e).toNat
        · exact hstrict hlt
        · -- Then nothing is borrowed from below and the limb equals the difference.
          have hcarry : (subtractLimbs ss es).2.toNat = 0 := by omega
          have heq : (ntohl s).toNat + m = (ntohl e).toNat := by omega
          have htail : Limbs.value (2 ^ 32) ds ≤
              Limbs.value (2 ^ 32) (limbNats (subtractLimbs ss es).1) := by
            apply Nat.not_lt.mp
            intro h
            exact hnot (Or.inr ⟨by omega, h⟩)
          have hzero : (subtractLimbs ss es).2 = 0 := UInt64.toNat_inj.mp hcarry
          rw [heq]
          exact (Limbs.value_cons_le (by simp [hms', hl'])).mpr
            (ih hl' hds' hbt hzero htail hms hnt)

private theorem subtract_eq_zero {g : Settings}
    (hle : g.flowDstIpaddrS.toNat ≤ g.flowDstIpaddrE.toNat) :
    (subtractLimbs g.flowDstIpaddrS.s6Addr32 g.flowDstIpaddrE.s6Addr32).2 = 0 := by
  unfold In6Addr.toNat at hle
  rw [subtractLimbs_carry (by simp [In6Addr.length_eq]), if_neg (Nat.not_lt.mpr hle)]

private theorem value_pos_of_any {ls : List UInt32} (h : ls.any (· != 0) = true) :
    1 ≤ Limbs.value (2 ^ 32) (limbNats ls) := by
  by_contra hzero
  have hall := (value_limbNats_eq_zero_iff ls).mp (by omega)
  simp only [List.any_eq_true, List.all_eq_true, bne_iff_ne, beq_iff_eq] at h hall
  obtain ⟨l, hl, hne⟩ := h
  exact hne (hall l hl)

private theorem hostLimbs_of_zero {ls : List UInt32} (h : ∀ l ∈ ls, l = 0) :
    hostLimbs ls = limbNats ls := by
  unfold hostLimbs limbNats
  apply List.map_congr_left
  intro l hl
  rw [h l hl, ntohl_zero]

/-- Whatever `scan` was before, `delta` is at most the computed difference when the start
is at most the end. -/
theorem setUpScan_delta_le (g : Settings) (scan0 : Bool)
    (hle : g.flowDstIpaddrS.toNat ≤ g.flowDstIpaddrE.toNat) :
    Limbs.value (2 ^ 32) (hostLimbs (setUpScan g scan0).delta.s6Addr32) ≤
      Limbs.value (2 ^ 32) (limbNats
        (subtractLimbs g.flowDstIpaddrS.s6Addr32 g.flowDstIpaddrE.s6Addr32).1) := by
  have hc := subtract_eq_zero hle
  unfold setUpScan
  simp only [hc, true_and]
  split
  · next h =>
    rw [hostLimbs_map_htonl]
    apply atLeastOne_value_le _ (value_pos_of_any h)
    · exact divideLimbs_value_le _ g.loopCount.one_le _
    · simp [In6Addr.length_eq]
  · next h => rw [hostLimbs_of_zero (by simpa using h)]

/-! ### One step -/

private theorem passesEnd_iff (g : Settings) (a : In6Addr) :
    passesEnd g a = true ↔ g.flowDstIpaddrE.toNat < a.toNat :=
  exceeds_iff (by simp [In6Addr.length_eq])

/-- A plain step that drops no carry adds `delta`. -/
theorem plainStep_toNat (delta : In6Addr) (c : Cursor)
    (h : NoCarry (hostLimbs c.daddr.s6Addr32) (hostLimbs delta.s6Addr32)) :
    (c.plainStep delta).toNat = c.daddr.toNat + delta.toNat := by
  simp only [In6Addr.toNat, Cursor.plainStep, hostLimbs_addLimbs, zipWith_mod_eq h]
  apply Limbs.value_zipWith_add
  simp [In6Addr.length_eq]

/-- A restart that drops no carry adds the masked `delta` to the start. -/
theorem restart_toNat (start delta : In6Addr) (c : Cursor)
    (h : NoCarry (hostLimbs start.s6Addr32) (maskedLimbs c.rnd delta.s6Addr32).1) :
    (c.restart start delta).daddr.toNat =
      Limbs.value (2 ^ 32) (List.zipWith (· + ·) (hostLimbs start.s6Addr32)
        (maskedLimbs c.rnd delta.s6Addr32).1) := by
  obtain ⟨_, _, hlimbs⟩ := jitterLimbs_eq c.rnd
    (show start.s6Addr32.length = delta.s6Addr32.length by simp [In6Addr.length_eq])
  simp only [In6Addr.toNat, Cursor.restart, hlimbs, zipWith_mod_eq h]

/-- One scan step keeps the destination in range when it drops no carry. -/
theorem advance_inRange (g : Settings) (scan0 : Bool) (c : Cursor)
    (hle : g.flowDstIpaddrS.toNat ≤ g.flowDstIpaddrE.toNat)
    (hk : KeepsCarries g (setUpScan g scan0) c) (hc : InRange g c.daddr) :
    InRange g (c.advance g (setUpScan g scan0)).daddr := by
  have hdelta := setUpScan_delta_le g scan0 hle
  generalize setUpScan g scan0 = plan at hk hdelta ⊢
  unfold Cursor.advance
  split
  · next hs =>
    obtain ⟨hplain, hrestart⟩ := hk hs
    dsimp only
    split
    · next hpast =>
      have hn := hrestart hpast
      refine ⟨?_, ?_⟩
      · rw [restart_toNat _ _ _ hn, Limbs.value_zipWith_add (by simp [In6Addr.length_eq])]
        exact Nat.le_add_right _ _
      · rw [restart_toNat _ _ _ hn]
        exact value_start_add_le (by simp [In6Addr.length_eq]) (by simp [In6Addr.length_eq])
          (bounded_hostLimbs _) (subtract_eq_zero hle) hdelta (maskedLimbs_le _ _) hn
    · next hin =>
      rw [passesEnd_iff, Nat.not_lt] at hin
      refine ⟨?_, hin⟩
      rw [plainStep_toNat _ _ hplain]
      exact Nat.le_trans hc.1 (Nat.le_add_right _ _)
  · exact hc

/-! ### Runs of the timed loop -/

/-- The loop state `s` moved on by `k` iterations. -/
def Timed.after (env : Kernel) (g : Settings) (batch : UInt64) (plan : ScanPlan) (k : Nat)
    (s : Timed) : Timed :=
  (Timed.iterate env g batch plan)^[k] s

/-- Iteration `k` of the timed loop started in `s` takes place. -/
def Executes (env : Kernel) (g : Settings) (batch : UInt64) (plan : ScanPlan) (s : Timed)
    (k : Nat) : Prop :=
  k < g.maxLoopCount.toNat ∧ (s.after env g batch plan k).total < g.loopCount.toNat

/-- Every flow looked up so far has its destination in range. -/
def LookupsInRange (g : Settings) (trace : List Act) : Prop :=
  ∀ fl6, .lookup fl6 ∈ trace → InRange g fl6.daddr

private theorem timedLoop_lookups (env : Kernel) (g : Settings) (batch : UInt64)
    (scan0 : Bool) (hle : g.flowDstIpaddrS.toNat ≤ g.flowDstIpaddrE.toNat) (n : Nat)
    (s : Timed) (hc : InRange g s.cursor.daddr) (ht : LookupsInRange g s.trace)
    (hk : ∀ k < n, (s.after env g batch (setUpScan g scan0) k).total < g.loopCount.toNat →
      KeepsCarries g (setUpScan g scan0) (s.after env g batch (setUpScan g scan0) k).cursor) :
    LookupsInRange g (timedLoop env g batch (setUpScan g scan0) n s).trace := by
  induction n generalizing s with
  | zero => exact ht
  | succ n ih =>
    unfold timedLoop
    split
    · exact ht
    · next hlt =>
      have hstep := advance_inRange g scan0 s.cursor hle
        (hk 0 (Nat.succ_pos n) (Nat.not_le.mp hlt)) hc
      apply ih
      · rw [Timed.iterate_cursor]
        exact hstep
      · intro fl6 hfl
        rcases (s.lookup_mem_iterate env g batch _ fl6).mp hfl with h | h
        · rw [h]
          exact hstep
        · exact ht fl6 h
      · intro k hkn
        exact hk (k + 1) (Nat.succ_lt_succ hkn)

private theorem warmUp_lookups (env : Kernel) (fl6 : Flowi6) (n : Nat) (t t' : List Act)
    (h : warmUp env fl6 n t = .ok t') (fl : Flowi6) (hfl : .lookup fl ∈ t') :
    fl = fl6 ∨ .lookup fl ∈ t := by
  induction n generalizing t with
  | zero =>
    cases h
    exact Or.inr hfl
  | succ n ih =>
    unfold warmUp at h
    dsimp only at h
    split at h
    · cases h
    · rcases ih _ h with he | hm
      · exact Or.inl he
      · simpa using hm

/-- In a run whose iterations drop no carry, every destination handed to
`ip6_route_output` by the warm-up and the timed loop lies between the configured
addresses, for any routes, clock, batch and initial content of `scan`. -/
theorem runTimed_lookups_inRange (env : Kernel) (g : Settings) (batch : UInt64)
    (scan0 : Bool) (trace : List Act)
    (hle : g.flowDstIpaddrS.toNat ≤ g.flowDstIpaddrE.toNat)
    (hw : warmUp env (flowi6 g g.flowDstIpaddrS) g.warmupCount.toNat [] = .ok trace)
    (hk : ∀ k, Executes env g batch (setUpScan g scan0) (.start g trace) k →
      KeepsCarries g (setUpScan g scan0)
        ((Timed.start g trace).after env g batch (setUpScan g scan0) k).cursor) :
    LookupsInRange g (runTimed env g batch scan0 trace).trace := by
  have hs : InRange g g.flowDstIpaddrS := ⟨Nat.le_refl _, hle⟩
  apply timedLoop_lookups env g batch scan0 hle
  · exact hs
  · intro fl6 hfl
    rcases warmUp_lookups env _ _ _ _ hw fl6 hfl with h | h
    · rw [h]
      exact hs
    · simp at h
  · intro k hkn ht
    exact hk k ⟨hkn, ht⟩

/-- Two iterations over `2001:db8::` and `2001:db8::1`: a plain step and a restart, both
without a carry. -/
def carryFree : Settings where
  warmupCount := .one
  loopCount := .two
  maxLoopCount := .two
  batchCount := .one
  flowOif := 0
  flowIif := 0
  flowLabel := 0
  flowMark := 0
  flowDstIpaddrS := .ofHost 0x20010db8 0 0 0
  flowDstIpaddrE := .ofHost 0x20010db8 0 0 1
  flowSrcIpaddr := .ofHost 0 0 0 0

/-- A run with two iterations that drop no carry, with its destinations in range. -/
theorem carryFree_lookups_inRange :
    LookupsInRange carryFree (runTimed .allReachable carryFree 1 true
      [.lookup (flowi6 carryFree carryFree.flowDstIpaddrS)]).trace := by
  refine runTimed_lookups_inRange _ _ _ _ _ (by decide) rfl ?_
  rintro k ⟨hk, -⟩
  have hk' : k < 2 := hk
  interval_cases k <;> decide

/-- The range `2001:db8::8000:0` to `2001:db8::1:8000:0` in two steps of `::8000:0`; the
first one carries out of the last limb. -/
def lostCarry : Settings :=
  { carryFree with
    flowDstIpaddrS := .ofHost 0x20010db8 0 0 0x80000000
    flowDstIpaddrE := .ofHost 0x20010db8 0 1 0x80000000 }

/-- The carry of that first step is dropped and `2001:db8::` is looked up, which is below
the start. -/
theorem lostCarry_lookup_below_start :
    lostCarry.flowDstIpaddrS.toNat ≤ lostCarry.flowDstIpaddrE.toNat ∧
      ∃ trace fl6,
        warmUp .allReachable (flowi6 lostCarry lostCarry.flowDstIpaddrS)
          lostCarry.warmupCount.toNat [] = .ok trace ∧
        .lookup fl6 ∈ (runTimed .allReachable lostCarry 1 false trace).trace ∧
        fl6.daddr = .ofHost 0x20010db8 0 0 0 ∧
        fl6.daddr.toNat < lostCarry.flowDstIpaddrS.toNat := by
  refine ⟨by decide, _, flowi6 lostCarry (.ofHost 0x20010db8 0 0 0), rfl, ?_, rfl, ?_⟩
  · decide
  · decide

end NetworkLab.Kbench.Ipv6
