import NetworkLab.Kbench.Ipv6.Bench
import NetworkLab.Kbench.Percentile
import NetworkLab.Lib.Unsigned

/-!
# Averages of the recorded cycles

`average` of `lab-routes-ipv4/2026/kbench_mod.c:125–141` keeps the sum of the samples as a
quotient and a remainder, so that it does not wrap. `do_bench` of
`lab-routes-ipv6/2026/kbench_mod.c` adds the samples up, `:298`, `:369` and `:386`, and divides
at the end, `:404`.
-/

namespace NetworkLab.Kbench

open Lib

/-- The exact sum of some samples. -/
def exactSum (results : List UInt64) : Nat := (results.map UInt64.toNat).sum

private theorem exactSum_cons (r : UInt64) (rs : List UInt64) :
    exactSum (r :: rs) = r.toNat + exactSum rs := List.sum_cons

/-- A sample more. -/
theorem exactSum_take_succ {results : List UInt64} {i : Nat} (h : i < results.length) :
    exactSum (results.take (i + 1)) = exactSum (results.take i) + results[i].toNat := by
  rw [List.take_add_one, List.getElem?_eq_getElem h, Option.toList_some, exactSum, List.map_append,
    List.sum_append, List.map_singleton, List.sum_singleton]
  rfl

private theorem exactSum_add_length_le (results : List UInt64) :
    exactSum results + results.length ≤ results.length * 2 ^ 64 := by
  induction results with
  | nil => exact Nat.le_refl _
  | cons r rs ih =>
    have hr := r.toNat_lt
    rw [exactSum_cons, List.length_cons, Nat.succ_mul]
    omega

/-- The first samples add up to less than `2 ^ 64` for each of all. -/
theorem exactSum_take_lt {results : List UInt64} {count : UInt32}
    (hlength : results.length = count.toNat) (hcount : 0 < count.toNat) {i : Nat}
    (hi : i ≤ count.toNat) : exactSum (results.take i) < count.toNat * 2 ^ 64 := by
  have hle := exactSum_add_length_le (results.take i)
  rw [List.length_take, hlength] at hle
  omega

namespace Ipv4

/-- The locals of the loop of `average`. -/
structure Averaging where
  avg : UInt64
  remainder : UInt64

/-- A pass of the loop, `:131–138`. -/
def Averaging.pass (count : UInt32) (s : Averaging) (result : UInt64) : Averaging :=
  let avg := s.avg + result / count.toUInt64
  let remainder1 := result % count.toUInt64
  if count.toUInt64 - remainder1 ≤ s.remainder then
    ⟨avg + 1, s.remainder - (count.toUInt64 - remainder1)⟩
  else ⟨avg, s.remainder + remainder1⟩

/-- The loop up to a value of its counter, `:129–139`. -/
def averageLoop (results : List UInt64) (count : UInt32) :
    (i : Nat) → Except OutOfBounds Averaging
  | 0 => .ok ⟨0, 0⟩
  | i + 1 => do
    let s ← averageLoop results count i
    let result ← readAt results i
    return s.pass count result

/-- `average`. -/
def average (results : List UInt64) (count : UInt32) : Except OutOfBounds UInt64 := do
  let s ← averageLoop results count count.toNat
  return s.avg

/-- No value of a pass leaves its 64 bits: not the quotients added up, not what the remainder of
the sample leaves of the count, and no value of the branch that is taken. -/
structure Averaging.Exact (count : UInt32) (s : Averaging) (result : UInt64) : Prop where
  quotient : s.avg.toNat + result.toNat / count.toNat < 2 ^ 64
  rest : result.toNat % count.toNat ≤ count.toNat
  carry : count.toNat - result.toNat % count.toNat ≤ s.remainder.toNat →
    s.avg.toNat + result.toNat / count.toNat + 1 < 2 ^ 64
  remainder : s.remainder.toNat < count.toNat - result.toNat % count.toNat →
    s.remainder.toNat + result.toNat % count.toNat < 2 ^ 64

/-- What holds between two passes: the quotient and the remainder of the samples so far. -/
structure Averaging.Holds (count : UInt32) (s : Averaging) (sum : Nat) : Prop where
  sum_eq : s.avg.toNat * count.toNat + s.remainder.toNat = sum
  remainder_lt : s.remainder.toNat < count.toNat

namespace Averaging

variable {count : UInt32} {s : Averaging} {sum : Nat} {result : UInt64}

private theorem toNat_rest (h : s.Exact count result) :
    (count.toUInt64 - result % count.toUInt64).toNat =
      count.toNat - result.toNat % count.toNat := by
  have hle : result % count.toUInt64 ≤ count.toUInt64 := by
    rw [UInt64.le_iff_toNat_le, UInt64.toNat_mod, UInt32.toNat_toUInt64]
    exact h.rest
  rw [UInt64.toNat_sub_of_le _ _ hle, UInt64.toNat_mod, UInt32.toNat_toUInt64]

/-- As long as the average of all samples is a sample, the next one leaves every value exact. -/
theorem Holds.exact (h : s.Holds count sum)
    (hsum : sum + result.toNat < count.toNat * 2 ^ 64) : s.Exact count result := by
  have hlt := h.remainder_lt
  have hcount : 0 < count.toNat := by omega
  have hmod := Nat.mod_lt result.toNat hcount
  have hbound := count.toNat_lt
  have hsplit : (s.avg.toNat + result.toNat / count.toNat) * count.toNat + s.remainder.toNat +
      result.toNat % count.toNat = sum + result.toNat := by
    have hdiv := Nat.div_add_mod' result.toNat count.toNat
    rw [Nat.add_mul, ← h.sum_eq]
    omega
  refine ⟨?_, hmod.le, fun hcarry ↦ ?_, fun _ ↦ by omega⟩
  · apply Nat.lt_of_mul_lt_mul_right (a := count.toNat)
    rw [Nat.mul_comm (2 ^ 64)]
    omega
  · apply Nat.lt_of_mul_lt_mul_right (a := count.toNat)
    rw [Nat.add_mul _ 1, Nat.one_mul, Nat.mul_comm (2 ^ 64)]
    omega

/-- The branch of a pass, as a comparison of numbers. -/
theorem rest_le_remainder_iff (h : s.Exact count result) :
    count.toUInt64 - result % count.toUInt64 ≤ s.remainder ↔
      count.toNat - result.toNat % count.toNat ≤ s.remainder.toNat := by
  rw [UInt64.le_iff_toNat_le, toNat_rest h]

/-- A pass adds a sample to the sum. -/
theorem Holds.pass (h : s.Holds count sum) (hexact : s.Exact count result) :
    (s.pass count result).Holds count (sum + result.toNat) := by
  have hlt := h.remainder_lt
  have hmod := Nat.mod_lt result.toNat (Nat.zero_lt_of_lt hlt)
  have hdiv := Nat.div_add_mod' result.toNat count.toNat
  have hquotient : (s.avg + result / count.toUInt64).toNat =
      s.avg.toNat + result.toNat / count.toNat := by
    have hcount : (result / count.toUInt64).toNat = result.toNat / count.toNat := by
      rw [UInt64.toNat_div, UInt32.toNat_toUInt64]
    rw [Unsigned.toNat_add_of_lt (hcount.symm ▸ hexact.quotient), hcount]
  have hrest := toNat_rest hexact
  unfold Averaging.pass
  dsimp only
  split
  · next hle =>
    have hle' := (rest_le_remainder_iff hexact).mp hle
    have havg : (s.avg + result / count.toUInt64 + 1).toNat =
        s.avg.toNat + result.toNat / count.toNat + 1 := by
      rw [Unsigned.toNat_succ (hquotient.symm ▸ hexact.carry hle'), hquotient]
    have hremainder : (s.remainder - (count.toUInt64 - result % count.toUInt64)).toNat =
        s.remainder.toNat - (count.toNat - result.toNat % count.toNat) := by
      rw [UInt64.toNat_sub_of_le _ _ hle, hrest]
    refine ⟨?_, ?_⟩
    · rw [havg, hremainder, Nat.add_mul, Nat.add_mul, Nat.one_mul, ← h.sum_eq]
      omega
    · rw [hremainder]
      omega
  · next hgt =>
    have hgt' := Nat.not_le.mp (mt (rest_le_remainder_iff hexact).mpr hgt)
    have hremainder : (s.remainder + result % count.toUInt64).toNat =
        s.remainder.toNat + result.toNat % count.toNat := by
      have hcount : (result % count.toUInt64).toNat = result.toNat % count.toNat := by
        rw [UInt64.toNat_mod, UInt32.toNat_toUInt64]
      rw [Unsigned.toNat_add_of_lt (hcount.symm ▸ hexact.remainder hgt'), hcount]
    refine ⟨?_, ?_⟩
    · rw [hquotient, hremainder, Nat.add_mul, ← h.sum_eq]
      omega
    · rw [hremainder]
      omega

end Averaging

/-- The loop keeps the quotient and the remainder of the samples that it has read. -/
theorem averageLoop_holds {results : List UInt64} {count : UInt32} (hcount : 0 < count.toNat)
    (hlength : results.length = count.toNat) {i : Nat} (hi : i ≤ count.toNat) :
    ∃ s, averageLoop results count i = .ok s ∧ s.Holds count (exactSum (results.take i)) := by
  induction i with
  | zero => exact ⟨⟨0, 0⟩, rfl, Nat.zero_mul _, hcount⟩
  | succ i ih =>
    have hlt : i < results.length := by omega
    obtain ⟨s, hloop, h⟩ := ih (by omega)
    have hsum := exactSum_take_succ hlt
    have hexact : s.Exact count results[i] := by
      apply h.exact
      rw [← hsum]
      exact exactSum_take_lt hlength hcount hi
    refine ⟨s.pass count results[i], ?_, ?_⟩
    · rw [averageLoop, hloop, readAt_ofNat, dif_pos hlt]
      rfl
    · rw [hsum]
      exact h.pass hexact

end Ipv4

namespace Ipv6

/-- The samples added up, in 64 bits. -/
def accumulate (results : List UInt64) : UInt64 := results.foldl (· + ·) 0

/-- The average of the samples, `:404`. -/
def average (results : List UInt64) (total : UInt64) : UInt64 := accumulate results / total

/-- Samples of which the sum fits 64 bits are added up without a wrap. -/
theorem toNat_accumulate {results : List UInt64} (h : exactSum results < 2 ^ 64) :
    (accumulate results).toNat = exactSum results := by
  have hfold (rs : List UInt64) (acc : UInt64) (hacc : acc.toNat + exactSum rs < 2 ^ 64) :
      (rs.foldl (· + ·) acc).toNat = acc.toNat + exactSum rs := by
    induction rs generalizing acc with
    | nil => rfl
    | cons r rs ih =>
      rw [exactSum_cons] at hacc ⊢
      have hadd : (acc + r).toNat = acc.toNat + r.toNat := Unsigned.toNat_add_of_lt (by omega)
      rw [List.foldl_cons, ih _ (by omega), hadd, Nat.add_assoc]
  have hzero : (0 : UInt64).toNat = 0 := rfl
  rw [accumulate, hfold results 0 (by omega), hzero, Nat.zero_add]

private theorem accumulate_concat (results : List UInt64) (cycles : UInt64) :
    accumulate (results ++ [cycles]) = accumulate results + cycles := List.foldl_concat ..

/-- `average` is the sum of the samples recorded so far. -/
def Timed.AddsUp (s : Timed) : Prop := s.average = accumulate s.results

private theorem Timed.AddsUp.iterate {s : Timed} (h : s.AddsUp) (env : Kernel) (g : Settings)
    (batch : UInt64) (plan : ScanPlan) : (s.iterate env g batch plan).AddsUp := by
  unfold AddsUp at h ⊢
  rcases s.iterate_cases env g batch plan with
    ⟨_, _, he⟩ | ⟨_, _, he⟩ | ⟨_, _, he⟩ | ⟨_, _, he⟩ <;> rw [he]
  · exact h
  · exact h
  · exact h
  · rw [accumulate_concat, h]

private theorem Timed.AddsUp.timedLoop {s : Timed} (h : s.AddsUp) (env : Kernel) (g : Settings)
    (batch : UInt64) (plan : ScanPlan) (n : Nat) : (timedLoop env g batch plan n s).AddsUp := by
  induction n generalizing s with
  | zero => exact h
  | succ n ih =>
    unfold Ipv6.timedLoop
    split
    · exact h
    · exact ih (h.iterate env g batch plan)

private theorem Timed.AddsUp.timeBatch {s : Timed} (h : s.AddsUp) (env : Kernel) (g : Settings)
    (batch i n : UInt64) : (s.timeBatch env g batch i n).AddsUp := by
  unfold AddsUp Timed.timeBatch
  dsimp only
  rw [accumulate_concat, h]

private theorem Timed.AddsUp.batchLoop {s : Timed} (h : s.AddsUp) (env : Kernel) (g : Settings)
    (batch : UInt64) (fuel : Nat) (i n : UInt64) :
    (batchLoop env g batch fuel i n s).1.AddsUp := by
  induction fuel generalizing s i n with
  | zero => exact h
  | succ fuel ih =>
    unfold Ipv6.batchLoop
    split
    · exact ih (h.timeBatch env g batch i n) (i + batch) (n + 1)
    · exact h

/-- What the timed section adds up are its samples. -/
theorem average_lockedSection {env : Kernel} {g : Settings} {batch : UInt64} {scan0 : Bool}
    {fuel : Nat} {s : Timed} (h : lockedSection env g batch scan0 fuel = .ok s) :
    s.average = accumulate s.results := by
  unfold lockedSection at h
  split at h
  · nomatch h
  · next trace _ =>
    have hstart : (Timed.start g trace).AddsUp := rfl
    have htimed : (runTimed env g batch scan0 trace).AddsUp := hstart.timedLoop ..
    dsimp only at h
    split at h <;> cases h
    · exact htimed.batchLoop env g batch fuel 0 0
    · exact htimed

end Ipv6

/-- The average of the first module is the exact one and no value of its loop wraps; that of the
second one is the same while the sum of the samples fits 64 bits. The second one adds the samples
up as it takes them. -/
theorem average_exact (results : List UInt64) (count : UInt32) (hcount : 1 ≤ count.toNat)
    (hlength : results.length = count.toNat) :
    ∃ avg, Ipv4.average results count = .ok avg ∧
      avg.toNat = exactSum results / count.toNat ∧
      (∀ i s result, Ipv4.averageLoop results count i = .ok s → results[i]? = some result →
        s.Exact count result) ∧
      (exactSum results < 2 ^ 64 → Ipv6.average results count.toUInt64 = avg) ∧
      ∀ env g batch scan0 fuel s, Ipv6.lockedSection env g batch scan0 fuel = .ok s →
        s.results = results →
        s.average / count.toUInt64 = Ipv6.average results count.toUInt64 := by
  obtain ⟨s, hloop, h⟩ := Ipv4.averageLoop_holds hcount hlength (Nat.le_refl _)
  rw [← hlength, List.take_length] at h
  have havg : s.avg.toNat = exactSum results / count.toNat := by
    rw [← h.sum_eq, Nat.add_comm, Nat.add_mul_div_right _ _ hcount,
      Nat.div_eq_of_lt h.remainder_lt, Nat.zero_add]
  refine ⟨s.avg, ?_, havg, fun i s' result hok hread ↦ ?_, fun hsum ↦ ?_,
    fun env g batch scan0 fuel t hlocked hresults ↦ ?_⟩
  · rw [Ipv4.average, hloop]
    rfl
  · obtain ⟨hi, rfl⟩ := List.getElem?_eq_some_iff.mp hread
    obtain ⟨t, ht, hholds⟩ := Ipv4.averageLoop_holds hcount hlength (i := i) (by omega)
    obtain rfl : s' = t := Except.ok.inj (hok.symm.trans ht)
    apply hholds.exact
    rw [← exactSum_take_succ hi]
    exact exactSum_take_lt hlength hcount (by omega)
  · apply UInt64.toNat_inj.mp
    rw [Ipv6.average, UInt64.toNat_div, Ipv6.toNat_accumulate hsum, UInt32.toNat_toUInt64, havg]
  · rw [Ipv6.average_lockedSection hlocked, hresults]
    rfl

/-- Three samples of which two are the largest ones: their sum does not fit 64 bits. -/
theorem average_exact_largest :
    ∃ avg, Ipv4.average [0xffffffffffffffff, 0xffffffffffffffff, 5] 3 = .ok avg ∧
      avg.toNat = exactSum [0xffffffffffffffff, 0xffffffffffffffff, 5] / 3 :=
  let ⟨avg, hok, havg, _⟩ :=
    average_exact [0xffffffffffffffff, 0xffffffffffffffff, 5] 3 (by decide) rfl
  ⟨avg, hok, havg⟩

end NetworkLab.Kbench
