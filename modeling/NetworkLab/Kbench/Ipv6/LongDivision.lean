import NetworkLab.Kbench.Ipv6.ScanLemmas

/-!
# The long division of the scan

The division of `delta` by `loop_count`, `lab-routes-ipv6/2026/kbench_mod.c:269–275` and
`lab-routes-ipv6/kbench_mod.c:250–256`: a limb after the other, the most significant one first,
each with the remainder of those before it. While `loop_count` fits a limb, so does every digit
of the quotient, and `quo` holds every dividend.
-/

namespace NetworkLab.Kbench.Ipv6

open Lib

/-- A pass of the loop: `rem` as the pass finds it, and the limb that it divides. -/
structure DivisionPass where
  rem : UInt64
  limb : UInt32

namespace DivisionPass

/-- The dividend of a pass, `:271`. -/
def quo (p : DivisionPass) : UInt64 := p.limb.toUInt64 + (p.rem <<< 32)

/-- No value of a pass is cut: not the shifted remainder, not the sum, and not the quotient where
it is stored in a limb. -/
structure Exact (loopCount : UInt64) (p : DivisionPass) : Prop where
  shift : p.rem.toNat * 2 ^ 32 < 2 ^ 64
  sum : p.limb.toNat + p.rem.toNat * 2 ^ 32 < 2 ^ 64
  digit : (p.limb.toNat + p.rem.toNat * 2 ^ 32) / loopCount.toNat < 2 ^ 32

variable {loopCount : UInt64} {p : DivisionPass}

/-- A remainder below a count that fits a limb leaves nothing to cut. -/
theorem exact_of_rem_lt (h : loopCount.toNat < 2 ^ 32) (hrem : p.rem.toNat < loopCount.toNat) :
    p.Exact loopCount := by
  have hlimb := p.limb.toNat_lt
  have hnext : (p.rem.toNat + 1) * 2 ^ 32 ≤ loopCount.toNat * 2 ^ 32 :=
    Nat.mul_le_mul_right _ hrem
  refine ⟨by omega, by omega, ?_⟩
  apply Nat.div_lt_of_lt_mul
  omega

/-- The dividend as a number. -/
theorem toNat_quo (hp : p.Exact loopCount) :
    p.quo.toNat = p.rem.toNat * 2 ^ 32 + p.limb.toNat := by
  have hshift : (p.rem <<< 32).toNat = p.rem.toNat * 2 ^ 32 := by
    rw [UInt64.toNat_shiftLeft]
    change p.rem.toNat <<< 32 % 2 ^ 64 = _
    rw [Nat.shiftLeft_eq, Nat.mod_eq_of_lt hp.shift]
  rw [quo, UInt64.toNat_add, hshift, UInt32.toNat_toUInt64, Nat.mod_eq_of_lt hp.sum, Nat.add_comm]

/-- The digit that is stored. -/
theorem toNat_digit (hp : p.Exact loopCount) :
    (p.quo / loopCount).toUInt32.toNat =
      (p.rem.toNat * 2 ^ 32 + p.limb.toNat) / loopCount.toNat := by
  have hdigit := hp.digit
  rw [Nat.add_comm] at hdigit
  rw [UInt64.toNat_toUInt32, UInt64.toNat_div, toNat_quo hp, Nat.mod_eq_of_lt hdigit]

/-- The remainder for the next pass. -/
theorem toNat_rem (hp : p.Exact loopCount) :
    (p.quo % loopCount).toNat = (p.rem.toNat * 2 ^ 32 + p.limb.toNat) % loopCount.toNat := by
  rw [UInt64.toNat_mod, toNat_quo hp]

end DivisionPass

/-- The passes of the loop over some limbs. -/
def divisionPasses (loopCount : UInt64) : UInt64 → List UInt32 → List DivisionPass
  | _, [] => []
  | rem, limb :: limbs =>
    let pass : DivisionPass := ⟨rem, limb⟩
    pass :: divisionPasses loopCount (pass.quo % loopCount) limbs

/-- The limbs are left with the digits of the passes. -/
theorem divideLimbs_eq_passes (loopCount rem : UInt64) (limbs : List UInt32) :
    (divideLimbs loopCount rem limbs).1 =
      (divisionPasses loopCount rem limbs).map fun p ↦ (p.quo / loopCount).toUInt32 := by
  induction limbs generalizing rem with
  | nil => rfl
  | cons limb limbs ih =>
    rw [divideLimbs, divisionPasses, List.map_cons, ← ih]
    rfl

variable {loopCount : UInt64}

/-- The remainder stays below the count, so no pass cuts a value. -/
theorem divisionPasses_exact (h : loopCount.toNat < 2 ^ 32) {rem : UInt64}
    (hrem : rem.toNat < loopCount.toNat) (limbs : List UInt32) :
    ∀ p ∈ divisionPasses loopCount rem limbs, p.Exact loopCount := by
  induction limbs generalizing rem with
  | nil => exact fun _ hp ↦ nomatch hp
  | cons limb limbs ih =>
    have hpass := DivisionPass.exact_of_rem_lt (p := ⟨rem, limb⟩) h hrem
    have hnext := Nat.mod_lt (rem.toNat * 2 ^ 32 + limb.toNat) (Nat.zero_lt_of_lt hrem)
    rw [← DivisionPass.toNat_rem hpass] at hnext
    exact List.forall_mem_cons.mpr ⟨hpass, ih hnext⟩

/-- Below `2 ^ 32` the count leaves every pass in its words, so the loop divides the numbers. -/
theorem divideLimbs_eq_shortDiv (h : loopCount.toNat < 2 ^ 32) {rem : UInt64}
    (hrem : rem.toNat < loopCount.toNat) (limbs : List UInt32) :
    limbNats (divideLimbs loopCount rem limbs).1 =
        (Limbs.shortDiv (2 ^ 32) loopCount.toNat rem.toNat (limbNats limbs)).1 ∧
      (divideLimbs loopCount rem limbs).2.toNat =
        (Limbs.shortDiv (2 ^ 32) loopCount.toNat rem.toNat (limbNats limbs)).2 := by
  induction limbs generalizing rem with
  | nil => exact ⟨rfl, rfl⟩
  | cons limb limbs ih =>
    have hpass := DivisionPass.exact_of_rem_lt (p := ⟨rem, limb⟩) h hrem
    have hdigit := DivisionPass.toNat_digit hpass
    have hmod := DivisionPass.toNat_rem hpass
    have hnext := Nat.mod_lt (rem.toNat * 2 ^ 32 + limb.toNat) (Nat.zero_lt_of_lt hrem)
    rw [← hmod] at hnext
    obtain ⟨hlimbs, hrest⟩ := ih hnext
    rw [hmod] at hlimbs hrest
    rw [divideLimbs, limbNats_cons, limbNats_cons, Limbs.shortDiv]
    exact ⟨List.cons_eq_cons.mpr ⟨hdigit, hlimbs⟩, hrest⟩

/-- Dividing never makes a limb list larger, whatever 64-bit count divides. The induction
follows the leading zero limbs, where `rem` stays zero. -/
theorem divideLimbs_value_le (loopCount : UInt64) (h : 1 ≤ loopCount) (ls : List UInt32) :
    Limbs.value (2 ^ 32) (limbNats (divideLimbs loopCount 0 ls).1) ≤
      Limbs.value (2 ^ 32) (limbNats ls) := by
  have hpos : 1 ≤ loopCount.toNat := UInt64.le_iff_toNat_le.mp h
  induction ls with
  | nil => simp [divideLimbs]
  | cons l ls ih =>
    have hl := l.toNat_lt
    have hquo : l.toUInt64 + ((0 : UInt64) <<< 32) = l.toUInt64 := by simp
    have hdiv : (l.toUInt64 / loopCount).toUInt32.toNat = l.toNat / loopCount.toNat := by
      have hle := Nat.div_le_self l.toNat loopCount.toNat
      rw [UInt64.toNat_toUInt32, UInt64.toNat_div, UInt32.toNat_toUInt64]
      exact Nat.mod_eq_of_lt (by omega)
    have hrem : (l.toUInt64 % loopCount).toNat = l.toNat % loopCount.toNat := by
      rw [UInt64.toNat_mod, UInt32.toNat_toUInt64]
    simp only [divideLimbs, hquo, limbNats_cons, hdiv]
    by_cases hlt : l.toNat / loopCount.toNat < l.toNat
    · apply Nat.le_of_lt
      exact Limbs.value_cons_lt (by simp) (bounded_limbNats _) hlt
    · -- The quotient limb equals the limb, so the limb is zero or the count is one.
      have heq : l.toNat / loopCount.toNat = l.toNat :=
        Nat.le_antisymm (Nat.div_le_self _ _) (Nat.not_lt.mp hlt)
      have hzero : l.toUInt64 % loopCount = 0 := by
        apply UInt64.toNat_inj.mp
        rw [hrem]
        by_cases hz : l.toNat = 0
        · simp [hz]
        · have hone : loopCount.toNat = 1 := by
            by_contra hne
            exact hlt (Nat.div_lt_self (by omega) (by omega))
          rw [hone, Nat.mod_one]
          rfl
      rw [heq, hzero]
      exact (Limbs.value_cons_le (by simp)).mpr ih

/-- The division leaves the quotient in the limbs and the remainder in `rem`, and no pass of it,
each of which leaves its digit in a limb, cuts a value. -/
theorem divideLimbs_longDivision (loopCount : Count) (delta : In6Addr)
    (h : loopCount.val.toNat < 2 ^ 32) :
    Limbs.value (2 ^ 32) (limbNats (divideLimbs loopCount.val 0 delta.s6Addr32).1) =
        Limbs.value (2 ^ 32) (limbNats delta.s6Addr32) / loopCount.val.toNat ∧
      (divideLimbs loopCount.val 0 delta.s6Addr32).2.toNat =
        Limbs.value (2 ^ 32) (limbNats delta.s6Addr32) % loopCount.val.toNat ∧
      (divideLimbs loopCount.val 0 delta.s6Addr32).1 =
        (divisionPasses loopCount.val 0 delta.s6Addr32).map
          (fun p ↦ (p.quo / loopCount.val).toUInt32) ∧
      ∀ p ∈ divisionPasses loopCount.val 0 delta.s6Addr32, p.Exact loopCount.val := by
  have hzero : (0 : UInt64).toNat < loopCount.val.toNat := loopCount.toNat_pos
  obtain ⟨hlimbs, hrem⟩ := divideLimbs_eq_shortDiv h hzero delta.s6Addr32
  refine ⟨?_, ?_, divideLimbs_eq_passes loopCount.val 0 _, divisionPasses_exact h hzero _⟩
  · rw [hlimbs]
    exact Limbs.value_shortDiv_zero hzero _
  · rw [hrem]
    exact Limbs.shortDiv_zero_snd hzero _

/-- The whole address space divided by the default count. -/
theorem divideLimbs_longDivision_default :
    let delta : In6Addr := ⟨[0xffffffff, 0xffffffff, 0xffffffff, 0xffffffff], rfl⟩
    (5000 : UInt64).toNat < 2 ^ 32 ∧
      Limbs.value (2 ^ 32) (limbNats (divideLimbs 5000 0 delta.s6Addr32).1) =
        Limbs.value (2 ^ 32) (limbNats delta.s6Addr32) / 5000 ∧
      (divideLimbs 5000 0 delta.s6Addr32).2.toNat =
        Limbs.value (2 ^ 32) (limbNats delta.s6Addr32) % 5000 := by
  intro delta
  have hcount : (5000 : UInt64).toNat < 2 ^ 32 := by decide
  obtain ⟨hquotient, hrem, -⟩ := divideLimbs_longDivision ⟨5000, by decide⟩ delta hcount
  exact ⟨hcount, hquotient, hrem⟩

end NetworkLab.Kbench.Ipv6
