import NetworkLab.Kbench.Ipv6.ScanRange

/-!
# The scan steps as 128-bit additions

The plain step and the jittered restart of `lab-routes-ipv6/2026/kbench_mod.c:303–333`, and
the same loops of `lab-routes-ipv6/kbench_mod.c:282–312`. Their carry is computed for the
limb that it is added to and is zero in 64-bit arithmetic, so they are additions modulo
`2 ^ 128` on part of the addresses only.
-/

namespace NetworkLab.Kbench.Ipv6

open Lib

/-- The masked limbs are digits. -/
theorem bounded_maskedLimbs (rnd : UInt64) (ws : List UInt32) :
    Limbs.Bounded (2 ^ 32) (maskedLimbs rnd ws).1 := by
  intro x hx
  obtain ⟨i, hi, rfl⟩ := List.mem_iff_getElem.mp hx
  have hle := List.forall₂_iff_get.mp (maskedLimbs_le rnd ws)
  have hlen : i < (hostLimbs ws).length := by
    rw [← hle.1]
    exact hi
  exact Nat.lt_of_le_of_lt (hle.2 i hi hlen)
    (bounded_hostLimbs ws _ (List.get_mem (hostLimbs ws) ⟨i, hlen⟩))

/-- The plain step adds `delta`, and the restart adds the masked `delta` to the start,
modulo `2 ^ 128` exactly when no limb but the most significant one carries. -/
theorem scanStep_iff (cur start delta : In6Addr) (rnd : UInt64) :
    ((Cursor.plainStep delta ⟨cur, rnd⟩).toNat = (cur.toNat + delta.toNat) % 2 ^ 128 ↔
      NoCarry (hostLimbs cur.s6Addr32).tail (hostLimbs delta.s6Addr32).tail) ∧
    ((Cursor.restart start delta ⟨cur, rnd⟩).daddr.toNat =
        (start.toNat + Limbs.value (2 ^ 32) (maskedLimbs rnd delta.s6Addr32).1) % 2 ^ 128 ↔
      NoCarry (hostLimbs start.s6Addr32).tail (maskedLimbs rnd delta.s6Addr32).1.tail) := by
  have hcap (a : In6Addr) : (2 ^ 32) ^ (hostLimbs a.s6Addr32).length = 2 ^ 128 := by
    rw [length_hostLimbs, a.length_eq]
    rfl
  constructor
  · have hlen : (hostLimbs cur.s6Addr32).length = (hostLimbs delta.s6Addr32).length := by
      simp [In6Addr.length_eq]
    have hadd := Limbs.value_zipWith_mod_iff (b := 2 ^ 32) (by decide) hlen
      (bounded_hostLimbs _) (bounded_hostLimbs _)
    rw [hcap] at hadd
    rw [NoCarry, ← hadd]
    simp only [In6Addr.toNat, Cursor.plainStep, hostLimbs_addLimbs]
  · have hlen : (hostLimbs start.s6Addr32).length =
        (maskedLimbs rnd delta.s6Addr32).1.length := by
      simp [In6Addr.length_eq]
    have hadd := Limbs.value_zipWith_mod_iff (b := 2 ^ 32) (by decide) hlen
      (bounded_hostLimbs _) (bounded_maskedLimbs rnd _)
    obtain ⟨_, _, hlimbs⟩ := jitterLimbs_eq rnd
      (show start.s6Addr32.length = delta.s6Addr32.length by simp [In6Addr.length_eq])
    rw [hcap] at hadd
    rw [NoCarry, ← hadd]
    simp only [In6Addr.toNat, Cursor.restart, hlimbs]

/-- From `::ffff:ffff`, a step of `::1` leads to `::` in place of `::1:0:0`. -/
theorem fullLimb_step_loses_carry :
    (Cursor.plainStep (.ofHost 0 0 0 1) ⟨.ofHost 0 0 0 0xffffffff, 0⟩).toNat = 0 ∧
      ((In6Addr.ofHost 0 0 0 0xffffffff).toNat + (In6Addr.ofHost 0 0 0 1).toNat) % 2 ^ 128 =
        2 ^ 32 := by
  constructor
  · decide
  · decide

end NetworkLab.Kbench.Ipv6
