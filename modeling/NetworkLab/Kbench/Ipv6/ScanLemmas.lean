import NetworkLab.Kbench.Ipv6.Scan

/-!
# The scan arithmetic as numbers

What the four limb loops of `Scan` compute, stated on host-order numbers: the borrow of
the subtraction, the size of the quotient, and the sums of the two address steps. The
steps add limb by limb modulo `2 ^ 32` and never carry, because a 64-bit sum is
compared with `ULONG_MAX`.
-/

namespace NetworkLab.Kbench.Ipv6

open Lib

/-- Host-order limbs as numbers. -/
def limbNats (limbs : List UInt32) : List Nat := limbs.map UInt32.toNat

@[simp] theorem limbNats_cons (l : UInt32) (ls : List UInt32) :
    limbNats (l :: ls) = l.toNat :: limbNats ls := rfl

@[simp] theorem length_limbNats (ls : List UInt32) : (limbNats ls).length = ls.length := by
  simp [limbNats]

/-- Limbs are 32-bit digits. -/
theorem bounded_limbNats (ls : List UInt32) : Limbs.Bounded (2 ^ 32) (limbNats ls) := by
  intro x hx
  obtain ⟨l, _, rfl⟩ := List.mem_map.mp hx
  exact l.toNat_lt

/-- Conversion to network order keeps the host limbs. -/
theorem hostLimbs_map_htonl (ls : List UInt32) : hostLimbs (ls.map htonl) = limbNats ls := by
  simp [hostLimbs, limbNats, Function.comp_def]

/-! ### Subtraction -/

/-- The comparison of the borrow loop, with a carry that is a flag. -/
theorem add_flag_le (a b : UInt32) (c : UInt64) (hc : c.toNat ≤ 1) :
    a.toUInt64 + c ≤ b.toUInt64 ↔ a.toNat + c.toNat ≤ b.toNat := by
  have ha := a.toNat_lt
  rw [UInt64.le_iff_toNat_le, UInt64.toNat_add, UInt32.toNat_toUInt64, UInt32.toNat_toUInt64,
    Nat.mod_eq_of_lt (by omega)]

/-- The limb stored without a borrow, with a carry that is a flag. -/
theorem sub_flag (a b : UInt32) (c : UInt64) (h : a.toNat + c.toNat ≤ b.toNat) :
    ((b - a).toUInt64 - c).toUInt32.toNat = b.toNat - a.toNat - c.toNat := by
  have hb := b.toNat_lt
  have hba : (b - a).toNat = b.toNat - a.toNat := by
    apply UInt32.toNat_sub_of_le
    exact UInt32.le_iff_toNat_le.mpr (by omega)
  have hc : c ≤ (b - a).toUInt64 := by
    rw [UInt64.le_iff_toNat_le, UInt32.toNat_toUInt64, hba]
    omega
  rw [UInt64.toNat_toUInt32, UInt64.toNat_sub_of_le _ _ hc, UInt32.toNat_toUInt64, hba]
  exact Nat.mod_eq_of_lt (by omega)

/-- The last carry of the subtraction tells whether the start is above the end. -/
theorem subtractLimbs_carry {ss es : List UInt32} (hl : ss.length = es.length) :
    (subtractLimbs ss es).2 =
      if Limbs.value (2 ^ 32) (hostLimbs es) < Limbs.value (2 ^ 32) (hostLimbs ss)
      then 1 else 0 := by
  induction ss generalizing es with
  | nil =>
    cases es with
    | nil => simp [subtractLimbs]
    | cons e es => simp at hl
  | cons s ss ih =>
    cases es with
    | nil => simp at hl
    | cons e es =>
      have hl' : ss.length = es.length := by simpa using hl
      have hlow := ih hl'
      have hflag : (subtractLimbs ss es).2.toNat ≤ 1 := by
        rw [hlow]
        split <;> decide
      have hlex := Limbs.value_cons_lt_iff (x := (ntohl e).toNat) (y := (ntohl s).toNat)
        (by simp [hl']) (bounded_hostLimbs es) (bounded_hostLimbs ss)
      simp only [subtractLimbs, hostLimbs_cons, add_flag_le _ _ _ hflag, hlex]
      by_cases ht : Limbs.value (2 ^ 32) (hostLimbs es) < Limbs.value (2 ^ 32) (hostLimbs ss)
      · have hone : (subtractLimbs ss es).2.toNat = 1 := by rw [hlow, if_pos ht]; rfl
        rw [hone]
        split
        · next h => rw [if_neg (by omega)]
        · next h => rw [if_pos (by omega)]
      · have hzero : (subtractLimbs ss es).2.toNat = 0 := by rw [hlow, if_neg ht]; rfl
        rw [hzero]
        split
        · next h => rw [if_neg (by omega)]
        · next h => rw [if_pos (by omega)]

/-- The carry is a flag. -/
theorem subtractLimbs_carry_le {ss es : List UInt32} (hl : ss.length = es.length) :
    (subtractLimbs ss es).2.toNat ≤ 1 := by
  rw [subtractLimbs_carry hl]
  split <;> decide

/-- Without a borrow out of the first limb, that limb of the difference is exact. With
one, it is not: the source then stores the negated limb. -/
theorem subtractLimbs_head {s e : UInt32} {ss es : List UInt32} (hl : ss.length = es.length)
    (hc : (subtractLimbs (s :: ss) (e :: es)).2 = 0) :
    (ntohl s).toNat + (subtractLimbs ss es).2.toNat ≤ (ntohl e).toNat ∧
      limbNats (subtractLimbs (s :: ss) (e :: es)).1 =
        ((ntohl e).toNat - (ntohl s).toNat - (subtractLimbs ss es).2.toNat) ::
          limbNats (subtractLimbs ss es).1 := by
  have hflag := subtractLimbs_carry_le hl
  by_cases h : (ntohl s).toUInt64 + (subtractLimbs ss es).2 ≤ (ntohl e).toUInt64
  · have hle := (add_flag_le _ _ _ hflag).mp h
    refine ⟨hle, ?_⟩
    simp only [subtractLimbs, if_pos h, limbNats_cons, sub_flag _ _ _ hle]
  · simp [subtractLimbs, if_neg h] at hc

/-! ### The least increment -/

/-- Limbs that are all zero denote zero, and no others do. -/
theorem value_limbNats_eq_zero_iff (ls : List UInt32) :
    Limbs.value (2 ^ 32) (limbNats ls) = 0 ↔ ls.all (· == 0) = true := by
  induction ls with
  | nil => simp [limbNats]
  | cons l ls ih =>
    rw [limbNats_cons, Limbs.value_cons, Nat.add_eq_zero_iff, ih, Nat.mul_eq_zero,
      List.all_cons, Bool.and_eq_true, beq_iff_eq, ← UInt32.toNat_inj]
    simp

/-- Raising a zero quotient to one takes the larger of the quotient and one. -/
theorem atLeastOne_value {qs : List UInt32} (hq : qs.length = 4) :
    Limbs.value (2 ^ 32) (limbNats (atLeastOne qs)) =
      max 1 (Limbs.value (2 ^ 32) (limbNats qs)) := by
  have hzero := value_limbNats_eq_zero_iff qs
  unfold atLeastOne
  split
  · next hz =>
    rw [hzero.mpr hz]
    obtain ⟨a, b, c, d, rfl⟩ : ∃ a b c d, qs = [a, b, c, d] := by
      match qs, hq with
      | [a, b, c, d], _ => exact ⟨a, b, c, d, rfl⟩
    simp only [List.all_cons, List.all_nil, Bool.and_true, Bool.and_eq_true, beq_iff_eq] at hz
    obtain ⟨rfl, rfl, rfl, rfl⟩ := hz
    rfl
  · next hz =>
    rw [← hzero] at hz
    omega

/-- Raising a zero quotient to one stays within any difference that is not zero. -/
theorem atLeastOne_value_le {qs : List UInt32} (hq : qs.length = 4) {n : Nat} (hn : 1 ≤ n)
    (h : Limbs.value (2 ^ 32) (limbNats qs) ≤ n) :
    Limbs.value (2 ^ 32) (limbNats (atLeastOne qs)) ≤ n := by
  rw [atLeastOne_value hq]
  exact Nat.max_le.mpr ⟨hn, h⟩

/-! ### The two address steps -/

/-- The plain step adds each limb modulo `2 ^ 32` and drops what it carries. -/
theorem hostLimbs_addLimbs (cs ds : List UInt32) :
    hostLimbs (addLimbs cs ds).1 =
      List.zipWith (fun c d ↦ (c + d) % 2 ^ 32) (hostLimbs cs) (hostLimbs ds) := by
  induction cs generalizing ds with
  | nil => simp [addLimbs]
  | cons c cs ih =>
    cases ds with
    | nil => simp [addLimbs]
    | cons d ds => simp [addLimbs, ih]

/-- `delta` masked by successive values of the generator, least significant limb first,
with the generator afterwards: what a restart adds, `:324–326`. -/
def maskedLimbs (rnd : UInt64) : List UInt32 → List Nat × UInt64
  | [] => ([], rnd)
  | w :: ws =>
    let low := maskedLimbs rnd ws
    (((ntohl w).toUInt64 &&& lcg32 low.2).toNat :: low.1, lcg32 low.2)

@[simp] theorem length_maskedLimbs (rnd : UInt64) (ws : List UInt32) :
    (maskedLimbs rnd ws).1.length = ws.length := by
  induction ws with
  | nil => rfl
  | cons w ws ih => simp [maskedLimbs, ih]

/-- Masking lowers every limb. -/
theorem maskedLimbs_le (rnd : UInt64) (ws : List UInt32) :
    List.Forall₂ (· ≤ ·) (maskedLimbs rnd ws).1 (hostLimbs ws) := by
  induction ws with
  | nil => exact .nil
  | cons w ws ih =>
    refine .cons ?_ ih
    rw [UInt64.toNat_and, UInt32.toNat_toUInt64]
    exact Nat.and_le_left

/-- The restart adds the masked limbs modulo `2 ^ 32`, without any carry. -/
theorem jitterLimbs_eq (rnd : UInt64) {ss ds : List UInt32} (hl : ss.length = ds.length) :
    (jitterLimbs rnd ss ds).carry = 0 ∧ (jitterLimbs rnd ss ds).rnd = (maskedLimbs rnd ds).2 ∧
      hostLimbs (jitterLimbs rnd ss ds).limbs =
        List.zipWith (fun s m ↦ (s + m) % 2 ^ 32) (hostLimbs ss) (maskedLimbs rnd ds).1 := by
  induction ss generalizing ds with
  | nil =>
    cases ds with
    | nil => simp [jitterLimbs, maskedLimbs]
    | cons d ds => simp at hl
  | cons s ss ih =>
    cases ds with
    | nil => simp at hl
    | cons d ds =>
      have hl' : ss.length = ds.length := by simpa using hl
      obtain ⟨_, hr, hlimbs⟩ := ih hl'
      have hsum (w : UInt32) (add : UInt64) :
          (w.toUInt64 + add + 0).toUInt32.toNat = (w.toNat + add.toNat) % 2 ^ 32 := by
        rw [UInt64.add_zero, UInt64.toNat_toUInt32, UInt64.toNat_add, UInt32.toNat_toUInt64]
        exact Nat.mod_mod_of_dvd _ ⟨2 ^ 32, rfl⟩
      simp only [jitterLimbs, not_ulongMax_lt, if_false, maskedLimbs, hr, hostLimbs_cons,
        ntohl_htonl, hlimbs, hsum, List.zipWith_cons_cons, and_self]

/-! ### Comparison with the end address -/

/-- The nested comparison is the comparison of the 128-bit values. -/
theorem exceeds_iff {as es : List UInt32} (hl : as.length = es.length) :
    exceeds as es = true ↔
      Limbs.value (2 ^ 32) (hostLimbs es) < Limbs.value (2 ^ 32) (hostLimbs as) := by
  induction as generalizing es with
  | nil =>
    cases es with
    | nil => simp [exceeds]
    | cons e es => simp at hl
  | cons a as ih =>
    cases es with
    | nil => simp at hl
    | cons e es =>
      have hl' : as.length = es.length := by simpa using hl
      rw [hostLimbs_cons, hostLimbs_cons, Limbs.value_cons_lt_iff (by simp [hl'])
        (bounded_hostLimbs es) (bounded_hostLimbs as), ← ih hl']
      simp only [exceeds, Bool.or_eq_true, decide_eq_true_eq, Bool.and_eq_true, beq_iff_eq,
        UInt32.lt_iff_toNat_lt, UInt32.toNat_inj]
      rw [eq_comm (a := ntohl e)]

end NetworkLab.Kbench.Ipv6
