import Mathlib.Data.Nat.Size
import Mathlib.Tactic.Ring

/-!
# True division of integers

`int(a / b)` of Python for natural numbers. The quotient is the nearest number of 53
significant bits, of two equally near ones the even one, and its fraction is cut off. A
quotient that is too large for a double raises.
-/

namespace NetworkLab.Lib.Double

/-- The integer nearest to a quotient, of two equally near ones the even one. -/
def roundHalfEven (a b : Nat) : Nat :=
  if b < 2 * (a % b) ∨ b = 2 * (a % b) ∧ a / b % 2 = 1 then a / b + 1 else a / b

/-- The integer part of the nearest number of 53 significant bits. -/
def quotient (a b : Nat) : Nat :=
  let size := (a / b).size
  roundHalfEven (a * 2 ^ (53 - size)) (b * 2 ^ (size - 53)) * 2 ^ (size - 53) / 2 ^ (53 - size)

/-- `int(a / b)`, unless the division raises `OverflowError`. -/
def trueDiv (a b : Nat) : Option Nat :=
  if (quotient a b).size ≤ 1024 then some (quotient a b) else none

private theorem div_le_roundHalfEven (a b : Nat) : a / b ≤ roundHalfEven a b := by
  unfold roundHalfEven
  split <;> omega

private theorem roundHalfEven_of_lt {a b : Nat} (h : 2 * (a % b) < b) :
    roundHalfEven a b = a / b := by
  unfold roundHalfEven
  rw [if_neg]
  omega

private theorem roundHalfEven_le (a b : Nat) : roundHalfEven a b ≤ a / b + 1 := by
  unfold roundHalfEven
  split <;> omega

/-- The fraction of a quotient below the precision is more than half a step away from one. -/
private theorem lt_gap {a b : Nat} (hb : 0 < b) (ha : a < 2 ^ 53) :
    b < 2 * ((b - a % b) * 2 ^ (53 - (a / b).size)) := by
  have hmod : a % b < b := Nat.mod_lt a hb
  by_cases hq : a / b = 0
  · have hlt : a < b := Nat.lt_of_div_eq_zero hb hq
    rw [hq, Nat.size_zero, Nat.mod_eq_of_lt hlt]
    omega
  · have hpos : 0 < (a / b).size := Nat.size_pos.mpr (Nat.pos_of_ne_zero hq)
    have hsize : (a / b).size ≤ 53 :=
      Nat.size_le.mpr (Nat.lt_of_le_of_lt (Nat.div_le_self a b) ha)
    have hlow : 2 ^ ((a / b).size - 1) ≤ a / b := by
      rw [← Nat.lt_size]
      omega
    have hsplit : 2 * 2 ^ (53 - (a / b).size) * 2 ^ ((a / b).size - 1) = 2 ^ 53 := by
      rw [← Nat.pow_succ', ← Nat.pow_add]
      congr 1
      omega
    have hstep : b < 2 * 2 ^ (53 - (a / b).size) := by
      apply Nat.lt_of_mul_lt_mul_right (a := 2 ^ ((a / b).size - 1))
      rw [hsplit]
      exact Nat.lt_of_le_of_lt (Nat.mul_le_mul_left b hlow)
        (Nat.lt_of_le_of_lt (Nat.mul_div_le a b) ha)
    rw [Nat.mul_left_comm]
    exact Nat.lt_of_lt_of_le hstep (Nat.le_mul_of_pos_left _ (by omega))

/-- Below the precision, a quotient is never rounded up to the next integer. -/
theorem quotient_eq {a b : Nat} (hb : 0 < b) (ha : a < 2 ^ 53) : quotient a b = a / b := by
  have hgap := lt_gap hb ha
  have hsize : (a / b).size ≤ 53 :=
    Nat.size_le.mpr (Nat.lt_of_le_of_lt (Nat.div_le_self a b) ha)
  unfold quotient
  dsimp only
  rw [Nat.sub_eq_zero_of_le hsize, Nat.pow_zero, Nat.mul_one, Nat.mul_one]
  generalize hc : 2 ^ (53 - (a / b).size) = c at hgap ⊢
  have hcpos : 0 < c := hc ▸ Nat.two_pow_pos _
  have hab : b * (a / b) + a % b = a := Nat.div_add_mod a b
  have hac : b * (a * c / b) + a * c % b = a * c := Nat.div_add_mod (a * c) b
  have hmod : a % b < b := Nat.mod_lt a hb
  -- the next integer is a step of the rounding too, and further away than half a step
  have hnext : b * ((a / b + 1) * c) = a * c + (b - a % b) * c := by
    rw [← Nat.mul_assoc, ← Nat.add_mul]
    congr 1
    rw [Nat.mul_add]
    omega
  have hhigh : roundHalfEven (a * c) b < (a / b + 1) * c := by
    by_cases hround : 2 * (a * c % b) < b
    · rw [roundHalfEven_of_lt hround]
      apply Nat.lt_of_mul_lt_mul_left (a := b)
      omega
    · apply Nat.lt_of_le_of_lt (roundHalfEven_le _ _)
      apply Nat.lt_of_mul_lt_mul_left (a := b)
      rw [Nat.mul_add]
      omega
  apply Nat.div_eq_of_lt_le _ hhigh
  apply Nat.le_trans _ (div_le_roundHalfEven _ _)
  rw [Nat.mul_comm, Nat.mul_comm a]
  exact Nat.mul_div_le_mul_div_assoc c a b

/-- Below the precision, true division is the division of integers. -/
theorem trueDiv_eq {a b : Nat} (hb : 0 < b) (ha : a < 2 ^ 53) : trueDiv a b = some (a / b) := by
  have hsize : (a / b).size ≤ 53 :=
    Nat.size_le.mpr (Nat.lt_of_le_of_lt (Nat.div_le_self a b) ha)
  rw [trueDiv, quotient_eq hb ha, if_pos (Nat.le_trans hsize (by decide))]

end NetworkLab.Lib.Double
