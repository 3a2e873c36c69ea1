import Mathlib.Data.Nat.Digits.Lemmas
import Mathlib.Tactic.Ring

/-!
# Big-endian limb lists

Numbers written as lists of limbs in an arbitrary base, most significant limb first.
The value is Mathlib's little-endian `Nat.ofDigits` of the reversed list. The rules
below are those a loop over limbs needs: the value of a longer list, the order of
values as the lexicographic order of limbs, addition limb by limb with and without
carries, subtraction with borrows and division by a single limb.
-/

namespace NetworkLab.Lib.Limbs

/-- Value of a limb list in base `b`, most significant limb first. -/
def value (b : Nat) (xs : List Nat) : Nat := Nat.ofDigits b xs.reverse

/-- Every limb is a digit of base `b`. -/
def Bounded (b : Nat) (xs : List Nat) : Prop := ∀ x ∈ xs, x < b

variable {b : Nat}

/-- No limbs denote zero. -/
@[simp] theorem value_nil : value b [] = 0 := rfl

/-- The first limb carries the weight of all the limbs after it. -/
theorem value_cons (x : Nat) (xs : List Nat) :
    value b (x :: xs) = x * b ^ xs.length + value b xs := by
  rw [value, List.reverse_cons, Nat.ofDigits_append, Nat.ofDigits_singleton,
    List.length_reverse, Nat.mul_comm, Nat.add_comm, value]

@[simp] theorem bounded_nil : Bounded b [] := by simp [Bounded]

@[simp] theorem bounded_cons {x : Nat} {xs : List Nat} :
    Bounded b (x :: xs) ↔ x < b ∧ Bounded b xs := by
  simp [Bounded]

/-- A bounded limb list denotes a number below its capacity. -/
theorem value_lt {xs : List Nat} (h : Bounded b xs) : value b xs < b ^ xs.length := by
  induction xs with
  | nil => simp
  | cons x xs ih =>
    obtain ⟨hx, hxs⟩ := bounded_cons.mp h
    have ht := ih hxs
    have hm : (x + 1) * b ^ xs.length ≤ b * b ^ xs.length := Nat.mul_le_mul_right _ hx
    rw [value_cons, List.length_cons, Nat.pow_succ, Nat.mul_comm (b ^ xs.length)]
    rw [Nat.succ_mul] at hm
    omega

/-- A smaller first limb decides the order of the values, whatever follows. -/
theorem value_cons_lt {x y : Nat} {xs ys : List Nat} (hl : xs.length = ys.length)
    (hx : Bounded b xs) (hxy : x < y) : value b (x :: xs) < value b (y :: ys) := by
  have ht := value_lt hx
  have hm : (x + 1) * b ^ xs.length ≤ y * b ^ xs.length := Nat.mul_le_mul_right _ hxy
  rw [value_cons, value_cons, ← hl]
  rw [Nat.succ_mul] at hm
  omega

/-- Equal first limbs leave the order to the tails. -/
theorem value_cons_le {x : Nat} {xs ys : List Nat} (hl : xs.length = ys.length) :
    value b (x :: xs) ≤ value b (x :: ys) ↔ value b xs ≤ value b ys := by
  rw [value_cons, value_cons, hl, Nat.add_le_add_iff_left]

/-- The order of values is lexicographic, one limb at a time. -/
theorem value_cons_lt_iff {x y : Nat} {xs ys : List Nat} (hl : xs.length = ys.length)
    (hx : Bounded b xs) (hy : Bounded b ys) :
    value b (x :: xs) < value b (y :: ys) ↔ x < y ∨ x = y ∧ value b xs < value b ys := by
  rcases Nat.lt_trichotomy x y with h | h | h
  · simp [h, value_cons_lt hl hx h]
  · subst h
    rw [← Nat.not_le, ← Nat.not_le, value_cons_le hl.symm]
    simp
  · have hg := value_cons_lt hl.symm hy h
    constructor
    · intro hlt
      omega
    · rintro (hlt | ⟨he, _⟩) <;> omega

/-- Adding limb by limb adds the values. No bound is needed: a sum limb that reaches the
base stands for itself, so a machine whose sum limbs stay below the base adds exactly. -/
theorem value_zipWith_add {xs ys : List Nat} (hl : xs.length = ys.length) :
    value b (List.zipWith (· + ·) xs ys) = value b xs + value b ys := by
  induction xs generalizing ys with
  | nil =>
    cases ys with
    | nil => simp
    | cons y ys => simp at hl
  | cons x xs ih =>
    cases ys with
    | nil => simp at hl
    | cons y ys =>
      have hl' : xs.length = ys.length := by simpa using hl
      simp only [List.zipWith_cons_cons, value_cons, ih hl', List.length_zipWith, hl',
        Nat.min_self]
      ring

/-! ### Addition that drops carries -/

/-- Dropping the carries never makes a sum larger. -/
theorem value_zipWith_mod_le (xs ys : List Nat) :
    value b (List.zipWith (fun x y ↦ (x + y) % b) xs ys) ≤
      value b (List.zipWith (· + ·) xs ys) := by
  induction xs generalizing ys with
  | nil => simp
  | cons x xs ih =>
    cases ys with
    | nil => simp
    | cons y ys =>
      simp only [List.zipWith_cons_cons, value_cons, List.length_zipWith]
      exact Nat.add_le_add (Nat.mul_le_mul_right _ (Nat.mod_le _ _)) (ih ys)

/-- Dropping the carries loses nothing exactly when no limb of the sum carries. -/
theorem value_zipWith_mod_eq_iff (hb : 0 < b) (xs ys : List Nat) :
    value b (List.zipWith (fun x y ↦ (x + y) % b) xs ys) =
      value b (List.zipWith (· + ·) xs ys) ↔ Bounded b (List.zipWith (· + ·) xs ys) := by
  induction xs generalizing ys with
  | nil => simp
  | cons x xs ih =>
    cases ys with
    | nil => simp
    | cons y ys =>
      have htail := value_zipWith_mod_le (b := b) xs ys
      have hw : 0 < b ^ min xs.length ys.length := Nat.pow_pos hb
      simp only [List.zipWith_cons_cons, value_cons, List.length_zipWith, bounded_cons, ← ih ys]
      constructor
      · intro h
        have hhead : (x + y) % b * b ^ min xs.length ys.length =
            (x + y) * b ^ min xs.length ys.length :=
          Nat.le_antisymm (Nat.mul_le_mul_right _ (Nat.mod_le _ _)) (by omega)
        refine ⟨?_, by omega⟩
        rw [← Nat.eq_of_mul_eq_mul_right hw hhead]
        exact Nat.mod_lt _ hb
      · rintro ⟨hlt, h⟩
        rw [Nat.mod_eq_of_lt hlt, h]

private theorem mod_ne_add_one_mod (hb : 2 ≤ b) (n : Nat) : n % b ≠ (n + 1) % b := by
  intro h
  have hdvd := (Nat.modEq_iff_dvd' (Nat.le_succ n)).mp h
  rw [Nat.succ_sub (Nat.le_refl n), Nat.sub_self] at hdvd
  have hle := Nat.le_of_dvd Nat.one_pos hdvd
  omega

private theorem value_zipWith_mod_cons_iff (hb : 2 ≤ b) {xs ys : List Nat}
    (hl : xs.length = ys.length) (hx : Bounded b xs) (hy : Bounded b ys) (x y : Nat) :
    value b (List.zipWith (fun x y ↦ (x + y) % b) (x :: xs) (y :: ys)) =
      (value b (x :: xs) + value b (y :: ys)) % b ^ (xs.length + 1) ↔
      Bounded b (List.zipWith (· + ·) xs ys) := by
  have hpos : 0 < b ^ xs.length := Nat.pow_pos (by omega)
  have hlow := value_zipWith_mod_eq_iff (b := b) (by omega) xs ys
  have hW : value b (List.zipWith (fun x y ↦ (x + y) % b) xs ys) < b ^ xs.length := by
    have hbound : Bounded b (List.zipWith (fun x y ↦ (x + y) % b) xs ys) := by
      intro v hv
      rw [List.zipWith_eq_zipWith_take_min, List.mem_iff_getElem] at hv
      obtain ⟨i, hi, rfl⟩ := hv
      rw [List.getElem_zipWith]
      exact Nat.mod_lt _ (by omega)
    have hlt := value_lt hbound
    rwa [List.length_zipWith, ← hl, Nat.min_self] at hlt
  have hT := value_zipWith_add (b := b) hl
  have hTx := value_lt hx
  have hTy := value_lt hy
  rw [← hl] at hTy
  rw [← hlow, hT, List.zipWith_cons_cons, value_cons, value_cons, value_cons, List.length_zipWith,
    ← hl, Nat.min_self, Nat.pow_succ, Nat.mod_mul]
  generalize value b (List.zipWith (fun x y ↦ (x + y) % b) xs ys) = W at hW ⊢
  generalize value b xs = X at hTx ⊢
  generalize value b ys = Y at hTy ⊢
  generalize b ^ xs.length = B at *
  have hsum : x * B + X + (y * B + Y) = X + Y + B * (x + y) := by ring
  rw [hsum, Nat.add_mul_mod_self_left, Nat.add_mul_div_left _ _ hpos]
  by_cases hfit : X + Y < B
  · rw [Nat.mod_eq_of_lt hfit, Nat.div_eq_of_lt hfit, Nat.zero_add, Nat.mul_comm]
    omega
  · -- The limbs after the first carry into it, and the machine's first limb is one short.
    have hone : (X + Y) / B = 1 := Nat.div_eq_of_lt_le (by omega) (by omega)
    have hrest : (X + Y) % B = X + Y - B := by
      rw [Nat.mod_eq_sub_mod (by omega), Nat.mod_eq_of_lt (by omega)]
    rw [hone, hrest]
    constructor
    · intro h
      have hu : (x + y) % b = (1 + (x + y)) % b := by
        have hdiv := congrArg (· / B) h
        rwa [Nat.mul_comm, Nat.mul_add_div hpos, Nat.div_eq_of_lt hW, Nat.add_zero,
          Nat.add_mul_div_left _ _ hpos, Nat.div_eq_of_lt (by omega), Nat.zero_add] at hdiv
      rw [Nat.add_comm 1] at hu
      exact absurd hu (mod_ne_add_one_mod hb (x + y))
    · intro h
      omega

/-- Dropping the carries is addition modulo the capacity exactly when no limb but the first
carries. -/
theorem value_zipWith_mod_iff (hb : 2 ≤ b) {xs ys : List Nat} (hl : xs.length = ys.length)
    (hx : Bounded b xs) (hy : Bounded b ys) :
    value b (List.zipWith (fun x y ↦ (x + y) % b) xs ys) =
      (value b xs + value b ys) % b ^ xs.length ↔
      Bounded b (List.zipWith (· + ·) xs.tail ys.tail) := by
  cases xs with
  | nil => simp [List.length_eq_zero_iff.mp hl.symm]
  | cons x xs =>
    cases ys with
    | nil => simp at hl
    | cons y ys =>
      exact value_zipWith_mod_cons_iff hb (by simpa using hl) (bounded_cons.mp hx).2
        (bounded_cons.mp hy).2 x y

/-! ### Subtraction with borrows -/

/-- What `xs - ys` borrows from the limb before. -/
def borrow (b : Nat) (xs ys : List Nat) : Nat := if value b xs < value b ys then 1 else 0

theorem borrow_le (xs ys : List Nat) : borrow b xs ys ≤ 1 := by
  unfold borrow
  split <;> omega

/-- A borrow passes on from a limb that is too small. -/
theorem borrow_cons {x y : Nat} {xs ys : List Nat} (hl : xs.length = ys.length)
    (hx : Bounded b xs) (hy : Bounded b ys) :
    borrow b (x :: xs) (y :: ys) = if x < y + borrow b xs ys then 1 else 0 := by
  have hlex := value_cons_lt_iff (x := x) (y := y) hl hx hy
  unfold borrow
  simp only [hlex]
  by_cases hlow : value b xs < value b ys
  · simp only [hlow, and_true, if_true]
    congr 1
    rw [eq_iff_iff]
    omega
  · simp only [hlow, and_false, or_false, if_false, Nat.add_zero]

/-- The limbs of `xs - ys`, modulo the capacity. -/
def subtract (b : Nat) : List Nat → List Nat → List Nat
  | x :: xs, y :: ys => (x + b - y - borrow b xs ys) % b :: subtract b xs ys
  | _, _ => []

theorem length_subtract {xs ys : List Nat} (hl : xs.length = ys.length) :
    (subtract b xs ys).length = xs.length := by
  induction xs generalizing ys with
  | nil => rfl
  | cons x xs ih =>
    cases ys with
    | nil => simp at hl
    | cons y ys => rw [subtract, List.length_cons, ih (by simpa using hl), List.length_cons]

theorem bounded_subtract (hb : 0 < b) (xs ys : List Nat) : Bounded b (subtract b xs ys) := by
  induction xs generalizing ys with
  | nil => exact bounded_nil
  | cons x xs ih =>
    cases ys with
    | nil => exact bounded_nil
    | cons y ys => exact bounded_cons.mpr ⟨Nat.mod_lt _ hb, ih ys⟩

private theorem subtract_digit {x y c : Nat} (hx : x < b) (hy : y < b) (hc : c ≤ 1) :
    (x + b - y - c) % b + y + c = x + (if x < y + c then 1 else 0) * b := by
  split
  · next h =>
    rw [Nat.one_mul]
    by_cases hall : x + b - y - c = b
    · omega
    · rw [Nat.mod_eq_of_lt (by omega)]
      omega
  · next h =>
    rw [Nat.zero_mul, show x + b - y - c = x - y - c + b by omega, Nat.add_mod_right,
      Nat.mod_eq_of_lt (by omega)]
    omega

/-- The limbs of the difference and the subtrahend add up to the minuend and what was
borrowed. -/
theorem value_subtract {xs ys : List Nat} (hl : xs.length = ys.length) (hx : Bounded b xs)
    (hy : Bounded b ys) :
    value b (subtract b xs ys) + value b ys = value b xs + borrow b xs ys * b ^ xs.length := by
  induction xs generalizing ys with
  | nil => simp [subtract, List.length_eq_zero_iff.mp hl.symm, borrow]
  | cons x xs ih =>
    cases ys with
    | nil => simp at hl
    | cons y ys =>
      obtain ⟨hxb, hxs⟩ := bounded_cons.mp hx
      obtain ⟨hyb, hys⟩ := bounded_cons.mp hy
      have hl' : xs.length = ys.length := by simpa using hl
      have htail := ih hl' hxs hys
      have hdigit := subtract_digit hxb hyb (borrow_le (b := b) xs ys)
      rw [subtract, value_cons, value_cons, value_cons, borrow_cons hl' hxs hys,
        length_subtract hl', ← hl', List.length_cons, Nat.pow_succ]
      generalize b ^ xs.length = B at *
      generalize (x + b - y - borrow b xs ys) % b = d at *
      generalize (if x < y + borrow b xs ys then 1 else 0) = c' at *
      calc d * B + value b (subtract b xs ys) + (y * B + value b ys)
          = (d + y) * B + (value b (subtract b xs ys) + value b ys) := by ring
        _ = (d + y + borrow b xs ys) * B + value b xs := by rw [htail]; ring
        _ = x * B + value b xs + c' * (B * b) := by rw [hdigit]; ring

/-! ### Division by a limb -/

/-- Division of a limb list, with a remainder from the limbs before it. -/
def shortDiv (b d : Nat) : Nat → List Nat → List Nat × Nat
  | r, [] => ([], r)
  | r, x :: xs =>
    let rest := shortDiv b d ((r * b + x) % d) xs
    ((r * b + x) / d :: rest.1, rest.2)

@[simp] theorem length_shortDiv (d r : Nat) (xs : List Nat) :
    (shortDiv b d r xs).1.length = xs.length := by
  induction xs generalizing r with
  | nil => rfl
  | cons x xs ih => rw [shortDiv, List.length_cons, ih, List.length_cons]

/-- The quotient times the divisor and the remainder add up to the number. -/
theorem value_shortDiv (d r : Nat) (xs : List Nat) :
    value b (shortDiv b d r xs).1 * d + (shortDiv b d r xs).2 = r * b ^ xs.length + value b xs := by
  induction xs generalizing r with
  | nil => simp [shortDiv]
  | cons x xs ih =>
    have hx := Nat.div_add_mod (r * b + x) d
    rw [shortDiv, value_cons, value_cons, length_shortDiv, Nat.add_mul, Nat.add_assoc, ih,
      List.length_cons, Nat.pow_succ]
    generalize b ^ xs.length = B
    generalize (r * b + x) / d = q at *
    generalize (r * b + x) % d = m at *
    calc q * B * d + (m * B + value b xs) = (d * q + m) * B + value b xs := by ring
      _ = r * (B * b) + (x * B + value b xs) := by rw [hx]; ring

/-- The remainder stays below the divisor. -/
theorem shortDiv_lt {d r : Nat} (hr : r < d) (xs : List Nat) : (shortDiv b d r xs).2 < d := by
  induction xs generalizing r with
  | nil => exact hr
  | cons x xs ih => exact ih (Nat.mod_lt _ (by omega))

/-- The quotient is that of the numbers. -/
theorem value_shortDiv_zero {d : Nat} (hd : 0 < d) (xs : List Nat) :
    value b (shortDiv b d 0 xs).1 = value b xs / d := by
  have hvalue := value_shortDiv (b := b) d 0 xs
  rw [Nat.zero_mul, Nat.zero_add, Nat.mul_comm] at hvalue
  rw [← hvalue, Nat.mul_add_div hd, Nat.div_eq_of_lt (shortDiv_lt hd xs), Nat.add_zero]

/-- So is the remainder. -/
theorem shortDiv_zero_snd {d : Nat} (hd : 0 < d) (xs : List Nat) :
    (shortDiv b d 0 xs).2 = value b xs % d := by
  have hvalue := value_shortDiv (b := b) d 0 xs
  rw [Nat.zero_mul, Nat.zero_add, Nat.mul_comm] at hvalue
  rw [← hvalue, Nat.mul_add_mod, Nat.mod_eq_of_lt (shortDiv_lt hd xs)]

end NetworkLab.Lib.Limbs
