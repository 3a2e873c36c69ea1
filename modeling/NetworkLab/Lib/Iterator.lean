import Mathlib.Data.List.Basic

/-!
# Slices and batches of an iterator

`itertools.islice` from the start of a finite iterator with a step, and the groups that
`iter(lambda: tuple(islice(it, n)), ())` takes from it until one is empty.
-/

namespace NetworkLab.Lib.Iterator

variable {α : Type*}

/-- `sys.maxsize`, which bounds every argument of `islice`. -/
def maxsize : Nat := 9223372036854775807

/-- The element behind `skipped` others and every `step`-th after it. -/
def every (step : Nat) : Nat → List α → List α
  | _, [] => []
  | 0, x :: xs => x :: every step (step - 1) xs
  | skipped + 1, _ :: xs => every step skipped xs

/-- `islice(xs, 0, stop, step)`. -/
def islice (xs : List α) (stop step : Nat) : List α := every step 0 (xs.take stop)

/-- The groups that are taken before an empty one, as far as `fuel` goes. -/
def batchesFrom (size : Nat) : Nat → List α → List (List α)
  | 0, _ => []
  | fuel + 1, xs =>
    if (xs.take size).isEmpty then [] else xs.take size :: batchesFrom size fuel (xs.drop size)

/-- The groups that are taken before an empty one: each takes an element at least. -/
def batches (size : Nat) (xs : List α) : List (List α) := batchesFrom size xs.length xs

/-! ### Slices -/

private theorem getElem?_every {step : Nat} (hstep : 0 < step) (skipped : Nat) (xs : List α)
    (k : Nat) : (every step skipped xs)[k]? = xs[skipped + k * step]? := by
  induction xs generalizing skipped k with
  | nil =>
    rw [every]
    rfl
  | cons x xs ih =>
    cases skipped with
    | zero =>
      rw [every]
      cases k with
      | zero =>
        rw [Nat.zero_mul]
        rfl
      | succ k =>
        have hindex : 0 + (k + 1) * step = (step - 1 + k * step) + 1 := by
          rw [Nat.succ_mul]
          omega
        rw [List.getElem?_cons_succ, ih, hindex, List.getElem?_cons_succ]
    | succ skipped =>
      rw [every, ih, Nat.add_right_comm, List.getElem?_cons_succ]

/-- A slice of `n` steps has the elements at the multiples of the step. -/
theorem getElem?_islice {step : Nat} (hstep : 0 < step) (xs : List α) (n k : Nat) :
    (islice xs (n * step) step)[k]? = if k < n then xs[k * step]? else none := by
  rw [islice, getElem?_every hstep, Nat.zero_add, List.getElem?_take]
  congr 1
  rw [Nat.mul_lt_mul_right hstep]

/-- A slice takes its elements from the iterator. -/
theorem mem_of_mem_islice {xs : List α} {stop step : Nat} {x : α} (h : x ∈ islice xs stop step) :
    x ∈ xs := by
  have hevery : ∀ (ys : List α) (skipped : Nat), x ∈ every step skipped ys → x ∈ ys := by
    intro ys
    induction ys with
    | nil =>
      intro skipped hx
      rw [every] at hx
      exact hx
    | cons y ys ih =>
      intro skipped hx
      cases skipped with
      | zero =>
        rw [every] at hx
        rcases List.mem_cons.mp hx with rfl | hx
        · exact List.mem_cons_self
        · exact List.mem_cons_of_mem y (ih _ hx)
      | succ skipped =>
        rw [every] at hx
        exact List.mem_cons_of_mem y (ih _ hx)
  exact List.mem_of_mem_take (hevery _ _ h)

/-! ### Batches -/

private theorem batchesFrom_spec {size : Nat} (hsize : 0 < size) {fuel : Nat} {xs : List α}
    (hfuel : xs.length ≤ fuel) :
    (batchesFrom size fuel xs).flatten = xs ∧ ∀ b ∈ batchesFrom size fuel xs, b.length ≤ size := by
  induction fuel generalizing xs with
  | zero =>
    rw [List.length_eq_zero_iff.mp (Nat.le_zero.mp hfuel)]
    exact ⟨rfl, fun b hb ↦ nomatch hb⟩
  | succ fuel ih =>
    rw [batchesFrom]
    cases xs with
    | nil =>
      rw [List.take_nil, if_pos List.isEmpty_nil]
      exact ⟨rfl, fun b hb ↦ nomatch hb⟩
    | cons x xs =>
      obtain ⟨size, rfl⟩ := Nat.exists_eq_succ_of_ne_zero (Nat.ne_of_gt hsize)
      have htake : ((x :: xs).take (size + 1)).isEmpty = false := rfl
      rw [if_neg (ne_true_of_eq_false htake)]
      have hdrop : ((x :: xs).drop (size + 1)).length ≤ fuel := by
        rw [List.length_drop]
        simp only [List.length_cons] at hfuel ⊢
        omega
      obtain ⟨hflatten, hle⟩ := ih hdrop
      constructor
      · rw [List.flatten_cons, hflatten, List.take_append_drop]
      · intro b hb
        rcases List.mem_cons.mp hb with rfl | hb
        · exact List.length_take_le _ _
        · exact hle b hb

/-- The groups together are the iterator. -/
theorem flatten_batches {size : Nat} (hsize : 0 < size) (xs : List α) :
    (batches size xs).flatten = xs := (batchesFrom_spec hsize (Nat.le_refl _)).1

/-- No group is larger than asked for. -/
theorem length_le_of_mem_batches {size : Nat} (hsize : 0 < size) {xs b : List α}
    (hb : b ∈ batches size xs) : b.length ≤ size :=
  (batchesFrom_spec hsize (Nat.le_refl _)).2 b hb

/-! ### Iterators that raise -/

/-- The groups of an iterator that raises behind its elements: to take a group raises as well if
the iterator does not have all of its elements. -/
def groupsFrom {ε : Type} (size : Nat) :
    Nat → List α → Option ε → List (List α) × Option ε
  | 0, _, _ => ([], none)
  | fuel + 1, xs, raised =>
    if xs.length < size then
      match raised with
      | some e => ([], some e)
      | none => (if xs.isEmpty then [] else [xs], none)
    else if (xs.take size).isEmpty then ([], none)
    else
      let rest := groupsFrom size fuel (xs.drop size) raised
      (xs.take size :: rest.1, rest.2)

/-- The groups that are taken before an empty one or before an exception. -/
def groups {ε : Type} (size : Nat) (xs : List α) (raised : Option ε) :
    List (List α) × Option ε := groupsFrom size (xs.length + 1) xs raised

private theorem groupsFrom_spec {ε : Type} {size : Nat} (hsize : 0 < size) {fuel : Nat}
    {xs : List α} (hfuel : xs.length < fuel) (raised : Option ε) :
    (groupsFrom size fuel xs raised).1.flatten =
        (if raised.isSome then xs.take (xs.length / size * size) else xs) ∧
      (groupsFrom size fuel xs raised).2 = raised ∧
      ∀ g ∈ (groupsFrom size fuel xs raised).1, g ≠ [] ∧ g.length ≤ size := by
  induction fuel generalizing xs with
  | zero => exact absurd hfuel (Nat.not_lt_zero _)
  | succ fuel ih =>
    unfold groupsFrom
    split
    · next hshort =>
      cases raised with
      | some e =>
        rw [Nat.div_eq_of_lt hshort, Nat.zero_mul]
        exact ⟨rfl, rfl, nofun⟩
      | none =>
        cases xs with
        | nil => exact ⟨rfl, rfl, nofun⟩
        | cons x xs =>
          refine ⟨List.append_nil _, rfl, fun g hg ↦ ?_⟩
          rw [List.mem_singleton.mp hg]
          exact ⟨List.cons_ne_nil x xs, Nat.le_of_lt hshort⟩
    · next hlong =>
      have hle : size ≤ xs.length := Nat.le_of_not_lt hlong
      have hlen : (xs.take size).length = size := List.length_take_of_le hle
      have hne : (xs.take size).isEmpty = false := by
        rw [List.isEmpty_eq_false_iff, ← List.length_pos_iff, hlen]
        exact hsize
      have hdrop : (xs.drop size).length < fuel := by
        rw [List.length_drop]
        omega
      obtain ⟨hflatten, hraised, hgroups⟩ := ih hdrop
      rw [hne, if_neg Bool.false_ne_true]
      refine ⟨?_, hraised, fun g hg ↦ ?_⟩
      · rw [List.flatten_cons, hflatten]
        cases raised with
        | none => exact List.take_append_drop _ _
        | some e =>
          have hindex : xs.length / size * size =
              size + (xs.length - size) / size * size := by
            rw [Nat.div_eq_sub_div hsize hle, Nat.succ_mul, Nat.add_comm]
          rw [List.length_drop, hindex]
          exact List.take_add.symm
      · rcases List.mem_cons.mp hg with rfl | hg
        · exact ⟨List.isEmpty_eq_false_iff.mp hne, Nat.le_of_eq hlen⟩
        · exact hgroups g hg

/-- Without an exception the groups together are the iterator. -/
theorem flatten_groups_none {ε : Type} {size : Nat} (hsize : 0 < size) (xs : List α) :
    (groups size xs (none : Option ε)).1.flatten = xs :=
  (groupsFrom_spec hsize (Nat.lt_succ_self _) none).1

/-- Before an exception the groups have what fills groups. -/
theorem flatten_groups_some {ε : Type} {size : Nat} (hsize : 0 < size) (xs : List α) (e : ε) :
    (groups size xs (some e)).1.flatten = xs.take (xs.length / size * size) :=
  (groupsFrom_spec hsize (Nat.lt_succ_self _) (some e)).1

/-- The exception of an iterator is met. -/
theorem raised_groups {ε : Type} {size : Nat} (hsize : 0 < size) (xs : List α)
    (raised : Option ε) : (groups size xs raised).2 = raised :=
  (groupsFrom_spec hsize (Nat.lt_succ_self _) raised).2.1

/-- No group is larger than asked for, with an exception or without. -/
theorem length_le_of_mem_groups {ε : Type} {size : Nat} (hsize : 0 < size) {xs g : List α}
    {raised : Option ε} (hg : g ∈ (groups size xs raised).1) : g.length ≤ size :=
  ((groupsFrom_spec hsize (Nat.lt_succ_self _) raised).2.2 g hg).2

/-- No group is empty. -/
theorem ne_nil_of_mem_groups {ε : Type} {size : Nat} (hsize : 0 < size) {xs g : List α}
    {raised : Option ε} (hg : g ∈ (groups size xs raised).1) : g ≠ [] :=
  ((groupsFrom_spec hsize (Nat.lt_succ_self _) raised).2.2 g hg).1

end NetworkLab.Lib.Iterator
