import Mathlib.Data.List.Basic

/-!
# Consecutive groups of a list

A list is cut into groups of one length from its front; what is left over at the end is
too short for a group and is dropped.
-/

namespace NetworkLab.Lib

variable {α β : Type*}

/-- The first `n` groups of length `b`. -/
def cut (b : Nat) : (n : Nat) → List α → List (List α)
  | 0, _ => []
  | n + 1, xs => xs.take b :: cut b n (xs.drop b)

/-- The complete groups of length `b`. -/
def chunks (b : Nat) (xs : List α) : List (List α) := cut b (xs.length / b) xs

@[simp] theorem length_cut (b n : Nat) (xs : List α) : (cut b n xs).length = n := by
  induction n generalizing xs with
  | zero => rfl
  | succ n ih => rw [cut, List.length_cons, ih]

/-- There are as many groups as the length holds. -/
theorem length_chunks (b : Nat) (xs : List α) : (chunks b xs).length = xs.length / b :=
  length_cut b _ xs

private theorem cut_map (f : α → β) (b n : Nat) (xs : List α) :
    cut b n (xs.map f) = (cut b n xs).map (List.map f) := by
  induction n generalizing xs with
  | zero => rfl
  | succ n ih => rw [cut, cut, List.map_cons, ← List.map_take, ← List.map_drop, ih]

/-- Groups of images are images of groups. -/
theorem chunks_map (f : α → β) (b : Nat) (xs : List α) :
    chunks b (xs.map f) = (chunks b xs).map (List.map f) := by
  rw [chunks, List.length_map, cut_map, chunks]

private theorem cut_flatten_append {b : Nat} {groups : List (List α)}
    (h : ∀ x ∈ groups, x.length = b) (rest : List α) :
    cut b groups.length (groups.flatten ++ rest) = groups := by
  induction groups with
  | nil => rfl
  | cons x groups ih =>
    have hx : x.length = b := h x List.mem_cons_self
    rw [List.length_cons, List.flatten_cons, List.append_assoc, cut,
      ← hx, List.take_left, List.drop_left, hx]
    rw [ih fun y hy ↦ h y (List.mem_cons_of_mem x hy)]

private theorem length_flatten_of_forall {b : Nat} {groups : List (List α)}
    (h : ∀ x ∈ groups, x.length = b) : groups.flatten.length = groups.length * b := by
  induction groups with
  | nil => simp
  | cons x groups ih =>
    have hx : x.length = b := h x List.mem_cons_self
    rw [List.flatten_cons, List.length_append, hx,
      ih fun y hy ↦ h y (List.mem_cons_of_mem x hy), List.length_cons, Nat.succ_mul, Nat.add_comm]

/-- Groups of length `b` followed by less than a group are the complete groups of the whole. -/
theorem chunks_flatten_append {b : Nat} {groups : List (List α)}
    (h : ∀ x ∈ groups, x.length = b) {rest : List α} (hrest : rest.length < b) :
    chunks b (groups.flatten ++ rest) = groups := by
  have hcount : (groups.flatten ++ rest).length / b = groups.length := by
    rw [List.length_append, length_flatten_of_forall h, Nat.add_comm,
      Nat.add_mul_div_right _ _ (by omega), Nat.div_eq_of_lt hrest, Nat.zero_add]
  rw [chunks, hcount, cut_flatten_append h]

private theorem flatten_cut (b n : Nat) (xs : List α) :
    (cut b n xs).flatten = xs.take (n * b) := by
  induction n generalizing xs with
  | zero => rw [Nat.zero_mul, List.take_zero]; rfl
  | succ n ih =>
    rw [cut, List.flatten_cons, ih, Nat.succ_mul, Nat.add_comm, List.take_add]

/-- The groups together are the list without its remainder. -/
theorem flatten_chunks (b : Nat) (xs : List α) :
    (chunks b xs).flatten = xs.take (xs.length / b * b) := flatten_cut b _ xs

private theorem length_of_mem_cut {b n : Nat} {xs x : List α} (hn : n * b ≤ xs.length)
    (hx : x ∈ cut b n xs) : x.length = b := by
  induction n generalizing xs with
  | zero => cases hx
  | succ n ih =>
    rw [Nat.succ_mul] at hn
    rcases List.mem_cons.mp hx with rfl | hx
    · rw [List.length_take]
      omega
    · apply ih _ hx
      rw [List.length_drop]
      omega

/-- Every group is complete. -/
theorem length_of_mem_chunks {b : Nat} {xs x : List α} (hx : x ∈ chunks b xs) :
    x.length = b := length_of_mem_cut (Nat.div_mul_le_self _ _) hx

end NetworkLab.Lib
