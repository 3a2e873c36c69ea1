import Mathlib.Algebra.Order.BigOperators.Group.List
import Mathlib.Algebra.Order.Group.Nat

/-!
# Names and what they are read as

A reading takes some names to names. Where a name that is not read as itself is read as a smaller
one, the names of a list can only all be readings of each other if each is read as itself or comes,
by reading the names of the list over and over, from a name that is given from elsewhere.
-/

namespace NetworkLab.Lib.Reading

variable {α : Type*}

/-- The names that come from given ones by reading names of a list. -/
inductive Derived (read : α → Option α) (xs : List α) (given : α → Prop) : α → Prop
  | given {a : α} (h : given a) : Derived read xs given a
  | read {a b : α} (h : Derived read xs given a) (ha : a ∈ xs) (hb : read a = some b) :
    Derived read xs given b

variable {read : α → Option α} {xs : List α} {given need : α → Prop}

/-- What the names of a list that are needed have to be, for each of them to be given or the
reading of a name of the list. -/
theorem forall_given_or_mem_iff (size : α → Nat)
    (hsize : ∀ {a b : α}, read a = some b → b ≠ a → size b < size a)
    (hneed : ∀ {a b : α}, read a = some b → need a) :
    (∀ a ∈ xs, need a → given a ∨ a ∈ xs.filterMap read) ↔
      ∀ a ∈ xs, need a → read a = some a ∨ Derived read xs given a := by
  constructor
  · intro hall a ha hna
    have hbound (b : α) (hb : b ∈ xs) : size b ≤ (xs.map size).sum :=
      List.single_le_sum (fun _ _ ↦ Nat.zero_le _) _ (List.mem_map_of_mem hb)
    -- a reading that is another name is a reading of a larger one
    induction hn : (xs.map size).sum - size a using Nat.strongRecOn generalizing a with
    | ind n ih =>
      rcases hall a ha hna with hgiven | hmem
      · exact Or.inr (.given hgiven)
      · obtain ⟨b, hb, hread⟩ := List.mem_filterMap.mp hmem
        by_cases hab : a = b
        · exact Or.inl (hab ▸ hread)
        · have hlt := hsize hread hab
          have hle := hbound b hb
          rcases ih _ (by omega) b hb (hneed hread) rfl with hself | hderived
          · exact absurd (Option.some.inj (hread.symm.trans hself)) hab
          · exact Or.inr (hderived.read hb hread)
  · intro hall a ha hna
    rcases hall a ha hna with hself | hderived
    · exact Or.inr (List.mem_filterMap.mpr ⟨a, ha, hself⟩)
    · cases hderived with
      | given h => exact Or.inl h
      | read _ hb hread => exact Or.inr (List.mem_filterMap.mpr ⟨_, hb, hread⟩)

/-- Nothing comes from nothing. -/
theorem not_derived (hgiven : ∀ a, ¬ given a) (a : α) : ¬ Derived read xs given a := by
  intro h
  induction h with
  | given h => exact hgiven _ h
  | read _ _ _ ih => exact ih

/-- With no name given, the needed names of a list are readings of its names exactly when each is
read as itself. -/
theorem forall_mem_iff (size : α → Nat)
    (hsize : ∀ {a b : α}, read a = some b → b ≠ a → size b < size a)
    (hneed : ∀ {a b : α}, read a = some b → need a) :
    (∀ a ∈ xs, need a → a ∈ xs.filterMap read) ↔ ∀ a ∈ xs, need a → read a = some a := by
  have hgiven : ∀ a : α, ¬ (fun _ ↦ False) a := fun _ ↦ id
  have h : (∀ a ∈ xs, need a → False ∨ a ∈ xs.filterMap read) ↔
      ∀ a ∈ xs, need a → read a = some a ∨ Derived read xs (fun _ ↦ False) a :=
    forall_given_or_mem_iff size hsize hneed
  simp only [false_or, not_derived hgiven, or_false] at h
  exact h

end NetworkLab.Lib.Reading
