import Mathlib.Data.List.Nodup

/-!
# Numbers handed out by key

A counter for each key: an element gets the next number of its key. Elements of one key are
numbered in their order, and no number of a key is handed out twice.
-/

namespace NetworkLab.Lib.Numbering

variable {α κ : Type} [DecidableEq κ]

/-- The counters once a number of `k` is handed out. -/
def bump (next : κ → Nat) (k : κ) : κ → Nat := fun k' ↦ if k' = k then next k' + 1 else next k'

/-- The elements with the numbers that they get, from the next number of each key on. -/
def numberFrom (key : α → κ) (next : κ → Nat) : List α → List (α × Nat)
  | [] => []
  | a :: as => (a, next (key a)) :: numberFrom key (bump next (key a)) as

/-- The elements with a key. -/
def withKey (key : α → κ) (k : κ) (as : List α) : List α := as.filter fun a ↦ key a = k

@[simp] theorem bump_self (next : κ → Nat) (k : κ) : bump next k k = next k + 1 := if_pos rfl

theorem bump_of_ne (next : κ → Nat) {k k' : κ} (h : k' ≠ k) : bump next k k' = next k' := if_neg h

/-- Numbering drops no element. -/
theorem map_fst_numberFrom (key : α → κ) (next : κ → Nat) (as : List α) :
    (numberFrom key next as).map Prod.fst = as := by
  induction as generalizing next with
  | nil => rfl
  | cons a as ih => rw [numberFrom, List.map_cons, ih]

/-- The numbers go on where they stopped. -/
theorem numberFrom_append (key : α → κ) (as bs : List α) (next : κ → Nat) :
    numberFrom key next (as ++ bs) = numberFrom key next as ++
      numberFrom key (as.foldl (fun next a ↦ bump next (key a)) next) bs := by
  induction as generalizing next with
  | nil => rfl
  | cons a as ih =>
    rw [List.cons_append, numberFrom, ih, numberFrom, List.foldl_cons, List.cons_append]

/-- An element gets the number of its place among the elements of its key. -/
theorem mem_numberFrom_iff (key : α → κ) (next : κ → Nat) (as : List α) (a : α) (n : Nat) :
    (a, n) ∈ numberFrom key next as ↔
      ∃ i, (withKey key (key a) as)[i]? = some a ∧ n = next (key a) + i := by
  induction as generalizing next with
  | nil => simp [numberFrom, withKey]
  | cons b as ih =>
    rw [numberFrom, List.mem_cons, ih]
    by_cases hkey : key b = key a
    · have hfilter : withKey key (key a) (b :: as) = b :: withKey key (key a) as :=
        List.filter_cons_of_pos (decide_eq_true hkey)
      rw [hfilter, hkey, bump_self]
      constructor
      · rintro (heq | ⟨i, hi, rfl⟩)
        · obtain ⟨rfl, rfl⟩ := Prod.mk.inj heq
          exact ⟨0, rfl, rfl⟩
        · exact ⟨i + 1, hi, by omega⟩
      · rintro ⟨i, hi, rfl⟩
        cases i with
        | zero =>
          obtain rfl : b = a := Option.some.inj hi
          exact Or.inl rfl
        | succ i => exact Or.inr ⟨i, hi, by omega⟩
    · have hfilter : withKey key (key a) (b :: as) = withKey key (key a) as :=
        List.filter_cons_of_neg (by simpa using hkey)
      rw [hfilter, bump_of_ne next (Ne.symm hkey)]
      apply or_iff_right
      intro heq
      exact hkey (congrArg key (Prod.mk.inj heq).1).symm

/-- No number of a key is handed out twice. -/
theorem nodup_numberFrom (key : α → κ) (next : κ → Nat) (as : List α) :
    ((numberFrom key next as).map fun p ↦ (key p.1, p.2)).Nodup := by
  induction as generalizing next with
  | nil => exact List.nodup_nil
  | cons a as ih =>
    rw [numberFrom, List.map_cons, List.nodup_cons]
    refine ⟨fun hmem ↦ ?_, ih (bump next (key a))⟩
    obtain ⟨⟨b, n⟩, hb, heq⟩ := List.mem_map.mp hmem
    obtain ⟨hkey, hlast⟩ := Prod.mk.inj heq
    obtain ⟨i, -, hn⟩ := (mem_numberFrom_iff key _ as b n).mp hb
    dsimp only at hkey hlast
    rw [hkey, bump_self] at hn
    omega

end NetworkLab.Lib.Numbering
