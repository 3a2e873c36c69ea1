import Mathlib.Data.List.Basic
import Mathlib.Logic.Function.Basic

/-!
# Ledgers of resources

What a run owns: the memory that its pointers lead to, a lock and references. An operation that
the ledger does not allow is a fault, such as memory freed twice, used without being there or lost
while it is owned. A run without a fault is settled if nothing is owned at its end. That each
access is to an element of its memory is a matter of the operations alone.
-/

namespace NetworkLab.Lib

/-- Where a pointer leads. -/
inductive Pointer where
  | null
  | live
  | dangling
  deriving DecidableEq, Repr

/-- Where a pointer leads once it is freed. -/
def Pointer.freed : Pointer → Pointer
  | .null => .null
  | .live => .dangling
  | .dangling => .dangling

theorem Pointer.freed_ne_live (p : Pointer) : p.freed ≠ .live := by
  cases p <;> decide

/-- An operation on memory with pointers `α`, on a lock and on references kept in `ρ`. Memory is
asked for with a number of elements, and accessed at one of them. -/
inductive ResourceOp (α ρ : Type) where
  | alloc (pointer : α) (elements : Nat) (granted : Bool)
  | free (pointer : α)
  | access (pointer : α) (index : Nat)
  | lock
  | unlock
  | take (ref : ρ)
  | use (ref : ρ)
  | drop (ref : ρ)
  deriving DecidableEq

/-- What is owned. -/
structure Ledger (α ρ : Type) where
  pointer : α → Pointer
  locked : Bool
  held : ρ → Bool

namespace Ledger

variable {α ρ : Type} [DecidableEq α] [DecidableEq ρ]

/-- With another value of a pointer. -/
def point (l : Ledger α ρ) (p : α) (v : Pointer) : Ledger α ρ :=
  { l with pointer := Function.update l.pointer p v }

/-- An operation, if it is allowed. To free a null pointer does nothing. -/
def step (l : Ledger α ρ) : ResourceOp α ρ → Option (Ledger α ρ)
  | .alloc p _ granted =>
    if l.pointer p = .live then none
    else some (l.point p (if granted then .live else .null))
  | .free p =>
    match l.pointer p with
    | .null => some l
    | .live => some (l.point p .dangling)
    | .dangling => none
  | .access p _ => if l.pointer p = .live then some l else none
  | .lock => if l.locked then none else some { l with locked := true }
  | .unlock => if l.locked then some { l with locked := false } else none
  | .take r => if l.held r then none else some { l with held := Function.update l.held r true }
  | .use r => if l.held r then some l else none
  | .drop r => if l.held r then some { l with held := Function.update l.held r false } else none

/-- Some operations, if all of them are allowed. -/
def run (l : Ledger α ρ) : List (ResourceOp α ρ) → Option (Ledger α ρ)
  | [] => some l
  | op :: ops => (l.step op).bind fun l ↦ l.run ops

/-- Nothing is owned. -/
def Settled (l : Ledger α ρ) : Prop :=
  (∀ p, l.pointer p ≠ .live) ∧ l.locked = false ∧ ∀ r, l.held r = false

/-- A run has no fault, and owns nothing at its end. -/
def Clean (l : Ledger α ρ) (ops : List (ResourceOp α ρ)) : Prop :=
  ∃ l', l.run ops = some l' ∧ l'.Settled

variable {l l' m : Ledger α ρ} {ops ops' : List (ResourceOp α ρ)}

@[simp] theorem run_nil (l : Ledger α ρ) : l.run [] = some l := rfl

theorem run_cons (l : Ledger α ρ) (op : ResourceOp α ρ) (ops : List (ResourceOp α ρ)) :
    l.run (op :: ops) = (l.step op).bind fun l ↦ l.run ops := rfl

/-- A run goes on where it stopped. -/
theorem run_append (l : Ledger α ρ) (ops ops' : List (ResourceOp α ρ)) :
    l.run (ops ++ ops') = (l.run ops).bind fun l ↦ l.run ops' := by
  induction ops generalizing l with
  | nil => rfl
  | cons op ops ih =>
    rw [List.cons_append, run_cons, run_cons, Option.bind_assoc]
    congr 1
    funext m
    exact ih m

/-- One run after another. -/
theorem run_append_of_eq (h : l.run ops = some m) (h' : m.run ops' = some l') :
    l.run (ops ++ ops') = some l' := by
  rw [run_append, h]
  exact h'

/-- After a fault nothing is clean. -/
theorem not_clean_of_run_eq_none (h : l.run ops = none) : ¬ l.Clean (ops ++ ops') := by
  rintro ⟨l', hrun, -⟩
  rw [run_append, h] at hrun
  cases hrun

/-- What was run so far decides nothing but where the rest starts. -/
theorem clean_append_iff (h : l.run ops = some m) : l.Clean (ops ++ ops') ↔ m.Clean ops' := by
  unfold Clean
  rw [run_append, h]
  rfl

/-- A loop whose body leaves the ledger as it was does so as well. -/
theorem run_flatMap {ι : Type} {body : ι → List (ResourceOp α ρ)} {is : List ι}
    (h : ∀ i ∈ is, l.run (body i) = some l) : l.run (is.flatMap body) = some l := by
  induction is with
  | nil => rfl
  | cons i is ih =>
    obtain ⟨hi, his⟩ := List.forall_mem_cons.mp h
    rw [List.flatMap_cons]
    exact run_append_of_eq hi (ih his)

/-! ### Memory -/

omit [DecidableEq ρ] in
@[simp] theorem pointer_point_self (l : Ledger α ρ) (p : α) (v : Pointer) :
    (l.point p v).pointer p = v := by
  simp [point]

omit [DecidableEq ρ] in
/-- The other pointers stay. -/
theorem pointer_point_of_ne {p q : α} (h : q ≠ p) (v : Pointer) :
    (l.point p v).pointer q = l.pointer q := by
  simp [point, h]

omit [DecidableEq ρ] in
/-- A pointer is given back the value that it had. -/
theorem point_point_of_eq {p : α} {u : Pointer} (h : l.pointer p = u) (v : Pointer) :
    (l.point p v).point p u = l := by
  unfold point
  rw [Function.update_idem, ← h, Function.update_eq_self]

/-- Memory can be allocated unless that loses memory. -/
theorem step_alloc {p : α} (h : l.pointer p ≠ .live) (n : Nat) (granted : Bool) :
    l.step (.alloc p n granted) = some (l.point p (if granted then .live else .null)) := if_neg h

/-- Memory that is there can be used. -/
theorem step_access {p : α} (h : l.pointer p = .live) (k : Nat) :
    l.step (.access p k) = some l := if_pos h

/-- Any number of accesses to memory that is there. -/
theorem run_accesses (h : ∀ op ∈ ops, ∃ p k, op = .access p k ∧ l.pointer p = .live) :
    l.run ops = some l := by
  induction ops with
  | nil => rfl
  | cons op ops ih =>
    obtain ⟨⟨p, k, rfl, hp⟩, hops⟩ := List.forall_mem_cons.mp h
    rw [run_cons, step_access hp k, Option.bind_some]
    exact ih hops

/-- To use other memory is a fault. -/
theorem step_access_eq_none {p : α} (h : l.pointer p ≠ .live) (k : Nat) :
    l.step (.access p k) = none := if_neg h

/-- Accesses some of which are to other memory. -/
theorem run_accesses_eq_none {p : α} {k : Nat} (h : ∀ op ∈ ops, ∃ p k, op = .access p k)
    (hmem : .access p k ∈ ops) (hp : l.pointer p ≠ .live) : l.run ops = none := by
  induction ops with
  | nil => cases hmem
  | cons op ops ih =>
    obtain ⟨⟨q, j, rfl⟩, hops⟩ := List.forall_mem_cons.mp h
    rw [run_cons]
    by_cases hq : l.pointer q = .live
    · rw [step_access hq j, Option.bind_some]
      rcases List.mem_cons.mp hmem with heq | hmem
      · cases heq
        exact absurd hq hp
      · exact ih hops hmem
    · rw [step_access_eq_none hq j, Option.bind_none]

/-- What does not dangle can be freed. -/
theorem step_free {p : α} (h : l.pointer p ≠ .dangling) :
    l.step (.free p) = some (l.point p (l.pointer p).freed) := by
  cases hp : l.pointer p with
  | null =>
    have hself : l.point p .null = l := by
      unfold point
      rw [← hp, Function.update_eq_self]
    rw [step, hp, Pointer.freed, hself]
  | live => rw [step, hp, Pointer.freed]
  | dangling => exact absurd hp h

/-- Some pointers that do not dangle can be freed one after the other. -/
theorem run_free {ps : List α} (hnodup : ps.Nodup) (h : ∀ p ∈ ps, l.pointer p ≠ .dangling) :
    l.run (ps.map .free) =
      some { l with pointer := fun q ↦ if q ∈ ps then (l.pointer q).freed else l.pointer q } := by
  induction ps generalizing l with
  | nil => simp
  | cons p ps ih =>
    obtain ⟨hp, hps⟩ := List.forall_mem_cons.mp h
    obtain ⟨hfresh, hnodup⟩ := List.nodup_cons.mp hnodup
    have hrest : ∀ q ∈ ps, (l.point p (l.pointer p).freed).pointer q ≠ .dangling := by
      intro q hq
      rw [pointer_point_of_ne (ne_of_mem_of_not_mem hq hfresh)]
      exact hps q hq
    rw [List.map_cons, run_cons, step_free hp, Option.bind_some, ih hnodup hrest]
    congr 2
    funext q
    by_cases hq : q = p
    · subst hq
      simp [hfresh]
    · simp [hq, pointer_point_of_ne hq]

/-- What is freed last settles the ledger. -/
theorem clean_free (ps : List α) (hnodup : ps.Nodup) (h : ∀ p ∈ ps, l.pointer p ≠ .dangling)
    (hrest : ∀ p, l.pointer p = .live → p ∈ ps) (hlock : l.locked = false)
    (hheld : ∀ r, l.held r = false) : l.Clean (ps.map .free) := by
  refine ⟨_, run_free hnodup h, ?_, hlock, hheld⟩
  intro q
  dsimp only
  split
  · exact Pointer.freed_ne_live _
  · next hq => exact fun hlive ↦ hq (hrest q hlive)

/-! ### The lock -/

/-- With the lock. -/
def lock (l : Ledger α ρ) : Ledger α ρ := { l with locked := true }

/-- A lock that is free can be taken. -/
theorem step_lock (h : l.locked = false) : l.step .lock = some l.lock := by
  rw [step, h]
  rfl

/-- A lock that was taken can be given back. -/
theorem step_unlock (h : l.locked = false) : l.lock.step .unlock = some l := by
  change some { l with locked := false } = _
  rw [← h]

/-! ### References -/

/-- With some more references. -/
def hold (l : Ledger α ρ) (rs : List ρ) : Ledger α ρ :=
  { l with held := fun r ↦ l.held r || decide (r ∈ rs) }

omit [DecidableEq α] in
@[simp] theorem hold_nil (l : Ledger α ρ) : l.hold [] = l := by
  simp [hold]

omit [DecidableEq α] in
@[simp] theorem pointer_hold (l : Ledger α ρ) (rs : List ρ) : (l.hold rs).pointer = l.pointer := rfl

/-- A reference that is not held yet can be taken. -/
theorem step_take {rs : List ρ} {r : ρ} (hfree : l.held r = false) (hr : r ∉ rs) :
    (l.hold rs).step (.take r) = some (l.hold (rs ++ [r])) := by
  have hheld : (l.hold rs).held r = false := by
    simp [hold, hfree, hr]
  rw [step, hheld]
  simp only [Bool.false_eq_true, ↓reduceIte, Option.some.injEq, hold, Ledger.mk.injEq, true_and]
  funext x
  by_cases hx : x = r
  · simp [hx]
  · simp [hx]

/-- The reference that was taken first can be dropped first. -/
theorem step_drop {rs : List ρ} {r : ρ} (hfree : l.held r = false) (hr : r ∉ rs) :
    (l.hold (r :: rs)).step (.drop r) = some (l.hold rs) := by
  have hheld : (l.hold (r :: rs)).held r = true := by
    simp [hold]
  rw [step, hheld]
  simp only [↓reduceIte, Option.some.injEq, hold, Ledger.mk.injEq, true_and]
  funext x
  by_cases hx : x = r
  · simp [hx, hfree, hr]
  · simp [hx]

/-- A reference that is taken, used and dropped leaves nothing behind. -/
theorem run_take_use_drop {r : ρ} (h : l.held r = false) :
    l.run [.take r, .use r, .drop r] = some l := by
  have hback : Function.update l.held r false = l.held := by
    rw [← h, Function.update_eq_self]
  simp [run, step, h, hback]

private theorem run_flatMap_take_after {ι : Type} {f : ι → ρ}
    {body : ι → List (ResourceOp α ρ)} {is : List ι} {rs : List ρ} (hnodup : (rs ++ is.map f).Nodup)
    (hbody : ∀ i ∈ is, ∀ rs, f i ∉ rs → (l.hold rs).run (body i) = some (l.hold (rs ++ [f i]))) :
    (l.hold rs).run (is.flatMap body) = some (l.hold (rs ++ is.map f)) := by
  induction is generalizing rs with
  | nil => rw [List.flatMap_nil, List.map_nil, List.append_nil, run_nil]
  | cons i is ih =>
    obtain ⟨hi, his⟩ := List.forall_mem_cons.mp hbody
    rw [List.map_cons, List.append_cons] at hnodup ⊢
    have hfresh : f i ∉ rs := by
      intro h
      have hdisjoint := List.nodup_append.mp (List.nodup_append.mp hnodup).1
      exact hdisjoint.2.2 _ h _ (List.mem_singleton_self _) rfl
    rw [List.flatMap_cons]
    exact run_append_of_eq (hi rs hfresh) (ih hnodup his)

/-- A loop that takes one reference after the other. -/
theorem run_flatMap_take {ι : Type} {f : ι → ρ} {body : ι → List (ResourceOp α ρ)} {is : List ι}
    (hnodup : (is.map f).Nodup)
    (hbody : ∀ i ∈ is, ∀ rs, f i ∉ rs → (l.hold rs).run (body i) = some (l.hold (rs ++ [f i]))) :
    l.run (is.flatMap body) = some (l.hold (is.map f)) := by
  have h := run_flatMap_take_after (hnodup : ([] ++ is.map f).Nodup) hbody
  rw [hold_nil, List.nil_append] at h
  exact h

/-- A loop that drops one reference after the other. -/
theorem run_flatMap_drop {ι : Type} {f : ι → ρ} {body : ι → List (ResourceOp α ρ)} {is : List ι}
    (hnodup : (is.map f).Nodup)
    (hbody : ∀ i ∈ is, ∀ rs, f i ∉ rs → (l.hold (f i :: rs)).run (body i) = some (l.hold rs)) :
    (l.hold (is.map f)).run (is.flatMap body) = some l := by
  induction is with
  | nil => rw [List.flatMap_nil, List.map_nil, hold_nil, run_nil]
  | cons i is ih =>
    obtain ⟨hi, his⟩ := List.forall_mem_cons.mp hbody
    obtain ⟨hfresh, hnodup⟩ := List.nodup_cons.mp hnodup
    rw [List.flatMap_cons, List.map_cons]
    exact run_append_of_eq (hi _ hfresh) (ih hnodup his)

end Ledger

/-! ### Bounds -/

namespace ResourceOp

variable {α ρ : Type} [DecidableEq α]

/-- The elements of each memory after an operation. -/
def resize (size : α → Nat) : ResourceOp α ρ → α → Nat
  | .alloc p n _ => Function.update size p n
  | _ => size

/-- The elements of each memory after some operations. -/
def sizes (size : α → Nat) (ops : List (ResourceOp α ρ)) : α → Nat := ops.foldl resize size

/-- An access is to an element of its memory. -/
def Inside (size : α → Nat) : ResourceOp α ρ → Prop
  | .access p k => k < size p
  | _ => True

/-- Each access is to an element that its memory has then. -/
def Within (size : α → Nat) : List (ResourceOp α ρ) → Prop
  | [] => True
  | op :: ops => op.Inside size ∧ Within (op.resize size) ops

/-- Nothing is allocated. -/
def Fixed (ops : List (ResourceOp α ρ)) : Prop := ∀ p n granted, .alloc p n granted ∉ ops

variable {size : α → Nat} {ops ops' : List (ResourceOp α ρ)}

theorem sizes_append : sizes size (ops ++ ops') = sizes (sizes size ops) ops' :=
  List.foldl_append

/-- The accesses of one run after another. -/
theorem within_append :
    Within size (ops ++ ops') ↔ Within size ops ∧ Within (sizes size ops) ops' := by
  induction ops generalizing size with
  | nil => exact iff_of_eq (true_and _).symm
  | cons op ops ih =>
    rw [List.cons_append, Within, Within, ih, and_assoc]
    rfl

theorem Fixed.of_cons {op : ResourceOp α ρ} (h : Fixed (op :: ops)) :
    (∀ size : α → Nat, op.resize size = size) ∧ Fixed ops := by
  refine ⟨fun size ↦ ?_, fun p n granted hmem ↦ h p n granted (List.mem_cons_of_mem _ hmem)⟩
  cases op with
  | alloc p n granted => exact absurd List.mem_cons_self (h p n granted)
  | access | free | lock | unlock | take | use | drop => rfl

/-- Without allocations the sizes stay. -/
theorem Fixed.sizes (h : Fixed ops) (size : α → Nat) : sizes size ops = size := by
  induction ops with
  | nil => rfl
  | cons op ops ih =>
    obtain ⟨hop, hops⟩ := h.of_cons
    change ResourceOp.sizes (op.resize size) ops = size
    rw [hop]
    exact ih hops

/-- Without allocations the order of the accesses does not matter. -/
theorem Fixed.within_iff (h : Fixed ops) (size : α → Nat) :
    Within size ops ↔ ∀ op ∈ ops, op.Inside size := by
  induction ops with
  | nil => exact iff_of_true trivial nofun
  | cons op ops ih =>
    obtain ⟨hop, hops⟩ := h.of_cons
    rw [Within, hop, ih hops, List.forall_mem_cons]

end ResourceOp

end NetworkLab.Lib
