import Mathlib.Data.List.Nodup
import Mathlib.Data.List.Range

/-!
# Numbers drawn from a counter

A counter hands out its value and goes on to the next one. What a run draws is the interval
that the counter went through, in order.
-/

namespace NetworkLab.Lib

/-- While the counter goes from `a` to `b`, the numbers `ns` are drawn. -/
structure Draws (a b : Nat) (ns : List Nat) : Prop where
  run : ns = List.range' a ns.length
  next : b = a + ns.length

namespace Draws

variable {a b c : Nat} {ms ns : List Nat}

/-- Nothing is drawn. -/
theorem nil (a : Nat) : Draws a a [] := ⟨rfl, rfl⟩

/-- One number is drawn. -/
theorem one (a : Nat) : Draws a (a + 1) [a] := ⟨rfl, rfl⟩

/-- Numbers are drawn after others. -/
theorem append (hm : Draws a b ms) (hn : Draws b c ns) : Draws a c (ms ++ ns) where
  run := by
    rw [List.length_append, ← List.range'_append_1, ← hm.next, ← hm.run, ← hn.run]
  next := by
    rw [hn.next, hm.next, List.length_append, Nat.add_assoc]

/-- No number is drawn twice. -/
theorem nodup (h : Draws a b ns) : ns.Nodup := by
  rw [h.run]
  exact List.nodup_range' 1 Nat.one_pos

end Draws

/-- The same for a counter whose first value is chosen as the first number is drawn. -/
def Starts (a b : Option Nat) (ns : List Nat) : Prop :=
  (ns = [] ∧ b = a) ∨ ∃ m n, (∀ k ∈ a, k = m) ∧ b = some n ∧ Draws m n ns

namespace Starts

variable {a b c : Option Nat} {ms ns : List Nat}

/-- Nothing is drawn and nothing is chosen. -/
theorem nil (a : Option Nat) : Starts a a [] := Or.inl ⟨rfl, rfl⟩

/-- One number is drawn. -/
theorem one (a : Option Nat) (start : Nat) :
    Starts a (some (a.getD start + 1)) [a.getD start] := by
  refine Or.inr ⟨_, _, ?_, rfl, Draws.one _⟩
  rintro k hk
  rw [Option.mem_def.mp hk, Option.getD_some]

/-- Numbers are drawn after others. -/
theorem append (hm : Starts a b ms) (hn : Starts b c ns) : Starts a c (ms ++ ns) := by
  rcases hm with ⟨rfl, rfl⟩ | ⟨m, n, hstart, rfl, hdraws⟩
  · exact hn
  · right
    rcases hn with ⟨rfl, rfl⟩ | ⟨m', n', hnext, rfl, hdraws'⟩
    · rw [List.append_nil]
      exact ⟨m, n, hstart, rfl, hdraws⟩
    · obtain rfl := hnext n rfl
      exact ⟨m, n', hstart, rfl, hdraws.append hdraws'⟩

/-- The numbers drawn follow each other. -/
theorem eq_range' (h : Starts a b ns) : ∃ m, ns = List.range' m ns.length := by
  rcases h with ⟨rfl, -⟩ | ⟨m, n, -, -, hdraws⟩
  · exact ⟨0, rfl⟩
  · exact ⟨m, hdraws.run⟩

end Starts

end NetworkLab.Lib
