import Mathlib.Logic.Relation

/-!
# Loops that are left from their body

The body of a loop goes on with a new state, leaves the loop or stops with a fault. A loop
is run with fuel; a state that leaves and that the loop reaches is where every run with
enough fuel ends.
-/

namespace NetworkLab.Lib.Loop

/-- What a body does to a state. -/
inductive Outcome (σ : Type*) where
  | fault
  | leave (s : σ)
  | goOn (s : σ)

variable {σ : Type*} {body : σ → Outcome σ}

/-- The loop for at most `fuel` passes. -/
def run (body : σ → Outcome σ) : (fuel : Nat) → σ → Option σ
  | 0, _ => none
  | fuel + 1, s =>
    match body s with
    | .fault => none
    | .leave s' => some s'
    | .goOn s' => run body fuel s'

/-- One pass that stays in the loop. -/
def Pass (body : σ → Outcome σ) (s s' : σ) : Prop := body s = .goOn s'

/-- Some passes that stay in the loop. -/
def Reaches (body : σ → Outcome σ) : σ → σ → Prop := Relation.ReflTransGen (Pass body)

/-- A loop that reaches a state which leaves is run to its end. -/
theorem run_of_reaches {a b c : σ} (h : Reaches body a b) (hleave : body b = .leave c) :
    ∃ fuel, run body fuel a = some c := by
  induction h using Relation.ReflTransGen.head_induction_on with
  | refl =>
    refine ⟨1, ?_⟩
    rw [run, hleave]
  | head hpass _ ih =>
    obtain ⟨fuel, hrun⟩ := ih
    refine ⟨fuel + 1, ?_⟩
    rw [run, hpass]
    exact hrun

/-- Two runs that end end alike. -/
theorem run_unique {m n : Nat} {a b c : σ} (hm : run body m a = some b)
    (hn : run body n a = some c) : b = c := by
  induction m generalizing n a with
  | zero => cases hm
  | succ m ih =>
    cases n with
    | zero => cases hn
    | succ n =>
      rw [run] at hm hn
      cases hb : body a with
      | fault =>
        rw [hb] at hm
        cases hm
      | leave s =>
        rw [hb] at hm hn
        cases hm
        cases hn
        rfl
      | goOn s =>
        rw [hb] at hm hn
        exact ih hm hn

/-- The rule for a loop with an invariant and a variant: if no pass from a state of the
invariant faults, and each that stays in the loop keeps the invariant and makes the variant
smaller, then the loop is left, from a state of the invariant. -/
theorem run_of_variant {I : σ → Prop} (variant : σ → Nat)
    (hfault : ∀ s, I s → body s ≠ .fault)
    (hpass : ∀ s s', I s → Pass body s s' → I s' ∧ variant s' < variant s) {a : σ} (ha : I a) :
    ∃ fuel b c, run body fuel a = some c ∧ I b ∧ body b = .leave c := by
  induction hn : variant a using Nat.strongRecOn generalizing a with
  | ind n ih =>
    cases hbody : body a with
    | fault => exact absurd hbody (hfault a ha)
    | leave c =>
      refine ⟨1, a, c, ?_, ha, hbody⟩
      rw [run, hbody]
    | goOn s =>
      obtain ⟨hs, hlt⟩ := hpass a s ha hbody
      obtain ⟨fuel, b, c, hrun, hb, hleave⟩ := ih (variant s) (by omega) hs rfl
      refine ⟨fuel + 1, b, c, ?_, hb, hleave⟩
      rw [run, hbody]
      exact hrun

end NetworkLab.Lib.Loop
