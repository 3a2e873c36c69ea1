/-!
# Machines that may fail

A machine reads one input a step and either fails or moves on with some outputs. A
history lists the inputs of a run newest first, so one more step is one more `cons`.
-/

namespace NetworkLab.Lib.Machine

variable {σ ι ω ε : Type} {step : σ → ι → Except ε (σ × List ω)} {init : σ}

/-- The state after a history, and the outputs of the whole run, oldest first. -/
def run (step : σ → ι → Except ε (σ × List ω)) (init : σ) : List ι → Except ε (σ × List ω)
  | [] => .ok (init, [])
  | i :: hist =>
    match run step init hist with
    | .error e => .error e
    | .ok (s, outs) =>
      match step s i with
      | .error e => .error e
      | .ok (s', o) => .ok (s', outs ++ o)

/-- A run goes on from the state it reached. -/
theorem run_cons {hist : List ι} {s s' : σ} {outs o : List ω} {i : ι}
    (h : run step init hist = .ok (s, outs)) (hs : step s i = .ok (s', o)) :
    run step init (i :: hist) = .ok (s', outs ++ o) := by
  simp only [run, h, hs]

/-- What holds at the start and is kept by every step, which does not fail, holds after
every history, whose run does not fail. -/
theorem run_rule (P : List ι → σ → List ω → Prop) (hinit : P [] init [])
    (hstep : ∀ hist s outs i, run step init hist = .ok (s, outs) → P hist s outs →
      ∃ s' o, step s i = .ok (s', o) ∧ P (i :: hist) s' (outs ++ o)) (hist : List ι) :
    ∃ s outs, run step init hist = .ok (s, outs) ∧ P hist s outs := by
  induction hist with
  | nil => exact ⟨init, [], rfl, hinit⟩
  | cons i hist ih =>
    obtain ⟨s, outs, hrun, hp⟩ := ih
    obtain ⟨s', o, hs, hp'⟩ := hstep hist s outs i hrun hp
    exact ⟨s', outs ++ o, run_cons hrun hs, hp'⟩

/-! ### Streaks -/

/-- The last `n` inputs of a history satisfy a property. -/
def Streak (p : ι → Prop) (n : Nat) (hist : List ι) : Prop :=
  n ≤ hist.length ∧ ∀ i ∈ hist.take n, p i

/-- The empty streak. -/
theorem streak_zero (p : ι → Prop) (hist : List ι) : Streak p 0 hist :=
  ⟨Nat.zero_le _, by simp⟩

/-- One more input extends a streak. -/
theorem Streak.cons {p : ι → Prop} {n : Nat} {hist : List ι} {i : ι} (h : Streak p n hist)
    (hi : p i) : Streak p (n + 1) (i :: hist) := by
  constructor
  · exact Nat.succ_le_succ h.1
  · intro x hx
    rw [List.take_succ_cons] at hx
    rcases List.mem_cons.mp hx with heq | hmem
    · rw [heq]
      exact hi
    · exact h.2 x hmem

end NetworkLab.Lib.Machine
