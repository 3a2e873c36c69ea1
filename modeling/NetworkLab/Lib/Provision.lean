import Mathlib.Data.List.Basic

/-!
# Things that are provided before they are needed

The events of a trace provide some things and need others. A trace is served if whatever an event
needs was there at the start or was provided by an event before it.
-/

namespace NetworkLab.Lib.Provision

variable {ε α : Type*} (provides needs : ε → List α)

/-- Each event finds what it needs, with the things that are there. -/
def Served (there : List α) : List ε → Prop
  | [] => True
  | e :: es => (∀ a ∈ needs e, a ∈ there) ∧ Served (there ++ provides e) es

variable {provides needs}

/-- A trace is served in two parts: the second one with what the first one provides. -/
theorem served_append (there : List α) (es fs : List ε) :
    Served provides needs there (es ++ fs) ↔
      Served provides needs there es ∧ Served provides needs (there ++ es.flatMap provides) fs := by
  induction es generalizing there with
  | nil =>
    rw [List.nil_append, List.flatMap_nil, List.append_nil]
    exact (iff_of_eq (true_and _)).symm
  | cons e es ih =>
    rw [List.cons_append, Served, Served, ih, and_assoc, List.flatMap_cons, List.append_assoc]

/-- A trace in which nothing is needed is served. -/
theorem served_of_needs_nothing {es : List ε} (h : ∀ e ∈ es, needs e = []) (there : List α) :
    Served provides needs there es := by
  induction es generalizing there with
  | nil => exact trivial
  | cons e es ih =>
    obtain ⟨he, hes⟩ := List.forall_mem_cons.mp h
    refine ⟨fun a ha ↦ ?_, ih hes _⟩
    rw [he] at ha
    nomatch ha

/-- A trace is served if what each event needs is there or provided before it. -/
theorem served_iff (there : List α) (es : List ε) :
    Served provides needs there es ↔ ∀ before e after, es = before ++ e :: after →
      ∀ a ∈ needs e, a ∈ there ++ before.flatMap provides := by
  induction es generalizing there with
  | nil =>
    refine ⟨fun _ before e after heq ↦ ?_, fun _ ↦ trivial⟩
    exact absurd heq.symm (List.append_ne_nil_of_right_ne_nil _ (List.cons_ne_nil _ _))
  | cons e es ih =>
    rw [Served, ih]
    constructor
    · rintro ⟨hhead, hrest⟩ before f after heq a ha
      cases before with
      | nil =>
        obtain ⟨rfl, rfl⟩ := List.cons.inj heq
        rw [List.flatMap_nil, List.append_nil]
        exact hhead a ha
      | cons g before =>
        obtain ⟨rfl, rfl⟩ := List.cons.inj heq
        rw [List.flatMap_cons, ← List.append_assoc]
        exact hrest before f after rfl a ha
    · intro h
      refine ⟨fun a ha ↦ ?_, fun before f after heq a ha ↦ ?_⟩
      · have hhead := h [] e es rfl a ha
        rwa [List.flatMap_nil, List.append_nil] at hhead
      · have hrest := h (e :: before) f after (by rw [heq, List.cons_append]) a ha
        rwa [List.flatMap_cons, ← List.append_assoc] at hrest

end NetworkLab.Lib.Provision
