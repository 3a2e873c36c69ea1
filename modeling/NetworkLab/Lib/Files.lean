import Mathlib.Data.List.Basic
import Mathlib.Logic.Function.Basic

/-!
# Files that programs leave when they are stopped

A file is created empty and grows element by element. A program that is stopped has performed the
first of its effects, so that a copy may be cut short. The history of a file, which is what is done
to it in a run, says what becomes of it.
-/

namespace NetworkLab.Lib.Files

variable {κ β : Type*}

/-- What is done to a file. To create one that is there empties it. -/
inductive Effect (κ β : Type*) where
  | create (file : κ)
  | append (file : κ) (b : β)
  deriving DecidableEq

/-- The file of an effect. -/
def Effect.file : Effect κ β → κ
  | .create k => k
  | .append k _ => k

/-- What `cp` does. -/
def copy (k : κ) (bs : List β) : List (Effect κ β) := .create k :: bs.map (.append k)

/-- The effects that a program performs unless it is stopped, or the first ones. -/
def performed (stopped : Option Nat) (es : List (Effect κ β)) : List (Effect κ β) :=
  match stopped with
  | none => es
  | some n => es.take n

theorem isPrefix_performed (stopped : Option Nat) (es : List (Effect κ β)) :
    performed stopped es <+: es := by
  cases stopped with
  | none => exact List.prefix_rfl
  | some n => exact List.take_prefix n es

variable [DecidableEq κ]

/-- The files behind an effect. -/
def Effect.apply (fs : κ → Option (List β)) : Effect κ β → κ → Option (List β)
  | .create k => Function.update fs k (some [])
  | .append k b => Function.update fs k (some ((fs k).getD [] ++ [b]))

/-- The files behind some effects. -/
def replay (fs : κ → Option (List β)) (es : List (Effect κ β)) : κ → Option (List β) :=
  es.foldl Effect.apply fs

/-- What is done to a file. -/
def history (k : κ) (es : List (Effect κ β)) : List (Effect κ β) := es.filter (·.file = k)

@[simp]
theorem replay_append (fs : κ → Option (List β)) (xs ys : List (Effect κ β)) :
    replay fs (xs ++ ys) = replay (replay fs xs) ys := List.foldl_append

@[simp]
theorem history_append (k : κ) (xs ys : List (Effect κ β)) :
    history k (xs ++ ys) = history k xs ++ history k ys := List.filter_append xs ys

@[simp]
theorem history_nil (k : κ) : history k ([] : List (Effect κ β)) = [] := rfl

/-- An effect leaves the other files. -/
theorem Effect.apply_of_ne (fs : κ → Option (List β)) {e : Effect κ β} {k : κ} (h : e.file ≠ k) :
    e.apply fs k = fs k := by
  cases e with
  | create k' => exact Function.update_of_ne (Ne.symm h) _ _
  | append k' b => exact Function.update_of_ne (Ne.symm h) _ _

/-- An effect leaves a file where it was done. -/
theorem Effect.isSome_apply (fs : κ → Option (List β)) (e : Effect κ β) :
    (e.apply fs e.file).isSome := by
  cases e with
  | create k => simp [Effect.apply, Effect.file]
  | append k b => simp [Effect.apply, Effect.file]

/-- Only what is done to a file counts for it. -/
theorem replay_eq_history (fs : κ → Option (List β)) (k : κ) (es : List (Effect κ β)) :
    replay fs es k = replay fs (history k es) k := by
  induction es generalizing fs with
  | nil => rfl
  | cons e es ih =>
    have hagree (gs hs : κ → Option (List β)) (h : gs k = hs k) (xs : List (Effect κ β)) :
        replay gs (history k xs) k = replay hs (history k xs) k := by
      induction xs generalizing gs hs with
      | nil => exact h
      | cons x xs ih' =>
        rw [history, List.filter_cons]
        split
        · next hx =>
          have hfile : x.file = k := of_decide_eq_true hx
          apply ih'
          cases x with
          | create k' => simp [Effect.apply, Function.update_apply, h]
          | append k' b =>
            change k' = k at hfile
            simp [Effect.apply, hfile, h]
        · exact ih' gs hs h
    change replay (e.apply fs) es k = _
    rw [ih, history, history, List.filter_cons]
    split
    · rfl
    · next he =>
      have hfile : e.file ≠ k := fun h ↦ he (decide_eq_true h)
      exact hagree _ _ (e.apply_of_ne fs hfile) es

/-- A file to which nothing is done stays as it is. -/
theorem replay_of_history_nil (fs : κ → Option (List β)) {k : κ} {es : List (Effect κ β)}
    (h : history k es = []) : replay fs es k = fs k := by
  rw [replay_eq_history, h]
  rfl

/-- A file is there once something is done to it. -/
theorem isSome_replay {fs : κ → Option (List β)} {k : κ} {es : List (Effect κ β)}
    (h : (fs k).isSome ∨ history k es ≠ []) : (replay fs es k).isSome := by
  induction es generalizing fs with
  | nil => exact h.resolve_right fun hne ↦ hne rfl
  | cons e es ih =>
    change (replay (e.apply fs) es k).isSome
    by_cases he : e.file = k
    · apply ih
      left
      rw [← he]
      exact e.isSome_apply fs
    · apply ih
      rw [e.apply_of_ne fs he]
      apply h.imp_right
      intro hne hnil
      apply hne
      rw [history, List.filter_cons_of_neg (by simpa using he)]
      exact hnil

/-- The copy of a file is done to this file. -/
theorem history_copy (k : κ) (bs : List β) : history k (copy k bs) = copy k bs := by
  apply List.filter_eq_self.mpr
  intro e he
  apply decide_eq_true
  rcases List.mem_cons.mp he with rfl | he
  · rfl
  · obtain ⟨b, -, rfl⟩ := List.mem_map.mp he
    rfl

/-- The copy of a file leaves the others alone. -/
theorem history_copy_of_ne {k k' : κ} (h : k' ≠ k) (bs : List β) : history k (copy k' bs) = [] := by
  apply List.filter_eq_nil_iff.mpr
  intro e he
  rw [decide_eq_true_eq]
  rcases List.mem_cons.mp he with rfl | he
  · exact h
  · obtain ⟨b, -, rfl⟩ := List.mem_map.mp he
    exact h

private theorem replay_appends (fs : κ → Option (List β)) {k : κ} {old : List β}
    (h : fs k = some old) (bs : List β) :
    replay fs (bs.map (.append k)) k = some (old ++ bs) := by
  induction bs generalizing fs old with
  | nil =>
    rw [List.append_nil]
    exact h
  | cons b bs ih =>
    have hb : (Effect.append k b).apply fs k = some (old ++ [b]) := by
      simp [Effect.apply, h]
    have htail := ih ((Effect.append k b).apply fs) hb
    rw [List.append_assoc] at htail
    exact htail

/-- A copy that is cut short leaves the first elements, unless it has not begun. -/
theorem replay_prefix_copy (fs : κ → Option (List β)) {k : κ} {bs : List β}
    {es : List (Effect κ β)} (h : es <+: copy k bs) (hne : es ≠ []) :
    ∃ cs, replay fs es k = some cs ∧ cs <+: bs ∧ (es = copy k bs → cs = bs) := by
  obtain ⟨e, es, rfl⟩ := List.exists_cons_of_ne_nil hne
  rw [copy, List.cons_prefix_cons] at h
  obtain ⟨rfl, h⟩ := h
  obtain ⟨cs, hcs, rfl⟩ := (List.prefix_map_iff).mp h
  have hcreated : (Effect.create k : Effect κ β).apply fs k = some [] := by simp [Effect.apply]
  refine ⟨cs, ?_, hcs, fun heq ↦ ?_⟩
  · have hreplay := replay_appends ((Effect.create k).apply fs) hcreated cs
    exact hreplay
  · have hmap := (List.cons.inj heq).2
    have hlength := congrArg List.length hmap
    rw [List.length_map, List.length_map] at hlength
    exact hcs.eq_of_length hlength

/-- What a stopped program has done to a file is the first part of it. -/
theorem isPrefix_history_performed (k : κ) (stopped : Option Nat) (es : List (Effect κ β)) :
    history k (performed stopped es) <+: history k es :=
  (isPrefix_performed stopped es).filter _

/-- A file is created once by a copy. -/
theorem count_create_copy [DecidableEq β] (k : κ) (bs : List β) :
    (copy k bs).count (.create k) = 1 := by
  have hnone : (.create k : Effect κ β) ∉ bs.map (.append k) := by simp
  rw [copy, List.count_cons_self, List.count_eq_zero.mpr hnone]

/-- The history of a file has all of its creations. -/
theorem count_create_history [DecidableEq β] (k : κ) (es : List (Effect κ β)) :
    (history k es).count (.create k) = es.count (.create k) :=
  List.count_filter (decide_eq_true rfl)

end NetworkLab.Lib.Files
