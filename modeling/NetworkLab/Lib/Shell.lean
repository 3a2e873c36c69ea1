import Mathlib.Data.List.Basic
import Mathlib.Data.List.TakeWhile

/-!
# Words as the shell makes them

Unquoted expansions are split into fields at blanks. Texts have none of the characters that the
shell treats in another way here: no pattern, no escape, and no field that `echo` takes for an
option.
-/

namespace NetworkLab.Lib.Shell

/-- What a variable holds. -/
abbrev Text := List Char

scoped instance : Coe String Text := ⟨String.toList⟩

/-- Blanks, of the default `IFS`. -/
def isBlank (c : Char) : Bool := c == ' ' || c == '\t' || c == '\n'

/-- The fields of an unquoted expansion. -/
def fields (s : Text) : List Text := (s.splitOnP isBlank).filter (!·.isEmpty)

/-- The fields of an unquoted expansion while `IFS` is one character that is no blank: the
character ends a field. -/
def fieldsAt (sep : Char) (s : Text) : List Text :=
  let parts := s.splitOn sep
  if parts.getLast? = some [] then parts.dropLast else parts

/-- `echo`, without the line end that a command substitution takes away again. -/
def echo (ws : List Text) : Text := [' '].intercalate ws

/-- `tr a b`. -/
def tr (a b : Char) (s : Text) : Text := s.map fun c ↦ if c = a then b else c

/-- `${t#p}` for a prefix without a pattern. -/
def dropPrefix (p t : Text) : Text := if p <+: t then t.drop p.length else t

/-- `${t#*c}`. -/
def afterFirst (c : Char) (t : Text) : Text :=
  if c ∈ t then (t.dropWhile (· ≠ c)).drop 1 else t

/-- `${t##*c}`. -/
def afterLast (c : Char) (t : Text) : Text := (t.reverse.takeWhile (· ≠ c)).reverse

/-- `${t%%c*}`. -/
def beforeFirst (c : Char) (t : Text) : Text := t.takeWhile (· ≠ c)

/-- `${t%c*}`. -/
def beforeLast (c : Char) (t : Text) : Text :=
  if c ∈ t then ((t.reverse.dropWhile (· ≠ c)).drop 1).reverse else t

/-! ### Fields -/

/-- A text in which no character is a blank, character by character. -/
theorem not_isBlank_of_any {s : Text} (h : s.any isBlank = false) : ∀ c ∈ s, isBlank c = false :=
  fun c hc ↦ eq_false_of_ne_true (List.any_eq_false.mp h c hc)

@[simp] theorem fields_nil : fields [] = [] := rfl

/-- Fields end at a blank. -/
theorem fields_append {c : Char} (hc : isBlank c = true) (s t : Text) :
    fields (s ++ c :: t) = fields s ++ fields t := by
  rw [fields, List.splitOnP_append_cons s t hc, List.filter_append]
  rfl

/-- A text without blanks is a field. -/
theorem fields_of_not_blank {w : Text} (hne : w ≠ []) (hw : ∀ c ∈ w, isBlank c = false) :
    fields w = [w] := by
  have hsplit : w.splitOnP isBlank = [w] := List.splitOnP_eq_singleton hw
  rw [fields, hsplit, List.filter_cons_of_pos]
  · rfl
  · simpa using hne

/-- Fields that were joined by the character of `IFS` are read back. -/
theorem fieldsAt_intercalate {sep : Char} {ws : List Text} (h : ∀ w ∈ ws, w ≠ [] ∧ sep ∉ w) :
    fieldsAt sep ([sep].intercalate ws) = ws := by
  by_cases hne : ws = []
  · rw [hne]
    rfl
  · have hsplit : ([sep].intercalate ws).splitOn sep = ws :=
      List.splitOn_intercalate sep (fun w hw ↦ (h w hw).2) hne
    have hlast : ws.getLast? ≠ some [] := by
      intro hlast
      exact (h [] (List.mem_of_getLast? hlast)).1 rfl
    rw [fieldsAt, hsplit, if_neg hlast]

private theorem fields_word {w : Text} (hw : ∀ c ∈ w, isBlank c = false) :
    fields w = if w = [] then [] else [w] := by
  split
  · next he => rw [he, fields_nil]
  · next hne => exact fields_of_not_blank hne hw

/-- A text is without blanks or is cut at its first blank. -/
theorem blank_induction {motive : Text → Prop}
    (word : ∀ w, (∀ c ∈ w, isBlank c = false) → motive w)
    (cut : ∀ w c t, (∀ c ∈ w, isBlank c = false) → isBlank c = true → motive t →
      motive (w ++ c :: t)) (s : Text) : motive s := by
  have hprepend (s w : Text) (hw : ∀ c ∈ w, isBlank c = false) : motive (w ++ s) := by
    induction s generalizing w with
    | nil =>
      rw [List.append_nil]
      exact word w hw
    | cons c s ih =>
      by_cases hc : isBlank c = true
      · exact cut w c s hw hc (ih [] (List.forall_mem_nil _))
      · have hconcat := ih (w ++ [c]) (List.forall_mem_append.mpr
          ⟨hw, List.forall_mem_singleton.mpr (Bool.eq_false_iff.mpr hc)⟩)
        rw [List.append_assoc, List.singleton_append] at hconcat
        exact hconcat
  exact hprepend s [] (List.forall_mem_nil _)

/-- A field has only characters of the text. -/
theorem mem_of_mem_fields {s w : Text} {a : Char} (h : w ∈ fields s) (ha : a ∈ w) : a ∈ s := by
  have hword {v : Text} (hv : ∀ c ∈ v, isBlank c = false) (h : w ∈ fields v) : a ∈ v := by
    rw [fields_word hv] at h
    split at h
    · nomatch h
    · exact List.mem_singleton.mp h ▸ ha
  induction s using blank_induction with
  | word v hv => exact hword hv h
  | cut v c t hv hc ih =>
    rw [fields_append hc, List.mem_append] at h
    rcases h with h | h
    · exact List.mem_append_left _ (hword hv h)
    · exact List.mem_append_right _ (List.mem_cons_of_mem c (ih h))

/-- What `tr` replaces is gone. -/
theorem not_mem_tr {a b : Char} (hab : a ≠ b) (s : Text) : a ∉ tr a b s := by
  intro h
  obtain ⟨c, -, hc⟩ := List.mem_map.mp h
  split at hc
  · exact hab hc.symm
  · next hne => exact hne hc

/-! ### Pattern removal -/

/-- Without the prefix a text is shorter. -/
theorem length_dropPrefix_lt {p t : Text} (hp : p ≠ []) (h : p <+: t) :
    (dropPrefix p t).length < t.length := by
  have hle := h.length_le
  have hpos := List.length_pos_iff.mpr hp
  rw [dropPrefix, if_pos h, List.length_drop]
  omega

/-- What follows the last `c` is shorter than the text. -/
theorem length_afterLast_lt {c : Char} {t : Text} (h : c ∈ t) :
    (afterLast c t).length < t.length := by
  have hpre : t.reverse.takeWhile (· ≠ c) <+: t.reverse := List.takeWhile_prefix _
  have hlength := hpre.length_le
  rw [List.length_reverse] at hlength
  rw [afterLast, List.length_reverse]
  apply Nat.lt_of_le_of_ne hlength
  intro he
  have hself := hpre.eq_of_length (he.trans List.length_reverse.symm)
  have hall := List.takeWhile_eq_self_iff.mp hself
  exact of_decide_eq_true (hall c (List.mem_reverse.mpr h)) rfl

/-- What stands before the last `c` is in the text. -/
theorem mem_of_mem_beforeLast {a c : Char} {t : Text} (h : a ∈ beforeLast c t) : a ∈ t := by
  unfold beforeLast at h
  split at h
  · have hdrop := List.mem_of_mem_drop (List.mem_reverse.mp h)
    exact List.mem_reverse.mp ((List.dropWhile_sublist _).mem hdrop)
  · exact h

end NetworkLab.Lib.Shell
