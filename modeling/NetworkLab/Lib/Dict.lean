import Mathlib.Data.List.Nodup

/-!
# Insertion-ordered dictionaries

A dictionary lists its entries in the order in which their keys were first inserted; no
key occurs twice.
-/

namespace NetworkLab.Lib

/-- A dictionary from `κ` to `ν`. -/
structure Dict (κ ν : Type) where
  entries : List (κ × ν)
  nodup : (entries.map Prod.fst).Nodup

namespace Dict

variable {κ ν : Type} [DecidableEq κ]

/-- The dictionary without entries. -/
def empty : Dict κ ν := ⟨[], List.nodup_nil⟩

/-- The value of a key. -/
def get? (d : Dict κ ν) (k : κ) : Option ν := (d.entries.find? (·.1 = k)).map Prod.snd

/-- The entries with the value of one key changed; a new key goes to the end. -/
def alterEntries (k : κ) (f : Option ν → ν) : List (κ × ν) → List (κ × ν)
  | [] => [(k, f none)]
  | e :: es => if e.1 = k then (k, f (some e.2)) :: es else e :: alterEntries k f es

theorem keys_alterEntries (k : κ) (f : Option ν → ν) (es : List (κ × ν)) :
    (alterEntries k f es).map Prod.fst =
      if k ∈ es.map Prod.fst then es.map Prod.fst else es.map Prod.fst ++ [k] := by
  induction es with
  | nil => rfl
  | cons e es ih =>
    rw [alterEntries]
    by_cases he : e.1 = k
    · have hmem : k ∈ (e :: es).map Prod.fst := List.mem_cons.mpr (Or.inl he.symm)
      rw [if_pos he, if_pos hmem, List.map_cons, List.map_cons, he]
    · rw [if_neg he, List.map_cons, ih]
      by_cases hk : k ∈ es.map Prod.fst
      · have hmem : k ∈ (e :: es).map Prod.fst := List.mem_cons_of_mem e.1 hk
        rw [if_pos hk, if_pos hmem]
        rfl
      · have hnot : k ∉ (e :: es).map Prod.fst :=
          fun hmem ↦ (List.mem_cons.mp hmem).elim (Ne.symm he) hk
        rw [if_neg hk, if_neg hnot]
        rfl

/-- Change of the value of a key, which may be new. -/
def alter (d : Dict κ ν) (k : κ) (f : Option ν → ν) : Dict κ ν where
  entries := alterEntries k f d.entries
  nodup := by
    rw [keys_alterEntries]
    split
    · exact d.nodup
    · next hk =>
      rw [List.nodup_append]
      refine ⟨d.nodup, List.nodup_singleton k, ?_⟩
      rintro a ha b hb rfl
      rw [List.mem_singleton] at hb
      exact hk (hb ▸ ha)

/-- Assignment to a key. -/
def set (d : Dict κ ν) (k : κ) (v : ν) : Dict κ ν := d.alter k fun _ ↦ v

/-- A new key goes to the end. -/
theorem entries_alter_of_not_mem {d : Dict κ ν} {k : κ} (f : Option ν → ν)
    (h : k ∉ d.entries.map Prod.fst) : (d.alter k f).entries = d.entries ++ [(k, f none)] := by
  obtain ⟨es, hnodup⟩ := d
  unfold alter
  dsimp only at h ⊢
  clear hnodup
  induction es with
  | nil => rfl
  | cons e es ih =>
    rw [List.map_cons, List.mem_cons, not_or] at h
    rw [alterEntries, if_neg (Ne.symm h.1), ih h.2]
    rfl

/-- New keys go to the end one after the other. -/
theorem entries_foldl_alter (f : ν → Option ν → ν) (hf : ∀ v, f v none = v)
    (adds : List (κ × ν)) (d : Dict κ ν) (h : ((d.entries ++ adds).map Prod.fst).Nodup) :
    (adds.foldl (fun d a ↦ d.alter a.1 (f a.2)) d).entries = d.entries ++ adds := by
  induction adds generalizing d with
  | nil => exact (List.append_nil _).symm
  | cons a adds ih =>
    have hnew : a.1 ∉ d.entries.map Prod.fst := by
      rw [List.map_append, List.nodup_append] at h
      intro hmem
      exact h.2.2 a.1 hmem a.1 List.mem_cons_self rfl
    have hstep : (d.alter a.1 (f a.2)).entries = d.entries ++ [a] := by
      rw [entries_alter_of_not_mem (f a.2) hnew, hf]
    rw [List.foldl_cons, ih, hstep, List.append_assoc]
    · rfl
    · rw [hstep, List.append_assoc]
      exact h

/-- A changed key has its new value, the other keys keep theirs. -/
theorem get?_alter (d : Dict κ ν) (k k' : κ) (f : Option ν → ν) :
    (d.alter k f).get? k' = if k' = k then some (f (d.get? k)) else d.get? k' := by
  obtain ⟨es, hnodup⟩ := d
  unfold alter get?
  dsimp only
  clear hnodup
  induction es with
  | nil => by_cases hk : k' = k <;> simp [alterEntries, hk, eq_comm]
  | cons e es ih =>
    rw [alterEntries]
    by_cases he : e.1 = k
    · rw [if_pos he]
      by_cases hk : k' = k
      · simp [hk, he]
      · simp [hk, he, Ne.symm hk]
    · rw [if_neg he]
      by_cases hk : e.1 = k'
      · have hne : k' ≠ k := fun h ↦ he (hk.trans h)
        simp [hk, hne]
      · simp only [List.find?_cons, hk, he, decide_false, ih]

/-- After an assignment. -/
theorem get?_set (d : Dict κ ν) (k k' : κ) (v : ν) :
    (d.set k v).get? k' = if k' = k then some v else d.get? k' :=
  get?_alter d k k' _

/-- A value that is found is among the entries. -/
theorem mem_of_get? {d : Dict κ ν} {k : κ} {v : ν} (h : d.get? k = some v) :
    (k, v) ∈ d.entries := by
  obtain ⟨e, he, rfl⟩ := Option.map_eq_some_iff.mp h
  have hkey : e.1 = k := by simpa using List.find?_some he
  rw [← hkey]
  exact List.mem_of_find?_eq_some he

/-- An entry is found. -/
theorem get?_of_mem {d : Dict κ ν} {k : κ} {v : ν} (h : (k, v) ∈ d.entries) :
    d.get? k = some v := by
  obtain ⟨es, hnodup⟩ := d
  unfold get?
  dsimp only at h hnodup ⊢
  induction es with
  | nil => cases h
  | cons e es ih =>
    obtain ⟨hkey, hrest⟩ := List.nodup_cons.mp hnodup
    rcases List.mem_cons.mp h with rfl | hmem
    · simp
    · have hne : e.1 ≠ k := by
        intro heq
        rw [heq] at hkey
        exact hkey (List.mem_map_of_mem hmem)
      rw [List.find?_cons, decide_eq_false hne]
      exact ih hrest hmem

/-- `update`: the entries of another dictionary are assigned one after the other. -/
def update (d d' : Dict κ ν) : Dict κ ν := d'.entries.foldl (fun d e ↦ d.set e.1 e.2) d

/-- The other dictionary goes first. -/
theorem get?_update (d d' : Dict κ ν) (k : κ) :
    (d.update d').get? k = (d'.get? k).or (d.get? k) := by
  obtain ⟨es, hnodup⟩ := d'
  unfold update get?
  dsimp only at hnodup ⊢
  induction es generalizing d with
  | nil => rfl
  | cons e es ih =>
    obtain ⟨hkey, hrest⟩ := List.nodup_cons.mp hnodup
    have hset := get?_set d e.1 k e.2
    unfold get? at hset
    rw [List.foldl_cons, ih _ hrest, hset, List.find?_cons]
    by_cases hk : k = e.1
    · have hnone : es.find? (·.1 = k) = none := by
        rw [List.find?_eq_none]
        intro e' he' heq
        have hsame : e'.1 = k := of_decide_eq_true heq
        exact hkey (hk ▸ hsame ▸ List.mem_map_of_mem he')
      rw [if_pos hk, hnone, decide_eq_true hk.symm]
      rfl
    · rw [if_neg hk, decide_eq_false fun heq ↦ hk heq.symm]

end Dict
end NetworkLab.Lib
