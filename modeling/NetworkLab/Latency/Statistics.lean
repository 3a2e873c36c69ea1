import NetworkLab.Lib.Csv
import NetworkLab.Lib.Dict
import Mathlib.Data.List.Dedup
import Mathlib.Data.List.Induction
import Mathlib.Data.List.Sort

/-!
# Statistics of a benchmark

`Statistics` of `lab-latency/benchmark:28–64`: the values that are set are gathered in time slots,
and written as a table. `csv.reader` with the same delimiter, by which `graph` takes the file
(`:388`, `:417`), finds in it what was set last. A time is the one of its slot.
-/

namespace NetworkLab.Latency

open Lib

/-- A text. -/
abbrev Text := List Char

/-- What is set: a part of a line, the number of bytes in a queue, or `True` for a key alone. -/
inductive Value where
  | text (t : Text)
  | number (n : Int)
  | flag

/-- `str(value)`. -/
def Value.str : Value → Text
  | .text t => t
  | .number n => (toString n).toList
  | .flag => "True".toList

/-- Statistics by time and name, and the names of both kinds in the order of their first use. -/
structure Statistics where
  statistics : Dict Int (Dict Text Value)
  properties : List Text
  propertiesRemote : List Text

namespace Statistics

/-- Nothing is set, `:31–38`. -/
def init : Statistics := ⟨Dict.empty, [], []⟩

/-- A name goes to the end of a list unless it is there. -/
def addName (names : List Text) (name : Text) : List Text :=
  if names.contains name then names else names ++ [name]

/-- `name.startswith("remote_")`. -/
def isRemote (name : Text) : Bool := "remote_".toList.isPrefixOf name

/-- `set`, `:55–64`. -/
def set (s : Statistics) (now : Int) (name : Text) (value : Value) : Statistics where
  statistics := s.statistics.alter now fun row ↦ (row.getD Dict.empty).set name value
  properties := if isRemote name then s.properties else addName s.properties name
  propertiesRemote :=
    if isRemote name then addName s.propertiesRemote name else s.propertiesRemote

/-- `time`. -/
def time : Text := "time".toList

/-- The columns, `:46–47`. -/
def fieldnames (s : Statistics) : List Text := time :: (s.properties ++ s.propertiesRemote)

/-- `row` of a time, `:51–52`. -/
def row (k : Int) (values : Dict Text Value) : Dict Text Value :=
  (Dict.empty.set time (.number k)).update values

/-- `writer.writerow`: a key that is no column raises, and a column without a key is empty. -/
def writeRow (columns : List Text) (row : Dict Text Value) : Except Unit (List Text) :=
  if row.entries.any fun e ↦ !columns.contains e.1 then .error ()
  else .ok (columns.map fun column ↦ ((row.get? column).map Value.str).getD [])

/-- `sorted(self.__statistics.keys())`. -/
def keys (s : Statistics) : List Int :=
  (s.statistics.entries.map Prod.fst).mergeSort fun k l ↦ decide (k ≤ l)

/-- `dump`, `:44–53`: the text of the file. -/
def dump (s : Statistics) : Except Unit Text := do
  let rows ← s.keys.mapM fun k ↦
    writeRow s.fieldnames (row k ((s.statistics.get? k).getD Dict.empty))
  return Csv.writeRows '|' (s.fieldnames :: rows)

/-- A call of `set`, with the slot in which it is made. -/
structure Call where
  now : Int
  name : Text
  value : Value

/-- The statistics behind some calls. -/
def run (calls : List Call) : Statistics :=
  calls.foldl (fun s c ↦ s.set c.now c.name c.value) init

/-! ### What was set -/

/-- Names in the order of their first use. -/
def firstUses (names : List Text) : List Text := names.reverse.dedup.reverse

/-- The value that a name was given last in a slot. -/
def last? (calls : List Call) (k : Int) (name : Text) : Option Value :=
  ((calls.filter fun c ↦ c.now = k ∧ c.name = name).getLast?).map Call.value

/-- The local names, and the remote ones. -/
def namesOf (remote : Bool) (calls : List Call) : List Text :=
  firstUses ((calls.map Call.name).filter (isRemote · = remote))

/-- The columns of the table: the time, the local names and the remote ones. -/
def columns (calls : List Call) : List Text :=
  time :: (namesOf false calls ++ namesOf true calls)

/-- A cell: what was set last, else the time of the slot in its column and nothing elsewhere. -/
def cell (calls : List Call) (k : Int) (column : Text) : Text :=
  match last? calls k column with
  | some value => value.str
  | none => if column = time then (toString k).toList else []

theorem firstUses_concat (names : List Text) (name : Text) :
    firstUses (names ++ [name]) = addName (firstUses names) name := by
  have hmem : (firstUses names).contains name ↔ name ∈ names.reverse := by
    rw [List.contains_iff_mem, firstUses, List.mem_reverse, List.mem_dedup]
  rw [firstUses, List.reverse_append, List.reverse_singleton, List.singleton_append, addName]
  by_cases h : name ∈ names.reverse
  · rw [List.dedup_cons_of_mem h, if_pos (hmem.mpr h), firstUses]
  · rw [List.dedup_cons_of_notMem h, if_neg fun hin ↦ h (hmem.mp hin), List.reverse_cons,
      firstUses]

theorem mem_firstUses {names : List Text} {name : Text} :
    name ∈ firstUses names ↔ name ∈ names := by
  rw [firstUses, List.mem_reverse, List.mem_dedup, List.mem_reverse]

theorem last?_concat (calls : List Call) (c : Call) (k : Int) (name : Text) :
    last? (calls ++ [c]) k name =
      if c.now = k ∧ c.name = name then some c.value else last? calls k name := by
  unfold last?
  rw [List.filter_append, List.filter_singleton]
  split
  · next h => simp [h]
  · next h => simp [h]

theorem namesOf_concat (remote : Bool) (calls : List Call) (c : Call) :
    namesOf remote (calls ++ [c]) =
      if isRemote c.name = remote then addName (namesOf remote calls) c.name
      else namesOf remote calls := by
  unfold namesOf
  rw [List.map_append, List.map_singleton, List.filter_append, List.filter_singleton]
  by_cases h : isRemote c.name = remote
  · rw [if_pos h, decide_eq_true h, cond_true, firstUses_concat]
  · rw [if_neg h, decide_eq_false h, cond_false, List.append_nil]

theorem mem_columns {calls : List Call} {name : Text} :
    name ∈ columns calls ↔ name = time ∨ ∃ c ∈ calls, c.name = name := by
  unfold columns namesOf
  simp only [List.mem_cons, List.mem_append, mem_firstUses, List.mem_filter, List.mem_map,
    decide_eq_true_eq]
  cases isRemote name <;> simp

/-- What the statistics hold of some calls. -/
structure Holds (s : Statistics) (calls : List Call) : Prop where
  properties : s.properties = namesOf false calls
  propertiesRemote : s.propertiesRemote = namesOf true calls
  value : ∀ k name, (s.statistics.get? k).bind (·.get? name) = last? calls k name
  slot : ∀ k, (s.statistics.get? k).isSome ↔ ∃ c ∈ calls, c.now = k

/-- A call of `set`. -/
theorem Holds.set {s : Statistics} {calls : List Call} (h : Holds s calls) (c : Call) :
    Holds (s.set c.now c.name c.value) (calls ++ [c]) where
  properties := by
    rw [namesOf_concat, ← h.properties, Statistics.set]
    cases isRemote c.name <;> rfl
  propertiesRemote := by
    rw [namesOf_concat, ← h.propertiesRemote, Statistics.set]
  value k name := by
    rw [last?_concat, ← h.value, Statistics.set, Dict.get?_alter]
    by_cases hk : k = c.now
    · rw [if_pos hk, Option.bind_some, Dict.get?_set, hk]
      by_cases hname : name = c.name
      · rw [if_pos hname, if_pos ⟨rfl, hname.symm⟩]
      · rw [if_neg hname, if_neg fun hc ↦ hname hc.2.symm]
        cases s.statistics.get? c.now <;> rfl
    · rw [if_neg hk, if_neg fun hc ↦ hk hc.1.symm]
  slot k := by
    rw [Statistics.set, Dict.get?_alter]
    simp only [List.mem_append, List.mem_singleton, or_and_right, exists_or, exists_eq_left]
    by_cases hk : k = c.now
    · simp [hk]
    · rw [if_neg hk, h.slot, or_iff_left fun hc ↦ hk hc.symm]

/-- All that was set is there. -/
theorem holds_run (calls : List Call) : Holds (run calls) calls := by
  induction calls using List.reverseRecOn with
  | nil => exact ⟨rfl, rfl, fun _ _ ↦ rfl, fun k ↦ by simp [run, init, Dict.get?, Dict.empty]⟩
  | append_singleton calls c ih =>
    rw [run, List.foldl_append]
    exact ih.set c

/-- The columns are those of the calls. -/
theorem fieldnames_run (calls : List Call) : (run calls).fieldnames = columns calls := by
  rw [fieldnames, (holds_run calls).properties, (holds_run calls).propertiesRemote, columns]

private theorem exists_of_last? {calls : List Call} {k : Int} {name : Text} {v : Value}
    (h : last? calls k name = some v) : ∃ c ∈ calls, c.name = name := by
  obtain ⟨c, hc, -⟩ := Option.map_eq_some_iff.mp h
  obtain ⟨hmem, hkey⟩ := List.mem_filter.mp (List.mem_of_getLast? hc)
  exact ⟨c, hmem, (of_decide_eq_true hkey).2⟩

/-- The cells of a row. -/
theorem get?_row (calls : List Call) (k : Int) {values : Dict Text Value}
    (h : (run calls).statistics.get? k = some values) (column : Text) :
    (row k values).get? column =
      (last? calls k column).or (if column = time then some (.number k) else none) := by
  have hvalue := (holds_run calls).value k column
  rw [h, Option.bind_some] at hvalue
  rw [row, Dict.get?_update, hvalue, Dict.get?_set]
  rfl

/-- A row is written, since each of its keys is a column. -/
theorem writeRow_run (calls : List Call) (k : Int) {values : Dict Text Value}
    (h : (run calls).statistics.get? k = some values) :
    writeRow (columns calls) (row k values) = .ok ((columns calls).map (cell calls k)) := by
  have hkeys : ¬ ((row k values).entries.any fun e ↦ !(columns calls).contains e.1) = true := by
    simp only [List.any_eq_true, Bool.not_eq_true', not_exists, not_and, Bool.not_eq_false,
      List.contains_iff_mem]
    rintro ⟨name, v⟩ he
    have hget := Dict.get?_of_mem he
    rw [get?_row calls k h] at hget
    rw [mem_columns]
    cases hlast : last? calls k name with
    | some v => exact Or.inr (exists_of_last? hlast)
    | none =>
      rw [hlast, Option.none_or] at hget
      exact Or.inl (by_contra fun hne ↦ by simp [hne] at hget)
  rw [writeRow, if_neg hkeys]
  congr 2
  funext column
  rw [get?_row calls k h, cell]
  cases last? calls k column with
  | some v => rfl
  | none => by_cases htime : column = time <;> simp [htime, Value.str]

theorem keys_pairwise (s : Statistics) : s.keys.Pairwise (· < ·) := by
  have hle : s.keys.Pairwise (· ≤ ·) :=
    (List.pairwise_mergeSort (by simp; omega) (by simp; omega) _).imp of_decide_eq_true
  have hnodup : s.keys.Nodup := (List.mergeSort_perm _ _).nodup_iff.mpr s.statistics.nodup
  exact (hle.and hnodup).imp fun h ↦ lt_of_le_of_ne h.1 h.2

theorem mem_keys_run {calls : List Call} {k : Int} :
    k ∈ (run calls).keys ↔ ∃ values, (run calls).statistics.get? k = some values := by
  rw [keys, List.mem_mergeSort, List.mem_map]
  constructor
  · rintro ⟨⟨k, values⟩, hmem, rfl⟩
    exact ⟨values, Dict.get?_of_mem hmem⟩
  · rintro ⟨values, hget⟩
    exact ⟨(k, values), Dict.mem_of_get? hget, rfl⟩

private theorem mapM_ok {α β : Type} {f : α → Except Unit β} {g : α → β} {xs : List α}
    (h : ∀ x ∈ xs, f x = .ok (g x)) : xs.mapM f = .ok (xs.map g) := by
  induction xs with
  | nil => rfl
  | cons x xs ih =>
    obtain ⟨hx, hxs⟩ := List.forall_mem_cons.mp h
    rw [List.mapM_cons, hx, ih hxs]
    rfl

/-- The table of some calls at some times. -/
def table (calls : List Call) (ks : List Int) : List (List Text) :=
  columns calls :: ks.map fun k ↦ (columns calls).map (cell calls k)

/-- What is dumped. -/
theorem dump_run (calls : List Call) :
    (run calls).dump = .ok (Csv.writeRows '|' (table calls (run calls).keys)) := by
  have hrows : ((run calls).keys.mapM fun k ↦ writeRow (columns calls)
      (row k (((run calls).statistics.get? k).getD Dict.empty))) =
      .ok ((run calls).keys.map fun k ↦ (columns calls).map (cell calls k)) := by
    apply mapM_ok
    intro k hk
    obtain ⟨values, hget⟩ := mem_keys_run.mp hk
    rw [hget, Option.getD_some, writeRow_run calls k hget]
  rw [dump, fieldnames_run, hrows]
  rfl

private theorem map_eq_self_iff {α : Type} {f : α → α} {xs : List α} :
    xs.map f = xs ↔ ∀ x ∈ xs, f x = x := by
  have h := List.map_eq_map_iff (f := f) (g := id) (l := xs)
  rwa [List.map_id] at h

/-- What is set is dumped and read back: the columns are the time, the local names and the remote
ones, each name once and in the order of first use; each time at which something was set has one
row, earlier times first; and a cell is what its name was given last at its time. The reader raises
for a field with a null character or one that is too long, and carriage returns are translated in
text mode; the table comes back as it is if and only if none of its fields has either of them. -/
theorem dump_spec (calls : List Call) :
    ∃ ks : List Int, ks.Pairwise (· < ·) ∧ (∀ k, k ∈ ks ↔ ∃ c ∈ calls, c.now = k) ∧
      ∃ text, (run calls).dump = .ok text ∧
        (∀ rows, Csv.reader '|' (PyText.universalNewlines text) = some rows ↔
          (∀ row ∈ table calls ks, ∀ field ∈ row, Csv.Readable field) ∧
            rows = (table calls ks).map (List.map PyText.universalNewlines)) ∧
        (Csv.reader '|' (PyText.universalNewlines text) = some (table calls ks) ↔
          ∀ row ∈ table calls ks, ∀ field ∈ row,
            '\r' ∉ field ∧ '\x00' ∉ field ∧ field.length ≤ Csv.fieldSizeLimit) := by
  have hne : ∀ row ∈ table calls (run calls).keys, row ≠ [] := by
    intro row hrow
    rcases List.mem_cons.mp hrow with rfl | hrow
    · exact List.cons_ne_nil _ _
    · obtain ⟨k, -, rfl⟩ := List.mem_map.mp hrow
      exact List.cons_ne_nil _ _
  have hread := Csv.reader_writeRows (by decide : '|' ∉ ['"', '\n', '\r']) (by decide) hne
  refine ⟨(run calls).keys, keys_pairwise _, fun k ↦ ?_, _, dump_run calls, hread, ?_⟩
  · rw [mem_keys_run, ← Option.isSome_iff_exists, (holds_run calls).slot]
  · rw [hread, eq_comm, map_eq_self_iff]
    simp only [map_eq_self_iff, ← Csv.readable_and_eq_iff, imp_and, forall_and]

end Statistics

end NetworkLab.Latency
