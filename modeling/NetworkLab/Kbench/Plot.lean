import NetworkLab.Kbench.Sheet
import NetworkLab.Lib.Dict

/-!
# Reading a report

`parse` of `lab-routes-ipv6/2026/plot:32–45`, which is that of `lab-routes-ipv4/2026/plot:31–44`,
on the report that `run-kernel` writes: whether each run is found again under the name of its
dump.
-/

namespace NetworkLab.Kbench.Report

open Lib Histogram

/-! ### `parse` -/

/-- What `parse` raises. -/
inductive ParseError where
  | unicodeDecodeError
  | indexError
  | valueError
  deriving DecidableEq

/-- The numbers of a run by their keys. -/
abbrev Numbers := Dict (List Char) Int

/-- The locals of `parse`. -/
structure Scan where
  results : Dict (List Char) Numbers
  name : Option (List Char)

/-- A part of a statistics line goes to the dictionary, `:42–44`. -/
def addNumber (d : Numbers) (f : List Char) : Except ParseError Numbers :=
  match PyText.splitOnce '=' f with
  | [k, v] =>
    match PyText.int? v with
    | some n => .ok (d.set k n)
    | none => .error .valueError
  | _ => .error .valueError

/-- The comprehension over the parts of a statistics line, `:42–44`. -/
def numbers (line : List Char) : Except ParseError Numbers :=
  (PyText.words line).foldlM addNumber Dict.empty

/-- One pass of the loop over the lines, `:38–45`. -/
def scanLine (s : Scan) (line : List Char) : Except ParseError Scan :=
  if ['#', '#', '#', ' '].isPrefixOf line then
    match PyText.splitOnce '-' (PyText.strip (line.drop 4)) with
    | _ :: name :: _ => .ok { s with name := some name }
    | _ => .error .indexError
  else if ['m', 'i', 'n', '='].isPrefixOf line then
    match s.name with
    | some name => do
      let numbers ← numbers line
      return ⟨s.results.set name numbers, none⟩
    | none => .ok s
  else .ok s

/-- `parse`, on the bytes of the file. -/
def parse (file : List UInt8) : Except ParseError (Dict (List Char) Numbers) :=
  match Utf8.decode? file with
  | none => .error .unicodeDecodeError
  | some text => do
    let s ← (PyText.lines (PyText.universalNewlines text)).foldlM scanLine ⟨Dict.empty, none⟩
    return s.results

/-! ### Lines of the report -/

/-- The numbers of a run as they are expected. -/
def expected (st : Statistics) : Numbers :=
  st.fields.foldl (fun d f ↦ d.set f.1.toList (f.2.toNat : Int)) Dict.empty

private theorem isPrefixOf_newline {p l : List Char} (hp : '\n' ∉ p) (h : ¬ p <+: l) :
    p.isPrefixOf (l ++ ['\n']) = false := by
  rw [← Bool.not_eq_true, List.isPrefixOf_iff_prefix, List.prefix_concat_iff, not_or]
  refine ⟨?_, h⟩
  rintro rfl
  exact hp (List.mem_append_right _ (List.mem_singleton.mpr rfl))

/-- A line that is passed over changes nothing. -/
theorem scanLine_passed {l : List Char} (hmarker : ¬ ['#', '#', '#', ' '] <+: l)
    (hmin : ¬ ['m', 'i', 'n', '='] <+: l) (s : Scan) : scanLine s (l ++ ['\n']) = .ok s := by
  rw [scanLine, isPrefixOf_newline (by decide) hmarker, isPrefixOf_newline (by decide) hmin]
  rfl

/-- The name of a dump has no whitespace. -/
theorem noSpace_dumpName {mod : Module} (r : Run mod × Nat) :
    ∀ c ∈ dumpName r, PyText.isSpace c = false := by
  intro c hc
  rw [dumpName, List.mem_append, List.mem_cons] at hc
  rcases hc with hc | rfl | hc
  · exact PyText.isSpace_of_isDigit (Nat.isDigit_of_mem_toDigits (by decide) (by decide) hc)
  · decide
  · exact r.1.noSpace c hc

/-- A marker gives the name of the dump. -/
theorem scanLine_marker {mod : Module} (r : Run mod × Nat) (s : Scan) :
    scanLine s (marker r ++ ['\n']) = .ok { s with name := some r.1.base } := by
  have hne : dumpName r ≠ [] := List.append_ne_nil_of_right_ne_nil _ (List.cons_ne_nil _ _)
  have hhyphen : '-' ∉ Nat.toDigits 10 r.2 := fun h ↦
    absurd (Nat.isDigit_of_mem_toDigits (by decide) (by decide) h) (by decide)
  have hstrip : PyText.strip ((marker r ++ ['\n']).drop 4) = dumpName r :=
    PyText.strip_newline hne (noSpace_dumpName r)
  have hsplit : PyText.splitOnce '-' (dumpName r) = [Nat.toDigits 10 r.2, r.1.base] :=
    PyText.splitOnce_append hhyphen r.1.base
  have hmarker : ['#', '#', '#', ' '].isPrefixOf (marker r ++ ['\n']) = true := by simp [marker]
  rw [scanLine, hmarker, if_pos rfl, hstrip, hsplit]

private theorem foldlM_fields {fs : List (String × UInt64)} (h : ∀ f ∈ fs, '=' ∉ f.1.toList)
    (d : Numbers) :
    (fs.map fun f ↦ f.1.toList ++ '=' :: Nat.toDigits 10 f.2.toNat).foldlM addNumber d =
      .ok (fs.foldl (fun d f ↦ d.set f.1.toList (f.2.toNat : Int)) d) := by
  induction fs generalizing d with
  | nil => rfl
  | cons f fs ih =>
    obtain ⟨hf, hfs⟩ := List.forall_mem_cons.mp h
    have hadd : addNumber d (f.1.toList ++ '=' :: Nat.toDigits 10 f.2.toNat) =
        .ok (d.set f.1.toList (f.2.toNat : Int)) := by
      simp only [addNumber, PyText.splitOnce_append hf, PyText.int?_toDigits]
    rw [List.map_cons, List.foldlM_cons, hadd]
    exact ih hfs _

/-- The numbers of a statistics line are read back. -/
theorem numbers_chars (st : Statistics) : numbers (st.chars ++ ['\n']) = .ok (expected st) := by
  have hkeys : ∀ f ∈ st.fields, f.1 ∈
      ["min", "max", "count", "batch", "average", "95th", "90th", "50th", "mad"] :=
    fun f hf ↦ List.mem_map_of_mem (f := (·.1)) hf
  have hwords : PyText.words (st.chars ++ ['\n']) =
      st.fields.map fun f ↦ f.1.toList ++ '=' :: Nat.toDigits 10 f.2.toNat := by
    apply PyText.words_intercalate
    intro t ht
    obtain ⟨f, hf, rfl⟩ := List.mem_map.mp ht
    refine ⟨List.append_ne_nil_of_right_ne_nil _ (List.cons_ne_nil _ _), fun c hc ↦ ?_⟩
    rw [List.mem_append, List.mem_cons] at hc
    rcases hc with hc | rfl | hc
    · have hspace : ∀ k ∈ ["min", "max", "count", "batch", "average", "95th", "90th", "50th",
          "mad"], k.toList.any PyText.isSpace = false := by decide
      exact PyText.not_isSpace_of_any (hspace f.1 (hkeys f hf)) c hc
    · decide
    · exact PyText.isSpace_of_isDigit (Nat.isDigit_of_mem_toDigits (by decide) (by decide) hc)
  rw [numbers, hwords]
  apply foldlM_fields
  intro f hf
  have hequals : ∀ k ∈ ["min", "max", "count", "batch", "average", "95th", "90th", "50th", "mad"],
      '=' ∉ k.toList := by decide
  exact hequals f.1 (hkeys f hf)

/-- A statistics line begins with the smallest sample. -/
theorem chars_eq_min (st : Statistics) : ∃ rest, st.chars = 'm' :: 'i' :: 'n' :: '=' :: rest := by
  obtain ⟨rest, hrest⟩ : ∃ rest, st.chars =
      ("min".toList ++ '=' :: Nat.toDigits 10 st.min.toNat) ++ rest := by
    rw [Statistics.chars, Statistics.fields, List.map_cons, List.map_cons,
      List.intercalate_cons_cons, List.append_assoc]
    exact ⟨_, rfl⟩
  exact ⟨Nat.toDigits 10 st.min.toNat ++ rest, hrest⟩

/-- A statistics line is filed under the pending name, and dropped if there is none. -/
theorem scanLine_chars (st : Statistics) (s : Scan) :
    scanLine s (st.chars ++ ['\n']) =
      match s.name with
      | some name => .ok ⟨s.results.set name (expected st), none⟩
      | none => .ok s := by
  obtain ⟨rest, hrest⟩ := chars_eq_min st
  have hmarker : ['#', '#', '#', ' '].isPrefixOf (st.chars ++ ['\n']) = false := by
    rw [hrest]
    rfl
  have hmin : ['m', 'i', 'n', '='].isPrefixOf (st.chars ++ ['\n']) = true := by
    rw [hrest]
    simp
  rw [scanLine, hmarker, hmin, if_neg Bool.false_ne_true, if_pos rfl, numbers_chars]
  cases s.name with
  | some name => rfl
  | none => rfl

end NetworkLab.Kbench.Report
