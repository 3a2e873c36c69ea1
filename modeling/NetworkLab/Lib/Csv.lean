import NetworkLab.Lib.PyText

/-!
# Tables as `csv` writes and reads them

`csv.writer` with some delimiter and else its defaults, which quotes what needs it and doubles the
quotes in it, and `csv.reader` on lines that end in a newline. A table that is written is read back,
but for the newlines that text mode translates in its fields, unless the reader raises for a field.
-/

namespace NetworkLab.Lib.Csv

/-- What a field holds. -/
abbrev Text := List Char

/-! ### Writing -/

/-- Whether a field is quoted. -/
def needsQuote (delimiter : Char) (field : Text) : Bool :=
  field.any fun c ↦ c = delimiter || c = '"' || c = '\r' || c = '\n'

/-- The quotes in a field are doubled. -/
def doubled (field : Text) : Text := field.flatMap fun c ↦ if c = '"' then ['"', '"'] else [c]

/-- A field between quotes. -/
def quoted (field : Text) : Text := '"' :: doubled field ++ ['"']

/-- A field as it is written. -/
def writeField (delimiter : Char) (field : Text) : Text :=
  if needsQuote delimiter field then quoted field else field

/-- `writer.writerow`. The only field of a row is quoted if it is empty. -/
def writeRow (delimiter : Char) (row : List Text) : Text :=
  (if row = [[]] then quoted [] else [delimiter].intercalate (row.map (writeField delimiter))) ++
    ['\r', '\n']

/-- Rows one after the other. -/
def writeRows (delimiter : Char) (rows : List (List Text)) : Text :=
  rows.flatMap (writeRow delimiter)

/-! ### Reading -/

/-- Where the reader is. -/
inductive Mode where
  | startRecord
  | startField
  | inField
  | inQuotedField
  | quoteInQuotedField
  deriving DecidableEq

/-- What the reader has: the rows, the fields of the row that it reads, and the field. -/
structure Reader where
  mode : Mode
  rows : List (List Text)
  fields : List Text
  field : Text
  deriving DecidableEq

namespace Reader

/-- The field is over. -/
def save (r : Reader) : Reader :=
  { r with mode := .startField, fields := r.fields ++ [r.field], field := [] }

/-- The row is over. -/
def close (r : Reader) : Reader :=
  { mode := .startRecord, rows := r.rows ++ [r.fields], fields := [], field := [] }

/-- The field goes on. -/
def add (r : Reader) (mode : Mode) (c : Char) : Reader :=
  { r with mode := mode, field := r.field ++ [c] }

/-- A character at the start of a field. -/
def start (delimiter : Char) (r : Reader) (c : Char) : Reader :=
  if c = '\n' then r.save.close
  else if c = '"' then { r with mode := .inQuotedField }
  else if c = delimiter then r.save
  else r.add .inField c

/-- A character behind a field that is not within quotes. -/
def goOn (delimiter : Char) (r : Reader) (c : Char) : Reader :=
  if c = '\n' then r.save.close
  else if c = delimiter then r.save
  else r.add .inField c

/-- One character. -/
def step (delimiter : Char) (r : Reader) (c : Char) : Reader :=
  match r.mode with
  | .startRecord => if c = '\n' then r.close else r.start delimiter c
  | .startField => r.start delimiter c
  | .inField => r.goOn delimiter c
  | .inQuotedField =>
    if c = '"' then { r with mode := .quoteInQuotedField } else r.add .inQuotedField c
  | .quoteInQuotedField =>
    if c = '"' then r.add .inQuotedField c else r.goOn delimiter c

end Reader

/-- The reader behind a text. -/
def readFrom (delimiter : Char) (r : Reader) (text : Text) : Reader :=
  text.foldl (Reader.step delimiter) r

/-- The rows of a text. A last row without a newline is a row as well. -/
def read (delimiter : Char) (text : Text) : List (List Text) :=
  let r := readFrom delimiter ⟨.startRecord, [], [], []⟩ text
  if r.mode = .startRecord then r.rows else r.save.close.rows

/-- `csv.field_size_limit()`. -/
def fieldSizeLimit : Nat := 131072

/-- `list(csv.reader(f))`, which raises for a null character and for a field that is too long. -/
def reader (delimiter : Char) (text : Text) : Option (List (List Text)) :=
  let rows := read delimiter text
  if text.contains '\x00' then none
  else if rows.all fun row ↦ row.all fun field ↦ field.length ≤ fieldSizeLimit then some rows
  else none

/-! ### What is written is read -/

theorem readFrom_append (delimiter : Char) (r : Reader) (xs ys : Text) :
    readFrom delimiter r (xs ++ ys) = readFrom delimiter (readFrom delimiter r xs) ys :=
  List.foldl_append

theorem readFrom_cons (delimiter : Char) (r : Reader) (c : Char) (cs : Text) :
    readFrom delimiter r (c :: cs) = readFrom delimiter (r.step delimiter c) cs := rfl

/-- Between quotes all is the field, and a doubled quote is one. -/
theorem readFrom_doubled (delimiter : Char) (field : Text) {r : Reader}
    (h : r.mode = .inQuotedField) :
    readFrom delimiter r (doubled field) = { r with field := r.field ++ field } := by
  induction field generalizing r with
  | nil => simp [doubled, readFrom]
  | cons c field ih =>
    rw [doubled, List.flatMap_cons, ← doubled, readFrom_append]
    have hone : readFrom delimiter r (if c = '"' then ['"', '"'] else [c]) =
        r.add .inQuotedField c := by
      split
      · next hc => simp [readFrom, Reader.step, h, hc, Reader.add]
      · next hc => simp [readFrom, Reader.step, h, hc]
    rw [hone, ih rfl]
    simp [Reader.add, h]

/-- A field that is not quoted is read to its end. -/
theorem readFrom_plain {delimiter : Char} {field : Text} (h : needsQuote delimiter field = false)
    {r : Reader} (hmode : r.mode = .inField) :
    readFrom delimiter r field = { r with field := r.field ++ field } := by
  induction field generalizing r with
  | nil => simp [readFrom]
  | cons c field ih =>
    rw [needsQuote, List.any_cons, Bool.or_eq_false_iff] at h
    obtain ⟨hc, hrest⟩ := h
    simp only [Bool.or_eq_false_iff, decide_eq_false_iff_not] at hc
    have hone : r.step delimiter c = r.add .inField c := by
      simp [Reader.step, hmode, Reader.goOn, hc]
    rw [readFrom_cons, hone, ih hrest rfl]
    simp [Reader.add, hmode]

/-- Where the reader is behind a field that began there. -/
def behind (delimiter : Char) (start : Mode) (field : Text) : Mode :=
  if needsQuote delimiter field then .quoteInQuotedField
  else if field = [] then start
  else .inField

/-- A field that is written is read. -/
theorem readFrom_writeField (delimiter : Char) (field : Text) {r : Reader}
    (hmode : r.mode = .startRecord ∨ r.mode = .startField) (hfield : r.field = []) :
    readFrom delimiter r (writeField delimiter field) =
      { r with mode := behind delimiter r.mode field, field := field } := by
  unfold writeField behind
  by_cases hquote : needsQuote delimiter field = true
  · have hopen : r.step delimiter '"' = { r with mode := .inQuotedField } := by
      rcases hmode with hmode | hmode <;> simp [Reader.step, hmode, Reader.start]
    rw [if_pos hquote, if_pos hquote, quoted, List.cons_append, readFrom_cons, hopen,
      readFrom_append, readFrom_doubled delimiter field rfl, hfield]
    simp [readFrom, Reader.step]
  · have hplain : needsQuote delimiter field = false := Bool.eq_false_iff.mpr hquote
    rw [if_neg hquote, if_neg hquote]
    cases field with
    | nil =>
      obtain ⟨mode, rows, fields, field⟩ := r
      cases hfield
      rfl
    | cons c field =>
      rw [needsQuote, List.any_cons, Bool.or_eq_false_iff] at hplain
      obtain ⟨hc, hrest⟩ := hplain
      simp only [Bool.or_eq_false_iff, decide_eq_false_iff_not] at hc
      have hone : r.step delimiter c = r.add .inField c := by
        rcases hmode with hmode | hmode <;> simp [Reader.step, hmode, Reader.start, hc]
      rw [if_neg (List.cons_ne_nil c field), readFrom_cons, hone, readFrom_plain hrest rfl]
      simp [Reader.add, hfield]

private theorem behind_cases (delimiter : Char) (start : Mode) (field : Text) :
    behind delimiter start field = .quoteInQuotedField ∨ behind delimiter start field = .inField ∨
      behind delimiter start field = start ∧ field = [] := by
  unfold behind
  split
  · exact Or.inl rfl
  · split
    · next h => exact Or.inr (Or.inr ⟨rfl, h⟩)
    · exact Or.inr (Or.inl rfl)

/-- A delimiter ends a field. -/
theorem step_delimiter {delimiter : Char} (hquote : delimiter ≠ '"') (hline : delimiter ≠ '\n')
    {r : Reader} {start : Mode} (hstart : start = .startRecord ∨ start = .startField)
    (h : r.mode = behind delimiter start r.field) : r.step delimiter delimiter = r.save := by
  rcases behind_cases delimiter start r.field with hmode | hmode | ⟨hmode, -⟩
  · rw [← h] at hmode
    simp [Reader.step, hmode, Reader.goOn, hquote, hline]
  · rw [← h] at hmode
    simp [Reader.step, hmode, Reader.goOn, hline]
  · rw [← h] at hmode
    rcases hstart with rfl | rfl <;>
      simp [Reader.step, hmode, Reader.start, hquote, hline]

/-- A newline ends a field and its row, unless nothing is before it. -/
theorem step_newline {delimiter : Char} {r : Reader} {start : Mode}
    (hstart : start = .startRecord ∧ r.field ≠ [] ∨ start = .startField)
    (h : r.mode = behind delimiter start r.field) : r.step delimiter '\n' = r.save.close := by
  rcases behind_cases delimiter start r.field with hmode | hmode | ⟨hmode, hnil⟩
  · rw [← h] at hmode
    simp [Reader.step, hmode, Reader.goOn]
  · rw [← h] at hmode
    simp [Reader.step, hmode, Reader.goOn]
  · rw [← h] at hmode
    rcases hstart with ⟨-, hne⟩ | rfl
    · exact absurd hnil hne
    · simp [Reader.step, hmode, Reader.start]

/-- The line of a row, without a carriage return. -/
def line (delimiter : Char) (row : List Text) : Text :=
  (if row = [[]] then quoted [] else [delimiter].intercalate (row.map (writeField delimiter))) ++
    ['\n']

private theorem readFrom_fields {delimiter : Char} (hquote : delimiter ≠ '"')
    (hline : delimiter ≠ '\n') {row : List Text} (hne : row ≠ []) {r : Reader}
    (hmode : r.mode = .startRecord ∧ row ≠ [[]] ∨ r.mode = .startField) (hfield : r.field = []) :
    readFrom delimiter r ([delimiter].intercalate (row.map (writeField delimiter)) ++ ['\n']) =
      ⟨.startRecord, r.rows ++ [r.fields ++ row], [], []⟩ := by
  induction row generalizing r with
  | nil => exact absurd rfl hne
  | cons field row ih =>
    have hstart : r.mode = .startRecord ∨ r.mode = .startField := hmode.imp_left And.left
    cases row with
    | nil =>
      have hend : r.mode = .startRecord ∧ field ≠ [] ∨ r.mode = .startField :=
        hmode.imp_left fun h ↦ ⟨h.1, fun hnil ↦ h.2 (hnil ▸ rfl)⟩
      rw [List.map_singleton, List.intercalate_singleton, readFrom_append,
        readFrom_writeField delimiter field hstart hfield, readFrom_cons,
        step_newline hend rfl]
      rfl
    | cons next row =>
      rw [List.map_cons, List.map_cons, List.intercalate_cons_cons, List.append_assoc,
        List.append_assoc, readFrom_append, readFrom_writeField delimiter field hstart hfield,
        List.singleton_append, readFrom_cons, step_delimiter hquote hline hstart rfl,
        ← List.map_cons, ih (List.cons_ne_nil _ _) (Or.inr rfl) rfl]
      simp [Reader.save]

/-- A line gives its row. -/
theorem readFrom_line {delimiter : Char} (hquote : delimiter ≠ '"') (hline : delimiter ≠ '\n')
    {row : List Text} (hne : row ≠ []) (rows : List (List Text)) :
    readFrom delimiter ⟨.startRecord, rows, [], []⟩ (line delimiter row) =
      ⟨.startRecord, rows ++ [row], [], []⟩ := by
  unfold line
  split
  · next h =>
    rw [h]
    rfl
  · next h => exact readFrom_fields hquote hline hne (Or.inl ⟨rfl, h⟩) rfl

private theorem readFrom_lines {delimiter : Char} (hquote : delimiter ≠ '"')
    (hline : delimiter ≠ '\n') {rows : List (List Text)} (hne : ∀ row ∈ rows, row ≠ [])
    (before : List (List Text)) :
    readFrom delimiter ⟨.startRecord, before, [], []⟩ (rows.flatMap (line delimiter)) =
      ⟨.startRecord, before ++ rows, [], []⟩ := by
  induction rows generalizing before with
  | nil => simp [readFrom]
  | cons row rows ih =>
    obtain ⟨hrow, hrows⟩ := List.forall_mem_cons.mp hne
    rw [List.flatMap_cons, readFrom_append, readFrom_line hquote hline hrow, ih hrows,
      List.append_assoc, List.singleton_append]

/-! ### Text mode -/

private theorem needsQuote_cons (delimiter c : Char) (field : Text) :
    needsQuote delimiter (c :: field) =
      ((c = delimiter || c = '"' || c = '\r' || c = '\n') || needsQuote delimiter field) := rfl

/-- A newline is quoted as a carriage return is. -/
theorem needsQuote_universalNewlines (delimiter : Char) (field : Text) :
    needsQuote delimiter (PyText.universalNewlines field) = needsQuote delimiter field := by
  fun_induction PyText.universalNewlines field with
  | case1 cs ih => simp [needsQuote_cons]
  | case2 cs hcs ih => simp [needsQuote_cons]
  | case3 c cs hcs hc ih => rw [needsQuote_cons, needsQuote_cons, ih]
  | case4 => rfl

private theorem doubled_cons (c : Char) (field : Text) :
    doubled (c :: field) = (if c = '"' then ['"', '"'] else [c]) ++ doubled field := rfl

private theorem head?_doubled {field : Text} (h : field.head? ≠ some '\n') :
    (doubled field).head? ≠ some '\n' := by
  cases field with
  | nil => exact h
  | cons c field =>
    rw [doubled_cons]
    split
    · exact fun heq ↦ absurd (Option.some.inj heq) (by decide)
    · exact h

/-- Quotes stay in text mode. -/
theorem universalNewlines_doubled (field : Text) :
    PyText.universalNewlines (doubled field) = doubled (PyText.universalNewlines field) := by
  fun_induction PyText.universalNewlines field with
  | case1 cs ih => simpa [doubled, PyText.universalNewlines] using ih
  | case2 cs hcs ih =>
    have hcs' : cs.head? ≠ some '\n' := by
      intro heq
      obtain ⟨ds, rfl⟩ := List.head?_eq_some_iff.mp heq
      exact hcs ds rfl
    exact (PyText.universalNewlines_return (head?_doubled hcs')).trans (congrArg _ ih)
  | case3 c cs hcs hc ih =>
    rw [doubled_cons, doubled_cons, ← ih]
    split
    · rw [List.cons_append, List.cons_append, List.nil_append,
        PyText.universalNewlines_cons (by decide), PyText.universalNewlines_cons (by decide)]
      rfl
    · rw [List.singleton_append, PyText.universalNewlines_cons hc, List.singleton_append]
  | case4 => rfl

/-- A field in text mode is the one whose newlines are translated. -/
theorem universalNewlines_writeField (delimiter : Char) (field : Text) :
    PyText.universalNewlines (writeField delimiter field) =
      writeField delimiter (PyText.universalNewlines field) := by
  unfold writeField
  rw [needsQuote_universalNewlines]
  split
  · rw [quoted, PyText.universalNewlines_append _ (by decide),
      PyText.universalNewlines_cons (by decide), universalNewlines_doubled]
    rfl
  · rfl

private theorem universalNewlines_fields {delimiter : Char} (hreturn : delimiter ≠ '\r')
    (hline : delimiter ≠ '\n') (row : List Text) (cs : Text) :
    PyText.universalNewlines
        ([delimiter].intercalate (row.map (writeField delimiter)) ++ '\r' :: '\n' :: cs) =
      [delimiter].intercalate ((row.map PyText.universalNewlines).map (writeField delimiter)) ++
        '\n' :: PyText.universalNewlines cs := by
  induction row with
  | nil => rfl
  | cons field row ih =>
    cases row with
    | nil =>
      rw [List.map_singleton, List.map_singleton, List.map_singleton,
        List.intercalate_singleton, List.intercalate_singleton,
        PyText.universalNewlines_append _ (by simp), universalNewlines_writeField]
      rfl
    | cons next row =>
      have hhead : ∀ t : Text, (delimiter :: t).head? ≠ some '\n' :=
        fun t heq ↦ hline (Option.some.inj heq)
      rw [List.map_cons, List.map_cons, List.intercalate_cons_cons, List.append_assoc,
        List.append_assoc, List.singleton_append, PyText.universalNewlines_append _ (hhead _),
        universalNewlines_writeField, PyText.universalNewlines_cons hreturn, ← List.map_cons, ih]
      simp [List.intercalate_cons_cons]

private theorem map_universalNewlines_eq_nil {row : List Text} :
    row.map PyText.universalNewlines = [[]] ↔ row = [[]] := by
  have hnil : ∀ t : Text, PyText.universalNewlines t = [] ↔ t = [] := by
    intro t
    fun_cases PyText.universalNewlines t <;> simp
  cases row with
  | nil => simp
  | cons field row => simp [hnil]

/-- The lines of rows in text mode. -/
theorem universalNewlines_writeRows {delimiter : Char} (hreturn : delimiter ≠ '\r')
    (hline : delimiter ≠ '\n') (rows : List (List Text)) :
    PyText.universalNewlines (writeRows delimiter rows) =
      (rows.map (List.map PyText.universalNewlines)).flatMap (line delimiter) := by
  induction rows with
  | nil => rfl
  | cons row rows ih =>
    rw [writeRows, List.flatMap_cons, ← writeRows, writeRow, List.map_cons, List.flatMap_cons,
      line, ← ih]
    by_cases hrow : row = [[]]
    · rw [if_pos hrow, if_pos (map_universalNewlines_eq_nil.mpr hrow)]
      rfl
    · rw [if_neg hrow, if_neg fun h ↦ hrow (map_universalNewlines_eq_nil.mp h),
        List.append_assoc, List.cons_append, List.singleton_append,
        universalNewlines_fields hreturn hline, List.append_assoc, List.singleton_append]

/-- A table is read back in text mode, with the newlines in its fields translated. -/
theorem read_writeRows {delimiter : Char} (hdelimiter : delimiter ∉ ['"', '\n', '\r'])
    {rows : List (List Text)} (hne : ∀ row ∈ rows, row ≠ []) :
    read delimiter (PyText.universalNewlines (writeRows delimiter rows)) =
      rows.map (List.map PyText.universalNewlines) := by
  have hquote : delimiter ≠ '"' := fun heq ↦ hdelimiter (heq ▸ List.mem_cons_self)
  have hline : delimiter ≠ '\n' := fun heq ↦ hdelimiter (by simp [heq])
  have hreturn : delimiter ≠ '\r' := fun heq ↦ hdelimiter (by simp [heq])
  have hrows : ∀ row ∈ rows.map (List.map PyText.universalNewlines), row ≠ [] := by
    intro row hrow
    obtain ⟨row, hmem, rfl⟩ := List.mem_map.mp hrow
    exact fun hnil ↦ hne row hmem (List.map_eq_nil_iff.mp hnil)
  rw [universalNewlines_writeRows hreturn hline, read, readFrom_lines hquote hline hrows]
  rfl

private theorem mem_writeField {delimiter c : Char} (hquote : c ≠ '"') {field : Text} :
    c ∈ writeField delimiter field ↔ c ∈ field := by
  have hdoubled : c ∈ doubled field ↔ c ∈ field := by
    induction field with
    | nil => rfl
    | cons d field ih =>
      rw [doubled_cons, List.mem_append, ih, List.mem_cons]
      split
      · next hd => simp [hd, hquote]
      · rw [List.mem_singleton]
  unfold writeField quoted
  split
  · simp [hdoubled, hquote]
  · rfl

private theorem mem_intercalate {sep c : Char} (hsep : c ≠ sep) {ts : List Text} :
    c ∈ [sep].intercalate ts ↔ ∃ t ∈ ts, c ∈ t := by
  induction ts with
  | nil => simp
  | cons t ts ih =>
    cases ts with
    | nil => simp
    | cons u us =>
      rw [List.intercalate_cons_cons, List.mem_append, List.mem_append, List.mem_singleton, ih]
      simp [hsep]

/-- The other characters of a table are those of its fields. -/
theorem mem_writeRows {delimiter c : Char} (hc : c ∉ [delimiter, '"', '\r', '\n'])
    {rows : List (List Text)} :
    c ∈ writeRows delimiter rows ↔ ∃ row ∈ rows, ∃ field ∈ row, c ∈ field := by
  simp only [List.mem_cons, List.not_mem_nil, or_false, not_or] at hc
  obtain ⟨hdelimiter, hquote, hreturn, hline⟩ := hc
  rw [writeRows, List.mem_flatMap]
  apply exists_congr
  intro row
  apply and_congr_right
  intro _
  rw [writeRow, List.mem_append]
  split
  · next h =>
    rw [h]
    simp [quoted, doubled, hquote, hreturn, hline]
  · rw [mem_intercalate hdelimiter]
    simp [hreturn, hline, mem_writeField hquote]

/-- A field that the reader takes in text mode. -/
def Readable (field : Text) : Prop :=
  '\x00' ∉ field ∧ (PyText.universalNewlines field).length ≤ fieldSizeLimit

/-- A field that comes back as it is. -/
theorem readable_and_eq_iff {field : Text} :
    Readable field ∧ PyText.universalNewlines field = field ↔
      '\r' ∉ field ∧ '\x00' ∉ field ∧ field.length ≤ fieldSizeLimit := by
  rw [PyText.universalNewlines_eq_self_iff, and_comm]
  apply and_congr_right
  intro h
  rw [Readable, PyText.universalNewlines_of_not_mem h]

/-- The reader gives a table back if and only if it takes all of its fields. -/
theorem reader_writeRows {delimiter : Char} (hdelimiter : delimiter ∉ ['"', '\n', '\r'])
    (hzero : delimiter ≠ '\x00') {rows : List (List Text)} (hne : ∀ row ∈ rows, row ≠ [])
    (rows' : List (List Text)) :
    reader delimiter (PyText.universalNewlines (writeRows delimiter rows)) = some rows' ↔
      (∀ row ∈ rows, ∀ field ∈ row, Readable field) ∧
        rows' = rows.map (List.map PyText.universalNewlines) := by
  have hnul : '\x00' ∈ PyText.universalNewlines (writeRows delimiter rows) ↔
      ∃ row ∈ rows, ∃ field ∈ row, '\x00' ∈ field := by
    rw [PyText.mem_universalNewlines (by decide) (by decide), mem_writeRows]
    simp [hzero.symm]
  have hsmall : ((rows.map (List.map PyText.universalNewlines)).all fun row ↦
      row.all fun field ↦ field.length ≤ fieldSizeLimit) = true ↔
      ∀ row ∈ rows, ∀ field ∈ row,
        (PyText.universalNewlines field).length ≤ fieldSizeLimit := by
    simp only [List.all_map, List.all_eq_true, Function.comp_apply, decide_eq_true_eq]
  unfold reader
  dsimp only
  rw [read_writeRows hdelimiter hne]
  split
  · next h =>
    obtain ⟨row, hrow, field, hfield, hmem⟩ := hnul.mp (List.contains_iff_mem.mp h)
    apply iff_of_false (Option.some_ne_none rows').symm
    exact fun hall ↦ (hall.1 row hrow field hfield).1 hmem
  · next h =>
    have hfree : ∀ row ∈ rows, ∀ field ∈ row, '\x00' ∉ field :=
      fun row hrow field hfield hmem ↦
        h (List.contains_iff_mem.mpr (hnul.mpr ⟨row, hrow, field, hfield, hmem⟩))
    split
    · next hall =>
      rw [Option.some.injEq, eq_comm, and_iff_right]
      exact fun row hrow field hfield ↦
        ⟨hfree row hrow field hfield, hsmall.mp hall row hrow field hfield⟩
    · next hlong =>
      apply iff_of_false (Option.some_ne_none rows').symm
      exact fun hall ↦ hlong (hsmall.mpr fun row hrow field hfield ↦
        (hall.1 row hrow field hfield).2)

end NetworkLab.Lib.Csv
