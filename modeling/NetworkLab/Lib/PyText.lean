import Mathlib.Data.List.Basic

/-!
# Text as Python handles it

Texts are lists of code points. Whitespace and decimal digits are those of `str.isspace`,
of the regular expression classes `\s` and `\d` and of `int`, for Unicode 14.
-/

namespace NetworkLab.Lib.PyText

/-- Whitespace, as for `str.isspace` and `\s`. -/
def isSpace (c : Char) : Bool :=
  let n := c.toNat
  (0x9 ≤ n && n ≤ 0xd) || (0x1c ≤ n && n ≤ 0x20) || n == 0x85 || n == 0xa0 || n == 0x1680 ||
    (0x2000 ≤ n && n ≤ 0x200a) || n == 0x2028 || n == 0x2029 || n == 0x202f || n == 0x205f ||
    n == 0x3000

/-- `str.rstrip()`. -/
def rstrip (s : List Char) : List Char := (s.reverse.dropWhile isSpace).reverse

/-- `str.strip()`. -/
def strip (s : List Char) : List Char := rstrip (s.dropWhile isSpace)

/-! ### Lines -/

/-- Iteration over the lines of a file: each line keeps its newline. -/
def lines : List Char → List (List Char)
  | [] => []
  | c :: cs =>
    if c = '\n' then [c] :: lines cs
    else match lines cs with
      | [] => [[c]]
      | l :: ls => (c :: l) :: ls

/-- Translation of line ends when a file is read in text mode. -/
def universalNewlines : List Char → List Char
  | '\r' :: '\n' :: cs => '\n' :: universalNewlines cs
  | '\r' :: cs => '\n' :: universalNewlines cs
  | c :: cs => c :: universalNewlines cs
  | [] => []

/-- A character that is no carriage return stays. -/
theorem universalNewlines_cons {c : Char} (h : c ≠ '\r') (cs : List Char) :
    universalNewlines (c :: cs) = c :: universalNewlines cs := by
  rw [universalNewlines]
  · rintro ds heq -
    exact h heq
  · exact h

/-- A carriage return alone is a newline. -/
theorem universalNewlines_return {cs : List Char} (h : cs.head? ≠ some '\n') :
    universalNewlines ('\r' :: cs) = '\n' :: universalNewlines cs := by
  rw [universalNewlines]
  rintro ds rfl
  exact h rfl

/-- No carriage return is left. -/
theorem not_mem_universalNewlines (s : List Char) : '\r' ∉ universalNewlines s := by
  fun_induction universalNewlines s with
  | case1 cs ih => exact List.not_mem_cons_of_ne_of_not_mem (by decide) ih
  | case2 cs hcs ih => exact List.not_mem_cons_of_ne_of_not_mem (by decide) ih
  | case3 c cs hcs hc ih => exact List.not_mem_cons_of_ne_of_not_mem (fun h ↦ hc h.symm) ih
  | case4 => exact List.not_mem_nil

/-- All other characters stay. -/
theorem mem_universalNewlines {c : Char} (hreturn : c ≠ '\r') (hline : c ≠ '\n')
    {s : List Char} : c ∈ universalNewlines s ↔ c ∈ s := by
  fun_induction universalNewlines s with
  | case1 cs ih => simp [hreturn, hline, ih]
  | case2 cs hcs ih => simp [hreturn, hline, ih]
  | case3 d cs hcs hd ih => simp [ih]
  | case4 => rfl

/-- Texts are read one after the other unless the border is within a newline. -/
theorem universalNewlines_append (s : List Char) {t : List Char} (h : t.head? ≠ some '\n') :
    universalNewlines (s ++ t) = universalNewlines s ++ universalNewlines t := by
  fun_induction universalNewlines s with
  | case1 cs ih =>
    rw [List.cons_append, List.cons_append, universalNewlines, ih, List.cons_append]
  | case2 cs hcs ih =>
    have hhead : (cs ++ t).head? ≠ some '\n' := by
      cases cs with
      | nil => exact h
      | cons c cs =>
        intro heq
        exact hcs cs (by rw [Option.some.inj heq])
    rw [List.cons_append, universalNewlines_return hhead, ih, List.cons_append]
  | case3 c cs hcs hc ih =>
    rw [List.cons_append, universalNewlines_cons hc, ih, List.cons_append]
  | case4 => rfl

/-- A text without carriage returns is read as it is. -/
theorem universalNewlines_of_not_mem {s : List Char} (h : '\r' ∉ s) : universalNewlines s = s := by
  induction s with
  | nil => rfl
  | cons c s ih =>
    rw [List.mem_cons, not_or] at h
    rw [universalNewlines_cons (Ne.symm h.1), ih h.2]

/-- Only a text without carriage returns is read as it is. -/
theorem universalNewlines_eq_self_iff {s : List Char} : universalNewlines s = s ↔ '\r' ∉ s :=
  ⟨fun h ↦ h ▸ not_mem_universalNewlines s, universalNewlines_of_not_mem⟩

/-- A line ends at the first newline. -/
theorem lines_append (l cs : List Char) (h : '\n' ∉ l) :
    lines (l ++ '\n' :: cs) = (l ++ ['\n']) :: lines cs := by
  induction l with
  | nil => simp [lines]
  | cons c l ih =>
    rw [List.mem_cons, not_or] at h
    rw [List.cons_append, lines, if_neg (Ne.symm h.1), ih h.2]
    rfl

/-- Lines that were written one after the other are read back. -/
theorem lines_flatMap (ls : List (List Char)) (h : ∀ l ∈ ls, '\n' ∉ l) :
    lines (ls.flatMap (· ++ ['\n'])) = ls.map (· ++ ['\n']) := by
  induction ls with
  | nil => rfl
  | cons l ls ih =>
    obtain ⟨hl, hls⟩ := List.forall_mem_cons.mp h
    rw [List.flatMap_cons, List.append_assoc, List.singleton_append, lines_append l _ hl, ih hls]
    rfl

/-- A text that ends in no whitespace is what is left of its line. -/
theorem rstrip_newline (s : List Char) (c : Char) (h : isSpace c = false) :
    rstrip (s ++ [c] ++ ['\n']) = s ++ [c] := by
  have hnewline : isSpace '\n' = true := by decide
  simp [rstrip, hnewline, h]

/-- A text without whitespace is not stripped. -/
theorem strip_of_no_space {s : List Char} (h : ∀ c ∈ s, isSpace c = false) : strip s = s := by
  have hfirst (t : List Char) (ht : ∀ c ∈ t, isSpace c = false) : t.dropWhile isSpace = t := by
    cases t with
    | nil => rfl
    | cons c t => rw [List.dropWhile_cons, ht c List.mem_cons_self, if_neg Bool.false_ne_true]
  rw [strip, rstrip, hfirst s h, hfirst _ fun c hc ↦ h c (List.mem_reverse.mp hc),
    List.reverse_reverse]

/-- A text without whitespace is what is left of its line. -/
theorem strip_newline {s : List Char} (hne : s ≠ []) (h : ∀ c ∈ s, isSpace c = false) :
    strip (s ++ ['\n']) = s := by
  obtain ⟨c, cs, rfl⟩ := List.exists_cons_of_ne_nil hne
  have hdrop : (c :: cs ++ ['\n']).dropWhile isSpace = c :: cs ++ ['\n'] := by
    rw [List.cons_append, List.dropWhile_cons, h c List.mem_cons_self, if_neg Bool.false_ne_true]
  obtain ⟨ds, d, hds⟩ := List.eq_nil_or_concat' (c :: cs) |>.resolve_left hne
  rw [strip, hdrop, hds, rstrip_newline]
  exact h d (hds ▸ List.mem_append_right _ (List.mem_singleton.mpr rfl))

/-! ### Splitting -/

/-- `re.split(r"\s+", s)`: a run of whitespace is one separator, and whitespace at an end
leaves an empty part. -/
def splitSpace : List Char → List (List Char)
  | [] => [[]]
  | c :: cs =>
    if isSpace c then
      if cs.head?.any isSpace then splitSpace cs else [] :: splitSpace cs
    else match splitSpace cs with
      | [] => [[c]]
      | t :: ts => (c :: t) :: ts

/-- `s.split(sep)` for a separator of one character. -/
def split (sep : Char) : List Char → List (List Char)
  | [] => [[]]
  | c :: cs =>
    if c = sep then [] :: split sep cs
    else match split sep cs with
      | [] => [[c]]
      | t :: ts => (c :: t) :: ts

/-- A text without the separator is one part. -/
theorem split_of_not_mem {sep : Char} {t : List Char} (h : sep ∉ t) : split sep t = [t] := by
  induction t with
  | nil => rfl
  | cons c t ih =>
    rw [List.mem_cons, not_or] at h
    rw [split, if_neg (Ne.symm h.1), ih h.2]

/-- A part ends at the first separator. -/
theorem split_append {sep : Char} {t : List Char} (h : sep ∉ t) (s : List Char) :
    split sep (t ++ sep :: s) = t :: split sep s := by
  induction t with
  | nil => rw [List.nil_append, split, if_pos rfl]
  | cons c t ih =>
    rw [List.mem_cons, not_or] at h
    rw [List.cons_append, split, if_neg (Ne.symm h.1), ih h.2]

/-- `s.split()`: the parts between runs of whitespace. -/
def words (s : List Char) : List (List Char) := (splitSpace s).filter (· ≠ [])

private theorem splitSpace_space {c : Char} (hc : isSpace c = true) (s : List Char) :
    ∃ parts, splitSpace (c :: s) = [] :: parts := by
  induction s generalizing c with
  | nil => exact ⟨_, by rw [splitSpace, if_pos hc]; rfl⟩
  | cons d s ih =>
    rw [splitSpace, if_pos hc]
    by_cases hd : isSpace d = true
    · rw [List.head?_cons, Option.any_some, if_pos hd]
      exact ih hd
    · rw [List.head?_cons, Option.any_some, if_neg hd]
      exact ⟨_, rfl⟩

private theorem splitSpace_append {t rest : List Char} (ht : ∀ c ∈ t, isSpace c = false)
    {parts : List (List Char)} (hrest : splitSpace rest = [] :: parts) :
    splitSpace (t ++ rest) = t :: parts := by
  induction t with
  | nil => exact hrest
  | cons c t ih =>
    obtain ⟨hc, ht⟩ := List.forall_mem_cons.mp ht
    rw [List.cons_append, splitSpace, hc, if_neg Bool.false_ne_true, ih ht]

/-- Whitespace at the start makes no part. -/
theorem words_space {c : Char} (hc : isSpace c = true) (s : List Char) :
    words (c :: s) = words s := by
  rw [words, splitSpace, if_pos hc]
  split
  · rfl
  · rfl

/-- A part ends at the first whitespace. -/
theorem words_append {t : List Char} (hne : t ≠ []) (ht : ∀ c ∈ t, isSpace c = false) {c : Char}
    (hc : isSpace c = true) (s : List Char) : words (t ++ c :: s) = t :: words s := by
  obtain ⟨parts, hparts⟩ := splitSpace_space hc s
  have hwords := words_space hc s
  rw [words, hparts] at hwords
  rw [words, splitSpace_append ht hparts, List.filter_cons, if_pos (by simpa using hne), ← hwords]
  rfl

/-- Parts that were joined by blanks are read back. -/
theorem words_intercalate {ts : List (List Char)}
    (h : ∀ t ∈ ts, t ≠ [] ∧ ∀ c ∈ t, isSpace c = false) :
    words ([' '].intercalate ts ++ ['\n']) = ts := by
  induction ts with
  | nil => rfl
  | cons t ts ih =>
    obtain ⟨⟨hne, ht⟩, hts⟩ := List.forall_mem_cons.mp h
    cases ts with
    | nil =>
      rw [List.intercalate_singleton, words_append hne ht (by decide)]
      rfl
    | cons u us =>
      rw [List.intercalate_cons_cons, List.append_assoc, List.append_assoc, List.singleton_append,
        words_append hne ht (by decide), ih hts]

/-- `s.split(sep, 1)` for a separator of one character. -/
def splitOnce (sep : Char) (s : List Char) : List (List Char) :=
  match s.dropWhile (· ≠ sep) with
  | [] => [s]
  | _ :: behind => [s.takeWhile (· ≠ sep), behind]

/-- The text is split at the first separator. -/
theorem splitOnce_append {sep : Char} {t : List Char} (h : sep ∉ t) (s : List Char) :
    splitOnce sep (t ++ sep :: s) = [t, s] := by
  have hall : ∀ c ∈ t, decide (c ≠ sep) = true := by
    intro c hc
    rw [decide_eq_true_eq]
    rintro rfl
    exact h hc
  rw [splitOnce, List.dropWhile_append_of_pos hall, List.takeWhile_append_of_pos hall]
  simp

/-! ### Numbers -/

/-- The zeros of the decimal digits: each starts a run of ten. -/
def zeros : List Nat :=
  [0x30, 0x660, 0x6f0, 0x7c0, 0x966, 0x9e6, 0xa66, 0xae6, 0xb66, 0xbe6, 0xc66, 0xce6, 0xd66,
    0xde6, 0xe50, 0xed0, 0xf20, 0x1040, 0x1090, 0x17e0, 0x1810, 0x1946, 0x19d0, 0x1a80, 0x1a90,
    0x1b50, 0x1bb0, 0x1c40, 0x1c50, 0xa620, 0xa8d0, 0xa900, 0xa9d0, 0xa9f0, 0xaa50, 0xabf0,
    0xff10, 0x104a0, 0x10d30, 0x11066, 0x110f0, 0x11136, 0x111d0, 0x112f0, 0x11450, 0x114d0,
    0x11650, 0x116c0, 0x11730, 0x118e0, 0x11950, 0x11c50, 0x11d50, 0x11da0, 0x16a60, 0x16ac0,
    0x16b50, 0x1d7ce, 0x1d7d8, 0x1d7e2, 0x1d7ec, 0x1d7f6, 0x1e140, 0x1e2f0, 0x1e950, 0x1fbf0]

/-- The value of a decimal digit. -/
def decimal? (c : Char) : Option Nat :=
  (zeros.find? fun z ↦ z ≤ c.toNat ∧ c.toNat < z + 10).map (c.toNat - ·)

/-- The number that some decimal digits write. -/
def digitsValue (ds : List Nat) : Nat := ds.foldl (fun n d ↦ 10 * n + d) 0

/-- `\d+` at the start of a text: the number and what follows. -/
def matchDigits (s : List Char) : Option (Nat × List Char) :=
  match s.takeWhile fun c ↦ (decimal? c).isSome with
  | [] => none
  | ds => some (digitsValue (ds.filterMap decimal?), s.drop ds.length)

/-- The digits of `int`, with single underscores between them. -/
def intDigits : List Char → Option (List Nat)
  | [] => none
  | [c] => (decimal? c).map ([·])
  | c :: '_' :: cs => do
    let d ← decimal? c
    let ds ← intDigits cs
    return d :: ds
  | c :: cs => do
    let d ← decimal? c
    let ds ← intDigits cs
    return d :: ds

/-- `int(s)` for a text, `none` where it raises. -/
def int? (s : List Char) : Option Int :=
  match strip s with
  | '-' :: cs => (intDigits cs).map fun ds ↦ -(digitsValue ds : Int)
  | '+' :: cs => (intDigits cs).map fun ds ↦ (digitsValue ds : Int)
  | cs => (intDigits cs).map fun ds ↦ (digitsValue ds : Int)

private theorem toNat_of_isDigit {c : Char} (h : c.isDigit = true) :
    48 ≤ c.toNat ∧ c.toNat ≤ 57 := by
  simp only [Char.isDigit, Bool.and_eq_true, decide_eq_true_eq, ge_iff_le,
    UInt32.le_iff_toNat_le] at h
  exact h

/-- A text in which no character is whitespace, character by character. -/
theorem not_isSpace_of_any {cs : List Char} (h : cs.any isSpace = false) :
    ∀ c ∈ cs, isSpace c = false :=
  fun c hc ↦ eq_false_of_ne_true (List.any_eq_false.mp h c hc)

/-- An ASCII digit is no whitespace. -/
theorem isSpace_of_isDigit {c : Char} (h : c.isDigit = true) : isSpace c = false := by
  have hbounds := toNat_of_isDigit h
  simp only [isSpace, Bool.or_eq_false_iff, Bool.and_eq_false_iff, decide_eq_false_iff_not,
    beq_eq_false_iff_ne]
  omega

/-- The value of an ASCII digit. -/
theorem decimal?_of_isDigit {c : Char} (h : c.isDigit = true) :
    decimal? c = some (c.toNat - '0'.toNat) := by
  have hbounds := toNat_of_isDigit h
  have hzero : (0x30 ≤ c.toNat ∧ c.toNat < 0x30 + 10) = True := eq_true (by omega)
  rw [decimal?, zeros, List.find?_cons]
  simp only [hzero, decide_true]
  rfl

private theorem intDigits_of_isDigit {cs : List Char} (hne : cs ≠ [])
    (h : ∀ c ∈ cs, c.isDigit = true) :
    intDigits cs = some (cs.map fun c ↦ c.toNat - '0'.toNat) := by
  induction cs with
  | nil => exact absurd rfl hne
  | cons c cs ih =>
    obtain ⟨hc, hcs⟩ := List.forall_mem_cons.mp h
    cases cs with
    | nil =>
      rw [intDigits, decimal?_of_isDigit hc]
      rfl
    | cons d cs =>
      have hd : d ≠ '_' := by
        rintro rfl
        exact absurd (hcs '_' List.mem_cons_self) (by decide)
      rw [intDigits, decimal?_of_isDigit hc, ih (List.cons_ne_nil _ _) hcs]
      · rfl
      · exact nofun
      · intro _ heq
        exact hd (List.cons.inj heq).1

/-- A number that was printed is read back. -/
theorem int?_toDigits (n : Nat) : int? (Nat.toDigits 10 n) = some (n : Int) := by
  have hdigits : ∀ c ∈ Nat.toDigits 10 n, c.isDigit = true := fun c hc ↦
    Nat.isDigit_of_mem_toDigits (by decide) (by decide) hc
  have hvalue : digitsValue ((Nat.toDigits 10 n).map fun c ↦ c.toNat - '0'.toNat) = n := by
    rw [digitsValue, List.foldl_map]
    exact Nat.ofDigitChars_ten_toDigits
  have hread := intDigits_of_isDigit Nat.toDigits_ne_nil hdigits
  rw [int?, strip_of_no_space fun c hc ↦ isSpace_of_isDigit (hdigits c hc)]
  split
  · next heq => exact absurd (hdigits '-' (heq ▸ List.mem_cons_self)) (by decide)
  · next heq => exact absurd (hdigits '+' (heq ▸ List.mem_cons_self)) (by decide)
  · rw [hread, Option.map_some, hvalue]

/-- A number that was printed is matched up to what follows, if that begins with no digit. -/
theorem matchDigits_toDigits (n : Nat) {s : List Char}
    (h : ∀ c ∈ s.head?, (decimal? c).isSome = false) :
    matchDigits (Nat.toDigits 10 n ++ s) = some (n, s) := by
  have hdigits : ∀ c ∈ Nat.toDigits 10 n, c.isDigit = true := fun c hc ↦
    Nat.isDigit_of_mem_toDigits (by decide) (by decide) hc
  have hsome : ∀ c ∈ Nat.toDigits 10 n, (decimal? c).isSome = true := by
    intro c hc
    rw [decimal?_of_isDigit (hdigits c hc)]
    rfl
  have hstop : s.takeWhile (fun c ↦ (decimal? c).isSome) = [] := by
    cases s with
    | nil => rfl
    | cons c s => rw [List.takeWhile_cons, h c rfl, if_neg Bool.false_ne_true]
  have htake : (Nat.toDigits 10 n ++ s).takeWhile (fun c ↦ (decimal? c).isSome) =
      Nat.toDigits 10 n := by
    rw [List.takeWhile_append_of_pos hsome, hstop, List.append_nil]
  have hvalues : (Nat.toDigits 10 n).filterMap decimal? =
      (Nat.toDigits 10 n).map fun c ↦ c.toNat - '0'.toNat := by
    rw [← List.filterMap_eq_map]
    exact List.filterMap_congr fun c hc ↦ decimal?_of_isDigit (hdigits c hc)
  have hvalue : digitsValue ((Nat.toDigits 10 n).map fun c ↦ c.toNat - '0'.toNat) = n := by
    rw [digitsValue, List.foldl_map]
    exact Nat.ofDigitChars_ten_toDigits
  rw [matchDigits, htake]
  cases hds : Nat.toDigits 10 n with
  | nil => exact absurd hds Nat.toDigits_ne_nil
  | cons d ds =>
    dsimp only
    rw [← hds, hvalues, hvalue, List.drop_left]

/-- The value of a hexadecimal digit. -/
def hexDigit? (c : Char) : Option Nat :=
  if 'a' ≤ c ∧ c ≤ 'f' then some (c.toNat - 87)
  else if 'A' ≤ c ∧ c ≤ 'F' then some (c.toNat - 55)
  else decimal? c

/-- The digits of `int` with base 16, with single underscores between them. -/
def hexDigits : List Char → Option (List Nat)
  | [] => none
  | [c] => (hexDigit? c).map ([·])
  | c :: '_' :: cs => do
    let d ← hexDigit? c
    let ds ← hexDigits cs
    return d :: ds
  | c :: cs => do
    let d ← hexDigit? c
    let ds ← hexDigits cs
    return d :: ds

/-- What is left of a number with base 16 behind the prefix that it may have. -/
def dropHexPrefix : List Char → List Char
  | '0' :: x :: '_' :: cs => if x = 'x' ∨ x = 'X' then cs else '0' :: x :: '_' :: cs
  | '0' :: x :: cs => if x = 'x' ∨ x = 'X' then cs else '0' :: x :: cs
  | cs => cs

/-- The number behind the sign, with base 16. -/
def hexMagnitude? (s : List Char) : Option Nat :=
  (hexDigits (dropHexPrefix s)).map fun ds ↦ ds.foldl (fun n d ↦ 16 * n + d) 0

/-- `int(s, 16)` for a text, `none` where it raises. -/
def hexInt? (s : List Char) : Option Int :=
  match strip s with
  | '-' :: cs => (hexMagnitude? cs).map fun n ↦ -(n : Int)
  | '+' :: cs => (hexMagnitude? cs).map fun n ↦ (n : Int)
  | cs => (hexMagnitude? cs).map fun n ↦ (n : Int)

end NetworkLab.Lib.PyText
