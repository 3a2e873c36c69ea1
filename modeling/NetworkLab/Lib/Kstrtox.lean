import Mathlib.Data.Nat.Notation
import Mathlib.Data.UInt

/-!
# Numbers in texts, as the kernel prints and parses them

`kstrtoull` and its variants with base 0: an optional sign, a prefix that chooses the base,
digits, and at most a newline behind them. Texts end before their NUL.
-/

namespace NetworkLab.Lib.Kstrtox

/-- `-EINVAL`: the text is no number. -/
def invalid : Int := -22

/-- `-ERANGE`: the number does not fit its type. -/
def outOfRange : Int := -34

/-- The value of a digit. -/
def digit? (c : Char) : Option Nat :=
  if '0' ≤ c ∧ c ≤ '9' then some (c.toNat - 48)
  else if 'a' ≤ c ∧ c ≤ 'f' then some (c.toNat - 87)
  else if 'A' ≤ c ∧ c ≤ 'F' then some (c.toNat - 55)
  else none

/-- The digits below the base at the start of a text. -/
def takeDigits (base : Nat) : List Char → List Nat
  | [] => []
  | c :: s =>
    match digit? c with
    | none => []
    | some val => if val < base then val :: takeDigits base s else []

/-- The number that some digits write. -/
def value (base : Nat) (ds : List Nat) : Nat := ds.foldl (fun res val ↦ res * base + val) 0

/-- `_parse_integer_fixup_radix` for base 0: the base, and the text behind its prefix. -/
def fixupRadix : List Char → Nat × List Char
  | '0' :: x :: s =>
    if (x = 'x' ∨ x = 'X') ∧ (s.head?.bind digit?).isSome then (16, s) else (8, '0' :: x :: s)
  | '0' :: s => (8, '0' :: s)
  | s => (10, s)

/-- `_kstrtoull`. -/
def parse (s : List Char) : Except Int Nat :=
  let radix := fixupRadix s
  let ds := takeDigits radix.1 radix.2
  let rest := radix.2.drop ds.length
  if 2 ^ 64 ≤ value radix.1 ds then .error outOfRange
  else if ds = [] then .error invalid
  else if rest = [] ∨ rest = ['\n'] then .ok (value radix.1 ds)
  else .error invalid

/-- `kstrtoull`. -/
def kstrtoull : List Char → Except Int Nat
  | '+' :: s => parse s
  | s => parse s

/-- `kstrtoll`. -/
def kstrtoll : List Char → Except Int Int
  | '-' :: s => do
    let n ← parse s
    if 2 ^ 63 < n then .error outOfRange else return -(n : Int)
  | s => do
    let n ← kstrtoull s
    if 2 ^ 63 ≤ n then .error outOfRange else return (n : Int)

/-- `kstrtoul`, with 64 bits. -/
def kstrtoul (s : List Char) : Except Int UInt64 := (kstrtoull s).map UInt64.ofNat

/-- `kstrtouint`, which is also `kstrtou32`. -/
def kstrtouint (s : List Char) : Except Int UInt32 := do
  let n ← kstrtoull s
  if 2 ^ 32 ≤ n then .error outOfRange else return UInt32.ofNat n

/-- `kstrtoint`. -/
def kstrtoint (s : List Char) : Except Int Int32 := do
  let n ← kstrtoll s
  if n < -2 ^ 31 ∨ 2 ^ 31 ≤ n then .error outOfRange else return Int32.ofInt n

/-! ### Printing -/

/-- A number and a newline, as for `%lu`. -/
def decimal (n : Nat) : List Char := Nat.toDigits 10 n ++ ['\n']

/-- A number of at least `width` hexadecimal digits and a newline, as for `0x%08x`. -/
def hexadecimal (width n : Nat) : List Char :=
  '0' :: 'x' :: (List.replicate (width - (Nat.toDigits 16 n).length) '0' ++
    Nat.toDigits 16 n ++ ['\n'])

/-! ### Digits -/

private theorem digit?_digitChar : ∀ n < 16, digit? n.digitChar = some n := by decide

private theorem takeDigits_cons {base val : Nat} {c : Char} (s : List Char)
    (hc : digit? c = some val) (hval : val < base) :
    takeDigits base (c :: s) = val :: takeDigits base s := by
  rw [takeDigits, hc]
  exact if_pos hval

private theorem value_concat (base : Nat) (ds : List Nat) (d : Nat) :
    value base (ds ++ [d]) = value base ds * base + d := by
  rw [value, List.foldl_append]
  rfl

private theorem value_zeros (base k : Nat) (ds : List Nat) :
    value base (List.replicate k 0 ++ ds) = value base ds := by
  induction k with
  | zero => rfl
  | succ k ih =>
    rw [← ih, List.replicate_succ, List.cons_append, value, List.foldl_cons, Nat.zero_mul]
    rfl

/-- The digits of a number are read back one for one, whatever follows. -/
theorem takeDigits_toDigits {base : Nat} (h1 : 1 < base) (h16 : base ≤ 16) (n : Nat) :
    ∃ ds, ds.length = (Nat.toDigits base n).length ∧ value base ds = n ∧
      ∀ s, takeDigits base (Nat.toDigits base n ++ s) = ds ++ takeDigits base s := by
  induction n using Nat.strongRecOn with
  | ind n ih =>
    by_cases hn : n < base
    · rw [Nat.toDigits_of_lt_base hn]
      refine ⟨[n], rfl, ?_, fun s ↦ takeDigits_cons s (digit?_digitChar n (by omega)) hn⟩
      rw [value, List.foldl_cons, Nat.zero_mul, Nat.zero_add]
      rfl
    · have hmod : n % base < base := Nat.mod_lt n (by omega)
      obtain ⟨ds, hlen, hvalue, htake⟩ := ih (n / base) (Nat.div_lt_self (by omega) h1)
      rw [Nat.toDigits_of_base_le h1 (Nat.not_lt.mp hn)]
      refine ⟨ds ++ [n % base], ?_, ?_, ?_⟩
      · rw [List.length_append, List.length_append, hlen]
        rfl
      · rw [value_concat, hvalue, Nat.mul_comm]
        exact Nat.div_add_mod n base
      · intro s
        rw [List.append_assoc, htake, List.append_assoc]
        exact congrArg (ds ++ ·)
          (takeDigits_cons s (digit?_digitChar _ (by omega)) hmod)

private theorem takeDigits_zeros {base : Nat} (hbase : 0 < base) (k : Nat) (s : List Char) :
    takeDigits base (List.replicate k '0' ++ s) = List.replicate k 0 ++ takeDigits base s := by
  induction k with
  | zero => rfl
  | succ k ih =>
    have hzero : digit? '0' = some 0 := by decide
    rw [List.replicate_succ, List.cons_append, takeDigits_cons _ hzero hbase, ih]
    rfl

private theorem head_toDigits {n : Nat} (hn : 0 < n) :
    ∃ d s, Nat.toDigits 10 n = d.digitChar :: s ∧ 0 < d ∧ d < 10 := by
  induction n using Nat.strongRecOn with
  | ind n ih =>
    by_cases hlt : n < 10
    · exact ⟨n, [], Nat.toDigits_of_lt_base hlt, hn, hlt⟩
    · obtain ⟨d, s, hs, hd⟩ := ih (n / 10) (by omega) (by omega)
      refine ⟨d, s ++ [Nat.digitChar (n % 10)], ?_, hd⟩
      rw [Nat.toDigits_of_base_le (by decide) (by omega), hs]
      rfl

private theorem isSome_of_takeDigits {base : Nat} {s : List Char} (hne : takeDigits base s ≠ []) :
    (s.head?.bind digit?).isSome := by
  cases s with
  | nil => exact absurd rfl hne
  | cons c s =>
    rw [takeDigits] at hne
    rw [List.head?_cons, Option.bind_some]
    cases hc : digit? c with
    | none =>
      rw [hc] at hne
      exact absurd rfl hne
    | some val => rfl

private theorem fixupRadix_prefix {s : List Char} (hs : (s.head?.bind digit?).isSome) :
    fixupRadix ('0' :: 'x' :: s) = (16, s) := by
  rw [fixupRadix, if_pos ⟨Or.inl rfl, hs⟩]

private theorem takeDigits_newline (base : Nat) : takeDigits base ['\n'] = [] := rfl

/-! ### Round trips -/

/-- A line of digits, as far as the prefix leaves it, is parsed. -/
private theorem parse_of_digits {base n : Nat} {s t : List Char} {ds : List Nat}
    (hradix : fixupRadix s = (base, t ++ ['\n'])) (htake : takeDigits base (t ++ ['\n']) = ds)
    (hlen : ds.length = t.length) (hvalue : value base ds = n) (hne : ds ≠ []) (hn : n < 2 ^ 64) :
    parse s = .ok n := by
  have hrest : (t ++ ['\n']).drop ds.length = ['\n'] := by rw [hlen, List.drop_left]
  unfold parse
  dsimp only
  rw [hradix, htake, hvalue, if_neg (Nat.not_le.mpr hn), if_neg hne, hrest, if_pos (Or.inr rfl)]

/-- A printed number is parsed. -/
theorem parse_decimal {n : Nat} (hn : n < 2 ^ 64) : parse (decimal n) = .ok n := by
  by_cases hzero : n = 0
  · rw [hzero]
    decide
  · obtain ⟨d, s, hs, hd, hlt⟩ := head_toDigits (Nat.pos_of_ne_zero hzero)
    obtain ⟨ds, hlen, hvalue, htake⟩ :=
      takeDigits_toDigits (show 1 < 10 by decide) (by decide) n
    have hradix : fixupRadix (decimal n) = (10, Nat.toDigits 10 n ++ ['\n']) := by
      have hne : d.digitChar ≠ '0' := fun h ↦ by
        rw [Nat.digitChar_eq_zero] at h
        omega
      rw [decimal, hs, List.cons_append]
      unfold fixupRadix
      split
      · next h => exact absurd (List.cons.inj h).1 hne
      · next h => exact absurd (List.cons.inj h).1 hne
      · rfl
    apply parse_of_digits hradix (htake _) _ _ _ hn
    · rw [takeDigits_newline, List.append_nil, hlen]
    · rw [takeDigits_newline, List.append_nil, hvalue]
    · rw [takeDigits_newline, List.append_nil, ← List.length_pos_iff, hlen]
      exact Nat.length_toDigits_pos

/-- A number printed in hexadecimal is parsed. -/
theorem parse_hexadecimal (width : Nat) {n : Nat} (hn : n < 2 ^ 64) :
    parse (hexadecimal width n) = .ok n := by
  obtain ⟨ds, hlen, hvalue, htake⟩ := takeDigits_toDigits (show 1 < 16 by decide) (by decide) n
  let zeros := width - (Nat.toDigits 16 n).length
  have hdigits : takeDigits 16 (List.replicate zeros '0' ++ Nat.toDigits 16 n ++ ['\n']) =
      List.replicate zeros 0 ++ ds := by
    rw [List.append_assoc, takeDigits_zeros (by decide), htake, takeDigits_newline,
      List.append_nil]
  have hne : List.replicate zeros 0 ++ ds ≠ [] := by
    rw [← List.length_pos_iff, List.length_append, hlen]
    exact Nat.lt_of_lt_of_le Nat.length_toDigits_pos (Nat.le_add_left _ _)
  have hradix : fixupRadix (hexadecimal width n) =
      (16, List.replicate zeros '0' ++ Nat.toDigits 16 n ++ ['\n']) :=
    fixupRadix_prefix (isSome_of_takeDigits (by rw [hdigits]; exact hne))
  apply parse_of_digits hradix hdigits _ _ hne hn
  · rw [List.length_append, List.length_append, List.length_replicate, List.length_replicate, hlen]
  · rw [value_zeros, hvalue]

/-- A printed number has no sign. -/
private theorem kstrtoull_of_digit {c : Char} (s : List Char) (hc : (digit? c).isSome) :
    kstrtoull (c :: s) = parse (c :: s) := by
  unfold kstrtoull
  split
  · next h =>
    rw [(List.cons.inj h).1] at hc
    exact absurd hc (by decide)
  · rfl

private theorem exists_digit_decimal (n : Nat) :
    ∃ c s, decimal n = c :: s ∧ (digit? c).isSome := by
  by_cases hzero : n = 0
  · rw [hzero]
    exact ⟨'0', ['\n'], by decide, by decide⟩
  · obtain ⟨d, s, hs, -, hlt⟩ := head_toDigits (Nat.pos_of_ne_zero hzero)
    refine ⟨d.digitChar, s ++ ['\n'], by rw [decimal, hs]; rfl, ?_⟩
    rw [digit?_digitChar d (by omega)]
    rfl

/-- A printed number is read back by the unsigned parsers. -/
theorem kstrtoull_decimal {n : Nat} (hn : n < 2 ^ 64) : kstrtoull (decimal n) = .ok n := by
  obtain ⟨c, s, hs, hc⟩ := exists_digit_decimal n
  rw [← parse_decimal hn, hs, kstrtoull_of_digit s hc]

/-- A number printed in hexadecimal is read back by the unsigned parsers. -/
theorem kstrtoull_hexadecimal (width : Nat) {n : Nat} (hn : n < 2 ^ 64) :
    kstrtoull (hexadecimal width n) = .ok n := by
  rw [← parse_hexadecimal width hn]
  exact kstrtoull_of_digit _ (by decide)

/-- `%lu` and `kstrtoul`. -/
theorem kstrtoul_decimal (n : UInt64) : kstrtoul (decimal n.toNat) = .ok n := by
  rw [kstrtoul, kstrtoull_decimal n.toNat_lt, Except.map, UInt64.ofNat_toNat]

/-- `0x%08x` and `kstrtou32`. -/
theorem kstrtouint_hexadecimal (width : Nat) (n : UInt32) :
    kstrtouint (hexadecimal width n.toNat) = .ok n := by
  have hn : n.toNat < 2 ^ 32 := n.toNat_lt
  have hok := kstrtoull_hexadecimal width (Nat.lt_trans hn (by decide : 2 ^ 32 < 2 ^ 64))
  rw [kstrtouint, hok]
  change (if 2 ^ 32 ≤ n.toNat then Except.error outOfRange
    else Except.ok (UInt32.ofNat n.toNat)) = _
  rw [if_neg (Nat.not_le.mpr hn), UInt32.ofNat_toNat]

/-- `%d` and `kstrtoint`, from zero up. -/
theorem kstrtoint_decimal {i : Int32} (hi : 0 ≤ i.toInt) :
    kstrtoint (decimal i.toInt.toNat) = .ok i := by
  have hlt : i.toInt < 2 ^ 31 := i.toInt_lt
  have hn : i.toInt.toNat < 2 ^ 64 := by omega
  obtain ⟨c, s, hs, hc⟩ := exists_digit_decimal i.toInt.toNat
  have hll : kstrtoll (decimal i.toInt.toNat) = .ok i.toInt := by
    have hull := kstrtoull_decimal hn
    rw [hs] at hull ⊢
    unfold kstrtoll
    split
    · next h =>
      rw [(List.cons.inj h).1] at hc
      exact absurd hc (by decide)
    · rw [hull]
      change (if 2 ^ 63 ≤ i.toInt.toNat then Except.error outOfRange
        else Except.ok ((i.toInt.toNat : Nat) : Int)) = _
      rw [if_neg (by omega), Int.toNat_of_nonneg hi]
  rw [kstrtoint, hll]
  change (if i.toInt < -2 ^ 31 ∨ 2 ^ 31 ≤ i.toInt then Except.error outOfRange
    else Except.ok (Int32.ofInt i.toInt)) = _
  rw [if_neg (by omega), Int32.ofInt_toInt]

end NetworkLab.Lib.Kstrtox
