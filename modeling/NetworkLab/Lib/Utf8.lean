import Mathlib.Data.List.Basic
import Mathlib.Algebra.Order.Ring.Nat

/-!
# UTF-8 texts as lists of bytes

The bytes of a text, how many they are, and the text of some bytes, which may have been cut
within a character.
-/

namespace NetworkLab.Lib.Utf8

/-! ### Bytes of an array -/

private theorem toList_loop (bytes : ByteArray) (i : Nat) (done : List UInt8) :
    ByteArray.toList.loop bytes i done = done.reverse ++ bytes.data.toList.drop i := by
  fun_induction ByteArray.toList.loop bytes i done with
  | case1 i done h ih =>
    have hi : i < bytes.data.toList.length := by
      rw [Array.length_toList]
      exact h
    have hget : bytes.get! i = bytes.data.toList[i] := by
      rw [Array.getElem_toList]
      exact getElem!_pos bytes.data i h
    rw [ih, List.drop_eq_getElem_cons hi, hget, List.reverse_cons, List.append_assoc]
    rfl
  | case2 i done h =>
    have hi : bytes.data.toList.length ≤ i := by
      rw [Array.length_toList]
      exact Nat.not_lt.mp h
    rw [List.drop_eq_nil_of_le hi, List.append_nil]

private theorem toList_eq (bytes : ByteArray) : bytes.toList = bytes.data.toList := by
  rw [ByteArray.toList, toList_loop]
  rfl

/-! ### Encoding -/

/-- The bytes of some characters. -/
def encode (cs : List Char) : List UInt8 := cs.flatMap String.utf8EncodeChar

@[simp] theorem encode_nil : encode [] = [] := rfl

@[simp] theorem encode_append (cs ds : List Char) : encode (cs ++ ds) = encode cs ++ encode ds :=
  List.flatMap_append

theorem encode_cons (c : Char) (cs : List Char) :
    encode (c :: cs) = String.utf8EncodeChar c ++ encode cs := rfl

/-- The bytes of a string are those of its characters. -/
theorem toList_toUTF8 (s : String) : s.toUTF8.toList = encode s.toList := by
  conv_lhs => rw [← String.ofList_toList (s := s)]
  rw [String.toUTF8_eq_toByteArray, String.toByteArray_ofList, toList_eq, List.utf8Encode,
    List.toList_data_toByteArray, encode]

/-- How many bytes some characters take. -/
theorem length_encode (cs : List Char) : (encode cs).length = (cs.map Char.utf8Size).sum := by
  rw [encode, List.length_flatMap]
  congr 1
  apply List.map_congr_left
  intro c _
  exact String.length_utf8EncodeChar c

/-- How many bytes a string takes. -/
theorem length_toUTF8 (s : String) : s.toUTF8.toList.length = s.utf8ByteSize := by
  rw [toList_eq, Array.length_toList]
  rfl

/-- Characters of the first 128 code points take a byte each. -/
theorem utf8ByteSize_ofList {cs : List Char} (h : ∀ c ∈ cs, c.utf8Size = 1) :
    (String.ofList cs).utf8ByteSize = cs.length := by
  rw [← length_toUTF8, toList_toUTF8, String.toList_ofList, length_encode,
    List.map_congr_left h, List.map_const', List.sum_replicate_nat, Nat.mul_one]

/-! ### Decoding -/

/-- The characters of some bytes, `none` where these are no UTF-8 text. -/
def decode? (bytes : List UInt8) : Option (List Char) :=
  bytes.toByteArray.utf8Decode?.map Array.toList

/-- What was encoded is decoded. -/
theorem decode?_encode (cs : List Char) : decode? (encode cs) = some cs := by
  have hbytes : (encode cs).toByteArray = cs.utf8Encode := rfl
  rw [decode?, hbytes, List.utf8Decode?_utf8Encode]
  rfl

/-- Only the bytes of some characters are decoded to them. -/
theorem eq_encode_of_decode? {bytes : List UInt8} {cs : List Char}
    (h : decode? bytes = some cs) : bytes = encode cs := by
  obtain ⟨decoded, hdecoded, rfl⟩ := Option.map_eq_some_iff.mp h
  have hsome : bytes.toByteArray.utf8Decode?.isSome := by rw [hdecoded]; rfl
  obtain ⟨ds, hds⟩ := ByteArray.isSome_utf8Decode?_iff.mp hsome
  have hbytes : bytes = encode ds := by
    have hlist := congrArg (fun b : ByteArray ↦ b.data.toList) hds
    rw [List.toList_data_toByteArray, List.utf8Encode, List.toList_data_toByteArray] at hlist
    exact hlist
  have hback := decode?_encode ds
  rw [← hbytes, h] at hback
  rw [Option.some.inj hback]
  exact hbytes

/-! ### The bytes of a character -/

/-- A byte that goes on with a character. -/
def isContinuation (b : UInt8) : Bool := 0x80 ≤ b && b < 0xc0

/-- How many bytes go on with the character that a byte begins. -/
def follow (lead : UInt8) : Nat :=
  if lead < 0x80 then 0 else if lead < 0xe0 then 1 else if lead < 0xf0 then 2 else 3

/-- The first byte of a character tells how many continuation bytes it has. -/
structure Encoding (lead : UInt8) (conts : List UInt8) : Prop where
  length : conts.length = follow lead
  conts : ∀ b ∈ conts, isContinuation b = true
  lead : isContinuation lead = false

private theorem forall_byte {p : UInt8 → Prop} (h : ∀ n < 256, p (UInt8.ofNat n)) (x : UInt8) :
    p x := by
  rw [← UInt8.ofNat_toNat (x := x)]
  exact h x.toNat x.toNat_lt

private theorem continuation_bits (x : UInt8) : isContinuation (x &&& 0x3f ||| 0x80) = true :=
  forall_byte (p := fun x ↦ isContinuation (x &&& 0x3f ||| 0x80) = true) (by decide +kernel) x

private theorem lead_bits (x : UInt8) :
    (isContinuation (x &&& 0x1f ||| 0xc0) = false ∧ follow (x &&& 0x1f ||| 0xc0) = 1) ∧
      (isContinuation (x &&& 0x0f ||| 0xe0) = false ∧ follow (x &&& 0x0f ||| 0xe0) = 2) ∧
      isContinuation (x &&& 0x07 ||| 0xf0) = false ∧ follow (x &&& 0x07 ||| 0xf0) = 3 :=
  forall_byte (p := fun x ↦
    (isContinuation (x &&& 0x1f ||| 0xc0) = false ∧ follow (x &&& 0x1f ||| 0xc0) = 1) ∧
      (isContinuation (x &&& 0x0f ||| 0xe0) = false ∧ follow (x &&& 0x0f ||| 0xe0) = 2) ∧
      isContinuation (x &&& 0x07 ||| 0xf0) = false ∧ follow (x &&& 0x07 ||| 0xf0) = 3)
    (by decide +kernel) x

/-- Every character is encoded so. -/
theorem exists_encoding (c : Char) :
    ∃ lead conts, String.utf8EncodeChar c = lead :: conts ∧ Encoding lead conts := by
  rcases c.utf8Size_eq with h | h | h | h
  · have hval : c.val.toUInt8 < 0x80 := by
      have hle := Char.utf8Size_eq_one_iff.mp h
      rw [UInt32.le_iff_toNat_le] at hle
      rw [UInt8.lt_iff_toNat_lt, UInt32.toNat_toUInt8]
      change _ % 256 < 128
      change _ ≤ 127 at hle
      omega
    refine ⟨_, _, String.utf8EncodeChar_eq_singleton h, ?_, nofun, ?_⟩
    · rw [follow, if_pos hval]
      rfl
    · rw [isContinuation, decide_eq_false (UInt8.not_le.mpr hval), Bool.false_and]
  · refine ⟨_, _, String.utf8EncodeChar_eq_cons_cons h, (lead_bits _).1.2.symm, ?_,
      (lead_bits _).1.1⟩
    intro b hb
    rw [List.mem_singleton.mp hb]
    exact continuation_bits _
  · refine ⟨_, _, String.utf8EncodeChar_eq_cons_cons_cons h, (lead_bits _).2.1.2.symm, ?_,
      (lead_bits _).2.1.1⟩
    simp [continuation_bits]
  · refine ⟨_, _, String.utf8EncodeChar_eq_cons_cons_cons_cons h, (lead_bits _).2.2.2.symm, ?_,
      (lead_bits _).2.2.1⟩
    simp [continuation_bits]

/-- Characters with the same bytes are the same. -/
theorem utf8EncodeChar_inj {c d : Char} (h : String.utf8EncodeChar c = String.utf8EncodeChar d) :
    c = d := by
  have hbytes : encode [c] = encode [d] := by
    rw [encode, encode, List.flatMap_singleton, List.flatMap_singleton, h]
  have hback := decode?_encode [c]
  rw [hbytes, decode?_encode] at hback
  exact (List.cons.inj (Option.some.inj hback)).1.symm

/-- A byte below 128 that is in a character is all of it. -/
theorem utf8EncodeChar_of_mem {c : Char} {b : UInt8} (hb : b < 0x80)
    (h : b ∈ String.utf8EncodeChar c) : String.utf8EncodeChar c = [b] := by
  obtain ⟨lead, conts, hc, henc⟩ := exists_encoding c
  have hnot : isContinuation b = false := by
    rw [isContinuation, decide_eq_false (UInt8.not_le.mpr hb), Bool.false_and]
  rw [hc] at h ⊢
  rcases List.mem_cons.mp h with rfl | hmem
  · have hlength := henc.length
    rw [follow, if_pos hb] at hlength
    rw [List.eq_nil_of_length_eq_zero hlength]
  · rw [henc.conts b hmem] at hnot
    exact nomatch hnot

/-! ### Texts cut within a character -/

/-- A character at the start of some bytes is the first one of their text. -/
theorem utf8EncodeChar_append_inj {c d : Char} {x y : List UInt8}
    (h : String.utf8EncodeChar c ++ x = String.utf8EncodeChar d ++ y) : c = d ∧ x = y := by
  obtain ⟨lead, conts, hc, henc⟩ := exists_encoding c
  obtain ⟨lead', conts', hd, henc'⟩ := exists_encoding d
  have hcons := h
  rw [hc, hd, List.cons_append, List.cons_append] at hcons
  obtain ⟨rfl, -⟩ := List.cons.inj hcons
  have hlength : (String.utf8EncodeChar c).length = (String.utf8EncodeChar d).length := by
    rw [hc, hd, List.length_cons, List.length_cons, henc.length, henc'.length]
  obtain ⟨hchar, hrest⟩ := List.append_inj h hlength
  exact ⟨utf8EncodeChar_inj hchar, hrest⟩

/-- Some characters at the start of the bytes of a text are its first ones. -/
theorem eq_append_of_encode_append {cs ds : List Char} {x : List UInt8}
    (h : encode cs ++ x = encode ds) : ∃ es, ds = cs ++ es ∧ x = encode es := by
  induction cs generalizing ds with
  | nil => exact ⟨ds, rfl, h⟩
  | cons c cs ih =>
    rw [encode_cons, List.append_assoc] at h
    cases ds with
    | nil =>
      have hlength := congrArg List.length h
      rw [List.length_append, String.length_utf8EncodeChar] at hlength
      have hpos := c.utf8Size_pos
      rw [encode_nil, List.length_nil] at hlength
      omega
    | cons d ds =>
      rw [encode_cons] at h
      obtain ⟨rfl, hrest⟩ := utf8EncodeChar_append_inj h
      obtain ⟨es, rfl, hx⟩ := ih hrest
      exact ⟨es, rfl, hx⟩

/-- Decoding goes on behind some characters. -/
theorem decode?_append (cs : List Char) (x : List UInt8) :
    decode? (encode cs ++ x) = (decode? x).map (cs ++ ·) := by
  cases hx : decode? x with
  | some es =>
    rw [eq_encode_of_decode? hx, ← encode_append, decode?_encode]
    rfl
  | none =>
    rw [Option.map_none, Option.eq_none_iff_forall_ne_some]
    intro ds hds
    obtain ⟨es, rfl, hes⟩ := eq_append_of_encode_append (eq_encode_of_decode? hds)
    rw [hes, decode?_encode] at hx
    exact nomatch hx

/-- A character that is cut before a byte that begins another one is not decoded. -/
theorem decode?_cut {c : Char} {m : Nat} (hpos : 0 < m) (hm : m < c.utf8Size) {b : UInt8}
    (hb : isContinuation b = false) (rest : List UInt8) :
    decode? ((String.utf8EncodeChar c).take m ++ b :: rest) = none := by
  obtain ⟨lead, conts, hc, henc⟩ := exists_encoding c
  obtain ⟨k, rfl⟩ : ∃ k, m = k + 1 := ⟨m - 1, by omega⟩
  have hk : k < conts.length := by
    rw [← String.length_utf8EncodeChar, hc, List.length_cons] at hm
    omega
  rw [Option.eq_none_iff_forall_ne_some, hc, List.take_succ_cons]
  intro ds hds
  have hbytes := eq_encode_of_decode? hds
  cases ds with
  | nil => exact nomatch hbytes
  | cons d ds =>
    obtain ⟨lead', conts', hd, henc'⟩ := exists_encoding d
    rw [encode_cons, hd, List.cons_append, List.cons_append] at hbytes
    obtain ⟨rfl, hconts⟩ := List.cons.inj hbytes
    -- The byte stands where the character that was begun still goes on.
    have hget := congrArg (·[k]?) hconts
    rw [List.getElem?_append_right (by rw [List.length_take]; omega), List.length_take,
      Nat.min_eq_left (Nat.le_of_lt hk), Nat.sub_self, List.getElem?_cons_zero,
      List.getElem?_append_left (by rw [henc'.length, ← henc.length]; exact hk)] at hget
    rw [henc'.conts b (List.mem_of_getElem? hget.symm)] at hb
    exact nomatch hb

/-- How many bytes characters of one size take. -/
theorem length_encode_of_size {w : Nat} {cs : List Char} (h : ∀ c ∈ cs, c.utf8Size = w) :
    (encode cs).length = w * cs.length := by
  rw [length_encode, List.map_congr_left h, List.map_const', List.sum_replicate_nat, Nat.mul_comm]

/-- Where some bytes of characters of one size are cut. -/
theorem take_encode {w : Nat} {cs : List Char} (h : ∀ c ∈ cs, c.utf8Size = w) (n : Nat) :
    (encode cs).take n = encode (cs.take (n / w)) ++ (encode (cs.drop (n / w))).take (n % w) := by
  have hfirst := length_encode_of_size fun c hc ↦ h c (List.mem_of_mem_take (i := n / w) hc)
  conv_lhs => rw [← List.take_append_drop (n / w) cs, encode_append, List.take_append, hfirst]
  have hdiv := Nat.div_add_mod n w
  have hle := Nat.mul_div_le n w
  rw [List.length_take]
  by_cases hlength : n / w ≤ cs.length
  · rw [Nat.min_eq_left hlength, List.take_of_length_le]
    · congr 2
      omega
    · rw [hfirst, List.length_take, Nat.min_eq_left hlength]
      exact hle
  · have hdrop : cs.drop (n / w) = [] := List.drop_eq_nil_of_le (by omega)
    have hshort : cs.length ≤ n / w := by omega
    rw [hdrop, encode_nil, List.take_nil, List.take_nil, List.take_of_length_le]
    rw [hfirst, List.length_take, Nat.min_eq_right hshort]
    exact Nat.le_trans (Nat.mul_le_mul_left w hshort) hle

/-- Where a text is cut that has characters of `w` bytes between two texts of characters of one
byte: either between two characters, or within one of those in the middle. -/
theorem take_encode_between {w : Nat} {before mid behind : List Char}
    (hbefore : ∀ c ∈ before, c.utf8Size = 1) (hmid : ∀ c ∈ mid, c.utf8Size = w)
    (hbehind : ∀ c ∈ behind, c.utf8Size = 1) {n : Nat} (hn : before.length ≤ n) :
    if n < before.length + w * mid.length ∧ (n - before.length) % w ≠ 0 then
      ∃ cs c m, 0 < m ∧ m < c.utf8Size ∧
        (encode (before ++ mid ++ behind)).take n = encode cs ++ (String.utf8EncodeChar c).take m
    else ∃ cs, cs <+: before ++ mid ++ behind ∧
      (encode (before ++ mid ++ behind)).take n = encode cs := by
  obtain ⟨r, rfl⟩ := Nat.exists_eq_add_of_le hn
  have htake : (encode (before ++ mid ++ behind)).take (before.length + r) =
      encode before ++ ((encode mid).take r ++ (encode behind).take (r - w * mid.length)) := by
    rw [List.append_assoc, encode_append, encode_append, List.take_append,
      length_encode_of_size hbefore, Nat.one_mul, Nat.add_sub_cancel_left, List.take_append,
      length_encode_of_size hmid, List.take_of_length_le]
    rw [length_encode_of_size hbefore]
    omega
  have hmidtake := take_encode hmid r
  rw [Nat.add_sub_cancel_left, htake]
  split
  · next hcut =>
    obtain ⟨hlt, hrem⟩ := hcut
    have hr : r < w * mid.length := by omega
    have hw : 0 < w := Nat.pos_of_mul_pos_right (Nat.lt_of_le_of_lt (Nat.zero_le r) hr)
    have hdiv : r / w < mid.length := Nat.div_lt_of_lt_mul hr
    have hsize : mid[r / w].utf8Size = w := hmid _ (List.getElem_mem hdiv)
    have hmod : r % w < mid[r / w].utf8Size := by
      rw [hsize]
      exact Nat.mod_lt r hw
    refine ⟨before ++ mid.take (r / w), mid[r / w], r % w, Nat.pos_of_ne_zero hrem, hmod, ?_⟩
    rw [hmidtake, Nat.sub_eq_zero_of_le (Nat.le_of_lt hr), List.take_zero, List.append_nil,
      List.drop_eq_getElem_cons hdiv, encode_cons, encode_append, List.append_assoc,
      List.take_append_of_le_length]
    rw [String.length_utf8EncodeChar]
    exact Nat.le_of_lt hmod
  · next hnot =>
    by_cases hr : r < w * mid.length
    · have hmod : r % w = 0 := by
        by_contra hrem
        exact hnot ⟨by omega, hrem⟩
      refine ⟨before ++ mid.take (r / w), ?_, ?_⟩
      · rw [List.append_assoc]
        exact List.prefix_append_right_inj _ |>.mpr
          ((List.take_prefix _ _).trans (List.prefix_append _ _))
      · rw [hmidtake, hmod, List.take_zero, List.append_nil,
          Nat.sub_eq_zero_of_le (Nat.le_of_lt hr), List.take_zero, List.append_nil, encode_append]
    · refine ⟨before ++ mid ++ behind.take (r - w * mid.length),
        List.prefix_append_right_inj _ |>.mpr (List.take_prefix _ _), ?_⟩
      rw [List.take_of_length_le, take_encode hbehind, Nat.div_one, Nat.mod_one, List.take_zero,
        List.append_nil, encode_append, encode_append, List.append_assoc]
      rw [length_encode_of_size hmid]
      omega

end NetworkLab.Lib.Utf8
