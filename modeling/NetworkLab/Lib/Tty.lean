import NetworkLab.Lib.PyText
import NetworkLab.Lib.Utf8

/-!
# Texts written to a terminal line

The line discipline may put a carriage return before each newline. A file of its output that is
read in text mode has the lines that were written.
-/

namespace NetworkLab.Lib.Tty

/-- The bytes on the line for some bytes written; `onlcr` is the flag of the line discipline. -/
def output (onlcr : Bool) (bytes : List UInt8) : List UInt8 :=
  bytes.flatMap fun b ↦ if onlcr && b == 0x0a then [0x0d, 0x0a] else [b]

/-- The same for characters. -/
def chars (onlcr : Bool) (cs : List Char) : List Char :=
  cs.flatMap fun c ↦ if onlcr && c == '\n' then ['\r', '\n'] else [c]

theorem output_append (onlcr : Bool) (xs ys : List UInt8) :
    output onlcr (xs ++ ys) = output onlcr xs ++ output onlcr ys := List.flatMap_append

private theorem chars_cons (onlcr : Bool) (c : Char) (cs : List Char) :
    chars onlcr (c :: cs) =
      (if onlcr && c == '\n' then ['\r', '\n'] else [c]) ++ chars onlcr cs := rfl

/-- Bytes that are no newline are left alone. -/
theorem output_of_not_mem (onlcr : Bool) {bytes : List UInt8} (h : 0x0a ∉ bytes) :
    output onlcr bytes = bytes := by
  induction bytes with
  | nil => rfl
  | cons b bytes ih =>
    rw [List.mem_cons, not_or] at h
    rw [output, List.flatMap_cons, ← output, ih h.2, beq_eq_false_iff_ne.mpr (Ne.symm h.1),
      Bool.and_false]
    rfl

/-- The bytes of a character other than a newline have none. -/
theorem newline_not_mem {c : Char} (h : c ≠ '\n') : 0x0a ∉ String.utf8EncodeChar c := by
  intro hmem
  exact h (Utf8.utf8EncodeChar_inj (Utf8.utf8EncodeChar_of_mem (by decide) hmem))

/-- The bytes of a text on the line. -/
theorem output_encode (onlcr : Bool) (cs : List Char) :
    output onlcr (Utf8.encode cs) = Utf8.encode (chars onlcr cs) := by
  induction cs with
  | nil => rfl
  | cons c cs ih =>
    rw [Utf8.encode_cons, output_append, ih, chars_cons, Utf8.encode_append]
    congr 1
    by_cases hc : c = '\n'
    · subst hc
      cases onlcr with
      | true => decide
      | false => decide
    · rw [output_of_not_mem onlcr (newline_not_mem hc), beq_eq_false_iff_ne.mpr hc,
        Bool.and_false]
      simp [Utf8.encode]

/-- Reading in text mode gives the text back that was written. -/
theorem universalNewlines_chars (onlcr : Bool) {cs : List Char} (h : '\r' ∉ cs)
    (ds : List Char) :
    PyText.universalNewlines (chars onlcr cs ++ ds) = cs ++ PyText.universalNewlines ds := by
  induction cs with
  | nil => rfl
  | cons c cs ih =>
    rw [List.mem_cons, not_or] at h
    obtain ⟨hc, hcs⟩ := h
    rw [chars_cons]
    by_cases hnewline : (onlcr && c == '\n') = true
    · rw [if_pos hnewline]
      obtain rfl : c = '\n' := by simpa using (Bool.and_eq_true_iff.mp hnewline).2
      change PyText.universalNewlines ('\r' :: '\n' :: (chars onlcr cs ++ ds)) = _
      rw [PyText.universalNewlines, ih hcs, List.cons_append]
    · rw [if_neg hnewline, List.singleton_append, List.cons_append,
        PyText.universalNewlines_cons (Ne.symm hc), ih hcs, List.cons_append]

end NetworkLab.Lib.Tty
