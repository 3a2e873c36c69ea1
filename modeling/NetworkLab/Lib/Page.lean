import Mathlib.Data.List.Basic
import Mathlib.Algebra.Order.Ring.Nat

/-!
# Printing into a page

Texts are printed one after the other into a page that takes a limited number of elements.
A text that does not fit is cut; nothing is ever taken back.
-/

namespace NetworkLab.Lib.Page

variable {α : Type*} {cap : Nat} {page text : List α} {texts : List (List α)}

/-- A text printed behind what is on the page, cut where the page ends. -/
def print (cap : Nat) (page text : List α) : List α := page ++ text.take (cap - page.length)

/-- Every text has room when its turn comes. -/
def Whole (cap : Nat) : (page : List α) → List (List α) → Prop
  | _, [] => True
  | page, text :: texts =>
    page.length + text.length ≤ cap ∧ Whole cap (print cap page text) texts

/-- A text with room is printed whole. -/
theorem print_of_le (h : page.length + text.length ≤ cap) : print cap page text = page ++ text := by
  rw [print, List.take_of_length_le (by omega)]

/-- A page is never overrun. -/
theorem length_print (h : page.length ≤ cap) :
    (print cap page text).length = min cap (page.length + text.length) := by
  rw [print, List.length_append, List.length_take]
  omega

/-- The texts on the page are what fits of them all. -/
theorem foldl_print (h : page.length ≤ cap) :
    texts.foldl (print cap) page = (page ++ texts.flatten).take cap := by
  induction texts generalizing page with
  | nil => rw [List.foldl_nil, List.flatten_nil, List.append_nil, List.take_of_length_le h]
  | cons text texts ih =>
    have hlen : (print cap page text).length = min cap (page.length + text.length) :=
      length_print h
    -- What is left of the page behind a text, whether the text was cut or not.
    have hrest : cap - (page.length + min (cap - page.length) text.length) =
        cap - page.length - text.length := by omega
    rw [List.foldl_cons, ih (by omega), List.flatten_cons, print]
    simp only [List.take_append, List.take_take, List.length_take, hrest, Nat.min_self,
      List.append_assoc, Nat.sub_sub]

/-- All texts have room exactly when they do not overrun the page together. -/
theorem whole_iff (h : page.length ≤ cap) :
    Whole cap page texts ↔ page.length + (texts.map List.length).sum ≤ cap := by
  induction texts generalizing page with
  | nil => simpa [Whole] using h
  | cons text texts ih =>
    rw [Whole, List.map_cons, List.sum_cons]
    by_cases hfits : page.length + text.length ≤ cap
    · rw [ih (by rw [length_print h]; omega), print_of_le hfits, List.length_append]
      omega
    · omega

end NetworkLab.Lib.Page
