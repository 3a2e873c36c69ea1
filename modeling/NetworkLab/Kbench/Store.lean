/-!
# Store handlers shared by both modules

The handlers of the counts and of the two interfaces are the same in
`lab-routes-ipv6/2026/kbench_mod.c:493–661` and `lab-routes-ipv4/2026/kbench_mod.c:385–528`.
They are modelled from the point where the text has been parsed. A count that a handler
accepts is at least one, and the type of the global says so.
-/

namespace NetworkLab.Kbench

/-- A count accepted by its store handler: any `unsigned long` from one up. -/
structure Count where
  val : UInt64
  one_le : 1 ≤ val
  deriving DecidableEq

namespace Count

/-- The count as a number. -/
def toNat (c : Count) : Nat := c.val.toNat

/-- An accepted count is not zero, so it may divide. -/
theorem toNat_pos (c : Count) : 0 < c.toNat := UInt64.le_iff_toNat_le.mp c.one_le

/-- Dividing by an accepted count does not fault. -/
theorem val_ne_zero (c : Count) : c.val ≠ 0 := by
  intro hzero
  have hpos := c.toNat_pos
  rw [toNat, hzero] at hpos
  exact absurd hpos (by decide)

/-- The count one. -/
def one : Count := ⟨1, by decide⟩

/-- The count two. -/
def two : Count := ⟨2, by decide⟩

end Count

/-- The errors a store handler returns once its text is parsed. -/
inductive Errno where
  | einval
  deriving DecidableEq, Repr

/-- The count handlers differ in the global they assign. -/
def countStore {S : Type} (assign : Count → S) (val : UInt64) : Except Errno S :=
  if h : val < 1 then .error .einval else .ok (assign ⟨val, UInt64.not_lt.mp h⟩)

/-- The two interface handlers refuse a negative number. -/
def ifindexStore {S : Type} (assign : Int32 → S) (val : Int32) : Except Errno S :=
  if val < 0 then .error .einval else .ok (assign val)

end NetworkLab.Kbench
