import Mathlib.Data.List.Basic

/-!
# Processes and pipes

A pipe knows the bytes in flight and which processes hold its ends. A read returns a byte,
or reports the end of file once no write end is left, and blocks otherwise. Processes are
interleaved by a schedule; a process that cannot move is passed over.
-/

namespace NetworkLab.Lib

/-- A pipe between the processes `π`. -/
structure Pipe (π : Type) where
  bytes : Nat
  readers : List π
  writers : List π
  deriving DecidableEq

namespace Pipe

variable {π : Type} [DecidableEq π]

/-- A process closes its read end. -/
def closeRead (p : Pipe π) (i : π) : Pipe π := { p with readers := p.readers.filter (· ≠ i) }

/-- A process closes its write end. -/
def closeWrite (p : Pipe π) (i : π) : Pipe π := { p with writers := p.writers.filter (· ≠ i) }

/-- A process exits, which closes its ends. -/
def exit (p : Pipe π) (i : π) : Pipe π := (p.closeRead i).closeWrite i

/-- A forked process shares the ends of its parent. -/
def fork (p : Pipe π) (i child : π) : Pipe π :=
  { p with
    readers := if i ∈ p.readers then child :: p.readers else p.readers
    writers := if i ∈ p.writers then child :: p.writers else p.writers }

/-- Write of one byte: without a reader it fails. -/
def write (p : Pipe π) : Option (Pipe π) :=
  if p.readers = [] then none else some { p with bytes := p.bytes + 1 }

/-- Read of one byte, whatever it returns; `none` while it blocks. -/
def read (p : Pipe π) : Option (Pipe π) :=
  if 0 < p.bytes then some { p with bytes := p.bytes - 1 }
  else if p.writers = [] then some p
  else none

/-- Another process keeps its write end. -/
theorem mem_writers_closeWrite {p : Pipe π} {i j : π} (h : j ∈ p.writers) (hne : j ≠ i) :
    j ∈ (p.closeWrite i).writers := by
  simp [closeWrite, h, hne]

/-- Another process keeps its write end. -/
theorem mem_writers_exit {p : Pipe π} {i j : π} (h : j ∈ p.writers) (hne : j ≠ i) :
    j ∈ (p.exit i).writers := mem_writers_closeWrite h hne

/-- A fork takes no write end away. -/
theorem mem_writers_fork {p : Pipe π} {i j child : π} (h : j ∈ p.writers) :
    j ∈ (p.fork i child).writers := by
  unfold fork
  dsimp only
  split
  · exact List.mem_cons_of_mem child h
  · exact h

omit [DecidableEq π] in
/-- A read that returns has found a byte or the end of file. -/
theorem read_eq_some {p p' : Pipe π} (h : p.read = some p') :
    (0 < p.bytes ∨ p.writers = []) ∧ p'.bytes ≤ p.bytes ∧ p'.writers = p.writers := by
  unfold read at h
  split at h
  · next hpos =>
    cases h
    exact ⟨Or.inl hpos, Nat.sub_le _ _, rfl⟩
  · split at h
    · next hnil =>
      cases h
      exact ⟨Or.inr hnil, Nat.le_refl _, rfl⟩
    · cases h

omit [DecidableEq π] in
/-- A write leaves the ends as they are. -/
theorem writers_write {p p' : Pipe π} (h : p.write = some p') : p'.writers = p.writers := by
  unfold write at h
  split at h
  · cases h
  · cases h
    rfl

end Pipe

/-- The state after a schedule of processes. -/
def schedule {σ π : Type} (step : σ → π → Option σ) (s : σ) (ps : List π) : σ :=
  ps.foldl (fun s p ↦ (step s p).getD s) s

/-- What every step keeps holds after every schedule. -/
theorem schedule_invariant {σ π : Type} {step : σ → π → Option σ} {P : σ → Prop}
    (hstep : ∀ s p s', step s p = some s' → P s → P s') {s : σ} (hs : P s) (ps : List π) :
    P (schedule step s ps) := by
  induction ps generalizing s with
  | nil => exact hs
  | cons p ps ih =>
    apply ih
    dsimp only
    cases hnext : step s p with
    | none => exact hs
    | some s' => exact hstep s p s' hnext hs

end NetworkLab.Lib
