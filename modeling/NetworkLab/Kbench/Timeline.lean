import NetworkLab.Kbench.Trace

/-!
# Timed sections of a benchmark run

The readings of the cycle counter come in pairs. The lookups between the two readings of a
pair are a timed section of the run; the others are lookups outside of any.
-/

namespace NetworkLab.Kbench

variable {φ β : Type}

/-- A lookup with the error it returned. -/
structure Answer (φ : Type) where
  flow : φ
  err : Int
  deriving DecidableEq

/-- Whether a lookup found anything but `-ENETUNREACH`. -/
def Answer.reached (a : Answer φ) : Bool := a.err ≠ netUnreach

/-- Whether every lookup of a section found anything but `-ENETUNREACH`. -/
def reachedAll (answers : List (Answer φ)) : Bool := answers.all Answer.reached

/-- A run cut at its clock readings, each list oldest first: the complete sections, the
one begun by a last single reading and the lookups outside. -/
@[ext] structure Timeline (φ : Type) where
  sections : List (List (Answer φ))
  current : Option (List (Answer φ))
  outside : List (Answer φ)

namespace Timeline

/-- A reading of the clock begins a section or completes the one begun. -/
def tick (t : Timeline φ) : Timeline φ :=
  match t.current with
  | none => { t with current := some [] }
  | some x => { t with sections := t.sections ++ [x], current := none }

/-- A lookup belongs to the section begun, if there is one. -/
def answer (a : Answer φ) (t : Timeline φ) : Timeline φ :=
  match t.current with
  | none => { t with outside := t.outside ++ [a] }
  | some x => { t with current := some (x ++ [a]) }

/-- A reading outside of a section begins one. -/
theorem tick_of_none {t : Timeline φ} (h : t.current = none) :
    t.tick = ⟨t.sections, some [], t.outside⟩ := by
  rw [tick, h]

/-- A reading in a section completes it. -/
theorem tick_of_some {t : Timeline φ} {x : List (Answer φ)} (h : t.current = some x) :
    t.tick = ⟨t.sections ++ [x], none, t.outside⟩ := by
  rw [tick, h]

/-- A lookup in a section extends it. -/
theorem answer_of_some {t : Timeline φ} {x : List (Answer φ)} (h : t.current = some x)
    (a : Answer φ) : t.answer a = ⟨t.sections, some (x ++ [a]), t.outside⟩ := by
  rw [answer, h]

/-- A lookup outside of a section stays outside. -/
theorem answer_of_none {t : Timeline φ} (h : t.current = none) (a : Answer φ) :
    t.answer a = ⟨t.sections, none, t.outside ++ [a]⟩ := by
  rw [answer, h]

end Timeline

/-- The sections of the actions so far, which are given newest first. -/
def timeline (env : Env φ β) : List (Event φ β) → Timeline φ
  | [] => ⟨[], none, []⟩
  | .getCycles :: trace => (timeline env trace).tick
  | .lookup flow :: trace => (timeline env trace).answer ⟨flow, env.lookup trace flow⟩
  | .write _ _ :: trace => timeline env trace

@[simp] theorem timeline_nil (env : Env φ β) : timeline env [] = ⟨[], none, []⟩ := rfl

@[simp] theorem timeline_getCycles (env : Env φ β) (trace : List (Event φ β)) :
    timeline env (.getCycles :: trace) = (timeline env trace).tick := rfl

@[simp] theorem timeline_lookup (env : Env φ β) (flow : φ) (trace : List (Event φ β)) :
    timeline env (.lookup flow :: trace) =
      (timeline env trace).answer ⟨flow, env.lookup trace flow⟩ := rfl

@[simp] theorem timeline_write (env : Env φ β) (buffer : β) (k : Nat)
    (trace : List (Event φ β)) :
    timeline env (.write buffer k :: trace) = timeline env trace := rfl

/-- One lookup between two readings is a section of its own. -/
theorem timeline_timed (env : Env φ β) (flow : φ) {trace : List (Event φ β)}
    (h : (timeline env trace).current = none) :
    timeline env (.getCycles :: .lookup flow :: .getCycles :: trace) =
      ⟨(timeline env trace).sections ++
        [[⟨flow, env.lookup (.getCycles :: trace) flow⟩]], none,
        (timeline env trace).outside⟩ := by
  rw [timeline_getCycles, timeline_lookup, timeline_getCycles, Timeline.tick_of_none h]
  rfl

end NetworkLab.Kbench
