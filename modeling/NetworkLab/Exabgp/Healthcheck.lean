import NetworkLab.Lib.Machine
import Mathlib.Algebra.Group.Int.Defs
import Mathlib.Data.List.Rotate

/-!
# The health checker

`loop` and its helpers from `lab-exabgp/healthcheck.py:255–378`. One iteration of the
`while` loop is one step; what it does to the outside are its effects. The states are six
distinct names. Log messages are left out.
-/

namespace NetworkLab.Exabgp

open Lib

/-- `states`, `:258–265`. -/
inductive State where
  | init
  | disabled
  | rising
  | falling
  | up
  | down
  deriving DecidableEq, Repr

/-- `ip_address` values. -/
inductive IpAddress where
  | v4 (addr : BitVec 32)
  | v6 (addr : BitVec 128)
  deriving DecidableEq

/-- `max_prefixlen` of an address. -/
def IpAddress.maxPrefixlen : IpAddress → Nat
  | .v4 _ => 32
  | .v6 _ => 128

/-- The options that `loop` reads, `:97–151`. A repeatable option never given is the
empty list. -/
structure Options where
  rise : Int
  fall : Int
  disable : Option String
  nextHop : Option IpAddress
  ips : List IpAddress
  startIp : Int
  upMetric : Int
  downMetric : Int
  disabledMetric : Int
  increase : Int
  execute : List String
  upExecute : List String
  downExecute : List String
  disabledExecute : List String

/-- The option `<state>_metric`, `:273`: only three states have one. -/
def Options.metric (o : Options) : State → Option Int
  | .up => some o.upMetric
  | .down => some o.downMetric
  | .disabled => some o.disabledMetric
  | _ => none

/-- The option `<state>_execute`, `:295`: only three states have one. -/
def Options.stateExecute (o : Options) : State → List String
  | .up => o.upExecute
  | .down => o.downExecute
  | .disabled => o.disabledExecute
  | _ => []

/-- The fields of one `announce route` line, `:275–280`. No next hop reads `self`. -/
structure Announce where
  ip : IpAddress
  maxPrefixlen : Nat
  nextHop : Option IpAddress
  med : Int
  deriving DecidableEq

/-- What an iteration does: run a command with `STATE` set, print a line, flush, sleep. -/
inductive Effect where
  | execute (cmd : String) (state : State)
  | announce (line : Announce)
  | flush
  | sleepFast
  | sleepInterval
  deriving DecidableEq

/-- The only exception that `loop` raises itself. -/
inductive LoopError where
  | unhandledState (state : State)
  deriving DecidableEq, Repr

/-- The loop over the addresses in `exabgp`, `:274–281`, from the current `metric` on. -/
def announces (o : Options) : (metric : Int) → List IpAddress → List Effect
  | _, [] => []
  | metric, ip :: ips =>
    .announce { ip, maxPrefixlen := ip.maxPrefixlen, nextHop := o.nextHop, med := metric } ::
      announces o (metric + o.increase) ips

/-- `exabgp`, `:268–282`. -/
def exabgp (o : Options) (target : State) : List Effect :=
  match o.metric target with
  | none => []
  | some metric => announces o metric o.ips ++ [.flush]

/-- The hook commands run for a state, `:294–303`. -/
def hookCommands (o : Options) (target : State) : List Effect :=
  (o.stateExecute target ++ o.execute).map (.execute · target)

/-- The shortcuts of `trigger`, `:286–290`. -/
def shortcut (o : Options) (target : State) : State :=
  if target = .rising ∧ o.rise ≤ 1 then .up
  else if target = .falling ∧ o.fall ≤ 1 then .down
  else target

/-- `trigger`, `:284–305`. -/
def trigger (o : Options) (target : State) : State × List Effect :=
  let target := shortcut o target
  (target, hookCommands o target)

/-- The locals of `loop`. -/
structure Loop where
  state : State
  checks : Int
  deriving DecidableEq

/-- What one iteration finds: the disable file and the result of `check`. -/
structure Check where
  fileExists : Bool
  passed : Bool
  deriving DecidableEq

/-- A state change with its effects; the counter is `checks` afterwards. -/
def transition (o : Options) (target : State) (checks : Int) : Loop × List Effect :=
  let t := trigger o target
  (⟨t.1, checks⟩, t.2)

/-- The state machine of one iteration, `:311–351`. -/
def fsm (o : Options) (s : Loop) (disabled successful : Bool) :
    Except LoopError (Loop × List Effect) :=
  if s.state ≠ .disabled ∧ disabled then .ok (transition o .disabled s.checks)
  else if s.state = .init then
    if successful ∧ o.rise ≤ 1 then .ok (transition o .up s.checks)
    else if successful then .ok (transition o .rising 1)
    else .ok (transition o .falling 1)
  else if s.state = .disabled then
    if !disabled then .ok (transition o .init s.checks)
    else .ok (s, [])
  else if s.state = .rising then
    if successful then
      if s.checks + 1 ≥ o.rise then .ok (transition o .up (s.checks + 1))
      else .ok (⟨s.state, s.checks + 1⟩, [])
    else .ok (transition o .falling 1)
  else if s.state = .falling then
    if !successful then
      if s.checks + 1 ≥ o.fall then .ok (transition o .down (s.checks + 1))
      else .ok (⟨s.state, s.checks + 1⟩, [])
    else .ok (transition o .rising 1)
  else if s.state = .up then
    if !successful then .ok (transition o .falling 1) else .ok (s, [])
  else if s.state = .down then
    if successful then .ok (transition o .rising 1) else .ok (s, [])
  else .error (.unhandledState s.state)

/-- `disabled`, `:309`. -/
def isDisabled (o : Options) (i : Check) : Bool := o.disable.isSome && i.fileExists

/-- One iteration, `:308–361`. The check is not run when the service is disabled. -/
def iterate (o : Options) (s : Loop) (i : Check) : Except LoopError (Loop × List Effect) :=
  let disabled := isDisabled o i
  let successful := disabled || i.passed
  match fsm o s disabled successful with
  | .error e => .error e
  | .ok (s', effects) =>
    let sleep := if s'.state = .falling ∨ s'.state = .rising then .sleepFast else .sleepInterval
    .ok (s', effects ++ exabgp o s'.state ++ [sleep])

/-- `loop` after some iterations, newest first, `:255–361`. -/
def loop (o : Options) : List Check → Except LoopError (Loop × List Effect) :=
  Machine.run (iterate o) ⟨.init, 0⟩

/-- `deque.rotate`: by `k` places to the right. It raises OverflowError unless `k` fits into a
`Py_ssize_t` of 64 bits. -/
def dequeRotate {α : Type} (k : Int) (xs : List α) : Option (List α) :=
  if -2 ^ 63 ≤ k ∧ k < 2 ^ 63 then some (xs.rotate (-k % xs.length).toNat) else none

/-- The exceptions that end the main program, `:379–380`. -/
inductive MainError where
  | overflowError
  | loop (error : LoopError)
  deriving DecidableEq, Repr

/-- The main program with its addresses rotated, `:374–378`. -/
def main (o : Options) (hist : List Check) : Except MainError (Loop × List Effect) :=
  match dequeRotate (-o.startIp) o.ips with
  | none => .error .overflowError
  | some ips => (loop { o with ips } hist).mapError .loop

end NetworkLab.Exabgp
