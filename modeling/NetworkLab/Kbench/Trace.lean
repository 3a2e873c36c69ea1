/-!
# Observable actions of a benchmark run

What `do_bench` does to the outside, in both modules: it reads the cycle counter, looks
up a flow and writes an array element. The kernel side is an environment whose answers
may depend on everything done before.
-/

namespace NetworkLab.Kbench

/-- One action, for flows `φ` and arrays `β`. -/
inductive Event (φ β : Type) where
  | getCycles
  | lookup (flow : φ)
  | write (buffer : β) (index : Nat)
  deriving DecidableEq

/-- Answers of the kernel: the error of a lookup and the cycle counter, each from the
actions so far, newest first. -/
structure Env (φ β : Type) where
  lookup : List (Event φ β) → φ → Int
  getCycles : List (Event φ β) → UInt64

/-- `-ENETUNREACH`, the error of a lookup without a route. -/
def netUnreach : Int := -101

/-- `-ESRCH`. -/
def noSuchProcess : Int := -3

/-- The kernel once some actions are done. -/
def Env.after {φ β : Type} (env : Env φ β) (done : List (Event φ β)) : Env φ β where
  lookup trace := env.lookup (trace ++ done)
  getCycles trace := env.getCycles (trace ++ done)

/-- The kernel that finds a route for every flow; its counter stands still. -/
def Env.allReachable {φ β : Type} : Env φ β where
  lookup _ _ := 0
  getCycles _ := 0

end NetworkLab.Kbench
