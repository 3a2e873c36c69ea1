import NetworkLab.Kbench.Store
import NetworkLab.Kbench.Word

/-!
# Settings of the IPv6 benchmark and their stores

The globals of `lab-routes-ipv6/2026/kbench_mod.c:51–61` and the store handlers of
`:493–776`, from the point where the text has been parsed: a number, an address, or
the index of the interface that was named.
-/

namespace NetworkLab.Kbench.Ipv6

open NetworkLab.Kbench

/-- The module's globals, `:51–61`. -/
structure Settings where
  warmupCount : Count
  loopCount : Count
  maxLoopCount : Count
  batchCount : Count
  flowOif : Int32
  flowIif : Int32
  flowLabel : UInt32
  flowMark : UInt32
  flowDstIpaddrS : In6Addr
  flowDstIpaddrE : In6Addr
  flowSrcIpaddr : In6Addr
  deriving DecidableEq

/-- The value handed to one store handler. -/
inductive Store where
  | warmupCount (val : UInt64)
  | loopCount (val : UInt64)
  | maxLoopCount (val : UInt64)
  | batchCount (val : UInt64)
  | flowOif (val : Int32)
  | flowIif (val : Int32)
  | flowLabel (val : UInt32)
  | flowMark (val : UInt32)
  | flowDstIpaddrS (parsed : In6Addr)
  | flowDstIpaddrE (parsed : In6Addr)
  | flowSrcIpaddr (parsed : In6Addr)

/-- `warmup_count_store`, `:493–506`. -/
def warmupCountStore (g : Settings) : UInt64 → Except Errno Settings :=
  countStore fun c ↦ { g with warmupCount := c }

/-- `loop_count_store`, `:518–531`. -/
def loopCountStore (g : Settings) : UInt64 → Except Errno Settings :=
  countStore fun c ↦ { g with loopCount := c }

/-- `max_loop_count_store`, `:543–556`. -/
def maxLoopCountStore (g : Settings) : UInt64 → Except Errno Settings :=
  countStore fun c ↦ { g with maxLoopCount := c }

/-- `batch_count_store`, `:568–581`. -/
def batchCountStore (g : Settings) : UInt64 → Except Errno Settings :=
  countStore fun c ↦ { g with batchCount := c }

/-- `flow_oif_store`, `:598–621`. -/
def flowOifStore (g : Settings) : Int32 → Except Errno Settings :=
  ifindexStore fun i ↦ { g with flowOif := i }

/-- `flow_iif_store`, `:638–661`. -/
def flowIifStore (g : Settings) : Int32 → Except Errno Settings :=
  ifindexStore fun i ↦ { g with flowIif := i }

/-- Dispatch of a parsed value to its handler. The assignment happens under `kb_lock`,
so one store is one step. -/
def Store.apply (g : Settings) : Store → Except Errno Settings
  | .warmupCount v => warmupCountStore g v
  | .loopCount v => loopCountStore g v
  | .maxLoopCount v => maxLoopCountStore g v
  | .batchCount v => batchCountStore g v
  | .flowOif v => flowOifStore g v
  | .flowIif v => flowIifStore g v
  | .flowLabel v => .ok { g with flowLabel := v }
  | .flowMark v => .ok { g with flowMark := v }
  | .flowDstIpaddrS a => .ok { g with flowDstIpaddrS := a }
  | .flowDstIpaddrE a => .ok { g with flowDstIpaddrE := a }
  | .flowSrcIpaddr a => .ok { g with flowSrcIpaddr := a }

/-- The globals after a store: a refused value changes nothing. -/
def Settings.store (g : Settings) (st : Store) : Settings :=
  match st.apply g with
  | .ok g' => g'
  | .error _ => g

end NetworkLab.Kbench.Ipv6
