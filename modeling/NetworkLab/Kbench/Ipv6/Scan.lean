import NetworkLab.Kbench.Ipv6.Settings

/-!
# The address scan of the IPv6 benchmark

The set-up of `delta` and the step that moves `fl6.daddr`, from
`lab-routes-ipv6/2026/kbench_mod.c:251–281` and `:303–336`. A loop over
`s6_addr32[3 - i]` starts at the least significant word, so it is the recursion that
handles the tail of the word list first; the division runs the other way. Words stay
in network byte order wherever the source keeps them so.
-/

namespace NetworkLab.Kbench.Ipv6

/-- The borrowing subtraction, `:251–263`: the limbs of `delta` in host byte order and
the last `carry`. -/
def subtractLimbs : List UInt32 → List UInt32 → List UInt32 × UInt64
  | ws :: ss, we :: es =>
    let low := subtractLimbs ss es
    let carry := low.2
    if (ntohl ws).toUInt64 + carry ≤ (ntohl we).toUInt64 then
      (((ntohl we - ntohl ws).toUInt64 - carry).toUInt32 :: low.1, 0)
    else (((ntohl ws).toUInt64 + carry - (ntohl we).toUInt64).toUInt32 :: low.1, 1)
  | _, _ => ([], 0)

/-- The long division, `:270–275`: the quotient limbs and the last `rem`. -/
def divideLimbs (loopCount : UInt64) : UInt64 → List UInt32 → List UInt32 × UInt64
  | rem, [] => ([], rem)
  | rem, limb :: limbs =>
    let quo := limb.toUInt64 + (rem <<< 32)
    let rest := divideLimbs loopCount (quo % loopCount) limbs
    ((quo / loopCount).toUInt32 :: rest.1, rest.2)

/-- A quotient of zero becomes one, `:276–278`. -/
def atLeastOne (limbs : List UInt32) : List UInt32 :=
  if limbs.all (· == 0) then limbs.set 3 1 else limbs

/-- The addition of `delta` to the current address, `:304–311`. The carry that is added
to a limb is the one just computed for that limb. -/
def addLimbs : List UInt32 → List UInt32 → List UInt32 × UInt64
  | wc :: cs, wd :: ds =>
    let low := addLimbs cs ds
    let carry : UInt64 :=
      if ulongMax < (ntohl wc).toUInt64 + (ntohl wd).toUInt64 + low.2 then 1 else 0
    (htonl ((ntohl wc + ntohl wd).toUInt64 + carry).toUInt32 :: low.1, carry)
  | _, _ => ([], 0)

/-- What the jittered restart leaves: the limbs, the carry and the generator. -/
structure Jittered where
  limbs : List UInt32
  carry : UInt64
  rnd : UInt64

/-- The restart at the start address plus a masked `delta`, `:323–333`. -/
def jitterLimbs (rnd : UInt64) : List UInt32 → List UInt32 → Jittered
  | wc :: cs, wd :: ds =>
    let low := jitterLimbs rnd cs ds
    let rnd := lcg32 low.rnd
    let add := (ntohl wd).toUInt64 &&& rnd
    let carry : UInt64 := if ulongMax < (ntohl wc).toUInt64 + add + low.carry then 1 else 0
    ⟨htonl ((ntohl wc).toUInt64 + add + carry).toUInt32 :: low.limbs, carry, rnd⟩
  | _, _ => ⟨[], 0, rnd⟩

/-- The nested comparison of an address with the end address, `:312–318`. -/
def exceeds : List UInt32 → List UInt32 → Bool
  | a :: as, e :: es => decide (ntohl e < ntohl a) || (ntohl a == ntohl e && exceeds as es)
  | _, _ => false

@[simp] theorem length_subtractLimbs (ss es : List UInt32) :
    (subtractLimbs ss es).1.length = min ss.length es.length := by
  induction ss generalizing es with
  | nil => simp [subtractLimbs]
  | cons s ss ih =>
    cases es with
    | nil => simp [subtractLimbs]
    | cons e es =>
      simp only [subtractLimbs]
      split <;> simp [ih, Nat.add_min_add_right]

@[simp] theorem length_divideLimbs (loopCount rem : UInt64) (ls : List UInt32) :
    (divideLimbs loopCount rem ls).1.length = ls.length := by
  induction ls generalizing rem with
  | nil => rfl
  | cons l ls ih => simp [divideLimbs, ih]

@[simp] theorem length_atLeastOne (ls : List UInt32) :
    (atLeastOne ls).length = ls.length := by
  unfold atLeastOne
  split <;> simp

@[simp] theorem length_addLimbs (cs ds : List UInt32) :
    (addLimbs cs ds).1.length = min cs.length ds.length := by
  induction cs generalizing ds with
  | nil => simp [addLimbs]
  | cons c cs ih =>
    cases ds with
    | nil => simp [addLimbs]
    | cons d ds => simp [addLimbs, ih, Nat.add_min_add_right]

@[simp] theorem length_jitterLimbs (rnd : UInt64) (cs ds : List UInt32) :
    (jitterLimbs rnd cs ds).limbs.length = min cs.length ds.length := by
  induction cs generalizing ds with
  | nil => simp [jitterLimbs]
  | cons c cs ih =>
    cases ds with
    | nil => simp [jitterLimbs]
    | cons d ds => simp [jitterLimbs, ih, Nat.add_min_add_right]

/-- The locals that steer the scan once it is set up. -/
structure ScanPlan where
  scan : Bool
  delta : In6Addr
  deriving DecidableEq

/-- Set-up of `scan` and `delta`, `:251–281`. `scan` is assigned on one path only, so the
other path hands on the uninitialised content `scan0`; `delta` is then left in host byte
order. -/
def setUpScan (g : Settings) (scan0 : Bool) : ScanPlan :=
  let diff := subtractLimbs g.flowDstIpaddrS.s6Addr32 g.flowDstIpaddrE.s6Addr32
  if diff.2 = 0 ∧ diff.1.any (· != 0) then
    { scan := true
      delta := ⟨(atLeastOne (divideLimbs g.loopCount.val 0 diff.1).1).map htonl, by
        simp [diff, In6Addr.length_eq]⟩ }
  else { scan := scan0, delta := ⟨diff.1, by simp [diff, In6Addr.length_eq]⟩ }

/-- The locals a scan step changes: `fl6.daddr` and `rnd`. -/
structure Cursor where
  daddr : In6Addr
  rnd : UInt64
  deriving DecidableEq

/-- The plain step from the current address, `:304–311`. -/
def Cursor.plainStep (delta : In6Addr) (c : Cursor) : In6Addr :=
  ⟨(addLimbs c.daddr.s6Addr32 delta.s6Addr32).1, by simp [In6Addr.length_eq]⟩

/-- The restart taken when a plain step passes the end address, `:319–333`. -/
def Cursor.restart (start delta : In6Addr) (c : Cursor) : Cursor :=
  let j := jitterLimbs c.rnd start.s6Addr32 delta.s6Addr32
  { daddr := ⟨j.limbs, by simp [j, In6Addr.length_eq]⟩, rnd := j.rnd }

/-- Whether an address is past the configured end, `:312–318`. -/
def passesEnd (g : Settings) (daddr : In6Addr) : Bool :=
  exceeds daddr.s6Addr32 g.flowDstIpaddrE.s6Addr32

/-- The scan part of one iteration, `:303–336`. -/
def Cursor.advance (g : Settings) (plan : ScanPlan) (c : Cursor) : Cursor :=
  if plan.scan then
    let next := c.plainStep plan.delta
    if passesEnd g next then c.restart g.flowDstIpaddrS plan.delta
    else { c with daddr := next }
  else c

end NetworkLab.Kbench.Ipv6
