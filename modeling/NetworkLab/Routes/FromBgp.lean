import NetworkLab.Lib.Double
import NetworkLab.Lib.Iterator

/-!
# Insertion of insert-from-bgp

`routes` and the main loop of `common/helpers/lab-routes-ipvX/insert-from-bgp:114–182`. The
routes of the dump are given; a generator without effects is run to its end at once. Netlink
takes every batch.
-/

namespace NetworkLab.Routes.FromBgp

open Lib

/-- The families of a route. -/
inductive Family where
  | afInet
  | afInet6
  deriving DecidableEq, Repr

/-- The bits of an address. -/
def Family.bits : Family → Nat
  | .afInet => 32
  | .afInet6 => 128

/-- An address of `ipaddress`. -/
structure Address where
  family : Family
  value : Nat
  deriving DecidableEq, Repr

/-- A prefix of the dump: its text, and the network that `ip_network` reads from it. -/
structure Prefix where
  text : List Char
  family : Family
  network : Nat
  plen : Nat
  colon : ':' ∈ text ↔ family = .afInet6
  plen_le : plen ≤ family.bits
  aligned : 2 ^ (family.bits - plen) ∣ network
  network_lt : network < 2 ^ family.bits

/-- The number of addresses of a prefix. -/
def Prefix.numAddresses (p : Prefix) : Nat := 2 ^ (p.family.bits - p.plen)

/-- `cur[0]`. -/
def Prefix.lowest (p : Prefix) : Address := ⟨p.family, p.network⟩

/-- `cur[-1]`. -/
def Prefix.highest (p : Prefix) : Address := ⟨p.family, p.network + p.numAddresses - 1⟩

/-- A route to add. -/
structure Route where
  family : Family
  dst : Prefix
  gateway : List Char

/-- The exceptions that the program may meet. -/
inductive Exn where
  | overflowError
  | typeError
  | valueError
  | zeroDivisionError
  deriving DecidableEq, Repr

/-- The options that the functions below look at. -/
structure Options where
  routes : Int
  dryRun : Bool
  batch : Int
  nexthops : List (List Char)

/-! ### The generator -/

/-- `v4_nexthops` and `v6_nexthops`, `:118–125`. -/
def hops (nexthops : List (List Char)) : Family → List (List Char)
  | .afInet => nexthops.filter (':' ∉ ·)
  | .afInet6 => nexthops.filter (':' ∈ ·)

/-- The prefixes whose family has a next hop, `:126–127`. -/
def usable (nexthops : List (List Char)) (dump : List Prefix) : List Prefix :=
  dump.filter fun p ↦ (':' ∈ p.text && hops nexthops .afInet6 ≠ []) ||
    (':' ∉ p.text && hops nexthops .afInet ≠ [])

/-- `skip`, `:129`. A negative quotient is cut to a number below one. -/
def skip (length : Nat) (routes : Int) : Except Exn Nat :=
  match Double.trueDiv length routes.natAbs with
  | none => .error .overflowError
  | some quotient => .ok (if 0 < routes then max 1 quotient else 1)

/-- The prefixes that are iterated over, `:133`. -/
def sample (o : Options) (dump : List Prefix) : Except Exn (List Prefix) := do
  let routes := usable o.nexthops dump
  let step ← skip routes.length o.routes
  let stop := o.routes * step
  if stop < 0 ∨ (Iterator.maxsize : Int) < stop ∨ Iterator.maxsize < step then .error .valueError
  else return Iterator.islice routes stop.toNat step

/-- `nexthops[i % len(nexthops)]`. There is no element at all where the modulo raises. -/
def gateway (nexthops : List (List Char)) (i : Nat) : Except Exn (List Char) :=
  match nexthops[i % nexthops.length]? with
  | none => .error .zeroDivisionError
  | some nexthop => .ok nexthop

/-- The route of a prefix, `:134–143`. -/
def route (nexthops : List (List Char)) (i : Nat) (p : Prefix) : Except Exn Route := do
  let family := if ':' ∈ p.text then Family.afInet6 else Family.afInet
  return ⟨family, p, ← gateway (hops nexthops family) i⟩

/-- The loop of `:133–144` from its counter on. -/
def yieldRoutes (nexthops : List (List Char)) : Nat → List Prefix → Except Exn (List Route)
  | _, [] => return []
  | i, p :: ps => do
    let r ← route nexthops i p
    return r :: (← yieldRoutes nexthops (i + 1) ps)

/-- `routes`, `:114–146`. -/
def routes (o : Options) (dump : List Prefix) : Except Exn (List Route) := do
  if o.routes = 0 then return []
  yieldRoutes o.nexthops 0 (← sample o dump)

/-! ### The main loop -/

/-- `a < b` for addresses. -/
def Address.lt (a b : Address) : Except Exn Bool :=
  if a.family ≠ b.family then .error .typeError else .ok (a.value < b.value)

/-- `a > b` for addresses, which the library derives from `a < b`. -/
def Address.gt (a b : Address) : Except Exn Bool := do
  return !(← a.lt b) && a ≠ b

/-- What the main loop keeps: the extremes, the batch being built, and what was sent. -/
structure Main where
  first : Option Address
  last : Option Address
  batch : List Route
  submitted : List (List Route)

/-- The state before the loop, `:155–158`. -/
def Main.start : Main := ⟨none, none, [], []⟩

/-- The new value of `first`, `:164–165`. -/
def lower (first : Option Address) (cur : Address) : Except Exn (Option Address) :=
  match first with
  | none => .ok (some cur)
  | some a => do return some (if ← cur.lt a then cur else a)

/-- The new value of `last`, `:166–167`. -/
def higher (last : Option Address) (cur : Address) : Except Exn (Option Address) :=
  match last with
  | none => .ok (some cur)
  | some a => do return some (if ← cur.gt a then cur else a)

/-- One pass of the inner loop, `:163–169`. -/
def Main.add (s : Main) (r : Route) : Except Exn Main := do
  let first ← lower s.first r.dst.lowest
  let last ← higher s.last r.dst.highest
  return { s with first, last, batch := s.batch ++ [r] }

/-- The inner loop, `:162–169`. -/
def Main.addAll (s : Main) : List Route → Except Exn Main
  | [] => .ok s
  | r :: rr => do (← s.add r).addAll rr

/-- Sending and emptying the batch, `:170–173`. -/
def Main.submit (dryRun : Bool) (s : Main) : Main :=
  { s with
    submitted := if dryRun then s.submitted else s.submitted ++ [s.batch]
    batch := [] }

/-- The outer loop, `:161–173`, and the exception that leaves it. -/
def mainLoop (dryRun : Bool) : List (List Route) → Main → Main × Option Exn
  | [], s => (s, none)
  | rr :: rest, s =>
    match s.addAll rr with
    | .error e => (s, some e)
    | .ok s' => mainLoop dryRun rest (s'.submit dryRun)

/-- The program, `:149–182`. The generator is not started for a batch of no routes. -/
def insertFromBgp (o : Options) (dump : List Prefix) : Main × Option Exn :=
  if o.batch < 0 ∨ (Iterator.maxsize : Int) < o.batch then (.start, some .valueError)
  else if o.batch = 0 then (.start, none)
  else
    match routes o dump with
    | .error e => (.start, some e)
    | .ok rs => mainLoop o.dryRun (Iterator.batches o.batch.toNat rs) .start

/-! ### What the generator yields -/

private theorem gateway_ok {nexthops : List (List Char)} (hne : nexthops ≠ []) (i : Nat) :
    ∃ nexthop, gateway nexthops i = .ok nexthop ∧
      nexthops[i % nexthops.length]? = some nexthop := by
  have hlt : i % nexthops.length < nexthops.length :=
    Nat.mod_lt i (List.length_pos_iff.mpr hne)
  refine ⟨nexthops[i % nexthops.length], ?_, List.getElem?_eq_getElem hlt⟩
  rw [gateway, List.getElem?_eq_getElem hlt]

/-- Every prefix that is left has a next hop of its family. -/
theorem hops_ne_nil_of_mem_usable {nexthops : List (List Char)} {dump : List Prefix} {p : Prefix}
    (hp : p ∈ usable nexthops dump) : hops nexthops p.family ≠ [] := by
  have hkept := (List.mem_filter.mp hp).2
  simp only [Bool.or_eq_true, Bool.and_eq_true, decide_eq_true_eq, p.colon] at hkept
  rcases hkept with ⟨hfamily, hne⟩ | ⟨hfamily, hne⟩
  · rw [hfamily]
    exact hne
  · cases h : p.family with
    | afInet => exact hne
    | afInet6 => exact absurd h hfamily

/-- The routes for some prefixes, from a value of the counter on. -/
structure Yields (nexthops : List (List Char)) (i : Nat) (ps : List Prefix) (rs : List Route) :
    Prop where
  dst : rs.map Route.dst = ps
  family : ∀ r ∈ rs, r.family = r.dst.family
  gateway : ∀ j r, rs[j]? = some r →
    (hops nexthops r.family)[(i + j) % (hops nexthops r.family).length]? = some r.gateway

private theorem route_ok {nexthops : List (List Char)} {p : Prefix}
    (hne : hops nexthops p.family ≠ []) (i : Nat) :
    ∃ r, route nexthops i p = .ok r ∧ r.dst = p ∧ r.family = p.family ∧
      (hops nexthops r.family)[i % (hops nexthops r.family).length]? = some r.gateway := by
  have hfamily : (if ':' ∈ p.text then Family.afInet6 else Family.afInet) = p.family := by
    split
    · next hcolon => exact (p.colon.mp hcolon).symm
    · next hcolon =>
      cases h : p.family with
      | afInet => rfl
      | afInet6 => exact absurd (p.colon.mpr h) hcolon
  obtain ⟨nexthop, hok, hget⟩ := gateway_ok hne i
  refine ⟨⟨p.family, p, nexthop⟩, ?_, rfl, rfl, hget⟩
  rw [route, hfamily, hok]
  rfl

/-- The generator does not raise where every prefix has a next hop. -/
theorem yieldRoutes_ok {nexthops : List (List Char)} {ps : List Prefix}
    (hne : ∀ p ∈ ps, hops nexthops p.family ≠ []) (i : Nat) :
    ∃ rs, yieldRoutes nexthops i ps = .ok rs ∧ Yields nexthops i ps rs := by
  induction ps generalizing i with
  | nil => exact ⟨[], rfl, rfl, fun r hr ↦ (nomatch hr), fun j r hr ↦ (nomatch hr)⟩
  | cons p ps ih =>
    obtain ⟨r, hr, hdst, hfamily, hgateway⟩ := route_ok (hne p List.mem_cons_self) i
    obtain ⟨rs, hrs, hyields⟩ := ih (fun q hq ↦ hne q (List.mem_cons_of_mem p hq)) (i + 1)
    refine ⟨r :: rs, ?_, ?_, ?_, ?_⟩
    · rw [yieldRoutes, hr]
      change (do return r :: (← yieldRoutes nexthops (i + 1) ps)) = _
      rw [hrs]
      rfl
    · rw [List.map_cons, hdst, hyields.dst]
    · intro r' hr'
      rcases List.mem_cons.mp hr' with rfl | hr'
      · rw [hfamily, hdst]
      · exact hyields.family r' hr'
    · intro j r' hj
      cases j with
      | zero =>
        rw [List.getElem?_cons_zero] at hj
        rw [← Option.some.inj hj, Nat.add_zero]
        exact hgateway
      | succ j =>
        rw [List.getElem?_cons_succ] at hj
        have hindex : i + (j + 1) = i + 1 + j := by omega
        rw [hindex]
        exact hyields.gateway j r' hj

/-- The step that the program takes through `length` prefixes for `n` routes. -/
def stride (length n : Nat) : Nat := max 1 (Double.quotient length n)

/-- The step is that of integers for every dump that a machine can hold. -/
theorem stride_eq {length n : Nat} (hn : 0 < n) (hlength : length < 2 ^ 53) :
    stride length n = max 1 (length / n) := by
  rw [stride, Double.quotient_eq hn hlength]

private theorem skip_eq {n : Nat} (hn : 0 < n) (length : Nat) :
    skip length n = if (Double.quotient length n).size ≤ 1024 then .ok (stride length n)
      else .error .overflowError := by
  rw [skip, Int.natAbs_natCast, Double.trueDiv]
  by_cases hsize : (Double.quotient length n).size ≤ 1024
  · rw [if_pos hsize, if_pos hsize]
    dsimp only
    rw [if_pos (Int.natCast_pos.mpr hn), stride]
  · rw [if_neg hsize, if_neg hsize]

private theorem size_le_of_stride {length n : Nat} (hn : 0 < n)
    (hle : n * stride length n ≤ Iterator.maxsize) :
    (Double.quotient length n).size ≤ 1024 := by
  have hmax : Iterator.maxsize < 2 ^ 63 := by decide
  have hlt : Double.quotient length n < 2 ^ 63 :=
    calc Double.quotient length n ≤ stride length n := Nat.le_max_right _ _
      _ ≤ n * stride length n := Nat.le_mul_of_pos_left _ hn
      _ < 2 ^ 63 := Nat.lt_of_le_of_lt hle hmax
  exact Nat.le_trans (Nat.size_le.mpr hlt) (by decide)

private theorem sample_of_skip {o : Options} {n step : Nat} (hroutes : o.routes = n)
    {dump : List Prefix} (hskip : skip (usable o.nexthops dump).length n = .ok step) :
    sample o dump =
      if (n : Int) * step < 0 ∨ (Iterator.maxsize : Int) < n * step ∨ Iterator.maxsize < step then
        .error .valueError
      else .ok (Iterator.islice (usable o.nexthops dump) ((n : Int) * step).toNat step) := by
  unfold sample
  dsimp only
  rw [hroutes, hskip]
  rfl

/-- A sample is taken if the end of the slice is a size. -/
theorem sample_ok {o : Options} {n : Nat} (hn : 0 < n) (hroutes : o.routes = n)
    {dump : List Prefix}
    (hle : n * stride (usable o.nexthops dump).length n ≤ Iterator.maxsize) :
    sample o dump = .ok (Iterator.islice (usable o.nexthops dump)
      (n * stride (usable o.nexthops dump).length n)
      (stride (usable o.nexthops dump).length n)) := by
  have hskip := skip_eq hn (usable o.nexthops dump).length
  rw [if_pos (size_le_of_stride hn hle)] at hskip
  have hstep := Nat.le_mul_of_pos_left (stride (usable o.nexthops dump).length n) hn
  rw [sample_of_skip hroutes hskip, ← Int.natCast_mul, Int.toNat_natCast, if_neg (by omega)]

/-- Otherwise the generator raises. -/
theorem sample_error {o : Options} {n : Nat} (hn : 0 < n) (hroutes : o.routes = n)
    {dump : List Prefix}
    (hlt : Iterator.maxsize < n * stride (usable o.nexthops dump).length n) :
    ∃ e, sample o dump = .error e := by
  have hskip := skip_eq hn (usable o.nexthops dump).length
  by_cases hsize : (Double.quotient (usable o.nexthops dump).length n).size ≤ 1024
  · rw [if_pos hsize] at hskip
    refine ⟨.valueError, ?_⟩
    rw [sample_of_skip hroutes hskip, ← Int.natCast_mul, if_pos (by omega)]
  · rw [if_neg hsize] at hskip
    refine ⟨.overflowError, ?_⟩
    unfold sample
    dsimp only
    rw [hroutes, hskip]
    rfl

end NetworkLab.Routes.FromBgp
