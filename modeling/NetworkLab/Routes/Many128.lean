import NetworkLab.Lib.Lcg
import NetworkLab.Lib.PyText

/-!
# Routes of insert-many-128

`lcg24` and `routes` of `lab-routes-ipv6/insert-many-128:70–96`. An address is its integer; a
generator without effects is run to its end at once.
-/

namespace NetworkLab.Routes.Many128

open Lib

/-- The exceptions that the generator may meet. -/
inductive Exn where
  | addressValueError
  | valueError
  | zeroDivisionError
  deriving DecidableEq, Repr

/-- The options of a run that `routes` looks at. -/
structure Options where
  routes : Int
  subnet : Nat
  oui : List Char
  seed : Int
  nexthops : List (List Char)

/-- A route to add, to `dst` with all its 128 bits. -/
structure Route where
  dst : Nat
  gateway : List Char
  deriving DecidableEq

/-- The multiplier of `lcg24`, `:73`. -/
def a : Int := 1140671485

/-- The modulus of `lcg24`, `:74`. -/
def m : Int := 2 ^ 24

/-- The increment of `lcg24`, `:75`. -/
def c : Int := 12820163

/-- The first values of `lcg24`, `:70–83`. -/
def lcg24 (seed : Int) (n : Nat) : List Int := Lcg.values a c m n seed

/-- The sum of the parts of an OUI, `:88–89`, from a value of the index on. -/
def sumParts : Nat → List (List Char) → Except Exn Int
  | _, [] => return 0
  | i, x :: xs => do
    let some value := PyText.hexInt? x | throw .valueError
    return value * 256 ^ i + (← sumParts (i + 1) xs)

/-- The value of an OUI, `:88–89`. -/
def ouiValue (oui : List Char) : Except Exn Int := sumParts 0 (PyText.split ':' oui).reverse

/-- `IPv6Address` of an integer. -/
def ipv6Address (value : Int) : Except Exn Nat :=
  if value < 0 ∨ 2 ^ 128 ≤ value then .error .addressValueError else .ok value.toNat

/-- `nexthops[i % len(nexthops)]`. There is no element at all where the modulo raises. -/
def gateway (nexthops : List (List Char)) (i : Nat) : Except Exn (List Char) :=
  match nexthops[i % nexthops.length]? with
  | none => .error .zeroDivisionError
  | some nexthop => .ok nexthop

/-- The loop of `:92–96` from a value of its counter on. -/
def yieldRoutes (nexthops : List (List Char)) (base : Nat) :
    Nat → List Int → Except Exn (List Route)
  | _, [] => return []
  | i, rnd24 :: rest => do
    let ip ← ipv6Address (base + rnd24)
    let nexthop ← gateway nexthops i
    return ⟨ip, nexthop⟩ :: (← yieldRoutes nexthops base (i + 1) rest)

/-- `routes`, `:86–96`. The range of a negative number is empty. -/
def routes (o : Options) : Except Exn (List Route) := do
  let oui ← ouiValue o.oui
  let base ← ipv6Address (o.subnet + (oui * 2 ^ 40 + 0xff * 2 ^ 32 + 0xfe * 2 ^ 24))
  yieldRoutes o.nexthops base 0 (lcg24 o.seed o.routes.toNat)

/-! ### What is given -/

/-- A part of an OUI: a text that is read as a byte. -/
structure OuiByte where
  text : List Char
  value : Nat
  no_colon : ':' ∉ text
  reads : PyText.hexInt? text = some (value : Int)
  value_lt : value < 256

/-- An OUI of three bytes. -/
structure Oui where
  high : OuiByte
  middle : OuiByte
  low : OuiByte

/-- The text of an OUI. -/
def Oui.text (oui : Oui) : List Char :=
  oui.high.text ++ ':' :: (oui.middle.text ++ ':' :: oui.low.text)

/-- The number that an OUI is. -/
def Oui.value (oui : Oui) : Nat :=
  oui.high.value * 2 ^ 16 + oui.middle.value * 2 ^ 8 + oui.low.value

/-- A subnet of 64 bits, whose host bits are zero. -/
structure Subnet64 where
  address : Nat
  lt : address < 2 ^ 128
  host_zero : address % 2 ^ 64 = 0

/-- An address of a subnet has an interface identifier that starts with an OUI and `ff:fe`. -/
def Eui (subnet : Subnet64) (oui : Oui) (address : Nat) : Prop :=
  address / 2 ^ 64 = subnet.address / 2 ^ 64 ∧
    address / 2 ^ 24 % 2 ^ 40 = oui.value * 2 ^ 16 + 0xfffe

/-! ### The addresses -/

private theorem value_lt (oui : Oui) : oui.value < 2 ^ 24 := by
  have h1 := oui.high.value_lt
  have h2 := oui.middle.value_lt
  have h3 := oui.low.value_lt
  unfold Oui.value
  omega

private theorem sumParts_cons {i : Nat} (x : OuiByte) {xs : List (List Char)} {sum : Int}
    (hxs : sumParts (i + 1) xs = .ok sum) :
    sumParts i (x.text :: xs) = .ok (x.value * 256 ^ i + sum) := by
  rw [sumParts, x.reads]
  dsimp only
  rw [hxs]
  rfl

private theorem ouiValue_text (oui : Oui) : ouiValue oui.text = .ok (oui.value : Int) := by
  have hsplit : (PyText.split ':' oui.text).reverse =
      [oui.low.text, oui.middle.text, oui.high.text] := by
    rw [Oui.text, PyText.split_append oui.high.no_colon, PyText.split_append oui.middle.no_colon,
      PyText.split_of_not_mem oui.low.no_colon]
    rfl
  rw [ouiValue, hsplit, sumParts_cons _ (sumParts_cons _ (sumParts_cons _ rfl))]
  congr 1
  unfold Oui.value
  push_cast
  omega

/-- The routes for some random numbers, from a value of the counter on. -/
structure Yields (nexthops : List (List Char)) (base i : Nat) (rnds : List Int)
    (rs : List Route) : Prop where
  dst : rs.map (fun r ↦ (r.dst : Int)) = rnds.map ((base : Int) + ·)
  gateway : ∀ j r, rs[j]? = some r → nexthops[(i + j) % nexthops.length]? = some r.gateway

private theorem gateway_ok {nexthops : List (List Char)} (hne : nexthops ≠ []) (i : Nat) :
    ∃ nexthop, gateway nexthops i = .ok nexthop ∧
      nexthops[i % nexthops.length]? = some nexthop := by
  have hlt : i % nexthops.length < nexthops.length :=
    Nat.mod_lt i (List.length_pos_iff.mpr hne)
  refine ⟨nexthops[i % nexthops.length], ?_, List.getElem?_eq_getElem hlt⟩
  rw [gateway, List.getElem?_eq_getElem hlt]

/-- The loop does not raise while the addresses are those of IPv6. -/
theorem yieldRoutes_ok {nexthops : List (List Char)} (hne : nexthops ≠ []) {base : Nat}
    {rnds : List Int} (hrnds : ∀ v ∈ rnds, 0 ≤ v ∧ (base : Int) + v < 2 ^ 128) (i : Nat) :
    ∃ rs, yieldRoutes nexthops base i rnds = .ok rs ∧ Yields nexthops base i rnds rs := by
  induction rnds generalizing i with
  | nil => exact ⟨[], rfl, rfl, fun j r hr ↦ nomatch hr⟩
  | cons v rnds ih =>
    obtain ⟨hv, hrest⟩ := List.forall_mem_cons.mp hrnds
    obtain ⟨nexthop, hok, hget⟩ := gateway_ok hne i
    obtain ⟨rs, hrs, hyields⟩ := ih hrest (i + 1)
    have haddress : ipv6Address ((base : Int) + v) = .ok ((base : Int) + v).toNat := by
      rw [ipv6Address, if_neg (by omega)]
    refine ⟨⟨((base : Int) + v).toNat, nexthop⟩ :: rs, ?_, ?_, ?_⟩
    · rw [yieldRoutes, haddress, hok]
      change (do return _ :: (← yieldRoutes nexthops base (i + 1) rnds)) = _
      rw [hrs]
      rfl
    · rw [List.map_cons, List.map_cons, hyields.dst]
      dsimp only
      rw [Int.toNat_of_nonneg (by omega)]
    · intro j r hj
      cases j with
      | zero =>
        rw [List.getElem?_cons_zero] at hj
        rw [← Option.some.inj hj]
        exact hget
      | succ j =>
        rw [List.getElem?_cons_succ] at hj
        have hindex : i + (j + 1) = i + 1 + j := by omega
        rw [hindex]
        exact hyields.gateway j r hj

private theorem m_pos : 0 < m := by decide

/-- The random numbers are below the modulus. -/
theorem mem_lcg24 {seed v : Int} {n : Nat} (hv : v ∈ lcg24 seed n) : 0 ≤ v ∧ v < 2 ^ 24 :=
  Lcg.mem_values m_pos hv

/-- The multiplier and the increment give the full period. -/
theorem nodup_lcg24 (seed : Int) {n : Nat} (hn : n ≤ 2 ^ 24) : (lcg24 seed n).Nodup := by
  have ha : a % 4 = 1 := by decide
  have hc : Odd c := by decide
  exact Lcg.nodup_values ha hc hn seed

private theorem ok_bind {α β : Type} (x : α) (f : α → Except Exn β) :
    (Except.ok x >>= f) = f x := rfl

/-- For every seed, OUI of three bytes, subnet, next hops and number of routes up to the period,
the generator yields as many routes to distinct addresses of the subnet with the OUI, and they
take the next hops in turn. -/
theorem routes_distinct (seed : Int) (oui : Oui) (subnet : Subnet64)
    {nexthops : List (List Char)} (hne : nexthops ≠ []) {n : Nat} (hn : n ≤ 2 ^ 24) :
    ∃ rs, routes ⟨n, subnet.address, oui.text, seed, nexthops⟩ = .ok rs ∧ rs.length = n ∧
      (rs.map Route.dst).Nodup ∧ (∀ r ∈ rs, Eui subnet oui r.dst) ∧
      ∀ i r, rs[i]? = some r → nexthops[i % nexthops.length]? = some r.gateway := by
  have hoctets := value_lt oui
  have hsubnet := subnet.host_zero
  have hlt := subnet.lt
  let base := subnet.address + (oui.value * 2 ^ 40 + 0xff * 2 ^ 32 + 0xfe * 2 ^ 24)
  have hbase : ipv6Address ((subnet.address : Int) +
      ((oui.value : Int) * 2 ^ 40 + 0xff * 2 ^ 32 + 0xfe * 2 ^ 24)) = .ok base := by
    rw [ipv6Address, if_neg (by omega)]
    rfl
  have hrnds : ∀ v ∈ lcg24 seed n, 0 ≤ v ∧ (base : Int) + v < 2 ^ 128 := by
    intro v hv
    obtain ⟨h0, h24⟩ := mem_lcg24 hv
    refine ⟨h0, ?_⟩
    change ((subnet.address + (oui.value * 2 ^ 40 + 0xff * 2 ^ 32 + 0xfe * 2 ^ 24) : Nat) : Int) +
      v < 2 ^ 128
    omega
  obtain ⟨rs, hrs, hyields⟩ := yieldRoutes_ok hne hrnds 0
  refine ⟨rs, ?_, ?_, ?_, ?_, ?_⟩
  · rw [routes, ouiValue_text, ok_bind, hbase, ok_bind, Int.toNat_natCast]
    exact hrs
  · have hlen := congrArg List.length hyields.dst
    rwa [List.length_map, List.length_map, lcg24, Lcg.length_values] at hlen
  · have hnodup : (rs.map fun r ↦ (r.dst : Int)).Nodup := by
      rw [hyields.dst]
      exact (nodup_lcg24 seed hn).map fun x y h ↦ by simpa using h
    have hmap : rs.map (fun r ↦ (r.dst : Int)) =
        (rs.map Route.dst).map fun x : Nat ↦ (x : Int) := by
      rw [List.map_map]
      rfl
    rw [hmap] at hnodup
    exact hnodup.of_map _
  · intro r hr
    have hmem : (r.dst : Int) ∈ (lcg24 seed n).map ((base : Int) + ·) := by
      rw [← hyields.dst]
      exact List.mem_map_of_mem hr
    obtain ⟨v, hv, hdst⟩ := List.mem_map.mp hmem
    obtain ⟨h0, h24⟩ := mem_lcg24 hv
    change ((subnet.address + (oui.value * 2 ^ 40 + 0xff * 2 ^ 32 + 0xfe * 2 ^ 24) : Nat) : Int) +
      v = r.dst at hdst
    constructor <;> omega
  · intro i r hi
    have hget := hyields.gateway i r hi
    rwa [Nat.zero_add] at hget

/-- The byte `52`. -/
def byte52 : OuiByte where
  text := ['5', '2']
  value := 0x52
  no_colon := by decide
  reads := by decide
  value_lt := by decide

/-- The byte `54`. -/
def byte54 : OuiByte where
  text := ['5', '4']
  value := 0x54
  no_colon := by decide
  reads := by decide
  value_lt := by decide

/-- The byte `00`. -/
def byte00 : OuiByte where
  text := ['0', '0']
  value := 0
  no_colon := by decide
  reads := by decide
  value_lt := by decide

/-- The default OUI, `52:54:00`. -/
def defaultOui : Oui := ⟨byte52, byte54, byte00⟩

/-- The default subnet, `2001:db8:b::`. -/
def defaultSubnet : Subnet64 where
  address := 0x20010db8000b * 2 ^ 80
  lt := by decide
  host_zero := by decide

/-- The routes of a run with the default options and one next hop. -/
theorem routes_distinct_default :
    ∃ rs, routes ⟨100, defaultSubnet.address, defaultOui.text, 45742, [[':', ':', '1']]⟩ = .ok rs ∧
      rs.length = 100 ∧ (rs.map Route.dst).Nodup := by
  obtain ⟨rs, hrs, hlen, hnodup, -⟩ :=
    routes_distinct 45742 defaultOui defaultSubnet (List.cons_ne_nil [':', ':', '1'] [])
      (show 100 ≤ 2 ^ 24 by decide)
  exact ⟨rs, hrs, hlen, hnodup⟩

end NetworkLab.Routes.Many128
