import NetworkLab.Lib.Double
import Mathlib.Algebra.BigOperators.Group.Finset.Basic
import Mathlib.Data.Rat.Floor

/-!
# Routes of insert-many-32

`routes` of `lab-routes-ipv4/insert-many-32:67–78`. The increments of the address are given: the
program draws each from one up to the inverse of the density.
-/

namespace NetworkLab.Routes.Many32

open Lib

/-- The exceptions that the generator may meet. -/
inductive Exn where
  | overflowError
  | structError
  deriving DecidableEq, Repr

/-- The options that `routes` looks at. The parser asks for a next hop at least. -/
structure Options where
  routes : Int
  subnets : Int
  nexthops : List (List Char)
  nexthops_ne : nexthops ≠ []

/-- The increments of a run, by subnet and route: each is `ceil(1/density * x)` for an `x` above
zero and not above one, `:74`. -/
structure Draws (density : ℚ) where
  density_pos : 0 < density
  density_le_one : density ≤ 1
  inc : Nat → Nat → Nat
  one_le : ∀ s i, 1 ≤ inc s i
  le_ceil : ∀ s i, (inc s i : ℤ) ≤ ⌈1 / density⌉

/-- A route to add, to `dst` with all its 32 bits. -/
structure Route where
  dst : Nat
  gateway : List Char
  deriving DecidableEq

/-- What an iteration of the outer loop yields, and the address behind it unless it raises. -/
structure Iteration where
  yielded : List Route
  result : Except Exn Nat

/-- What the outer loop yields by its iterations, and the exception that leaves it. -/
structure Run where
  iterations : List (List Route)
  raised : Option Exn

/-- The number of routes of a subnet, `:73`. The range of a negative number is empty. -/
def count (o : Options) : Except Exn Nat :=
  match Double.trueDiv o.routes.natAbs o.subnets.natAbs with
  | none => .error .overflowError
  | some quotient => .ok (if 0 ≤ o.routes then quotient else 0)

/-- `nexthops[i % len(nexthops)]`. -/
def gateway (o : Options) (i : Nat) : List Char :=
  o.nexthops.get ⟨i % o.nexthops.length, Nat.mod_lt i (List.length_pos_iff.mpr o.nexthops_ne)⟩

/-- The inner loop, `:73–78`, from a value of its counter on. -/
def subnetRoutes (o : Options) (inc : Nat → Nat) : (n i ip : Nat) → Iteration
  | 0, _, ip => ⟨[], .ok ip⟩
  | n + 1, i, ip =>
    let ip := ip + inc i
    -- packing takes four bytes
    if 2 ^ 32 ≤ ip then ⟨[], .error .structError⟩
    else
      let rest := subnetRoutes o inc n (i + 1) ip
      ⟨⟨ip, gateway o i⟩ :: rest.yielded, rest.result⟩

/-- The address that a subnet starts from, `:71–72`. -/
def nextSubnet (ip : Nat) : Nat := (ip + (1 <<< 24)) &&& (0xff <<< 24)

/-- The outer loop, `:70–78`, from a value of its counter on. -/
def subnetsFrom (o : Options) (inc : Nat → Nat → Nat) : (n s ip : Nat) → Run
  | 0, _, _ => ⟨[], none⟩
  | n + 1, s, ip =>
    match count o with
    | .error e => ⟨[], some e⟩
    | .ok k =>
      let iteration := subnetRoutes o (inc s) k 0 (nextSubnet ip)
      match iteration.result with
      | .error e => ⟨[iteration.yielded], some e⟩
      | .ok ip =>
        let rest := subnetsFrom o inc n (s + 1) ip
        ⟨iteration.yielded :: rest.iterations, rest.raised⟩

/-- `routes`, `:67–78`. -/
def routes (o : Options) (inc : Nat → Nat → Nat) : Run :=
  subnetsFrom o inc o.subnets.toNat 0 0

/-- The sum of the first increments of a subnet. -/
def total (inc : Nat → Nat) (n : Nat) : Nat := ∑ i ∈ Finset.range n, inc i

/-! ### A subnet -/

@[simp] theorem total_zero (inc : Nat → Nat) : total inc 0 = 0 := rfl

theorem total_succ (inc : Nat → Nat) (n : Nat) : total inc (n + 1) = total inc n + inc n :=
  Finset.sum_range_succ inc n

/-- The sum grows by one at least with every increment. -/
theorem total_lt {inc : Nat → Nat} (hinc : ∀ i, 1 ≤ inc i) {i j : Nat} (h : i < j) :
    total inc i < total inc j := by
  induction h with
  | refl =>
    rw [total_succ]
    exact Nat.lt_add_of_pos_right (hinc i)
  | step _ ih =>
    rw [total_succ]
    exact Nat.lt_add_right _ ih

/-- There are no more increments than their sum. -/
theorem le_total {inc : Nat → Nat} (hinc : ∀ i, 1 ≤ inc i) (n : Nat) : n ≤ total inc n := by
  induction n with
  | zero => exact Nat.le_refl 0
  | succ n ih =>
    rw [total_succ]
    exact Nat.add_le_add ih (hinc n)

theorem total_mono (inc : Nat → Nat) {i j : Nat} (h : i ≤ j) : total inc i ≤ total inc j := by
  induction h with
  | refl => exact Nat.le_refl _
  | step _ ih =>
    rw [total_succ]
    exact Nat.le_add_right_of_le ih

/-- The destinations of a subnet, if they fit in four bytes. -/
theorem subnetRoutes_ok (o : Options) {inc : Nat → Nat} {start n i ip : Nat}
    (hip : ip = start + total inc i) (hlt : start + total inc (i + n) < 2 ^ 32) :
    (subnetRoutes o inc n i ip).result = .ok (start + total inc (i + n)) ∧
      (subnetRoutes o inc n i ip).yielded.map Route.dst =
        (List.range' i n).map fun j ↦ start + total inc (j + 1) := by
  induction n generalizing i ip with
  | zero => exact ⟨congrArg Except.ok hip, rfl⟩
  | succ n ih =>
    have hindex : i + (n + 1) = i + 1 + n := by omega
    have hmono : total inc (i + 1) ≤ total inc (i + 1 + n) := total_mono inc (by omega)
    rw [hindex] at hlt ⊢
    rw [subnetRoutes]
    dsimp only
    have hip' : ip + inc i = start + total inc (i + 1) := by rw [hip, total_succ, Nat.add_assoc]
    rw [if_neg (by omega)]
    obtain ⟨hresult, hyielded⟩ := ih hip' hlt
    refine ⟨hresult, ?_⟩
    rw [List.map_cons, hyielded, List.range'_succ, List.map_cons, hip']

/-- A subnet that does not raise ends in four bytes. -/
theorem lt_of_subnetRoutes_ok {o : Options} {inc : Nat → Nat} {start n i ip ip' : Nat}
    (hip : ip = start + total inc i) (hlt : ip < 2 ^ 32)
    (hok : (subnetRoutes o inc n i ip).result = .ok ip') :
    start + total inc (i + n) < 2 ^ 32 := by
  induction n generalizing i ip with
  | zero => exact hip ▸ hlt
  | succ n ih =>
    have hindex : i + (n + 1) = i + 1 + n := by omega
    rw [hindex]
    rw [subnetRoutes] at hok
    dsimp only at hok
    have hip' : ip + inc i = start + total inc (i + 1) := by rw [hip, total_succ, Nat.add_assoc]
    split at hok
    · cases hok
    · next hle => exact ih hip' (Nat.not_le.mp hle) hok

/-! ### The subnets -/

private theorem and_mask (x : Nat) : x &&& (0xff <<< 24) = x / 2 ^ 24 % 256 * 2 ^ 24 := by
  have hmod : x / 2 ^ 24 % 256 = (x >>> 24) &&& 0xff := by
    rw [Nat.shiftRight_eq_div_pow]
    exact (Nat.and_two_pow_sub_one_eq_mod (x / 2 ^ 24) 8).symm
  rw [hmod, ← Nat.shiftLeft_eq]
  apply Nat.eq_of_testBit_eq
  intro j
  rw [Nat.testBit_and, Nat.testBit_shiftLeft, Nat.testBit_shiftLeft, Nat.testBit_and,
    Nat.testBit_shiftRight]
  by_cases hj : 24 ≤ j
  · rw [Nat.add_sub_of_le hj, Bool.and_left_comm]
  · rw [decide_eq_false hj, Bool.false_and, Bool.false_and, Bool.and_false]

/-- A subnet starts behind the one that the address is in. -/
theorem nextSubnet_eq {s ip : Nat} (hs : s < 255) (hip : ip / 2 ^ 24 = s) :
    nextSubnet ip = (s + 1) * 2 ^ 24 := by
  rw [nextSubnet, and_mask]
  have hshift : 1 <<< 24 = 2 ^ 24 := rfl
  rw [hshift]
  omega

/-- The destinations of a subnet whose increments stay below its size. -/
def block (inc : Nat → Nat → Nat) (k s : Nat) : List Nat :=
  (List.range k).map fun j ↦ (s + 1) * 2 ^ 24 + total (inc s) (j + 1)

private theorem start_eq (inc : Nat → Nat) (start : Nat) : start = start + total inc 0 := by
  rw [total_zero, Nat.add_zero]

private theorem subnetRoutes_block (o : Options) (inc : Nat → Nat → Nat) {k s : Nat}
    (hs : s < 223) (htotal : total (inc s) k < 2 ^ 24) :
    (subnetRoutes o (inc s) k 0 ((s + 1) * 2 ^ 24)).result =
        .ok ((s + 1) * 2 ^ 24 + total (inc s) k) ∧
      (subnetRoutes o (inc s) k 0 ((s + 1) * 2 ^ 24)).yielded.map Route.dst = block inc k s := by
  have hlt : (s + 1) * 2 ^ 24 + total (inc s) (0 + k) < 2 ^ 32 := by
    rw [Nat.zero_add]
    omega
  obtain ⟨hresult, hyielded⟩ := subnetRoutes_ok o (start_eq (inc s) _) hlt
  rw [Nat.zero_add] at hresult
  refine ⟨hresult, hyielded.trans ?_⟩
  rw [block, List.range_eq_range']

/-- The subnets whose increments stay below their size go on one behind the other. -/
theorem subnetsFrom_ok {o : Options} {inc : Nat → Nat → Nat} {k : Nat} (hk : count o = .ok k)
    {n s ip : Nat} (hn : s + n ≤ 223) (hip : ip / 2 ^ 24 = s)
    (htotal : ∀ j, s ≤ j → j < s + n → total (inc j) k < 2 ^ 24) :
    (subnetsFrom o inc n s ip).raised = none ∧
      (subnetsFrom o inc n s ip).iterations.map (List.map Route.dst) =
        (List.range' s n).map (block inc k) := by
  induction n generalizing s ip with
  | zero => exact ⟨rfl, rfl⟩
  | succ n ih =>
    have hfirst : total (inc s) k < 2 ^ 24 := htotal s (Nat.le_refl s) (by omega)
    obtain ⟨hresult, hyielded⟩ := subnetRoutes_block o inc (show s < 223 by omega) hfirst
    have hend : ((s + 1) * 2 ^ 24 + total (inc s) k) / 2 ^ 24 = s + 1 := by omega
    obtain ⟨hraised, hrest⟩ := ih (by omega) hend fun j hs hj ↦ htotal j (by omega) (by omega)
    rw [subnetsFrom, hk]
    dsimp only
    rw [nextSubnet_eq (by omega) hip, hresult]
    dsimp only
    refine ⟨hraised, ?_⟩
    rw [List.map_cons, hyielded, hrest, List.range'_succ, List.map_cons]

/-- Iterations that do not raise and stay in their subnets have increments below their size. -/
theorem total_lt_of_inside {o : Options} {inc : Nat → Nat → Nat} {k : Nat}
    (hk : count o = .ok k) {n s ip : Nat} (hn : s + n ≤ 223) (hip : ip / 2 ^ 24 = s)
    (hraised : (subnetsFrom o inc n s ip).raised = none)
    (hinside : ∀ j rs, (subnetsFrom o inc n s ip).iterations[j]? = some rs →
      ∀ r ∈ rs, r.dst / 2 ^ 24 = s + j + 1) :
    (subnetsFrom o inc n s ip).iterations.map List.length = List.replicate n k ∧
      ∀ j, s ≤ j → j < s + n → total (inc j) k < 2 ^ 24 := by
  induction n generalizing s ip with
  | zero => exact ⟨rfl, fun j hs hj ↦ by omega⟩
  | succ n ih =>
    rw [subnetsFrom, hk] at hraised hinside ⊢
    dsimp only at hraised hinside ⊢
    rw [nextSubnet_eq (by omega) hip] at hraised hinside ⊢
    cases hresult : (subnetRoutes o (inc s) k 0 ((s + 1) * 2 ^ 24)).result with
    | error e =>
      rw [hresult] at hraised
      cases hraised
    | ok ip1 =>
      rw [hresult] at hraised hinside
      dsimp only at hraised hinside ⊢
      have hlt : (s + 1) * 2 ^ 24 + total (inc s) (0 + k) < 2 ^ 32 :=
        lt_of_subnetRoutes_ok (start_eq (inc s) _) (by omega) hresult
      obtain ⟨hend, hyielded⟩ := subnetRoutes_ok o (start_eq (inc s) _) hlt
      rw [Nat.zero_add] at hend hlt
      have hlen : (subnetRoutes o (inc s) k 0 ((s + 1) * 2 ^ 24)).yielded.length = k := by
        have hmap := congrArg List.length hyielded
        rwa [List.length_map, List.length_map, List.length_range'] at hmap
      have hfirst : total (inc s) k < 2 ^ 24 := by
        cases k with
        | zero => exact Nat.two_pow_pos 24
        | succ k =>
          -- the last route of the iteration has all increments in its address
          obtain ⟨r, hr⟩ : ∃ r, (subnetRoutes o (inc s) (k + 1) 0
              ((s + 1) * 2 ^ 24)).yielded[k]? = some r :=
            ⟨_, List.getElem?_eq_getElem (by rw [hlen]; exact Nat.lt_succ_self k)⟩
          have hdst : r.dst = (s + 1) * 2 ^ 24 + total (inc s) (k + 1) := by
            have hget := congrArg (·[k]?) hyielded
            rw [List.getElem?_map, hr, List.getElem?_map, ← List.range_eq_range',
              List.getElem?_range (Nat.lt_succ_self k)] at hget
            exact Option.some.inj hget
          have hin := hinside 0 _ rfl r (List.mem_of_getElem? hr)
          omega
      have hnext : ip1 / 2 ^ 24 = s + 1 := by
        rw [hresult] at hend
        have hip1 := Except.ok.inj hend
        omega
      obtain ⟨hlens, hrest⟩ := ih (by omega) hnext hraised fun j rs hj r hr ↦ by
        have hin := hinside (j + 1) rs hj r hr
        omega
      refine ⟨?_, fun j hs hj ↦ ?_⟩
      · rw [List.map_cons, hlen, hlens, List.replicate_succ]
      · rcases Nat.eq_or_lt_of_le hs with rfl | hlt
        · exact hfirst
        · exact hrest j hlt (by omega)

/-! ### Staying in the subnets -/

/-- A run stays in its subnets: it finishes with all its routes, to distinct destinations, and
those of an iteration are in the subnet of the iteration. -/
structure StaysInside (o : Options) (inc : Nat → Nat → Nat) : Prop where
  finishes : (routes o inc).raised = none
  count : ((routes o inc).iterations.flatten.length : Int) = o.subnets * (o.routes / o.subnets)
  distinct : ((routes o inc).iterations.flatten.map Route.dst).Nodup
  inside : ∀ s rs, (routes o inc).iterations[s]? = some rs → ∀ r ∈ rs, r.dst / 2 ^ 24 = s + 1

private theorem mem_block {inc : Nat → Nat → Nat} (hinc : ∀ s i, 1 ≤ inc s i) {k s x : Nat}
    (htotal : total (inc s) k < 2 ^ 24) (hx : x ∈ block inc k s) :
    (s + 1) * 2 ^ 24 < x ∧ x < (s + 2) * 2 ^ 24 := by
  obtain ⟨j, hj, rfl⟩ := List.mem_map.mp hx
  rw [List.mem_range] at hj
  have hlow : total (inc s) 0 < total (inc s) (j + 1) := total_lt (hinc s) (Nat.succ_pos j)
  have hhigh : total (inc s) (j + 1) ≤ total (inc s) k := total_mono (inc s) hj
  rw [total_zero] at hlow
  omega

/-- Destinations of subnets whose increments stay below their size grow. -/
theorem pairwise_blocks {inc : Nat → Nat → Nat} (hinc : ∀ s i, 1 ≤ inc s i) {k n : Nat}
    (htotal : ∀ s < n, total (inc s) k < 2 ^ 24) :
    ((List.range' 0 n).flatMap (block inc k)).Pairwise (· < ·) := by
  rw [List.pairwise_flatMap]
  constructor
  · intro s _
    rw [block, List.pairwise_map]
    refine List.pairwise_lt_range.imp fun {i j} hij ↦ ?_
    have hlt : total (inc s) (i + 1) < total (inc s) (j + 1) :=
      total_lt (hinc s) (Nat.succ_lt_succ hij)
    omega
  · refine List.Pairwise.imp_of_mem (fun {s t} hs ht hst x hx y hy ↦ ?_)
      (List.pairwise_lt_range' (s := 0) (n := n))
    rw [List.mem_range'_1] at hs ht
    have hbelow := (mem_block hinc (htotal s (by omega)) hx).2
    have habove := (mem_block hinc (htotal t (by omega)) hy).1
    omega

private theorem length_flatten_of_lengths {n k : Nat} {xs : List (List Route)}
    (h : xs.map List.length = List.replicate n k) : xs.flatten.length = n * k := by
  rw [List.length_flatten, h, List.sum_replicate_nat]

section

variable {nroutes subnets : Nat} {nexthops : List (List Char)} (hne : nexthops ≠ [])
  {inc : Nat → Nat → Nat}

private theorem count_eq (hsubnets : 0 < subnets) (hroutes : nroutes < 2 ^ 53) :
    count ⟨nroutes, subnets, nexthops, hne⟩ = .ok (nroutes / subnets) := by
  rw [count, Int.natAbs_natCast, Int.natAbs_natCast, Double.trueDiv_eq hsubnets hroutes]
  dsimp only
  rw [if_pos (Int.natCast_nonneg nroutes)]

/-- Increments below the size of a subnet keep a run inside. -/
theorem staysInside_of_total_lt (hinc : ∀ s i, 1 ≤ inc s i) (hsubnets : 0 < subnets)
    (hmax : subnets ≤ 223) (htotal : ∀ s < subnets, total (inc s) (nroutes / subnets) < 2 ^ 24) :
    StaysInside ⟨nroutes, subnets, nexthops, hne⟩ inc := by
  have hroutes : nroutes < 2 ^ 53 := by
    have hfew := Nat.lt_of_le_of_lt (le_total (hinc 0) _) (htotal 0 hsubnets)
    rw [Nat.div_lt_iff_lt_mul hsubnets] at hfew
    have hmul : 2 ^ 24 * subnets ≤ 2 ^ 24 * 223 := Nat.mul_le_mul_left _ hmax
    omega
  have hzero : 0 / 2 ^ 24 = 0 := Nat.zero_div _
  obtain ⟨hraised, hblocks⟩ := subnetsFrom_ok (count_eq hne hsubnets hroutes)
    (show 0 + subnets ≤ 223 by omega) hzero fun j _ hj ↦ htotal j (by omega)
  have hmap : (routes ⟨nroutes, subnets, nexthops, hne⟩ inc).iterations.map (List.map Route.dst) =
      (List.range' 0 subnets).map (block inc (nroutes / subnets)) := hblocks
  have hflatten : (routes ⟨nroutes, subnets, nexthops, hne⟩ inc).iterations.flatten.map Route.dst =
      (List.range' 0 subnets).flatMap (block inc (nroutes / subnets)) := by
    rw [List.map_flatten, hmap, List.flatMap_def]
  constructor
  · exact hraised
  · have hlen : (routes ⟨nroutes, subnets, nexthops, hne⟩ inc).iterations.flatten.length =
        subnets * (nroutes / subnets) := by
      apply length_flatten_of_lengths
      have hlens := congrArg (List.map List.length) hmap
      rw [List.map_map, List.map_map] at hlens
      have hcomp : List.length ∘ List.map Route.dst = List.length :=
        funext fun rs ↦ List.length_map Route.dst
      have hblock : List.length ∘ block inc (nroutes / subnets) = fun _ ↦ nroutes / subnets :=
        funext fun s ↦ by rw [Function.comp_apply, block, List.length_map, List.length_range]
      rw [hcomp, hblock, List.map_const', List.length_range'] at hlens
      exact hlens
    rw [hlen]
    push_cast
    rfl
  · rw [hflatten]
    exact (pairwise_blocks hinc htotal).imp Nat.ne_of_lt
  · intro s rs hrs r hr
    have hget := congrArg (·[s]?) hmap
    rw [List.getElem?_map, hrs, List.getElem?_map] at hget
    obtain ⟨t, ht, hblock⟩ := Option.map_eq_some_iff.mp hget.symm
    rw [← List.range_eq_range'] at ht
    obtain ⟨hs, hts⟩ := List.getElem?_eq_some_iff.mp ht
    rw [List.length_range] at hs
    rw [List.getElem_range] at hts
    have hmem : r.dst ∈ block inc (nroutes / subnets) s := by
      rw [hts, hblock]
      exact List.mem_map_of_mem hr
    have hin := mem_block hinc (htotal s hs) hmem
    omega

/-- A run that stays inside has increments below the size of a subnet. -/
theorem total_lt_of_staysInside (hsubnets : 0 < subnets) (hmax : subnets ≤ 223)
    (h : StaysInside ⟨nroutes, subnets, nexthops, hne⟩ inc) :
    ∀ s < subnets, total (inc s) (nroutes / subnets) < 2 ^ 24 := by
  have hraised := h.finishes
  cases hk : count ⟨nroutes, subnets, nexthops, hne⟩ with
  | error e =>
    obtain ⟨n, rfl⟩ := Nat.exists_eq_succ_of_ne_zero (Nat.ne_of_gt hsubnets)
    have hrun : routes ⟨nroutes, (n + 1 : Nat), nexthops, hne⟩ inc = ⟨[], some e⟩ := by
      change subnetsFrom _ inc (n + 1) 0 0 = _
      rw [subnetsFrom, hk]
    rw [hrun] at hraised
    cases hraised
  | ok k =>
    have hzero : 0 / 2 ^ 24 = 0 := Nat.zero_div _
    obtain ⟨hlens, htotal⟩ := total_lt_of_inside hk (show 0 + subnets ≤ 223 by omega) hzero
      hraised fun s rs hrs r hr ↦ by rw [Nat.zero_add]; exact h.inside s rs hrs r hr
    have hcount := h.count
    have hlen : (routes ⟨nroutes, subnets, nexthops, hne⟩ inc).iterations.flatten.length =
        subnets * k := length_flatten_of_lengths hlens
    rw [hlen] at hcount
    change ((subnets * k : Nat) : Int) = (subnets : Int) * ((nroutes : Int) / subnets) at hcount
    have hkc : k = nroutes / subnets := by
      have hmul : subnets * k = subnets * (nroutes / subnets) := by exact_mod_cast hcount
      exact Nat.eq_of_mul_eq_mul_left hsubnets hmul
    intro s hs
    rw [← hkc]
    exact htotal s (Nat.zero_le s) (by omega)

end

/-- For every number of routes, up to 223 subnets, density and drawing of increments, a run
stays in its subnets exactly if the increments of each subnet add up to less than its size. -/
theorem routes_staysInside_iff (nroutes : Nat) {subnets : Nat} (hsubnets : 1 ≤ subnets)
    (hmax : subnets ≤ 223) {density : ℚ} (draws : Draws density) {nexthops : List (List Char)}
    (hne : nexthops ≠ []) :
    StaysInside ⟨nroutes, subnets, nexthops, hne⟩ draws.inc ↔
      ∀ s < subnets, total (draws.inc s) (nroutes / subnets) < 2 ^ 24 :=
  ⟨total_lt_of_staysInside hne hsubnets hmax,
    staysInside_of_total_lt hne draws.one_le hsubnets hmax⟩

/-- Uneven increments of a density of a third. -/
def uneven : Draws (1 / 3) where
  density_pos := by norm_num
  density_le_one := by norm_num
  inc s i := 1 + (s + i) % 3
  one_le _ _ := Nat.le_add_right 1 _
  le_ceil s i := by
    have hmod := Nat.mod_lt (s + i) (by decide : 3 > 0)
    have hceil : ⌈(1 : ℚ) / (1 / 3)⌉ = 3 := by norm_num
    rw [hceil]
    omega

/-- The greatest increments of a density of one address in a subnet. -/
def sparse : Draws (1 / 2 ^ 24) where
  density_pos := by norm_num
  density_le_one := by norm_num
  inc _ _ := 2 ^ 24
  one_le _ _ := by norm_num
  le_ceil _ _ := by norm_num

/-- The options of a run with one route, one subnet and one next hop. -/
def single : Options :=
  ⟨(1 : Nat), (1 : Nat), [['1', '.', '1', '.', '1', '.', '1']], List.cons_ne_nil _ _⟩

/-- The options of a run with seven routes, two subnets and two next hops. -/
def twoSubnets : Options :=
  ⟨(7 : Nat), (2 : Nat), [['1', '.', '1', '.', '1', '.', '1'], ['1', '.', '1', '.', '1', '.', '2']],
    List.cons_ne_nil _ _⟩

/-- Three uneven routes in each of two subnets. -/
theorem routes_staysInside_uneven : StaysInside twoSubnets uneven.inc := by
  apply (routes_staysInside_iff 7 (by decide) (by decide) uneven (List.cons_ne_nil _ _)).mpr
  intro s hs
  change total (fun i ↦ 1 + (s + i) % 3) 3 < 2 ^ 24
  have hcases : s = 0 ∨ s = 1 := by omega
  rcases hcases with rfl | rfl
  · decide
  · decide

/-- One sparse route is in the second subnet. -/
theorem sparse_not_staysInside :
    (routes single sparse.inc).iterations.map (List.map Route.dst) = [[2 * 2 ^ 24]] ∧
      ¬ StaysInside single sparse.inc := by
  have hrun : (routes single sparse.inc).iterations =
      [[⟨2 * 2 ^ 24, ['1', '.', '1', '.', '1', '.', '1']⟩]] := by decide
  refine ⟨by rw [hrun]; rfl, fun h ↦ ?_⟩
  have hin := h.inside 0
  rw [hrun] at hin
  exact absurd (hin _ rfl _ List.mem_cons_self) (by decide)

end NetworkLab.Routes.Many32
