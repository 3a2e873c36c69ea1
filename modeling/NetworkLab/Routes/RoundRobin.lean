import NetworkLab.Routes.FromBgp
import Mathlib.Data.Nat.ModEq

/-!
# Next hops of insert-from-bgp

The module documentation of `common/helpers/lab-routes-ipvX/insert-from-bgp:3–8` promises the
next hops in a round robin fashion. One counter serves the routes of both families.
-/

namespace NetworkLab.Routes.FromBgp

open Lib

section

variable {α : Type*} {p : α → Bool}

private theorem split_of_getElem?_filter {xs : List α} {k : Nat} {x : α}
    (h : (xs.filter p)[k]? = some x) :
    ∃ pre post, xs = pre ++ x :: post ∧ p x = true ∧ pre.countP p = k := by
  induction xs generalizing k with
  | nil => cases h
  | cons y xs ih =>
    by_cases hp : p y = true
    · rw [List.filter_cons_of_pos hp] at h
      cases k with
      | zero =>
        rw [List.getElem?_cons_zero] at h
        rw [← Option.some.inj h]
        exact ⟨[], xs, rfl, hp, rfl⟩
      | succ k =>
        obtain ⟨pre, post, rfl, hx, hcount⟩ := ih h
        exact ⟨y :: pre, post, rfl, hx, by rw [List.countP_cons_of_pos hp, hcount]⟩
    · rw [List.filter_cons_of_neg hp] at h
      obtain ⟨pre, post, rfl, hx, hcount⟩ := ih h
      exact ⟨y :: pre, post, rfl, hx, by rw [List.countP_cons_of_neg hp, hcount]⟩

/-- An element with a property has as its rank the number of those before it. -/
theorem getElem?_filter_iff {xs : List α} {k : Nat} {x : α} :
    (xs.filter p)[k]? = some x ↔
      ∃ pre post, xs = pre ++ x :: post ∧ p x = true ∧ pre.countP p = k := by
  constructor
  · exact split_of_getElem?_filter
  · rintro ⟨pre, post, rfl, hx, rfl⟩
    rw [List.filter_append, List.filter_cons_of_pos hx, List.countP_eq_length_filter,
      List.getElem?_append_right (Nat.le_refl _), Nat.sub_self, List.getElem?_cons_zero]

end

/-- The routes of a family take its next hops in turn. -/
def InTurn (nexthops : List (List Char)) (family : Family) (rs : List Route) : Prop :=
  ∀ k r, (rs.filter (·.family = family))[k]? = some r →
    (hops nexthops family)[k % (hops nexthops family).length]? = some r.gateway

/-- The routes of each family take its next hops in turn. -/
def RoundRobin (nexthops : List (List Char)) (rs : List Route) : Prop :=
  ∀ family, InTurn nexthops family rs

/-- The number of prefixes before another one chooses the same next hop as the number of those
of its family. -/
def InStep (nexthops : List (List Char)) (ps : List Prefix) : Prop :=
  ∀ pre p post, ps = pre ++ p :: post →
    let xs := hops nexthops p.family
    xs[pre.length % xs.length]? = xs[pre.countP (·.family = p.family) % xs.length]?

/-- The number of prefixes of the other family before one is a multiple of its next hops. -/
def Multiples (nexthops : List (List Char)) (ps : List Prefix) : Prop :=
  ∀ pre p post, ps = pre ++ p :: post →
    (hops nexthops p.family).length ∣ pre.countP (·.family ≠ p.family)

private theorem countP_dst {rs : List Route} (hfamily : ∀ r ∈ rs, r.family = r.dst.family)
    (family : Family) :
    rs.countP (·.family = family) = (rs.map Route.dst).countP (·.family = family) := by
  rw [List.countP_map]
  apply List.countP_congr
  intro r hr
  simp [hfamily r hr]

/-- The routes yielded for some prefixes are in turn exactly if the prefixes are in step. -/
theorem Yields.roundRobin_iff {nexthops : List (List Char)} {ps : List Prefix} {rs : List Route}
    (h : Yields nexthops 0 ps rs) : RoundRobin nexthops rs ↔ InStep nexthops ps := by
  have hsplit (pre : List Route) (r : Route) (post : List Route) (hrs : rs = pre ++ r :: post) :
      r.family = r.dst.family ∧
        pre.countP (·.family = r.family) =
          (pre.map Route.dst).countP (·.family = r.dst.family) ∧
        (hops nexthops r.family)[pre.length % (hops nexthops r.family).length]? =
          some r.gateway := by
    have hr : r.family = r.dst.family := h.family r (by rw [hrs]; simp)
    refine ⟨hr, ?_, ?_⟩
    · rw [hr]
      exact countP_dst (fun r' hr' ↦ h.family r' (by rw [hrs]; simp [hr'])) _
    · have hget := h.gateway pre.length r (by rw [hrs]; simp)
      rwa [Nat.zero_add] at hget
  constructor
  · intro hturn pre p post hps
    rw [← h.dst] at hps
    obtain ⟨pre, rest, hrs, rfl, hrest⟩ := List.map_eq_append_iff.mp hps
    obtain ⟨r, post, rfl, rfl, rfl⟩ := List.map_eq_cons_iff.mp hrest
    obtain ⟨hr, hcount, hget⟩ := hsplit pre r post hrs
    have hrank := hturn r.family _ r
      (getElem?_filter_iff.mpr ⟨pre, post, hrs, by simp, rfl⟩)
    dsimp only
    rw [List.length_map, ← hr, hget, ← hrank, hcount, hr]
  · intro hstep family k r hk
    obtain ⟨pre, post, hrs, hfamily, hcount⟩ := getElem?_filter_iff.mp hk
    have hfamily : r.family = family := by simpa using hfamily
    obtain ⟨hr, hdst, hget⟩ := hsplit pre r post hrs
    have hsame := hstep (pre.map Route.dst) r.dst (post.map Route.dst)
      (by rw [← h.dst, hrs, List.map_append, List.map_cons])
    dsimp only at hsame
    rw [List.length_map] at hsame
    rw [hr] at hget
    rw [← hcount, ← hfamily, hdst, hr, ← hsame]
    exact hget

/-- Of next hops that are distinct, two numbers choose the same one if they differ by a
multiple. -/
theorem inStep_iff_multiples {nexthops : List (List Char)} {ps : List Prefix}
    (hne : ∀ p ∈ ps, hops nexthops p.family ≠ [])
    (hnodup : ∀ family, (hops nexthops family).Nodup) :
    InStep nexthops ps ↔ Multiples nexthops ps := by
  have hiff (pre : List Prefix) (p : Prefix) (post : List Prefix) (hps : ps = pre ++ p :: post) :
      (hops nexthops p.family)[pre.length % (hops nexthops p.family).length]? =
          (hops nexthops p.family)[
            pre.countP (·.family = p.family) % (hops nexthops p.family).length]? ↔
      (hops nexthops p.family).length ∣ pre.countP (·.family ≠ p.family) := by
    have hpos : 0 < (hops nexthops p.family).length :=
      List.length_pos_iff.mpr (hne p (by rw [hps]; simp))
    have hsum : pre.length =
        pre.countP (·.family = p.family) + pre.countP (·.family ≠ p.family) := by
      have hcount : pre.length = _ + _ :=
        List.length_eq_countP_add_countP fun q : Prefix ↦ q.family = p.family
      simpa using hcount
    rw [List.getElem?_inj (Nat.mod_lt _ hpos) (hnodup p.family), hsum]
    exact Nat.add_modEq_left_iff
  constructor
  · exact fun h pre p post hps ↦ (hiff pre p post hps).mp (h pre p post hps)
  · exact fun h pre p post hps ↦ (hiff pre p post hps).mpr (h pre p post hps)

private theorem exists_yields {o : Options} {dump ps : List Prefix} (hroutes : o.routes ≠ 0)
    (hsample : sample o dump = .ok ps) :
    (∀ p ∈ ps, hops o.nexthops p.family ≠ []) ∧
      ∃ rs, routes o dump = .ok rs ∧ Yields o.nexthops 0 ps rs := by
  have hne : ∀ p ∈ ps, hops o.nexthops p.family ≠ [] := by
    intro p hp
    unfold sample at hsample
    dsimp only at hsample
    cases hskip : skip (usable o.nexthops dump).length o.routes with
    | error e =>
      rw [hskip] at hsample
      cases hsample
    | ok step =>
      rw [hskip] at hsample
      change (if _ then _ else _) = _ at hsample
      split at hsample
      · cases hsample
      · rw [← Except.ok.inj hsample] at hp
        exact hops_ne_nil_of_mem_usable (Iterator.mem_of_mem_islice hp)
  obtain ⟨rs, hrs, hyields⟩ := yieldRoutes_ok hne 0
  refine ⟨hne, rs, ?_, hyields⟩
  unfold routes
  rw [if_neg hroutes, hsample]
  exact hrs

/-- For every run that samples a dump, the routes of each family take the next hops of the
family in turn exactly if, for every prefix of the sample, the number of prefixes before it
and that of the prefixes of its family before it choose the same next hop. Of distinct next
hops they do if the prefixes of the other family before it are a multiple of them. -/
theorem routes_roundRobin_iff {o : Options} {dump ps : List Prefix} (hroutes : o.routes ≠ 0)
    (hsample : sample o dump = .ok ps) :
    ∃ rs, routes o dump = .ok rs ∧ rs.map Route.dst = ps ∧
      (RoundRobin o.nexthops rs ↔ InStep o.nexthops ps) ∧
      ((∀ family, (hops o.nexthops family).Nodup) →
        (InStep o.nexthops ps ↔ Multiples o.nexthops ps)) := by
  obtain ⟨hne, rs, hrs, hyields⟩ := exists_yields hroutes hsample
  exact ⟨rs, hrs, hyields.dst, hyields.roundRobin_iff, inStep_iff_multiples hne⟩

/-- A prefix of IPv4. -/
def tenSlash8 : Prefix where
  text := ['1', '0', '.', '0', '.', '0', '.', '0', '/', '8']
  family := .afInet
  network := 10 * 2 ^ 24
  plen := 8
  colon := by decide
  plen_le := by decide
  aligned := ⟨10, rfl⟩
  network_lt := by decide

/-- A prefix of IPv6. -/
def uniqueLocal : Prefix where
  text := ['f', 'c', '0', '0', ':', ':', '/', '7']
  family := .afInet6
  network := 126 * 2 ^ 121
  plen := 7
  colon := by decide
  plen_le := by decide
  aligned := ⟨126, by decide⟩
  network_lt := by decide

/-- Two next hops of each family. -/
def fourHops : List (List Char) :=
  [['1', '.', '1', '.', '1', '.', '1'], ['1', '.', '1', '.', '1', '.', '2'],
    [':', ':', '1'], [':', ':', '2']]

/-- Four routes of alternating families. -/
def alternating : Options := ⟨4, false, 1, fourHops⟩

/-- Routes of one family are in turn. -/
theorem routes_roundRobin_one :
    ∃ rs, routes alternating [tenSlash8, tenSlash8, tenSlash8] = .ok rs ∧
      RoundRobin fourHops rs := by
  have hsample : sample alternating [tenSlash8, tenSlash8, tenSlash8] =
      .ok (List.replicate 3 tenSlash8) := rfl
  obtain ⟨rs, hrs, -, hiff, hmultiples⟩ := routes_roundRobin_iff (by decide) hsample
  have hnodup : ∀ family, (hops fourHops family).Nodup := by
    intro family
    cases family <;> decide
  refine ⟨rs, hrs, hiff.mpr ((hmultiples hnodup).mpr fun pre p post hps ↦ ?_)⟩
  have hall : ∀ q ∈ pre ++ p :: post, q = tenSlash8 := by
    rw [← hps]
    exact fun q hq ↦ List.eq_of_mem_replicate hq
  have hzero : pre.countP (·.family ≠ p.family) = 0 := by
    rw [List.countP_eq_zero]
    intro q hq
    rw [hall q (List.mem_append_left _ hq), hall p (by simp)]
    decide
  rw [hzero]
  exact Nat.dvd_zero _

/-- The second route of IPv4 takes the first next hop again, and none ever takes the second. -/
theorem alternating_not_roundRobin :
    ∃ rs, routes alternating [tenSlash8, uniqueLocal, tenSlash8, uniqueLocal] = .ok rs ∧
      rs.map Route.gateway = [['1', '.', '1', '.', '1', '.', '1'], [':', ':', '2'],
        ['1', '.', '1', '.', '1', '.', '1'], [':', ':', '2']] ∧
      ¬ RoundRobin fourHops rs := by
  refine ⟨_, rfl, rfl, fun h ↦ ?_⟩
  have hsecond := h .afInet 1 _ rfl
  cases hsecond

end NetworkLab.Routes.FromBgp
