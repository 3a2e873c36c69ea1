import NetworkLab.Routes.FromBgp

/-!
# The sample of insert-from-bgp

What the main loop of `common/helpers/lab-routes-ipvX/insert-from-bgp:149–182` inserts. Its
addresses of two families cannot be compared, so a sample of both raises.
-/

namespace NetworkLab.Routes.FromBgp

open Lib

/-! ### The extremes and the batches -/

section

variable (le : Nat → Nat → Prop)

/-- The best address of some routes, if there is one. -/
def Best (key : Prefix → Address) (seen : List Route) (best : Option Address) : Prop :=
  (seen = [] ∧ best = none) ∨ ∃ r ∈ seen, best = some (key r.dst) ∧
    ∀ r' ∈ seen, le (key r.dst).value (key r'.dst).value

/-- The better of the best address so far and another one. -/
def better [DecidableRel le] (best : Option Address) (cur : Address) : Address :=
  match best with
  | none => cur
  | some a => if le a.value cur.value then a else cur

variable {le}

private theorem Best.append [DecidableRel le] [Std.Total le] [IsTrans Nat le]
    {key : Prefix → Address} {seen : List Route} {best : Option Address}
    (h : Best le key seen best) (r : Route) :
    Best le key (seen ++ [r]) (some (better le best (key r.dst))) := by
  have hrefl (x : Nat) : le x x := (Std.Total.total x x).elim id id
  rcases h with ⟨rfl, rfl⟩ | ⟨a, ha, rfl, hle⟩
  · refine Or.inr ⟨r, List.mem_append_right _ List.mem_cons_self, rfl, fun r' hr' ↦ ?_⟩
    rw [List.mem_singleton.mp hr']
    exact hrefl _
  · by_cases hcur : le (key a.dst).value (key r.dst).value
    · rw [better, if_pos hcur]
      refine Or.inr ⟨a, List.mem_append_left _ ha, rfl, fun r' hr' ↦ ?_⟩
      rcases List.mem_append.mp hr' with hr' | hr'
      · exact hle r' hr'
      · rw [List.mem_singleton.mp hr']
        exact hcur
    · rw [better, if_neg hcur]
      have hbelow : le (key r.dst).value (key a.dst).value :=
        (Std.Total.total _ _).resolve_left hcur
      refine Or.inr ⟨r, List.mem_append_right _ List.mem_cons_self, rfl, fun r' hr' ↦ ?_⟩
      rcases List.mem_append.mp hr' with hr' | hr'
      · exact IsTrans.trans _ _ _ hbelow (hle r' hr')
      · rw [List.mem_singleton.mp hr']
        exact hrefl _

private theorem Best.family {family : Family} {key : Prefix → Address}
    (hkey : ∀ p, (key p).family = p.family) {seen : List Route} {best : Option Address}
    (h : Best le key seen best) (hseen : ∀ r ∈ seen, r.dst.family = family) :
    ∀ a, best = some a → a.family = family := by
  intro a ha
  rcases h with ⟨-, rfl⟩ | ⟨r, hr, rfl, -⟩
  · exact absurd ha (by simp)
  · rw [← Option.some.inj ha, hkey, hseen r hr]

end

/-- The order in which an address is at least as low. -/
abbrev Low (a b : Nat) : Prop := a ≤ b

/-- The order in which an address is at least as high. -/
abbrev High (a b : Nat) : Prop := b ≤ a

private theorem lt_of_family {a b : Address} (hfamily : a.family = b.family) :
    a.lt b = .ok (decide (a.value < b.value)) := by
  rw [Address.lt, if_neg (not_not_intro hfamily)]

private theorem gt_of_family {a b : Address} (hfamily : a.family = b.family) :
    a.gt b = .ok (decide (b.value < a.value)) := by
  rw [Address.gt, lt_of_family hfamily]
  change Except.ok (!decide (a.value < b.value) && decide (a ≠ b)) = _
  have hne : a ≠ b ↔ a.value ≠ b.value := by
    rw [ne_eq, ne_eq, Address.mk.injEq]
    exact not_congr (and_iff_right hfamily)
  have hgt : (¬ a.value < b.value ∧ a ≠ b) ↔ b.value < a.value := by
    rw [hne]
    omega
  rw [← decide_not, ← Bool.decide_and, decide_eq_decide.mpr hgt]

private theorem lower_of_family {first : Option Address} {cur : Address}
    (hfamily : ∀ a, first = some a → a.family = cur.family) :
    lower first cur = .ok (some (better Low first cur)) := by
  cases first with
  | none => rfl
  | some a =>
    rw [lower, lt_of_family (hfamily a rfl).symm, better]
    change Except.ok (some (if decide (cur.value < a.value) = true then cur else a)) = _
    by_cases hlt : cur.value < a.value
    · rw [if_pos (decide_eq_true hlt), if_neg (Nat.not_le.mpr hlt)]
    · rw [if_neg (by simpa using hlt), if_pos (Nat.not_lt.mp hlt)]

private theorem higher_of_family {last : Option Address} {cur : Address}
    (hfamily : ∀ a, last = some a → a.family = cur.family) :
    higher last cur = .ok (some (better High last cur)) := by
  cases last with
  | none => rfl
  | some a =>
    rw [higher, gt_of_family (hfamily a rfl).symm, better]
    change Except.ok (some (if decide (a.value < cur.value) = true then cur else a)) = _
    by_cases hlt : a.value < cur.value
    · rw [if_pos (decide_eq_true hlt), if_neg (Nat.not_le.mpr hlt)]
    · rw [if_neg (by simpa using hlt), if_pos (Nat.not_lt.mp hlt)]

/-- The state after some routes, all of one family. -/
structure Reached (family : Family) (seen : List Route) (s : Main) : Prop where
  family_eq : ∀ r ∈ seen, r.dst.family = family
  first : Best Low Prefix.lowest seen s.first
  last : Best High Prefix.highest seen s.last

/-- The start. -/
theorem reached_start (family : Family) : Reached family [] .start :=
  ⟨fun _ hr ↦ (nomatch hr), Or.inl ⟨rfl, rfl⟩, Or.inl ⟨rfl, rfl⟩⟩

/-- A route of the family is added to the batch. -/
theorem Reached.add {family : Family} {seen : List Route} {s : Main} (h : Reached family seen s)
    {r : Route} (hr : r.dst.family = family) :
    ∃ s', s.add r = .ok s' ∧ Reached family (seen ++ [r]) s' ∧ s'.batch = s.batch ++ [r] ∧
      s'.submitted = s.submitted := by
  have hfirst : lower s.first r.dst.lowest = _ := lower_of_family fun a ha ↦
    (h.first.family (fun _ ↦ rfl) h.family_eq a ha).trans hr.symm
  have hlast : higher s.last r.dst.highest = _ := higher_of_family fun a ha ↦
    (h.last.family (fun _ ↦ rfl) h.family_eq a ha).trans hr.symm
  let s' : Main := ⟨some (better Low s.first r.dst.lowest),
    some (better High s.last r.dst.highest), s.batch ++ [r], s.submitted⟩
  refine ⟨s', ?_, ⟨?_, h.first.append r, h.last.append r⟩, rfl, rfl⟩
  · rw [Main.add, hfirst, hlast]
    rfl
  · intro r' hr'
    rcases List.mem_append.mp hr' with hr' | hr'
    · exact h.family_eq r' hr'
    · rw [List.mem_singleton.mp hr', hr]

/-- Routes of the family are added to the batch. -/
theorem Reached.addAll {family : Family} {seen : List Route} {s : Main}
    (h : Reached family seen s) {rr : List Route} (hrr : ∀ r ∈ rr, r.dst.family = family) :
    ∃ s', s.addAll rr = .ok s' ∧ Reached family (seen ++ rr) s' ∧ s'.batch = s.batch ++ rr ∧
      s'.submitted = s.submitted := by
  induction rr generalizing seen s with
  | nil => exact ⟨s, rfl, by rwa [List.append_nil], (List.append_nil _).symm, rfl⟩
  | cons r rr ih =>
    obtain ⟨s1, hadd, h1, hbatch1, hsent1⟩ := h.add (hrr r List.mem_cons_self)
    obtain ⟨s2, hall, h2, hbatch2, hsent2⟩ :=
      ih h1 fun r' hr' ↦ hrr r' (List.mem_cons_of_mem r hr')
    refine ⟨s2, ?_, ?_, ?_, hsent2.trans hsent1⟩
    · rw [Main.addAll, hadd]
      exact hall
    · rwa [List.append_assoc, List.singleton_append] at h2
    · rw [hbatch2, hbatch1, List.append_assoc, List.singleton_append]

/-- The main loop sends every batch of routes of one family. -/
theorem Reached.mainLoop {family : Family} {seen : List Route} {s : Main}
    (h : Reached family seen s) (hbatch : s.batch = []) {batches : List (List Route)}
    (hall : ∀ r ∈ batches.flatten, r.dst.family = family) :
    ∃ s', FromBgp.mainLoop false batches s = (s', none) ∧
      Reached family (seen ++ batches.flatten) s' ∧ s'.submitted = s.submitted ++ batches := by
  induction batches generalizing seen s with
  | nil =>
    refine ⟨s, rfl, ?_, (List.append_nil _).symm⟩
    rwa [List.flatten_nil, List.append_nil]
  | cons rr rest ih =>
    have hrr : ∀ r ∈ rr, r.dst.family = family := fun r hr ↦ hall r (List.mem_append_left _ hr)
    obtain ⟨s1, hadd, h1, hbatch1, hsent1⟩ := h.addAll hrr
    have h1' : Reached family (seen ++ rr) (s1.submit false) := ⟨h1.family_eq, h1.first, h1.last⟩
    obtain ⟨s2, hloop, h2, hsent2⟩ :=
      ih h1' rfl fun r hr ↦ hall r (List.mem_append_right _ hr)
    refine ⟨s2, ?_, ?_, ?_⟩
    · rw [FromBgp.mainLoop, hadd]
      exact hloop
    · rwa [List.append_assoc, ← List.flatten_cons] at h2
    · rw [hsent2]
      change (s1.submitted ++ [s1.batch]) ++ rest = _
      rw [hsent1, hbatch1, hbatch, List.nil_append, List.append_assoc, List.singleton_append]

private theorem family_of_add {s s' : Main} {r : Route} (h : s.add r = .ok s') :
    (∀ a, s.first = some a → a.family = r.dst.family) ∧
      ∃ a, s'.first = some a ∧ a.family = r.dst.family := by
  by_cases hfamily : ∀ a, s.first = some a → a.family = r.dst.family
  · refine ⟨hfamily, ?_⟩
    have hfirst : lower s.first r.dst.lowest = _ := lower_of_family hfamily
    rw [Main.add, hfirst] at h
    cases hlast : higher s.last r.dst.highest with
    | error e =>
      rw [hlast] at h
      cases h
    | ok last =>
      rw [hlast] at h
      cases h
      refine ⟨_, rfl, ?_⟩
      cases hs : s.first with
      | none => rfl
      | some a =>
        rw [better]
        split
        · exact hfamily a hs
        · rfl
  · obtain ⟨a, ha⟩ := not_forall.mp hfamily
    obtain ⟨hfirst, hne⟩ := Classical.not_imp.mp ha
    have hlower : lower s.first r.dst.lowest = .error .typeError := by
      rw [hfirst, lower, Address.lt, if_pos (fun h ↦ hne h.symm)]
      rfl
    rw [Main.add, hlower] at h
    cases h

private theorem family_of_addAll {rr : List Route} {s s' : Main} (h : s.addAll rr = .ok s')
    {family : Family} (hfamily : ∀ a, s'.first = some a → a.family = family) :
    (∀ r ∈ rr, r.dst.family = family) ∧ ∀ a, s.first = some a → a.family = family := by
  induction rr generalizing s with
  | nil =>
    cases h
    exact ⟨fun _ hr ↦ (nomatch hr), hfamily⟩
  | cons r rr ih =>
    rw [Main.addAll] at h
    cases hadd : s.add r with
    | error e =>
      rw [hadd] at h
      cases h
    | ok s1 =>
      rw [hadd] at h
      obtain ⟨hbefore, a, hfirst, ha⟩ := family_of_add hadd
      obtain ⟨hall, hs1⟩ := ih h
      have hr : r.dst.family = family := ha.symm.trans (hs1 a hfirst)
      exact ⟨List.forall_mem_cons.mpr ⟨hr, hall⟩, fun a ha ↦ (hbefore a ha).trans hr⟩

/-- A loop that is not left by an exception has met routes of one family only. -/
theorem family_of_mainLoop {dryRun : Bool} {batches : List (List Route)} {s s' : Main}
    (h : mainLoop dryRun batches s = (s', none))
    {family : Family} (hfamily : ∀ a, s'.first = some a → a.family = family) :
    (∀ r ∈ batches.flatten, r.dst.family = family) ∧
      ∀ a, s.first = some a → a.family = family := by
  induction batches generalizing s with
  | nil =>
    cases h
    exact ⟨fun _ hr ↦ (nomatch hr), hfamily⟩
  | cons rr rest ih =>
    rw [mainLoop] at h
    cases hadd : s.addAll rr with
    | error e =>
      rw [hadd] at h
      cases h
    | ok s1 =>
      rw [hadd] at h
      obtain ⟨hrest, hs1⟩ := ih h
      obtain ⟨hrr, hs⟩ := family_of_addAll hadd hs1
      refine ⟨fun r hr ↦ ?_, hs⟩
      rcases List.mem_append.mp hr with hr | hr
      · exact hrr r hr
      · exact hrest r hr

/-! ### The sample that is meant -/

/-- An address lies in a prefix. -/
def Prefix.Covers (p : Prefix) (a : Address) : Prop :=
  a.family = p.family ∧ a.value / p.numAddresses = p.network / p.numAddresses

/-- The extremes of some routes are kept. -/
structure Extremes (sent : List Route) (first last : Address) : Prop where
  first_covered : ∃ r ∈ sent, r.dst.Covers first
  last_covered : ∃ r ∈ sent, r.dst.Covers last
  between : ∀ r ∈ sent, ∀ a, r.dst.Covers a → first.value ≤ a.value ∧ a.value ≤ last.value

private theorem numAddresses_pos (p : Prefix) : 0 < p.numAddresses := Nat.two_pow_pos _

/-- The addresses of a prefix are those from its first to its last. -/
theorem Prefix.covers_iff (p : Prefix) (a : Address) :
    p.Covers a ↔ a.family = p.family ∧ p.lowest.value ≤ a.value ∧ a.value ≤ p.highest.value := by
  obtain ⟨k, hk⟩ := p.aligned
  have hpos := numAddresses_pos p
  have hnetwork : p.network = k * p.numAddresses := by rw [hk, Nat.mul_comm, numAddresses]
  refine and_congr_right fun _ ↦ ?_
  change _ ↔ p.network ≤ a.value ∧ a.value ≤ p.network + p.numAddresses - 1
  rw [hnetwork, Nat.mul_div_cancel _ hpos, Nat.div_eq_iff hpos]

private theorem extremes_of_reached {family : Family} {sent : List Route} {s : Main}
    (h : Reached family sent s) (hne : sent ≠ []) :
    ∃ first last, s.first = some first ∧ s.last = some last ∧ Extremes sent first last := by
  obtain ⟨r1, hr1, hfirst, hlow⟩ := h.first.resolve_left fun hnil ↦ hne hnil.1
  obtain ⟨r2, hr2, hlast, hhigh⟩ := h.last.resolve_left fun hnil ↦ hne hnil.1
  have hpos (p : Prefix) : p.lowest.value ≤ p.highest.value := by
    have := numAddresses_pos p
    change p.network ≤ p.network + p.numAddresses - 1
    omega
  refine ⟨_, _, hfirst, hlast, ⟨r1, hr1, ?_⟩, ⟨r2, hr2, ?_⟩, fun r hr a ha ↦ ?_⟩
  · exact (r1.dst.covers_iff _).mpr ⟨rfl, Nat.le_refl _, hpos r1.dst⟩
  · exact (r2.dst.covers_iff _).mpr ⟨rfl, hpos r2.dst, Nat.le_refl _⟩
  · obtain ⟨-, hlo, hhi⟩ := (r.dst.covers_iff a).mp ha
    exact ⟨Nat.le_trans (hlow r hr) hlo, Nat.le_trans hhi (hhigh r hr)⟩

section

variable (nexthops : List (List Char)) (dump : List Prefix) (n batch : Nat)

/-- The prefixes of the sample, by their position in it. -/
def wanted (k : Nat) : Option Prefix :=
  let xs := usable nexthops dump
  xs[k * max 1 (xs.length / n)]?

/-- The options of a run that is not dry. -/
def options : Options := ⟨n, false, batch, nexthops⟩

/-- A run inserts the sample that is meant: it finishes, what it has sent are the routes of
the sample in batches that are not too large, and for one family the extremes are kept. -/
structure InsertsSample : Prop where
  finishes : (insertFromBgp (options nexthops n batch) dump).2 = none
  count : (insertFromBgp (options nexthops n batch) dump).1.submitted.flatten.length =
    min n (usable nexthops dump).length
  positions : ∀ k < min n (usable nexthops dump).length,
    ((insertFromBgp (options nexthops n batch) dump).1.submitted.flatten[k]?).map Route.dst =
      wanted nexthops dump n k
  batches : ∀ b ∈ (insertFromBgp (options nexthops n batch) dump).1.submitted, b.length ≤ batch
  extremes : ∀ family,
    (∀ r ∈ (insertFromBgp (options nexthops n batch) dump).1.submitted.flatten,
      r.dst.family = family) →
    (insertFromBgp (options nexthops n batch) dump).1.submitted.flatten ≠ [] →
    ∃ first last, (insertFromBgp (options nexthops n batch) dump).1.first = some first ∧
      (insertFromBgp (options nexthops n batch) dump).1.last = some last ∧
      Extremes (insertFromBgp (options nexthops n batch) dump).1.submitted.flatten first last

/-- The prefixes that the program takes are those of the sample. -/
def SameSample : Prop :=
  let xs := usable nexthops dump
  ∀ k < min n xs.length, xs[k * stride xs.length n]? = wanted nexthops dump n k

/-- The sample is of one family. -/
def OneFamily : Prop :=
  ∃ family, ∀ k < min n (usable nexthops dump).length, ∀ p,
    wanted nexthops dump n k = some p → p.family = family

variable {nexthops dump n batch}

/-- The sample is that of integer division for every dump that a machine can hold. -/
theorem sameSample_of_lt (hn : 0 < n) (hlength : (usable nexthops dump).length < 2 ^ 53) :
    SameSample nexthops dump n := by
  intro k _
  rw [stride_eq hn hlength]
  rfl

private theorem lt_of_lt_min {length k : Nat} (hk : k < min n length) :
    k * max 1 (length / n) < length := by
  obtain ⟨hkn, hklength⟩ := Nat.lt_min.mp hk
  rcases Nat.eq_zero_or_pos (length / n) with hzero | hpos
  · rw [hzero, Nat.max_eq_left (Nat.zero_le 1), Nat.mul_one]
    exact hklength
  · rw [Nat.max_eq_right hpos]
    exact Nat.lt_of_lt_of_le (Nat.mul_lt_mul_of_pos_right hkn hpos) (Nat.mul_div_le length n)

private theorem stride_pos (length n : Nat) : 0 < stride length n := Nat.le_max_left 1 _

private theorem routes_eq (hn : 0 < n) :
    routes (options nexthops n batch) dump =
      sample (options nexthops n batch) dump >>= yieldRoutes nexthops 0 := by
  have hzero : ¬ (n : Int) = 0 := by omega
  unfold routes
  change (if (n : Int) = 0 then Except.ok [] else _) = _
  rw [if_neg hzero]
  rfl

private theorem insertFromBgp_eq (hbatch : 0 < batch) :
    insertFromBgp (options nexthops n batch) dump =
      if Iterator.maxsize < batch then (.start, some .valueError)
      else match routes (options nexthops n batch) dump with
        | .error e => (.start, some e)
        | .ok rs => mainLoop false (Iterator.batches batch rs) .start := by
  unfold insertFromBgp
  change (if (batch : Int) < 0 ∨ (Iterator.maxsize : Int) < batch then _
    else if (batch : Int) = 0 then _ else _) = _
  by_cases hsize : Iterator.maxsize < batch
  · rw [if_pos hsize, if_pos (by omega)]
  · rw [if_neg hsize, if_neg (by omega), if_neg (by omega)]
    rfl

/-- A run whose arguments are sizes goes through the prefixes at the steps of the program. -/
private theorem exists_routes (hn : 0 < n) (hbatch : 0 < batch)
    (hle : n * stride (usable nexthops dump).length n ≤ Iterator.maxsize)
    (hsize : batch ≤ Iterator.maxsize) :
    ∃ rs : List Route, insertFromBgp (options nexthops n batch) dump =
        mainLoop false (Iterator.batches batch rs) .start ∧
      ∀ k, (rs[k]?).map Route.dst = if k < n then
        (usable nexthops dump)[k * stride (usable nexthops dump).length n]? else none := by
  let smp := Iterator.islice (usable nexthops dump)
    (n * stride (usable nexthops dump).length n) (stride (usable nexthops dump).length n)
  have hsample : sample (options nexthops n batch) dump = .ok smp := sample_ok hn rfl hle
  have hne : ∀ p ∈ smp, hops nexthops p.family ≠ [] := fun p hp ↦
    hops_ne_nil_of_mem_usable (Iterator.mem_of_mem_islice hp)
  obtain ⟨rs, hrs, hyields⟩ := yieldRoutes_ok hne 0
  have hroutes : routes (options nexthops n batch) dump = .ok rs := by
    rw [routes_eq hn, hsample]
    exact hrs
  refine ⟨rs, ?_, fun k ↦ ?_⟩
  · rw [insertFromBgp_eq hbatch, if_neg (Nat.not_lt.mpr hsize), hroutes]
  · rw [← List.getElem?_map, hyields.dst]
    exact Iterator.getElem?_islice (stride_pos _ n) _ n k

private theorem length_eq_of_positions {rs : List Route} {step : Nat}
    (hsame : SameSample nexthops dump n) (hstep : step = stride (usable nexthops dump).length n)
    (hrs : ∀ k, (rs[k]?).map Route.dst =
      if k < n then (usable nexthops dump)[k * step]? else none) :
    rs.length = min n (usable nexthops dump).length := by
  have hlt (k : Nat) : k < rs.length ↔ k < min n (usable nexthops dump).length := by
    have hk := hrs k
    constructor
    · intro hlen
      rw [List.getElem?_eq_getElem hlen] at hk
      by_cases hkn : k < n
      · rw [if_pos hkn] at hk
        obtain ⟨hindex, -⟩ := List.getElem?_eq_some_iff.mp hk.symm
        have hle : k ≤ k * step := Nat.le_mul_of_pos_right k (hstep ▸ stride_pos _ n)
        exact Nat.lt_min.mpr ⟨hkn, Nat.lt_of_le_of_lt hle hindex⟩
      · rw [if_neg hkn] at hk
        cases hk
    · intro hmin
      have hwanted := hsame k hmin
      rw [if_pos (Nat.lt_min.mp hmin).1, hstep, hwanted, wanted,
        List.getElem?_eq_getElem (lt_of_lt_min hmin)] at hk
      by_contra hlen
      rw [List.getElem?_eq_none (Nat.not_lt.mp hlen)] at hk
      cases hk
  have h1 := hlt rs.length
  have h2 := hlt (min n (usable nexthops dump).length)
  omega

/-- What the sample needs: its arguments are sizes and its prefixes are of one family. -/
theorem insertsSample_of_oneFamily (hn : 0 < n) (hbatch : 0 < batch)
    (hle : n * stride (usable nexthops dump).length n ≤ Iterator.maxsize)
    (hsize : batch ≤ Iterator.maxsize) (hsame : SameSample nexthops dump n)
    (hone : OneFamily nexthops dump n) : InsertsSample nexthops dump n batch := by
  obtain ⟨rs, hrun, hrs⟩ := exists_routes hn hbatch hle hsize
  obtain ⟨family, hfamily⟩ := hone
  have hlen := length_eq_of_positions hsame rfl hrs
  have hdst : ∀ k < min n (usable nexthops dump).length,
      (rs[k]?).map Route.dst = wanted nexthops dump n k := by
    intro k hk
    rw [hrs k, if_pos (Nat.lt_min.mp hk).1]
    exact hsame k hk
  have hall : ∀ r ∈ (Iterator.batches batch rs).flatten, r.dst.family = family := by
    intro r hr
    rw [Iterator.flatten_batches hbatch] at hr
    obtain ⟨k, hk⟩ := List.mem_iff_getElem?.mp hr
    have hlt : k < min n (usable nexthops dump).length :=
      hlen ▸ (List.getElem?_eq_some_iff.mp hk).1
    apply hfamily k hlt r.dst
    rw [← hdst k hlt, hk]
    rfl
  obtain ⟨s', hloop, hreached, hsent⟩ := (reached_start family).mainLoop rfl hall
  change s'.submitted = Iterator.batches batch rs at hsent
  rw [Iterator.flatten_batches hbatch, List.nil_append] at hreached
  have hflatten : s'.submitted.flatten = rs := by rw [hsent, Iterator.flatten_batches hbatch]
  rw [hloop] at hrun
  constructor
  · rw [hrun]
  · rw [hrun, hflatten]
    exact hlen
  · rw [hrun, hflatten]
    exact hdst
  · rw [hrun, hsent]
    exact fun b ↦ Iterator.length_le_of_mem_batches hbatch
  · rw [hrun, hflatten]
    exact fun _ _ hne ↦ extremes_of_reached hreached hne

/-- A run that inserts the sample has arguments that are sizes and one family. -/
theorem oneFamily_of_insertsSample (hn : 0 < n) (hbatch : 0 < batch)
    (h : InsertsSample nexthops dump n batch) :
    n * stride (usable nexthops dump).length n ≤ Iterator.maxsize ∧
      batch ≤ Iterator.maxsize ∧ SameSample nexthops dump n ∧ OneFamily nexthops dump n := by
  have hfinishes := h.finishes
  have hsize : batch ≤ Iterator.maxsize := by
    by_contra hlt
    rw [insertFromBgp_eq hbatch, if_pos (Nat.not_le.mp hlt)] at hfinishes
    cases hfinishes
  have hle : n * stride (usable nexthops dump).length n ≤ Iterator.maxsize := by
    by_contra hlt
    obtain ⟨e, he⟩ : ∃ e, sample (options nexthops n batch) dump = .error e :=
      sample_error hn rfl (Nat.not_le.mp hlt)
    rw [insertFromBgp_eq hbatch, if_neg (Nat.not_lt.mpr hsize), routes_eq hn, he] at hfinishes
    cases hfinishes
  obtain ⟨rs, hrun, hrs⟩ := exists_routes hn hbatch hle hsize
  obtain ⟨s', hloop⟩ : ∃ s', mainLoop false (Iterator.batches batch rs) .start = (s', none) :=
    ⟨_, Prod.ext rfl (by rw [← hrun]; exact hfinishes)⟩
  -- the family of the first address that is kept is that of every route
  obtain ⟨family, hfamily⟩ : ∃ family, ∀ a, s'.first = some a → a.family = family := by
    cases s'.first with
    | none => exact ⟨.afInet, fun _ ha ↦ (nomatch ha)⟩
    | some a => exact ⟨a.family, fun _ ha ↦ by rw [Option.some.inj ha]⟩
  have hall := (family_of_mainLoop hloop hfamily).1
  obtain ⟨s'', hloop', -, hsent⟩ := (reached_start family).mainLoop rfl hall
  rw [hloop'] at hrun
  have hflatten : (insertFromBgp (options nexthops n batch) dump).1.submitted.flatten = rs := by
    rw [hrun]
    change s''.submitted.flatten = rs
    rw [hsent]
    exact Iterator.flatten_batches hbatch rs
  rw [Iterator.flatten_batches hbatch] at hall
  have hpositions := h.positions
  rw [hflatten] at hpositions
  refine ⟨hle, hsize, fun k hk ↦ ?_, family, fun k hk p hp ↦ ?_⟩
  · rw [← hpositions k hk, hrs k, if_pos (Nat.lt_min.mp hk).1]
  · rw [← hpositions k hk, Option.map_eq_some_iff] at hp
    obtain ⟨r, hr, rfl⟩ := hp
    exact hall r (List.mem_of_getElem? hr)

end

/-- For every dump, next hops, number of routes and size of a batch, a run inserts the sample
exactly if the end of the slice and the batch are sizes for `islice`, the step does not suffer
from the rounding of the true division, and the sample is of one family. The rounding does no
harm to a dump of fewer than 2⁵³ routes. -/
theorem insertFromBgp_insertsSample_iff (nexthops : List (List Char)) (dump : List Prefix)
    {n batch : Nat} (hn : 1 ≤ n) (hbatch : 1 ≤ batch) :
    ((usable nexthops dump).length < 2 ^ 53 → SameSample nexthops dump n) ∧
    (InsertsSample nexthops dump n batch ↔
      n * stride (usable nexthops dump).length n ≤ Iterator.maxsize ∧
        batch ≤ Iterator.maxsize ∧ SameSample nexthops dump n ∧ OneFamily nexthops dump n) := by
  refine ⟨sameSample_of_lt hn, oneFamily_of_insertsSample hn hbatch, ?_⟩
  rintro ⟨hle, hsize, hsame, hone⟩
  exact insertsSample_of_oneFamily hn hbatch hle hsize hsame hone

/-- The default route of IPv4. -/
def defaultRoute4 : Prefix where
  text := ['0', '.', '0', '.', '0', '.', '0', '/', '0']
  family := .afInet
  network := 0
  plen := 0
  colon := by decide
  plen_le := Nat.zero_le _
  aligned := Nat.dvd_zero _
  network_lt := Nat.two_pow_pos _

/-- The default route of IPv6. -/
def defaultRoute6 : Prefix where
  text := [':', ':', '/', '0']
  family := .afInet6
  network := 0
  plen := 0
  colon := by decide
  plen_le := Nat.zero_le _
  aligned := Nat.dvd_zero _
  network_lt := Nat.two_pow_pos _

/-- One next hop of each family. -/
def bothHops : List (List Char) := [['1', '9', '2', '.', '0', '.', '2', '.', '1'], [':', ':', '1']]

/-- A network of IPv4. -/
def tenNetwork : Prefix where
  text := ['1', '0', '.', '6', '4', '.', '0', '.', '0', '/', '1', '0']
  family := .afInet
  network := 0x0a400000
  plen := 10
  colon := by decide
  plen_le := by decide
  aligned := by decide
  network_lt := by decide

/-- Another one. -/
def docNetwork : Prefix where
  text := ['1', '9', '2', '.', '0', '.', '2', '.', '0', '/', '2', '4']
  family := .afInet
  network := 0xc0000200
  plen := 24
  colon := by decide
  plen_le := by decide
  aligned := by decide
  network_lt := by decide

/-- Routes of both families by turns. -/
def sixRoutes : List Prefix :=
  [defaultRoute4, defaultRoute6, tenNetwork, defaultRoute6, docNetwork, defaultRoute6]

/-- Every second of six routes, in a batch of two and one of one. -/
theorem insertFromBgp_insertsSample_three : InsertsSample bothHops sixRoutes 3 2 := by
  have hiff := insertFromBgp_insertsSample_iff bothHops sixRoutes (by decide : 1 ≤ 3)
    (by decide : 1 ≤ 2)
  have hlen : (usable bothHops sixRoutes).length = 6 := by decide
  have hstride : stride 6 3 = 2 := stride_eq (by decide) (by decide)
  refine hiff.2.mpr ⟨?_, by decide, hiff.1 (by rw [hlen]; decide), .afInet, ?_⟩
  · rw [hlen, hstride]
    decide
  · have hwanted : ∀ k < 3, ∀ p ∈ wanted bothHops sixRoutes 3 k, p.family = .afInet := by decide
    intro k hk p hp
    rw [hlen] at hk
    exact hwanted k (by omega) p hp

/-- The comparison of the second route with the first raises, after one batch is sent. -/
theorem insertFromBgp_mixed_raises :
    (insertFromBgp (options bothHops 2 1) [defaultRoute4, defaultRoute6]).2 = some .typeError ∧
      (insertFromBgp (options bothHops 2 1)
        [defaultRoute4, defaultRoute6]).1.submitted.flatten.length = 1 ∧
      ¬ InsertsSample bothHops [defaultRoute4, defaultRoute6] 2 1 := by
  have hraised : (insertFromBgp (options bothHops 2 1) [defaultRoute4, defaultRoute6]).2 =
      some .typeError := by decide
  refine ⟨hraised, by decide, fun h ↦ ?_⟩
  rw [h.finishes] at hraised
  cases hraised

end NetworkLab.Routes.FromBgp
