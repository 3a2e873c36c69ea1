import NetworkLab.Lib.Iterator
import NetworkLab.Routes.Many32

/-!
# Routes of insert-many-48

`routes` and the main part of `lab-routes-ipv6/insert-many-48:73–118`. An address is its integer.
The increments are given: the program draws each of them from one up to the inverse of the density.
-/

namespace NetworkLab.Routes.Many48

open Lib Iterator Many32

/-- The exceptions that a run may meet. -/
inductive Exn where
  | addressValueError
  | valueError
  deriving DecidableEq, Repr

/-- The options of a run. The parser asks for a next hop at least. -/
structure Options where
  routes : Int
  start : Nat
  prefixLength : Int
  batch : Int
  dryRun : Bool
  nexthops : List (List Char)
  nexthops_ne : nexthops ≠ []

/-- A route to add, to a prefix of the length that the options have. -/
structure Route where
  dst : Nat
  gateway : List Char
  deriving DecidableEq

/-- `nexthops[i % len(nexthops)]`. -/
def gateway (o : Options) (i : Nat) : List Char :=
  o.nexthops.get ⟨i % o.nexthops.length, Nat.mod_lt i (List.length_pos_iff.mpr o.nexthops_ne)⟩

/-- `ip + (inc << (128 - prefix_length))`, `:79`. -/
def advance (o : Options) (inc ip : Nat) : Except Exn Nat :=
  if 128 < o.prefixLength then .error .valueError
  else
    let next := ip + inc <<< (128 - o.prefixLength).toNat
    if 2 ^ 128 ≤ next then .error .addressValueError else .ok next

/-- The loop of `:76–82` from a value of its counter on: what it yields, and what it raises. -/
def routesFrom (o : Options) (inc : Nat → Nat) : (n i ip : Nat) → List Route × Option Exn
  | 0, _, _ => ([], none)
  | n + 1, i, ip =>
    match advance o (inc i) ip with
    | .error e => ([], some e)
    | .ok ip =>
      let rest := routesFrom o inc n (i + 1) ip
      (⟨ip, gateway o i⟩ :: rest.1, rest.2)

/-- `routes`, `:73–82`. The range of a negative number is empty. -/
def routes (o : Options) (inc : Nat → Nat) : List Route × Option Exn :=
  routesFrom o inc o.routes.toNat 0 o.start

/-- `first` and `last`. -/
structure Ends where
  first : Option Nat
  last : Option Nat
  deriving DecidableEq

/-- The first and the last address of a prefix, as `ip_network` reads it: other lengths and bits
behind the prefix raise. -/
def ipNetwork (prefixLength : Int) (dst : Nat) : Except Exn (Nat × Nat) :=
  if prefixLength < 0 ∨ 128 < prefixLength then .error .valueError
  else
    let size := 2 ^ (128 - prefixLength).toNat
    if dst % size = 0 then .ok (dst, dst + size - 1) else .error .valueError

/-- A group of routes is gone through, `:98–103`. -/
def note (o : Options) : List Route → Ends → Except Exn Ends
  | [], ends => .ok ends
  | r :: rs, ends => do
    let (low, high) ← ipNetwork o.prefixLength r.dst
    note o rs ⟨ends.first <|> some low, some high⟩

/-- What a run leaves: the groups that it sent, the addresses that it would write to a file unless
it raises, and what it raises. -/
structure Run where
  sent : List (List Route)
  ends : Option Ends
  raised : Option Exn
  deriving DecidableEq

/-- The loop over the groups, `:97–109`, and what follows. -/
def sendGroups (o : Options) (raised : Option Exn) : List (List Route) → Ends → Run
  | [], ends =>
    match raised with
    | some e => ⟨[], none, some e⟩
    | none => ⟨[], some ends, none⟩
  | g :: gs, ends =>
    match note o g ends with
    | .error e => ⟨[], none, some e⟩
    | .ok ends =>
      let rest := sendGroups o raised gs ends
      { rest with sent := if o.dryRun then rest.sent else g :: rest.sent }

/-- The main part, `:89–118`. A slice of a negative size raises, as does one of too many. -/
def run (o : Options) (inc : Nat → Nat) : Run :=
  if o.batch < 0 ∨ (maxsize : Int) < o.batch then ⟨[], none, some .valueError⟩
  else
    let (yielded, raised) := routes o inc
    let (gs, raised) := groups o.batch.toNat yielded raised
    sendGroups o raised gs ⟨none, none⟩

/-! ### The routes that fit -/

/-- The number of addresses behind a prefix. -/
def Options.size (o : Options) : Nat := 2 ^ (128 - o.prefixLength).toNat

/-- The destination of a route. -/
def dst (o : Options) (inc : Nat → Nat) (i : Nat) : Nat := o.start + total inc (i + 1) * o.size

/-- The routes up to a number. -/
def firstRoutes (o : Options) (inc : Nat → Nat) (k : Nat) : List Route :=
  (List.range k).map fun i ↦ ⟨dst o inc i, gateway o i⟩

/-- How many of the routes are in the address space. -/
def fitting (o : Options) (inc : Nat → Nat) : Nat :=
  Nat.findGreatest (fun k ↦ o.start + total inc k * o.size < 2 ^ 128) o.routes.toNat

private theorem advance_eq {o : Options} (hhigh : o.prefixLength ≤ 128) (inc ip : Nat) :
    advance o inc ip =
      if 2 ^ 128 ≤ ip + inc * o.size then .error .addressValueError
      else .ok (ip + inc * o.size) := by
  rw [advance, if_neg (by omega), Nat.shiftLeft_eq]
  rfl

/-- The loop yields routes as long as they fit. -/
theorem routesFrom_spec {o : Options} (hhigh : o.prefixLength ≤ 128) {inc : Nat → Nat}
    {n i ip : Nat} (hip : ip = o.start + total inc i * o.size) (hlt : ip < 2 ^ 128) :
    ∃ k ≤ n, (routesFrom o inc n i ip).1 =
        (List.range' i k).map (fun j ↦ ⟨dst o inc j, gateway o j⟩) ∧
      o.start + total inc (i + k) * o.size < 2 ^ 128 ∧
      ((k = n ∧ (routesFrom o inc n i ip).2 = none) ∨
        (k < n ∧ 2 ^ 128 ≤ o.start + total inc (i + k + 1) * o.size ∧
          (routesFrom o inc n i ip).2 = some .addressValueError)) := by
  induction n generalizing i ip with
  | zero => exact ⟨0, Nat.le_refl 0, rfl, hip ▸ hlt, Or.inl ⟨rfl, rfl⟩⟩
  | succ n ih =>
    have hnext : ip + inc i * o.size = o.start + total inc (i + 1) * o.size := by
      rw [hip, total_succ, Nat.add_mul, Nat.add_assoc]
    unfold routesFrom
    rw [advance_eq hhigh, hnext]
    split
    · next hfull =>
      split at hfull
      · next hle =>
        cases hfull
        exact ⟨0, Nat.zero_le _, rfl, hip ▸ hlt, Or.inr ⟨Nat.succ_pos n, hle, rfl⟩⟩
      · cases hfull
    · next ip' hok =>
      split at hok
      · cases hok
      · next hfits =>
        cases hok
        obtain ⟨k, hk, hyielded, hin, hend⟩ := ih rfl (Nat.lt_of_not_le hfits)
        have hindex : i + (k + 1) = i + 1 + k := by omega
        rw [← hindex] at hin hend
        refine ⟨k + 1, Nat.succ_le_succ hk, ?_, hin, ?_⟩
        · dsimp only
          rw [hyielded, List.range'_succ, List.map_cons]
          rfl
        · rcases hend with ⟨hkn, hnone⟩ | ⟨hkn, hfull, hsome⟩
          · exact Or.inl ⟨congrArg Nat.succ hkn, hnone⟩
          · exact Or.inr ⟨Nat.succ_lt_succ hkn, hfull, hsome⟩

/-- Those that fit are yielded, and the next one raises. -/
theorem routes_spec {o : Options} (hhigh : o.prefixLength ≤ 128) (hstart : o.start < 2 ^ 128)
    (inc : Nat → Nat) :
    (routes o inc).1 = firstRoutes o inc (fitting o inc) ∧
      (routes o inc).2 =
        if fitting o inc = o.routes.toNat then none else some .addressValueError := by
  have hbegin : o.start = o.start + total inc 0 * o.size := by
    rw [total_zero, Nat.zero_mul, Nat.add_zero]
  obtain ⟨k, hk, hyielded, hin, hend⟩ :=
    routesFrom_spec hhigh (n := o.routes.toNat) hbegin hstart
  rw [Nat.zero_add] at hin hend
  have hfitting : fitting o inc = k := by
    apply Nat.findGreatest_eq_iff.mpr
    refine ⟨hk, fun _ ↦ hin, fun j hj hjn hfits ↦ ?_⟩
    rcases hend with ⟨rfl, -⟩ | ⟨-, hfull, -⟩
    · exact Nat.not_lt_of_le hjn hj
    · have hmono : total inc (k + 1) * o.size ≤ total inc j * o.size :=
        Nat.mul_le_mul_right _ (total_mono inc hj)
      omega
  rw [hfitting, firstRoutes, List.range_eq_range']
  refine ⟨hyielded, ?_⟩
  rcases hend with ⟨rfl, hnone⟩ | ⟨hkn, -, hsome⟩
  · rw [if_pos rfl]
    exact hnone
  · rw [if_neg (Nat.ne_of_lt hkn)]
    exact hsome

/-! ### The loop over the groups -/

/-- The addresses are at the start of their prefixes. -/
def Aligned (o : Options) (rs : List Route) : Prop := ∀ r ∈ rs, r.dst % o.size = 0

private theorem ipNetwork_eq {o : Options} (hlow : 0 ≤ o.prefixLength)
    (hhigh : o.prefixLength ≤ 128) (dst : Nat) :
    ipNetwork o.prefixLength dst =
      if dst % o.size = 0 then .ok (dst, dst + o.size - 1) else .error .valueError := by
  rw [ipNetwork, if_neg (by omega)]
  rfl

/-- Some routes after others. -/
theorem note_append (o : Options) (xs ys : List Route) (ends : Ends) :
    note o (xs ++ ys) ends = (note o xs ends).bind (note o ys) := by
  induction xs generalizing ends with
  | nil => rfl
  | cons x xs ih =>
    rw [List.cons_append, note, note]
    cases ipNetwork o.prefixLength x.dst with
    | error e => rfl
    | ok p => exact ih _

/-- The first address of the first route and the last one of the last route. -/
theorem note_eq {o : Options} (hlow : 0 ≤ o.prefixLength) (hhigh : o.prefixLength ≤ 128)
    {rs : List Route} (h : Aligned o rs) (ends : Ends) :
    note o rs ends = .ok ⟨ends.first.or (rs.head?.map Route.dst),
      (rs.getLast?.map fun r ↦ r.dst + o.size - 1).or ends.last⟩ := by
  induction rs using List.reverseRecOn with
  | nil =>
    cases ends with
    | mk first last => simp [note]
  | append_singleton rs r ih =>
    have hrs : Aligned o rs := fun x hx ↦ h x (List.mem_append_left _ hx)
    have hr : r.dst % o.size = 0 := h r (List.mem_append_right _ (List.mem_singleton_self r))
    rw [note_append, ih hrs]
    change note o [r] _ = _
    rw [note, ipNetwork_eq hlow hhigh, if_pos hr]
    simp only [bind, Except.bind, note, Except.ok.injEq, Ends.mk.injEq, List.head?_append,
      List.head?_cons, List.getLast?_concat, Option.map_some, Option.some_or, and_true]
    cases ends.first <;> cases rs.head? <;> rfl

/-- Groups whose routes are all at the start of their prefixes. -/
theorem sendGroups_eq {o : Options} (hlow : 0 ≤ o.prefixLength) (hhigh : o.prefixLength ≤ 128)
    (raised : Option Exn) {gs : List (List Route)} (h : Aligned o gs.flatten) (ends : Ends) :
    sendGroups o raised gs ends = ⟨if o.dryRun then [] else gs,
      if raised.isSome then none else (note o gs.flatten ends).toOption, raised⟩ := by
  induction gs generalizing ends with
  | nil => cases raised <;> simp [sendGroups, note, Except.toOption]
  | cons g gs ih =>
    rw [List.flatten_cons] at h ⊢
    have hg : Aligned o g := fun r hr ↦ h r (List.mem_append_left _ hr)
    have hgs : Aligned o gs.flatten := fun r hr ↦ h r (List.mem_append_right _ hr)
    rw [sendGroups, note_append, note_eq hlow hhigh hg]
    dsimp only [Except.bind]
    rw [ih hgs]
    cases o.dryRun <;> rfl

/-- A first route behind the start of its prefix raises before anything is sent. -/
theorem sendGroups_of_not_aligned {o : Options} (hlow : 0 ≤ o.prefixLength)
    (hhigh : o.prefixLength ≤ 128) (raised : Option Exn) {gs : List (List Route)}
    (hne : ∀ g ∈ gs, g ≠ []) (h : ∀ r ∈ gs.flatten, r.dst % o.size ≠ 0)
    (hraised : gs = [] → raised.isSome) (ends : Ends) :
    (sendGroups o raised gs ends).sent = [] ∧ (sendGroups o raised gs ends).ends = none ∧
      (sendGroups o raised gs ends).raised ≠ none := by
  cases gs with
  | nil =>
    obtain ⟨e, rfl⟩ := Option.isSome_iff_exists.mp (hraised rfl)
    exact ⟨rfl, rfl, Option.some_ne_none e⟩
  | cons g gs =>
    obtain ⟨r, rs, rfl⟩ := List.exists_cons_of_ne_nil (hne g List.mem_cons_self)
    have hr : r.dst % o.size ≠ 0 := h r (List.mem_append_left _ List.mem_cons_self)
    rw [sendGroups, note, ipNetwork_eq hlow hhigh, if_neg hr]
    exact ⟨rfl, rfl, Option.some_ne_none _⟩

/-! ### A whole run -/

private theorem dst_mod (o : Options) (inc : Nat → Nat) (i : Nat) :
    dst o inc i % o.size = o.start % o.size := Nat.add_mul_mod_self_right _ _ _

/-- All routes of a run are where the first address is in its prefix. -/
theorem mod_of_mem_firstRoutes {o : Options} {inc : Nat → Nat} {k : Nat} {r : Route}
    (h : r ∈ firstRoutes o inc k) : r.dst % o.size = o.start % o.size := by
  obtain ⟨i, -, rfl⟩ := List.mem_map.mp h
  exact dst_mod o inc i

/-- The prefixes of a run stand behind each other. -/
theorem pairwise_firstRoutes (o : Options) {inc : Nat → Nat} (hinc : ∀ i, 1 ≤ inc i) (k : Nat) :
    (firstRoutes o inc k).Pairwise fun r r' ↦ r.dst + o.size ≤ r'.dst := by
  rw [firstRoutes, List.pairwise_map]
  apply List.pairwise_lt_range.imp
  intro i j hij
  have hlt : total inc (i + 1) < total inc (j + 1) := total_lt hinc (Nat.succ_lt_succ hij)
  have hmul : (total inc (i + 1) + 1) * o.size ≤ total inc (j + 1) * o.size :=
    Nat.mul_le_mul_right _ hlt
  rw [Nat.succ_mul] at hmul
  change o.start + _ + _ ≤ o.start + _
  omega

/-- All routes are in the address space if the last one is. -/
theorem fitting_eq_iff {o : Options} (hstart : o.start < 2 ^ 128) (inc : Nat → Nat) :
    fitting o inc = o.routes.toNat ↔
      o.start + total inc o.routes.toNat * o.size < 2 ^ 128 := by
  have hbegin : o.start + total inc 0 * o.size < 2 ^ 128 := by
    rw [total_zero, Nat.zero_mul]
    exact hstart
  constructor
  · intro h
    have hspec := Nat.findGreatest_spec
      (P := fun k ↦ o.start + total inc k * o.size < 2 ^ 128) (Nat.zero_le o.routes.toNat) hbegin
    change o.start + total inc (fitting o inc) * o.size < 2 ^ 128 at hspec
    rwa [h] at hspec
  · intro h
    exact Nat.le_antisymm (Nat.findGreatest_le _) (Nat.le_findGreatest (Nat.le_refl _) h)

/-- What raises in the generator. -/
def generatorExn (o : Options) (inc : Nat → Nat) : Option Exn :=
  if fitting o inc = o.routes.toNat then none else some .addressValueError

private theorem run_eq {o : Options} (hhigh : o.prefixLength ≤ 128) (hbatch : 1 ≤ o.batch)
    (hmax : o.batch ≤ maxsize) (hstart : o.start < 2 ^ 128) (inc : Nat → Nat) :
    run o inc = sendGroups o (generatorExn o inc)
      (groups o.batch.toNat (firstRoutes o inc (fitting o inc)) (generatorExn o inc)).1
      ⟨none, none⟩ := by
  obtain ⟨hyielded, hraised⟩ := routes_spec hhigh hstart inc
  have hpos : 0 < o.batch.toNat := by omega
  rw [run, if_neg (by omega)]
  dsimp only
  rw [hyielded, hraised, ← generatorExn, raised_groups hpos]


/-- The routes that a run has sent when it ends. -/
def Options.expected (o : Options) (inc : Nat → Nat) : List Route :=
  let fits := fitting o inc
  let batch := o.batch.toNat
  if o.dryRun then []
  else if fits = o.routes.toNat then firstRoutes o inc fits
  else (firstRoutes o inc fits).take (fits / batch * batch)

private theorem length_firstRoutes (o : Options) (inc : Nat → Nat) (k : Nat) :
    (firstRoutes o inc k).length = k := by
  rw [firstRoutes, List.length_map, List.length_range]

private theorem flatten_groups_eq {o : Options} (hbatch : 1 ≤ o.batch) (inc : Nat → Nat) :
    (if o.dryRun then [] else
      (groups o.batch.toNat (firstRoutes o inc (fitting o inc)) (generatorExn o inc)).1).flatten =
      o.expected inc := by
  have hpos : 0 < o.batch.toNat := by omega
  rw [Options.expected, generatorExn]
  cases o.dryRun with
  | true => rfl
  | false =>
    rw [if_neg Bool.false_ne_true, if_neg Bool.false_ne_true]
    split
    · exact flatten_groups_none hpos _
    · rw [flatten_groups_some hpos, length_firstRoutes]

private theorem mem_firstRoutes_of_mem_groups {o : Options} (hbatch : 1 ≤ o.batch)
    {inc : Nat → Nat} {r : Route} (h : r ∈ (groups o.batch.toNat
      (firstRoutes o inc (fitting o inc)) (generatorExn o inc)).1.flatten) :
    r ∈ firstRoutes o inc (fitting o inc) := by
  have hpos : 0 < o.batch.toNat := by omega
  rw [generatorExn] at h
  split at h
  · rwa [flatten_groups_none hpos] at h
  · rw [flatten_groups_some hpos] at h
    exact List.mem_of_mem_take h

/-- A run whose first address is at the start of a prefix, or that has no routes. -/
theorem run_of_aligned {o : Options} (hlow : 0 ≤ o.prefixLength) (hhigh : o.prefixLength ≤ 128)
    (hbatch : 1 ≤ o.batch) (hmax : o.batch ≤ maxsize) (hstart : o.start < 2 ^ 128)
    {inc : Nat → Nat} (h : o.routes.toNat = 0 ∨ o.start % o.size = 0) :
    (run o inc).raised = generatorExn o inc ∧
      (run o inc).sent.flatten = o.expected inc ∧
      (run o inc).ends = if fitting o inc = o.routes.toNat then
        some ⟨(firstRoutes o inc o.routes.toNat).head?.map Route.dst,
          (firstRoutes o inc o.routes.toNat).getLast?.map fun r ↦ r.dst + o.size - 1⟩
      else none := by
  have hpos : 0 < o.batch.toNat := by omega
  have haligned : Aligned o (firstRoutes o inc (fitting o inc)) := by
    intro r hr
    rcases h with hzero | hmod
    · have hfitting : fitting o inc = 0 :=
        Nat.le_zero.mp (hzero ▸ Nat.findGreatest_le o.routes.toNat)
      rw [hfitting] at hr
      exact absurd hr List.not_mem_nil
    · rw [mod_of_mem_firstRoutes hr, hmod]
  have hgroups : Aligned o (groups o.batch.toNat (firstRoutes o inc (fitting o inc))
      (generatorExn o inc)).1.flatten :=
    fun r hr ↦ haligned r (mem_firstRoutes_of_mem_groups hbatch hr)
  rw [run_eq hhigh hbatch hmax hstart, sendGroups_eq hlow hhigh _ hgroups]
  refine ⟨rfl, flatten_groups_eq hbatch inc, ?_⟩
  rw [note_eq hlow hhigh hgroups]
  by_cases hfits : fitting o inc = o.routes.toNat
  · have hnone : generatorExn o inc = none := if_pos hfits
    rw [hnone, flatten_groups_none hpos, if_pos hfits, hfits, Option.isSome_none,
      if_neg Bool.false_ne_true, Option.none_or, Option.or_none]
    rfl
  · have hsome : generatorExn o inc = some .addressValueError := if_neg hfits
    rw [hsome, if_neg hfits]
    rfl

/-- A run whose first address is behind the start of a prefix raises and sends nothing. -/
theorem run_of_not_aligned {o : Options} (hlow : 0 ≤ o.prefixLength)
    (hhigh : o.prefixLength ≤ 128) (hbatch : 1 ≤ o.batch) (hmax : o.batch ≤ maxsize)
    (hstart : o.start < 2 ^ 128) {inc : Nat → Nat} (hroutes : o.routes.toNat ≠ 0)
    (hmod : o.start % o.size ≠ 0) :
    (run o inc).sent = [] ∧ (run o inc).ends = none ∧ (run o inc).raised ≠ none := by
  have hpos : 0 < o.batch.toNat := by omega
  rw [run_eq hhigh hbatch hmax hstart]
  apply sendGroups_of_not_aligned hlow hhigh _ (fun g hg ↦ ne_nil_of_mem_groups hpos hg)
  · intro r hr
    rw [mod_of_mem_firstRoutes (mem_firstRoutes_of_mem_groups hbatch hr)]
    exact hmod
  · intro hnil
    by_cases hfits : fitting o inc = o.routes.toNat
    · have hnone : generatorExn o inc = none := if_pos hfits
      have hflatten : (groups o.batch.toNat (firstRoutes o inc (fitting o inc))
          (none : Option Exn)).1.flatten = firstRoutes o inc (fitting o inc) :=
        flatten_groups_none hpos _
      rw [← hnone, hnil] at hflatten
      have hlength := congrArg List.length hflatten
      rw [length_firstRoutes, hfits] at hlength
      exact absurd hlength.symm hroutes
    · have hsome : generatorExn o inc = some .addressValueError := if_neg hfits
      rw [hsome]
      rfl

private theorem length_le_of_mem_sendGroups {o : Options} {size : Nat} {raised : Option Exn}
    {gs : List (List Route)} (h : ∀ g ∈ gs, g.length ≤ size) (ends : Ends) :
    ∀ g ∈ (sendGroups o raised gs ends).sent, g.length ≤ size := by
  induction gs generalizing ends with
  | nil =>
    intro g hg
    cases raised <;> exact absurd hg List.not_mem_nil
  | cons x xs ih =>
    intro g hg
    rw [sendGroups] at hg
    split at hg
    · exact absurd hg List.not_mem_nil
    · next ends' _ =>
      have hxs := ih (fun y hy ↦ h y (List.mem_cons_of_mem x hy)) ends'
      dsimp only at hg
      split at hg
      · exact hxs g hg
      · rcases List.mem_cons.mp hg with rfl | hg
        · exact h g List.mem_cons_self
        · exact hxs g hg

/-- A run ends with all routes sent and the file written if the first address is at the start of a
prefix and the last route is in the address space, and if not it raises: then no file is written,
and what is sent is nothing, or the routes that fill groups before the one that does not fit. No
message has more routes than asked for, and no two routes that are sent overlap. -/
theorem run_spec {o : Options} (hlow : 0 ≤ o.prefixLength) (hhigh : o.prefixLength ≤ 128)
    (hbatch : 1 ≤ o.batch) (hmax : o.batch ≤ maxsize) (hstart : o.start < 2 ^ 128)
    {inc : Nat → Nat} (hinc : ∀ i, 1 ≤ inc i) :
    ((run o inc).raised = none ↔ (o.routes.toNat = 0 ∨ o.start % o.size = 0) ∧
        o.start + total inc o.routes.toNat * o.size < 2 ^ 128) ∧
      ((run o inc).raised = none →
        (run o inc).sent.flatten =
            (if o.dryRun then [] else firstRoutes o inc o.routes.toNat) ∧
          (run o inc).ends = some ⟨(firstRoutes o inc o.routes.toNat).head?.map Route.dst,
            (firstRoutes o inc o.routes.toNat).getLast?.map fun r ↦ r.dst + o.size - 1⟩) ∧
      ((run o inc).raised ≠ none →
        (run o inc).sent.flatten = (if o.dryRun ∨ o.start % o.size ≠ 0 then [] else
            (firstRoutes o inc (fitting o inc)).take
              (fitting o inc / o.batch.toNat * o.batch.toNat)) ∧
          (run o inc).ends = none) ∧
      (∀ g ∈ (run o inc).sent, g.length ≤ o.batch.toNat) ∧
      (run o inc).sent.flatten.Pairwise (fun r r' ↦ r.dst + o.size ≤ r'.dst) := by
  have hpos : 0 < o.batch.toNat := by omega
  have hlength : ∀ g ∈ (run o inc).sent, g.length ≤ o.batch.toNat := by
    rw [run_eq hhigh hbatch hmax hstart]
    exact length_le_of_mem_sendGroups (fun g hg ↦ length_le_of_mem_groups hpos hg) _
  have hfits := fitting_eq_iff hstart inc
  by_cases haligned : o.routes.toNat = 0 ∨ o.start % o.size = 0
  · obtain ⟨hraised, hsent, hends⟩ :=
      @run_of_aligned o hlow hhigh hbatch hmax hstart inc haligned
    have hiff : (run o inc).raised = none ↔ fitting o inc = o.routes.toNat := by
      rw [hraised, generatorExn, ite_eq_left_iff]
      simp
    have hpairwise : (o.expected inc).Pairwise (fun r r' ↦ r.dst + o.size ≤ r'.dst) := by
      rw [Options.expected]
      split
      · exact List.Pairwise.nil
      · split
        · exact pairwise_firstRoutes o hinc _
        · exact (pairwise_firstRoutes o hinc _).sublist (List.take_sublist _ _)
    refine ⟨?_, fun h ↦ ?_, fun h ↦ ?_, hlength, hsent ▸ hpairwise⟩
    · rw [hiff, hfits]
      exact ⟨fun h ↦ ⟨haligned, h⟩, And.right⟩
    · have hall := hiff.mp h
      rw [hsent, hends, Options.expected, if_pos hall, if_pos hall, hall]
      exact ⟨rfl, rfl⟩
    · have hsome : ¬ fitting o inc = o.routes.toNat := fun hall ↦ h (hiff.mpr hall)
      have hmod : o.start % o.size = 0 := by
        rcases haligned with hzero | hmod
        · have hfitting : fitting o inc ≤ o.routes.toNat := Nat.findGreatest_le _
          omega
        · exact hmod
      rw [hsent, hends, if_neg hsome, Options.expected, if_neg hsome]
      simp [hmod]
  · obtain ⟨hroutes, hmod⟩ := not_or.mp haligned
    obtain ⟨hsent, hends, hraised⟩ :=
      @run_of_not_aligned o hlow hhigh hbatch hmax hstart inc hroutes hmod
    refine ⟨?_, fun h ↦ absurd h hraised, fun _ ↦ ?_, hlength, ?_⟩
    · exact ⟨fun h ↦ absurd h hraised, fun h ↦ absurd h.1 haligned⟩
    · rw [hsent, if_pos (Or.inr hmod)]
      exact ⟨rfl, hends⟩
    · rw [hsent]
      exact List.Pairwise.nil

/-- Five routes to quarters of the address space, two a message. -/
def quarters : Options where
  routes := 5
  start := 0
  prefixLength := 2
  batch := 2
  dryRun := false
  nexthops := ["2001:db8::1".toList, "2001:db8::2".toList]
  nexthops_ne := List.cons_ne_nil _ _

theorem run_spec_quarters :
    ((run quarters fun _ ↦ 1).raised = none ↔ (quarters.routes.toNat = 0 ∨
        quarters.start % quarters.size = 0) ∧
        quarters.start + total (fun _ ↦ 1) quarters.routes.toNat * quarters.size < 2 ^ 128) ∧
      (run quarters fun _ ↦ 1).raised ≠ none ∧ fitting quarters (fun _ ↦ 1) = 3 ∧
      (run quarters fun _ ↦ 1).sent.flatten = (firstRoutes quarters (fun _ ↦ 1) 3).take 2 := by
  have hspec := @run_spec quarters (by decide) (by decide) (by decide) (by decide)
    (by decide) (fun _ ↦ 1) (fun _ ↦ Nat.le_refl 1)
  have hraised : (run quarters fun _ ↦ 1).raised ≠ none :=
    fun h ↦ absurd (hspec.1.mp h).2 (by decide)
  have hfitting : fitting quarters (fun _ ↦ 1) = 3 := by decide
  refine ⟨hspec.1, hraised, hfitting, ?_⟩
  rw [(hspec.2.2.1 hraised).1, hfitting]
  rfl

end NetworkLab.Routes.Many48
