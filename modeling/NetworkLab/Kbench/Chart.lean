import NetworkLab.Kbench.ReadBack

/-!
# What is plotted

The main part of `lab-routes-ipv6/2026/plot:48–88`, which is that of
`lab-routes-ipv4/2026/plot:47–87` but for the scenarios: the files below two directories are
gathered by scenario and version, the versions are sorted, and the numbers of each scenario are
collected for its curve. The medians of these numbers and how they are drawn are left out. An entry
of a directory has the files below it, in the order of `glob`; a plain file has none.
-/

namespace NetworkLab.Kbench.Chart

open Lib Report

/-- The name of a version or of a scenario. -/
abbrev Name := List Char

/-- An entry of a directory of results. -/
structure Entry where
  name : Name
  files : List (List UInt8)

/-- The directories on the command line. An empty `STARRED` is none. -/
structure Arguments where
  results : List Entry
  starred : Option (List Entry)

/-- The names in `STARRED`, `:55–56`. -/
def replaced (a : Arguments) : List Name := (a.starred.getD []).map Entry.name

/-- The files below some entries, with a name made from that of the entry. -/
def filesBelow (name : Name → Name) (es : List Entry) : List (Name × List UInt8) :=
  es.flatMap fun e ↦ e.files.map (name e.name, ·)

/-- `paths` with the bytes of the files, `:57–62`. -/
def paths (a : Arguments) : List (Name × List UInt8) :=
  (filesBelow id a.results).filter (·.1 ∉ replaced a) ++
    filesBelow (· ++ ['*']) (a.starred.getD [])

/-- `data`, by scenario and version. -/
abbrev Data := Dict Name (Dict Name (List Numbers))

/-- `data[scenario][version].append(stats)`, `:66`. -/
def addStats (data : Data) (version : Name) (stats : Name × Numbers) : Data :=
  data.alter stats.1 fun versions ↦
    (versions.getD Dict.empty).alter version fun runs ↦ runs.getD [] ++ [stats.2]

/-- A file goes to `data`, `:65–66`. -/
def load (data : Data) (path : Name × List UInt8) : Except ParseError Data := do
  let results ← parse path.2
  return results.entries.foldl (fun data stats ↦ addStats data path.1 stats) data

/-- `x.rstrip("*")`. -/
def rstripStar (x : Name) : Name := (x.reverse.dropWhile (· = '*')).reverse

/-- `versionize`, `:48–49`. -/
def versionize (x : Name) : Except ParseError (List Int) :=
  (PyText.split '.' (rstripStar x)).mapM fun y ↦
    match PyText.int? y with
    | some n => .ok n
    | none => .error .valueError

/-- `sorted(vs, key=versionize)`. -/
def sortVersions (vs : List Name) : Except ParseError (List Name) := do
  let keyed ← vs.mapM fun v ↦ do return (← versionize v, v)
  return (keyed.mergeSort fun x y ↦ decide (x.1 ≤ y.1)).map Prod.snd

/-- The order in which a set of names is gone through. -/
structure SetOrder where
  order : List Name → List Name
  perm : ∀ vs, (order vs).Perm vs.dedup

/-- `{v for s in data.values() for v in s}`. -/
def names (data : Data) : List Name := data.entries.flatMap fun s ↦ s.2.entries.map Prod.fst

/-- What is gathered: `versions` and `data`. -/
structure Gathered where
  versions : List Name
  data : Data

/-- The runs of both directories, `:52–68`. -/
def gather (set : SetOrder) (a : Arguments) : Except ParseError Gathered := do
  let data ← (paths a).foldlM load Dict.empty
  let versions ← sortVersions (set.order (names data))
  return ⟨versions, data⟩

/-- The runs of a scenario and a version, if there are any. -/
def runs? (data : Data) (scenario version : Name) : Option (List Numbers) :=
  (data.get? scenario).bind (·.get? version)

/-- The keys of `SCENARIOS`, `:24–29` and ipv4 `:23–27`. -/
def scenarios : Module → List Name
  | .ipv4 => ["full-2026.batch".toList, "bgp-500000".toList, "32-500000".toList]
  | .ipv6 =>
    ["full-2026.batch".toList, "bgp-40000".toList, "many-48-40000".toList,
      "many-128-40000".toList]

/-- What the main part raises. -/
inductive PlotError where
  | gathering (e : ParseError)
  | keyError (key : Name)

/-- `r[key]`. -/
def number (key : Name) (r : Numbers) : Except PlotError Int :=
  match r.get? key with
  | some n => .ok n
  | none => .error (.keyError key)

/-- `[[r[key] for r in rs] for rs in runs]`, `:83–88`. -/
def column (key : Name) (runs : List (List Numbers)) : Except PlotError (List (List Int)) :=
  runs.mapM fun rs ↦ rs.mapM (number key)

/-- The numbers of a curve: its places on the axis, and for each of them the medians of the rounds
and their deviations. -/
structure Curve where
  x : List Nat
  medians : List (List Int)
  mads : List (List Int)

/-- The numbers of a scenario, `:81–88`. -/
def curve (g : Gathered) (scenario : Name) : Except PlotError Curve := do
  let x := g.versions.zipIdx.filter fun v ↦ (runs? g.data scenario v.1).isSome
  let runs := x.map fun v ↦ (runs? g.data scenario v.1).getD []
  let medians ← column "50th".toList runs
  let mads ← column "mad".toList runs
  return ⟨x.map Prod.snd, medians, mads⟩

/-- What is plotted. -/
structure Plotted where
  gathered : Gathered
  curves : List Curve

/-- The main part, `:52–88`. -/
def plot (mod : Module) (set : SetOrder) (a : Arguments) : Except PlotError Plotted := do
  let gathered ← (gather set a).mapError .gathering
  let curves ← (scenarios mod).mapM (curve gathered)
  return ⟨gathered, curves⟩

/-! ### Gathering -/

/-- A list unless it is empty. -/
def nonempty? (l : List Numbers) : Option (List Numbers) := if l = [] then none else some l

private theorem getD_nonempty? (l : List Numbers) : (nonempty? l).getD [] = l := by
  unfold nonempty?
  split
  · next h => exact h.symm
  · rfl

private theorem nonempty?_concat (l : List Numbers) (n : Numbers) :
    nonempty? (l ++ [n]) = some (l ++ [n]) := if_neg (List.concat_ne_nil n l)

/-- A run goes behind those of its scenario and version. -/
theorem runs?_addStats (data : Data) (version : Name) (stats : Name × Numbers) (s v : Name) :
    runs? (addStats data version stats) s v =
      if s = stats.1 ∧ v = version then some ((runs? data s v).getD [] ++ [stats.2])
      else runs? data s v := by
  unfold runs? addStats
  rw [Dict.get?_alter]
  by_cases hs : s = stats.1
  · rw [if_pos hs, Option.bind_some, Dict.get?_alter, hs]
    cases data.get? stats.1 with
    | none => simp [Dict.get?, Dict.empty]
    | some versions =>
      simp only [Option.getD_some, Option.bind_some, true_and]
      split
      · next hv => rw [hv]
      · rfl
  · rw [if_neg hs, if_neg fun h ↦ hs h.1]

/-- The runs of a scenario that a file has, as a list. -/
def runsOf (results : Dict Name Numbers) (scenario : Name) : List Numbers :=
  (results.get? scenario).toList

/-- The runs of a scenario and a version in some files. -/
def selected (ps : List (Name × List UInt8)) (scenario version : Name) : List Numbers :=
  (ps.filter (·.1 = version)).flatMap fun p ↦
    match parse p.2 with
    | .ok results => runsOf results scenario
    | .error _ => []

private theorem runs?_foldl {data : Data} {acc : Name → Name → List Numbers}
    (h : ∀ s v, runs? data s v = nonempty? (acc s v)) (version : Name)
    {es : List (Name × Numbers)} (hnodup : (es.map Prod.fst).Nodup) (s v : Name) :
    runs? (es.foldl (fun data stats ↦ addStats data version stats) data) s v =
      nonempty? (acc s v ++ if v = version then
        ((es.find? (·.1 = s)).map Prod.snd).toList else []) := by
  induction es generalizing data acc with
  | nil =>
    rw [List.foldl_nil, h]
    simp
  | cons e es ih =>
    obtain ⟨hkey, hrest⟩ := List.nodup_cons.mp hnodup
    have hnext (s v : Name) : runs? (addStats data version e) s v =
        nonempty? (acc s v ++ if s = e.1 ∧ v = version then [e.2] else []) := by
      rw [runs?_addStats, h, getD_nonempty?]
      split
      · rw [nonempty?_concat]
      · rw [List.append_nil]
    rw [List.foldl_cons, ih hnext hrest, List.append_assoc]
    congr 2
    by_cases hv : v = version
    · by_cases hs : e.1 = s
      · have hnone : es.find? (·.1 = s) = none := by
          apply List.find?_eq_none.mpr
          intro e' he' heq
          apply hkey
          rw [hs, ← of_decide_eq_true heq]
          exact List.mem_map_of_mem he'
        simp [hv, hs, hnone]
      · simp [hv, hs, Ne.symm hs]
    · simp [hv]

/-- All files are read, and the runs of a scenario and a version are those of its files in order. -/
theorem foldlM_load {ps : List (Name × List UInt8)} {data : Data}
    {acc : Name → Name → List Numbers} (h : ∀ s v, runs? data s v = nonempty? (acc s v)) :
    match ps.foldlM load data with
    | .ok data' => (∀ p ∈ ps, ∃ results, parse p.2 = .ok results) ∧
        ∀ s v, runs? data' s v = nonempty? (acc s v ++ selected ps s v)
    | .error _ => ∃ p ∈ ps, ∃ e, parse p.2 = .error e := by
  induction ps generalizing data acc with
  | nil =>
    refine ⟨fun p hp ↦ absurd hp List.not_mem_nil, fun s v ↦ ?_⟩
    rw [h, selected, List.filter_nil, List.flatMap_nil, List.append_nil]
  | cons p ps ih =>
    rw [List.foldlM_cons, load]
    cases hparse : parse p.2 with
    | error e => exact ⟨p, List.mem_cons_self, e, hparse⟩
    | ok results =>
      have hnext := runs?_foldl h p.1 results.nodup
      have hrest := ih hnext
      change match (ps.foldlM load (results.entries.foldl (fun data stats ↦
        addStats data p.1 stats) data)) with | .ok data' => _ | .error _ => _
      generalize ps.foldlM load (results.entries.foldl (fun data stats ↦
        addStats data p.1 stats) data) = loaded at hrest ⊢
      cases loaded with
      | error e =>
        obtain ⟨p', hp', hfails⟩ := hrest
        exact ⟨p', List.mem_cons_of_mem p hp', hfails⟩
      | ok data' =>
        obtain ⟨hall, hruns⟩ := hrest
        refine ⟨List.forall_mem_cons.mpr ⟨⟨results, hparse⟩, hall⟩, fun s v ↦ ?_⟩
        rw [hruns, List.append_assoc]
        congr 2
        unfold selected
        rw [List.filter_cons]
        by_cases hv : v = p.1
        · rw [if_pos hv, if_pos (decide_eq_true hv.symm), List.flatMap_cons, hparse]
          rfl
        · rw [if_neg hv, if_neg (by simpa using Ne.symm hv), List.nil_append]

/-- What is found for some version. -/
theorem mem_names {data : Data} {v : Name} : v ∈ names data ↔ ∃ s, (runs? data s v).isSome := by
  rw [names, List.mem_flatMap]
  constructor
  · rintro ⟨⟨s, versions⟩, hs, hv⟩
    obtain ⟨⟨v, runs⟩, hruns, rfl⟩ := List.mem_map.mp hv
    refine ⟨s, ?_⟩
    rw [runs?, Dict.get?_of_mem hs, Option.bind_some, Dict.get?_of_mem hruns]
    rfl
  · rintro ⟨s, hsome⟩
    obtain ⟨runs, hruns⟩ := Option.isSome_iff_exists.mp hsome
    obtain ⟨versions, hs, hv⟩ := Option.bind_eq_some_iff.mp hruns
    exact ⟨(s, versions), Dict.mem_of_get? hs, List.mem_map_of_mem (Dict.mem_of_get? hv)⟩

/-! ### Sorting -/

/-- One version does not come after another one. -/
def NotAfter (v w : Name) : Prop :=
  ∃ k l, versionize v = .ok k ∧ versionize w = .ok l ∧ k ≤ l

private theorem mapM_spec {α β ε : Type} (f : α → Except ε β) (xs : List α) :
    match xs.mapM f with
    | .ok ys => List.Forall₂ (fun x y ↦ f x = .ok y) xs ys
    | .error e => ∃ x ∈ xs, f x = .error e := by
  induction xs with
  | nil => exact .nil
  | cons x xs ih =>
    rw [List.mapM_cons]
    cases hx : f x with
    | error e => exact ⟨x, List.mem_cons_self, hx⟩
    | ok y =>
      generalize xs.mapM f = rest at ih ⊢
      cases rest with
      | error e =>
        obtain ⟨x', hx', hfails⟩ := ih
        exact ⟨x', List.mem_cons_of_mem x hx', hfails⟩
      | ok ys => exact .cons hx ih

private theorem mapM_versionize (vs : List Name) :
    match vs.mapM (fun v ↦ do return (← versionize v, v)) with
    | .ok keyed => keyed.map Prod.snd = vs ∧ ∀ x ∈ keyed, versionize x.2 = .ok x.1
    | .error _ => ∃ v ∈ vs, ∃ e, versionize v = .error e := by
  have hspec := mapM_spec (fun v ↦ do return (← versionize v, v)) vs
  generalize vs.mapM (fun v ↦ do return (← versionize v, v)) = keyed at hspec ⊢
  cases keyed with
  | error e =>
    obtain ⟨v, hv, hfails⟩ := hspec
    cases hkey : versionize v with
    | error e' => exact ⟨v, hv, e', hkey⟩
    | ok key =>
      rw [hkey] at hfails
      cases hfails
  | ok keyed =>
    induction hspec with
    | nil => exact ⟨rfl, fun x hx ↦ absurd hx List.not_mem_nil⟩
    | @cons v x vs keyed hv _ ih =>
      obtain ⟨hmap, hkeys⟩ := ih
      cases hkey : versionize v with
      | error e =>
        rw [hkey] at hv
        cases hv
      | ok key =>
        rw [hkey] at hv
        cases hv
        exact ⟨congrArg (v :: ·) hmap, List.forall_mem_cons.mpr ⟨hkey, hkeys⟩⟩

/-- All names are numbers between dots, and they are sorted by them. -/
theorem sortVersions_spec (vs : List Name) :
    match sortVersions vs with
    | .ok sorted => sorted.Perm vs ∧ sorted.Pairwise NotAfter ∧
        ∀ v ∈ vs, ∃ k, versionize v = .ok k
    | .error _ => ∃ v ∈ vs, ∃ e, versionize v = .error e := by
  have hkeyed := mapM_versionize vs
  unfold sortVersions
  generalize vs.mapM (fun v ↦ do return (← versionize v, v)) = keyed at hkeyed ⊢
  cases keyed with
  | error e => exact hkeyed
  | ok keyed =>
    obtain ⟨hmap, hkeys⟩ := hkeyed
    have hperm := List.mergeSort_perm keyed fun x y ↦ decide (x.1 ≤ y.1)
    have htrans (x y z : List Int × Name) (hxy : decide (x.1 ≤ y.1) = true)
        (hyz : decide (y.1 ≤ z.1) = true) : decide (x.1 ≤ z.1) = true :=
      decide_eq_true (le_trans (of_decide_eq_true hxy) (of_decide_eq_true hyz))
    have htotal (x y : List Int × Name) :
        (decide (x.1 ≤ y.1) || decide (y.1 ≤ x.1)) = true := by
      rw [Bool.or_eq_true, decide_eq_true_eq, decide_eq_true_eq]
      exact le_total x.1 y.1
    refine ⟨hmap ▸ hperm.map Prod.snd, ?_, fun v hv ↦ ?_⟩
    · rw [List.pairwise_map]
      apply (List.pairwise_mergeSort htrans htotal keyed).imp_of_mem
      intro x y hx hy hle
      exact ⟨x.1, y.1, hkeys x (hperm.mem_iff.mp hx), hkeys y (hperm.mem_iff.mp hy),
        of_decide_eq_true hle⟩
    · rw [← hmap] at hv
      obtain ⟨x, hx, rfl⟩ := List.mem_map.mp hv
      exact ⟨x.1, hkeys x hx⟩

private theorem filter_base {mod : Module} {rs : List (Run mod)} (h : (rs.map (·.base)).Nodup)
    {r : Run mod} (hr : r ∈ rs) : rs.filter (·.base = r.base) = [r] := by
  obtain ⟨xs, ys, rfl⟩ := List.append_of_mem hr
  rw [List.map_append, List.map_cons, List.nodup_middle, List.nodup_cons, List.mem_append,
    not_or] at h
  have hnone {zs : List (Run mod)} (hz : r.base ∉ zs.map (·.base)) :
      zs.filter (·.base = r.base) = [] := by
    apply List.filter_eq_nil_iff.mpr
    intro z hmem heq
    exact hz (of_decide_eq_true heq ▸ List.mem_map_of_mem hmem)
  have hself : decide (r.base = r.base) = true := decide_eq_true rfl
  rw [List.filter_append, List.filter_cons, if_pos hself, hnone h.1.1, hnone h.1.2,
    List.nil_append]

/-- The runs of a scenario in a report that is read back are those that printed statistics. -/
theorem runsOf_session {mod : Module} {s : Session mod} (h : ReadsBack s) :
    ∃ file results, s.file = some file ∧ parse file = .ok results ∧
      ∀ scenario, runsOf results scenario =
        (s.runs.filter (·.base = scenario)).filterMap fun r ↦
          (r.outcome.statistics? mod).map expected := by
  obtain ⟨file, results, hfile, hparse, hruns, hothers⟩ := h
  refine ⟨file, results, hfile, hparse, fun scenario ↦ ?_⟩
  by_cases hname : scenario ∈ s.runs.map (·.base)
  · obtain ⟨r, hr, rfl⟩ := List.mem_map.mp hname
    rw [filter_base s.distinct hr, runsOf, hruns r hr, List.filterMap_cons]
    cases r.outcome.statistics? mod with
    | none => rfl
    | some st => rfl
  · have hnone : s.runs.filter (·.base = scenario) = [] := by
      apply List.filter_eq_nil_iff.mpr
      intro r hr heq
      exact hname (of_decide_eq_true heq ▸ List.mem_map_of_mem hr)
    rw [hnone, runsOf, hothers scenario hname]
    rfl

/-! ### The plot -/

/-- The runs of a scenario that the entries of a name have. -/
def runsBelow (es : List Entry) (scenario name : Name) : List Numbers :=
  (es.filter (·.name = name)).flatMap fun e ↦ e.files.flatMap fun file ↦
    match parse file with
    | .ok results => runsOf results scenario
    | .error _ => []

/-- What is shown for a version: the runs of its entry unless another one replaces it, and those
of the other one under its name with a star. -/
def shown (a : Arguments) (scenario version : Name) : List Numbers :=
  (if version ∈ replaced a then [] else runsBelow a.results scenario version) ++
    if version.getLast? = some '*' then
      runsBelow (a.starred.getD []) scenario version.dropLast
    else []

private theorem selected_append (ps qs : List (Name × List UInt8)) (s v : Name) :
    selected (ps ++ qs) s v = selected ps s v ++ selected qs s v := by
  rw [selected, List.filter_append, List.flatMap_append]
  rfl

private theorem selected_map (files : List (List UInt8)) (u s v : Name) :
    selected (files.map (u, ·)) s v =
      if u = v then files.flatMap fun file ↦
        match parse file with
        | .ok results => runsOf results s
        | .error _ => []
      else [] := by
  rw [selected, List.filter_map]
  split
  · next h =>
    have hall : files.filter ((fun p : Name × List UInt8 ↦ decide (p.1 = v)) ∘ (u, ·)) = files :=
      List.filter_eq_self.mpr fun _ _ ↦ decide_eq_true h
    rw [hall, List.flatMap_map]
  · next h =>
    have hnone : files.filter ((fun p : Name × List UInt8 ↦ decide (p.1 = v)) ∘ (u, ·)) = [] :=
      List.filter_eq_nil_iff.mpr fun _ _ ↦ by simpa using h
    rw [hnone, List.map_nil, List.flatMap_nil]

private theorem selected_filesBelow (name : Name → Name) (es : List Entry) (s v : Name) :
    selected (filesBelow name es) s v =
      (es.filter (name ·.name = v)).flatMap fun e ↦ e.files.flatMap fun file ↦
        match parse file with
        | .ok results => runsOf results s
        | .error _ => [] := by
  induction es with
  | nil => rfl
  | cons e es ih =>
    rw [filesBelow, List.flatMap_cons, ← filesBelow, selected_append, ih, selected_map,
      List.filter_cons]
    by_cases h : name e.name = v
    · rw [if_pos h, if_pos (decide_eq_true h), List.flatMap_cons]
    · rw [if_neg h, if_neg (by simpa using h), List.nil_append]

private theorem selected_filter (ps : List (Name × List UInt8)) (vs : List Name) (s v : Name) :
    selected (ps.filter (·.1 ∉ vs)) s v = if v ∈ vs then [] else selected ps s v := by
  rw [selected, List.filter_filter]
  split
  · next h =>
    have hnone : ps.filter (fun p ↦ decide (p.1 = v) && decide (p.1 ∉ vs)) = [] := by
      apply List.filter_eq_nil_iff.mpr
      intro p _
      simp only [Bool.and_eq_true, decide_eq_true_eq, not_and, not_not]
      rintro rfl
      exact h
    rw [hnone, List.flatMap_nil]
  · next h =>
    have hall : ps.filter (fun p ↦ decide (p.1 = v) && decide (p.1 ∉ vs)) =
        ps.filter (·.1 = v) := by
      apply List.filter_congr
      intro p _
      by_cases hp : p.1 = v
      · simp [hp, h]
      · simp [hp]
    rw [hall, selected]

/-- What is selected is what is shown. -/
theorem selected_paths (a : Arguments) (s v : Name) : selected (paths a) s v = shown a s v := by
  rw [paths, selected_append, selected_filter, selected_filesBelow, selected_filesBelow, shown]
  congr 1
  split
  · next h =>
    obtain ⟨w, rfl⟩ := List.getLast?_eq_some_iff.mp h
    rw [List.dropLast_concat, runsBelow]
    simp only [List.append_left_inj]
  · next h =>
    have hnone : (a.starred.getD []).filter (fun e ↦ decide (e.name ++ ['*'] = v)) = [] := by
      apply List.filter_eq_nil_iff.mpr
      intro e _ he
      rw [← of_decide_eq_true he] at h
      exact h List.getLast?_concat
    rw [hnone, List.flatMap_nil]

/-- All is gathered if and only if every file can be read and each version with a run is numbers
between dots. -/
theorem gather_spec (set : SetOrder) (a : Arguments) :
    ((∃ g, gather set a = .ok g) ↔
        (∀ path ∈ paths a, ∃ results, parse path.2 = .ok results) ∧
          ∀ s v, shown a s v ≠ [] → ∃ k, versionize v = .ok k) ∧
      ∀ g, gather set a = .ok g →
        (∀ s v, runs? g.data s v = nonempty? (shown a s v)) ∧
        (∀ v, v ∈ g.versions ↔ ∃ s, shown a s v ≠ []) ∧
        g.versions.Nodup ∧ g.versions.Pairwise NotAfter := by
  have hempty (s v : Name) : runs? Dict.empty s v = nonempty? [] := rfl
  have hload := @foldlM_load (paths a) _ _ hempty
  have hgather : gather set a = ((paths a).foldlM load Dict.empty).bind fun data ↦
      (sortVersions (set.order (names data))).bind fun versions ↦ .ok ⟨versions, data⟩ := rfl
  rw [hgather]
  generalize (paths a).foldlM load Dict.empty = loaded at hload ⊢
  cases loaded with
  | error e =>
    obtain ⟨path, hpath, e', hfails⟩ := hload
    constructor
    · constructor
      · rintro ⟨p, hp⟩
        cases hp
      · rintro ⟨hall, -⟩
        obtain ⟨results, hresults⟩ := hall path hpath
        rw [hresults] at hfails
        cases hfails
    · intro p hp
      cases hp
  | ok data =>
    obtain ⟨hall, hruns⟩ := hload
    have hshown (s v : Name) : runs? data s v = nonempty? (shown a s v) := by
      rw [hruns, selected_paths]
      rfl
    have hnames (v : Name) : v ∈ set.order (names data) ↔ ∃ s, shown a s v ≠ [] := by
      rw [(set.perm _).mem_iff, List.mem_dedup, mem_names]
      apply exists_congr
      intro s
      rw [hshown, nonempty?]
      split
      · next h => simp [h]
      · next h => simp [h]
    have hsort := sortVersions_spec (set.order (names data))
    rw [Except.bind]
    generalize sortVersions (set.order (names data)) = sorted at hsort ⊢
    cases sorted with
    | error e =>
      obtain ⟨v, hv, e', hfails⟩ := hsort
      constructor
      · constructor
        · rintro ⟨p, hp⟩
          cases hp
        · rintro ⟨-, hkeys⟩
          obtain ⟨s, hs⟩ := (hnames v).mp hv
          obtain ⟨k, hk⟩ := hkeys s v hs
          rw [hk] at hfails
          cases hfails
      · intro p hp
        cases hp
    | ok versions =>
      obtain ⟨hperm, hsorted, hkeys⟩ := hsort
      constructor
      · constructor
        · intro _
          exact ⟨hall, fun s v hs ↦ hkeys v ((hnames v).mpr ⟨s, hs⟩)⟩
        · intro _
          exact ⟨_, rfl⟩
      · intro p hp
        cases hp
        refine ⟨hshown, fun v ↦ ?_, ?_, hsorted⟩
        · rw [← hnames]
          exact hperm.mem_iff
        · have hnodup : (set.order (names data)).Nodup :=
            (set.perm _).nodup_iff.mpr (List.nodup_dedup _)
          exact hperm.nodup_iff.mpr hnodup

/-! ### The curves -/

/-- The versions with runs of a scenario, with their places on the axis. -/
def points (a : Arguments) (versions : List Name) (scenario : Name) : List (Name × Nat) :=
  versions.zipIdx.filter fun v ↦ shown a scenario v.1 ≠ []

/-- A curve has a point for each version with runs of its scenario, and for each run of it the
median and the deviation that the run printed. -/
structure Draws (a : Arguments) (versions : List Name) (scenario : Name) (c : Curve) : Prop where
  x : c.x = (points a versions scenario).map Prod.snd
  medians : c.medians.map (·.map some) = (points a versions scenario).map fun v ↦
    (shown a scenario v.1).map (·.get? "50th".toList)
  mads : c.mads.map (·.map some) = (points a versions scenario).map fun v ↦
    (shown a scenario v.1).map (·.get? "mad".toList)

/-- A run has what its curve needs. -/
def Complete (r : Numbers) : Prop :=
  (r.get? "50th".toList).isSome ∧ (r.get? "mad".toList).isSome

private theorem mapM_number (key : Name) (rs : List Numbers) :
    match rs.mapM (number key) with
    | .ok ns => ns.map some = rs.map (·.get? key)
    | .error _ => ∃ r ∈ rs, r.get? key = none := by
  have hspec := mapM_spec (number key) rs
  generalize rs.mapM (number key) = ns at hspec ⊢
  cases ns with
  | error e =>
    obtain ⟨r, hr, hfails⟩ := hspec
    refine ⟨r, hr, ?_⟩
    unfold number at hfails
    split at hfails
    · cases hfails
    · next hnone => exact hnone
  | ok ns =>
    induction hspec with
    | nil => rfl
    | @cons r n rs ns hn _ ih =>
      unfold number at hn
      split at hn
      · next m hm =>
        cases hn
        change some n :: ns.map some = r.get? key :: rs.map (·.get? key)
        rw [hm]
        exact congrArg (some n :: ·) ih
      · cases hn

private theorem column_spec (key : Name) (runs : List (List Numbers)) :
    match column key runs with
    | .ok nss => nss.map (·.map some) = runs.map (·.map (·.get? key))
    | .error _ => ∃ rs ∈ runs, ∃ r ∈ rs, r.get? key = none := by
  have hspec := mapM_spec (fun rs : List Numbers ↦ rs.mapM (number key)) runs
  unfold column
  generalize (runs.mapM fun rs ↦ rs.mapM (number key)) = nss at hspec ⊢
  cases nss with
  | error e =>
    obtain ⟨rs, hrs, hfails⟩ := hspec
    have hnumbers := mapM_number key rs
    rw [hfails] at hnumbers
    exact ⟨rs, hrs, hnumbers⟩
  | ok nss =>
    induction hspec with
    | nil => rfl
    | @cons rs ns runs nss hn _ ih =>
      have hnumbers := mapM_number key rs
      rw [hn] at hnumbers
      change ns.map some :: nss.map (·.map some) =
        rs.map (·.get? key) :: runs.map (·.map (·.get? key))
      exact congrArg₂ List.cons hnumbers ih

/-- Where all numbers are found, all of them are there. -/
private theorem isSome_of_map_some {key : Name} {runs : List (List Numbers)}
    {nss : List (List Int)} (h : nss.map (·.map some) = runs.map (·.map (·.get? key)))
    {rs : List Numbers} (hrs : rs ∈ runs) {r : Numbers} (hr : r ∈ rs) : (r.get? key).isSome := by
  have hmem : rs.map (·.get? key) ∈ nss.map (·.map some) := h ▸ List.mem_map_of_mem hrs
  obtain ⟨ns, -, hns⟩ := List.mem_map.mp hmem
  have hget : r.get? key ∈ ns.map some := hns ▸ List.mem_map_of_mem hr
  obtain ⟨n, -, hn⟩ := List.mem_map.mp hget
  rw [← hn]
  rfl

/-- The curve of a scenario is drawn if its runs have what it needs. -/
theorem curve_spec {a : Arguments} {g : Gathered}
    (h : ∀ s v, runs? g.data s v = nonempty? (shown a s v)) (scenario : Name) :
    match curve g scenario with
    | .ok c => Draws a g.versions scenario c ∧
        ∀ v ∈ g.versions, ∀ r ∈ shown a scenario v, Complete r
    | .error _ => ∃ v, ∃ r ∈ shown a scenario v, ¬ Complete r := by
  have hpoints : (g.versions.zipIdx.filter fun v ↦ (runs? g.data scenario v.1).isSome) =
      points a g.versions scenario := by
    apply List.filter_congr
    intro v _
    rw [h, nonempty?]
    split
    · next hnil => simp [hnil]
    · next hne => simp [hne]
  have hruns : ((points a g.versions scenario).map fun v ↦
      (runs? g.data scenario v.1).getD []) =
        (points a g.versions scenario).map fun v ↦ shown a scenario v.1 :=
    List.map_congr_left fun v _ ↦ by rw [h, getD_nonempty?]
  unfold curve
  rw [hpoints]
  dsimp only
  rw [hruns]
  have hincomplete {key : Name}
      (hkey : key = "50th".toList ∨ key = "mad".toList)
      (hfails : ∃ rs ∈ (points a g.versions scenario).map fun v ↦ shown a scenario v.1,
        ∃ r ∈ rs, r.get? key = none) : ∃ v, ∃ r ∈ shown a scenario v, ¬ Complete r := by
    obtain ⟨rs, hrs, r, hr, hnone⟩ := hfails
    obtain ⟨v, -, rfl⟩ := List.mem_map.mp hrs
    refine ⟨v.1, r, hr, ?_⟩
    rintro ⟨h50, hmad⟩
    rcases hkey with rfl | rfl
    · rw [hnone] at h50
      cases h50
    · rw [hnone] at hmad
      cases hmad
  have hmedians := column_spec "50th".toList
    ((points a g.versions scenario).map fun v ↦ shown a scenario v.1)
  have hmads := column_spec "mad".toList
    ((points a g.versions scenario).map fun v ↦ shown a scenario v.1)
  generalize column "50th".toList _ = medians at hmedians ⊢
  generalize column "mad".toList _ = mads at hmads ⊢
  cases medians with
  | error e => exact hincomplete (Or.inl rfl) hmedians
  | ok medians =>
    cases mads with
    | error e => exact hincomplete (Or.inr rfl) hmads
    | ok mads =>
      refine ⟨⟨rfl, ?_, ?_⟩, fun v hv r hr ↦ ?_⟩
      · rw [hmedians, List.map_map]
        rfl
      · rw [hmads, List.map_map]
        rfl
      · obtain ⟨i, hi⟩ := List.getElem?_of_mem hv
        have hpoint : (v, i) ∈ points a g.versions scenario := by
          apply List.mem_filter.mpr ⟨List.mk_mem_zipIdx_iff_getElem?.mpr hi, _⟩
          exact decide_eq_true (List.ne_nil_of_mem hr)
        have hmem := List.mem_map_of_mem (f := fun v ↦ shown a scenario v.1) hpoint
        exact ⟨isSome_of_map_some hmedians hmem hr, isSome_of_map_some hmads hmem hr⟩

/-- What a run prints has what its curve needs. -/
theorem complete_expected (st : Statistics) : Complete (expected st) := by
  simp [Complete, expected, Statistics.fields, Dict.get?_set]

/-- The runs of a report that is read back are those that printed statistics, with what is drawn. -/
theorem complete_session {m : Module} {s : Session m} (h : ReadsBack s) :
    ∃ file results, s.file = some file ∧ parse file = .ok results ∧
      ∀ scenario, runsOf results scenario =
          ((s.runs.filter (·.base = scenario)).filterMap fun r ↦
            (r.outcome.statistics? m).map expected) ∧
        ∀ r ∈ runsOf results scenario, Complete r := by
  obtain ⟨file, results, hfile, hparse, hruns⟩ := runsOf_session h
  refine ⟨file, results, hfile, hparse, fun scenario ↦ ⟨hruns scenario, fun r hr ↦ ?_⟩⟩
  rw [hruns] at hr
  obtain ⟨run, -, hrun⟩ := List.mem_filterMap.mp hr
  obtain ⟨st, -, rfl⟩ := Option.map_eq_some_iff.mp hrun
  exact complete_expected st

/-- The curves of some scenarios are drawn, unless a run of them is not complete. -/
theorem curves_spec {a : Arguments} {g : Gathered}
    (hdata : ∀ s v, runs? g.data s v = nonempty? (shown a s v)) (ss : List Name) :
    match ss.mapM (curve g) with
    | .ok curves => (∀ s ∈ ss, ∀ v ∈ g.versions, ∀ r ∈ shown a s v, Complete r) ∧
        List.Forall₂ (Draws a g.versions) ss curves
    | .error _ => ∃ s ∈ ss, ∃ v, ∃ r ∈ shown a s v, ¬ Complete r := by
  have hcurves := mapM_spec (curve g) ss
  generalize ss.mapM (curve g) = curves at hcurves ⊢
  cases curves with
  | error e =>
    obtain ⟨s, hs, hfails⟩ := hcurves
    have hcurve := curve_spec hdata s
    rw [hfails] at hcurve
    exact ⟨s, hs, hcurve⟩
  | ok curves =>
    apply (List.forall₂_and_left _ _).mp
    apply hcurves.imp
    intro s c hc
    have hcurve := curve_spec hdata s
    rw [hc] at hcurve
    exact hcurve.symm

/-- A plot is made if and only if every file can be read, each version with a run is numbers
between dots and each run of a scenario that is drawn has a median and a deviation. It has a version
once if there is something to show for it, in the order of the numbers, and for each scenario all of
its runs: those of its entry in `RESULTS` unless there is an entry of this name in `STARRED`, whose
runs have the name with a star instead. The curves draw these runs. Those of a report that is read
back are the runs that printed statistics, and have what is drawn. -/
theorem plot_spec (mod : Module) (set : SetOrder) (a : Arguments) :
    ((∃ p, plot mod set a = .ok p) ↔
        (∀ path ∈ paths a, ∃ results, parse path.2 = .ok results) ∧
          (∀ s v, shown a s v ≠ [] → ∃ k, versionize v = .ok k) ∧
          ∀ s ∈ scenarios mod, ∀ v, ∀ r ∈ shown a s v, Complete r) ∧
      (∀ p, plot mod set a = .ok p →
        (∀ s v, runs? p.gathered.data s v = nonempty? (shown a s v)) ∧
        (∀ v, v ∈ p.gathered.versions ↔ ∃ s, shown a s v ≠ []) ∧
        p.gathered.versions.Nodup ∧ p.gathered.versions.Pairwise NotAfter ∧
        List.Forall₂ (Draws a p.gathered.versions) (scenarios mod) p.curves) ∧
      ∀ {m : Module} (s : Session m), ReadsBack s →
        ∃ file results, s.file = some file ∧ parse file = .ok results ∧
          ∀ scenario, runsOf results scenario =
              ((s.runs.filter (·.base = scenario)).filterMap fun r ↦
                (r.outcome.statistics? m).map expected) ∧
            ∀ r ∈ runsOf results scenario, Complete r := by
  obtain ⟨hiff, hgathered⟩ := gather_spec set a
  have hplot : plot mod set a = ((gather set a).mapError .gathering).bind fun g ↦
      ((scenarios mod).mapM (curve g)).bind fun curves ↦ .ok ⟨g, curves⟩ := rfl
  refine and_assoc.mp ⟨?_, fun s hs ↦ complete_session hs⟩
  cases hgather : gather set a with
  | error e =>
    have hfails : plot mod set a = .error (.gathering e) := by
      rw [hplot, hgather]
      rfl
    have hno : ¬ ∃ g, gather set a = .ok g := by
      rintro ⟨g, hg⟩
      rw [hgather] at hg
      cases hg
    rw [hfails]
    refine ⟨iff_of_false ?_ fun h ↦ hno (hiff.mpr ⟨h.1, h.2.1⟩), ?_⟩
    · rintro ⟨p, hp⟩
      cases hp
    · intro p hp
      cases hp
  | ok g =>
    obtain ⟨hread, hkeys⟩ := hiff.mp ⟨g, hgather⟩
    obtain ⟨hdata, hversions, hnodup, hsorted⟩ := hgathered g hgather
    have hcurves := curves_spec hdata (scenarios mod)
    have hcurved : plot mod set a =
        ((scenarios mod).mapM (curve g)).bind fun curves ↦ .ok ⟨g, curves⟩ := by
      rw [hplot, hgather]
      rfl
    rw [hcurved]
    generalize (scenarios mod).mapM (curve g) = curves at hcurves ⊢
    cases curves with
    | error e =>
      obtain ⟨s, hs, v, r, hr, hincomplete⟩ := hcurves
      refine ⟨iff_of_false ?_ fun h ↦ hincomplete (h.2.2 s hs v r hr), ?_⟩
      · rintro ⟨p, hp⟩
        cases hp
      · intro p hp
        cases hp
    | ok curves =>
      obtain ⟨hcomplete, hdraws⟩ := hcurves
      refine ⟨iff_of_true ⟨_, rfl⟩ ⟨hread, hkeys, fun s hs v r hr ↦ ?_⟩, ?_⟩
      · exact hcomplete s hs v ((hversions v).mpr ⟨s, List.ne_nil_of_mem hr⟩) r hr
      · rintro p ⟨⟩
        exact ⟨hdata, hversions, hnodup, hsorted, hdraws⟩

/-- A set that is gone through from its end. -/
def SetOrder.reversed : SetOrder where
  order := fun vs ↦ vs.dedup.reverse
  perm := fun _ ↦ List.reverse_perm _

/-- Three files of a run each, one of which takes the place of another one. -/
def Arguments.sample (line : String) : Arguments where
  results := [⟨"5.10.1".toList, [file line]⟩, ⟨"6.5.13".toList, [file line]⟩]
  starred := some [⟨"6.5.13".toList, [file line]⟩]
where
  file (line : String) : List UInt8 :=
    Utf8.encode ("### 1-bgp-40000\n40000\n" ++ line ++ "\n").toList

instance (r : Numbers) : Decidable (Complete r) := inferInstanceAs (Decidable (_ ∧ _))

private theorem exists_path_of_mem_shown {a : Arguments} {s v : Name} {r : Numbers}
    (h : r ∈ shown a s v) :
    ∃ path ∈ paths a, path.1 = v ∧ ∃ results, parse path.2 = .ok results ∧
      results.get? s = some r := by
  rw [← selected_paths, selected] at h
  obtain ⟨path, hpath, hr⟩ := List.mem_flatMap.mp h
  obtain ⟨hmem, hv⟩ := List.mem_filter.mp hpath
  refine ⟨path, hmem, of_decide_eq_true hv, ?_⟩
  split at hr
  · next results hparse => exact ⟨results, hparse, Option.mem_toList.mp hr⟩
  · cases hr

private theorem exists_of_toBool {α ε : Type} {e : Except ε α} (h : e.toBool = true) :
    ∃ v, e = .ok v := by
  cases e with
  | error e => cases h
  | ok v => exact ⟨v, rfl⟩

/-- Statistics that were cut behind `max` are read, and not drawn. -/
theorem sample_plot :
    (∃ p, plot .ipv6 .reversed (.sample "min=100 max=200 50th=150 mad=9") = .ok p) ∧
      ¬ ∃ p, plot .ipv6 .reversed (.sample "min=100 max=200") = .ok p := by
  constructor
  · apply (plot_spec .ipv6 .reversed (.sample "min=100 max=200 50th=150 mad=9")).1.mpr
    have hread : ∀ path ∈ paths (.sample "min=100 max=200 50th=150 mad=9"),
        (parse path.2).toBool = true ∧ (versionize path.1).toBool = true := by decide
    have hruns : ∀ path ∈ paths (.sample "min=100 max=200 50th=150 mad=9"),
        ∀ r ∈ (match parse path.2 with
          | .ok results => results.entries.map Prod.snd
          | .error _ => []), Complete r := by decide
    refine ⟨fun path hpath ↦ exists_of_toBool (hread path hpath).1, fun s v hne ↦ ?_,
      fun s _ v r hr ↦ ?_⟩
    · obtain ⟨r, hr⟩ := List.exists_mem_of_ne_nil _ hne
      obtain ⟨path, hpath, rfl, -⟩ := exists_path_of_mem_shown hr
      exact exists_of_toBool (hread path hpath).2
    · obtain ⟨path, hpath, -, results, hparse, hget⟩ := exists_path_of_mem_shown hr
      have hcomplete := hruns path hpath
      rw [hparse] at hcomplete
      exact hcomplete r (List.mem_map_of_mem (Dict.mem_of_get? hget))
  · intro hplotted
    obtain ⟨-, -, hcomplete⟩ :=
      (plot_spec .ipv6 .reversed (.sample "min=100 max=200")).1.mp hplotted
    exact absurd (hcomplete "bgp-40000".toList (by decide) "5.10.1".toList) (by decide)

end NetworkLab.Kbench.Chart
