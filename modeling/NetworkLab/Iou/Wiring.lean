import NetworkLab.Iou.Netmap
import Mathlib.Data.List.Pairwise

/-!
# The wires that a NETMAP describes

What `parse_netmap` of `lab-iou/iou2vde.py:331–361` returns: which plugs it wires together
for any NETMAP, and all of the wires for a NETMAP that names every port once. There each VDE
plug stands for itself on one line, and the other ports of this line are its IOU plugs.
-/

namespace NetworkLab.Iou

open Lib

/-! ### Any NETMAP -/

/-- A match of this program with the major. -/
theorem isUs_iff (inst major : Int) (p : Plug) :
    isUs inst major p = true ↔ p.inst = inst ∧ p.major = major := by
  simp [isUs]

/-- A line wires its first port of ours, which the VDE plug stands for, to those not ours. -/
theorem lineWire_eq_some_iff (inst major : Int) (line : List Plug) (v : Plug)
    (others : List Plug) :
    lineWire inst major line = some (v, others) ↔
      (line.filter (isUs inst major)).head? = some v ∧
        others = line.filter fun ii ↦ !isUs inst major ii := by
  unfold lineWire
  cases hfilter : line.filter (isUs inst major) with
  | nil => simp
  | cons u us =>
    have hu : u ∈ line.filter (isUs inst major) := hfilter ▸ List.mem_cons_self
    obtain ⟨huinst, humajor⟩ := (isUs_iff inst major u).mp (List.mem_filter.mp hu).2
    have hself : (⟨inst.toNat, major.toNat, u.minor⟩ : Plug) = u := by
      rw [← huinst, ← humajor]
      rfl
    dsimp only
    rw [hself, List.head?_cons, Option.some.injEq, Option.some.injEq, Prod.mk.injEq,
      eq_comm (a := others)]

-- A fold whose steps each add what has the property keeps all that was added.
private theorem foldl_iff {σ ι : Type} {f : σ → ι → σ} {P : σ → Prop} {Q : ι → Prop}
    (hstep : ∀ s i, P (f s i) ↔ P s ∨ Q i) (is : List ι) (s : σ) :
    P (is.foldl f s) ↔ P s ∨ ∃ i ∈ is, Q i := by
  induction is generalizing s with
  | nil => simp
  | cons i is ih =>
    rw [List.foldl_cons, ih, hstep, or_assoc]
    simp

private theorem wired_extendWires (wires : Wires) (sock : List Char) (wire : Plug × List Plug)
    (v w : Plug) :
    Wired (extendWires wires sock wire) v w ↔ Wired wires v w ∨ (wire.1 = v ∧ w ∈ wire.2) := by
  unfold Wired extendWires
  rw [Dict.get?_alter]
  by_cases hv : v = wire.1
  · rw [if_pos hv, ← hv]
    cases hget : wires.get? v with
    | none => simp
    | some value =>
      obtain ⟨sock', others⟩ := value
      simp
  · rw [if_neg hv]
    simp [Ne.symm hv]

private theorem wired_addLine (inst : Int) (m : Mapping) (wires : Wires) (line : List Plug)
    (v w : Plug) :
    Wired (addLine inst m wires line) v w ↔
      Wired wires v w ∨ ∃ others, lineWire inst m.major line = some (v, others) ∧ w ∈ others := by
  unfold addLine
  cases lineWire inst m.major line with
  | none => simp
  | some wire =>
    dsimp only
    rw [wired_extendWires]
    simp [Prod.ext_iff]

/-- A line connects the ports `v` and `w`: `v` is its first port of ours with the major, and
`w` is not ours. -/
def Connects (inst major : Int) (line : List Plug) (v w : Plug) : Prop :=
  (line.filter (isUs inst major)).head? = some v ∧ w ∈ line ∧ isUs inst major w = false

/-- The plugs that are wired together are those that a line connects for a mapped major. -/
theorem wired_iff {inst : Int} {netmap : List Char} {mappings : List (List Char)} {wires : Wires}
    (h : parseNetmap inst netmap mappings = some wires) (v w : Plug) :
    Wired wires v w ↔ ∃ ms, mappings.mapM parseMapping = some ms ∧ ∃ m ∈ ms,
      ∃ line ∈ netmapLines netmap, Connects inst m.major line v w := by
  obtain ⟨ms, hms, rfl⟩ := Option.map_eq_some_iff.mp h
  have hline (m : Mapping) (line : List Plug) :
      (∃ others, lineWire inst m.major line = some (v, others) ∧ w ∈ others) ↔
        Connects inst m.major line v w := by
    simp only [lineWire_eq_some_iff]
    simp [Connects]
  have hempty : ¬ Wired .empty v w := by
    rintro ⟨sock, others, hget, -⟩
    cases hget
  have hmapping (wires : Wires) (m : Mapping) :
      Wired (addMapping inst (netmapLines netmap) wires m) v w ↔
        Wired wires v w ∨ ∃ line ∈ netmapLines netmap, Connects inst m.major line v w := by
    unfold addMapping
    apply foldl_iff (P := fun wires ↦ Wired wires v w)
    intro wires line
    rw [wired_addLine, hline]
  rw [foldl_iff (P := fun wires ↦ Wired wires v w) hmapping, hms]
  simp [hempty]

/-! ### A NETMAP that names every port once -/

/-- A NETMAP as the lab writes it, for mappings that are read as `ms`. -/
structure WellFormed (inst : Int) (netmap : List Char) (mappings : List (List Char))
    (ms : List Mapping) : Prop where
  parsed : mappings.mapM parseMapping = some ms
  majors : (ms.map Mapping.major).Nodup
  tokens : (netmapLines netmap).flatten.Nodup
  alone : ∀ line ∈ netmapLines netmap, ∀ p ∈ line, ∀ q ∈ line,
    p.inst = inst → q.inst = inst → p.major = q.major → p = q

/-! ### Mappings -/

/-- All mappings are read, in order, or none. -/
theorem mapM_parseMapping_eq_some_iff (mappings : List (List Char)) (ms : List Mapping) :
    mappings.mapM parseMapping = some ms ↔
      (∀ m ∈ mappings, (parseMapping m).isSome) ∧ mappings.filterMap parseMapping = ms := by
  induction mappings generalizing ms with
  | nil => simp
  | cons m mappings ih =>
    rw [List.mapM_cons, List.forall_mem_cons]
    cases hm : parseMapping m with
    | none => simp
    | some mapping =>
      rw [List.filterMap_cons_some hm]
      cases ms with
      | nil => simp [Option.bind_eq_some_iff]
      | cons m' ms => simp [Option.bind_eq_some_iff, ih, and_left_comm]

/-- Mappings in another order are read in that order. -/
theorem mapM_parseMapping_perm {mappings mappings' : List (List Char)} {ms : List Mapping}
    (h : mappings.mapM parseMapping = some ms) (hperm : mappings'.Perm mappings) :
    ∃ ms', mappings'.mapM parseMapping = some ms' ∧ ms'.Perm ms := by
  obtain ⟨hall, rfl⟩ := (mapM_parseMapping_eq_some_iff mappings ms).mp h
  refine ⟨mappings'.filterMap parseMapping, ?_, hperm.filterMap _⟩
  rw [mapM_parseMapping_eq_some_iff]
  exact ⟨fun m hm ↦ hall m (hperm.mem_iff.mp hm), rfl⟩

namespace WellFormed

variable {inst : Int} {netmap : List Char} {mappings : List (List Char)} {ms : List Mapping}

/-- The order of the mappings does not matter. -/
theorem perm (h : WellFormed inst netmap mappings ms) {mappings' : List (List Char)}
    (hperm : mappings'.Perm mappings) :
    ∃ ms', WellFormed inst netmap mappings' ms' ∧ ms'.Perm ms := by
  obtain ⟨ms', hparsed, hms⟩ := mapM_parseMapping_perm h.parsed hperm
  exact ⟨ms', { h with parsed := hparsed, majors := (hms.map _).nodup_iff.mpr h.majors }, hms⟩

/-! ### Lines -/

/-- A port is on one line only. -/
theorem line_unique (h : WellFormed inst netmap mappings ms) {l l' : List Plug} {p : Plug}
    (hl : l ∈ netmapLines netmap) (hl' : l' ∈ netmapLines netmap) (hp : p ∈ l) (hp' : p ∈ l') :
    l = l' := by
  by_contra hne
  have hsymm : Std.Symm (@List.Disjoint Plug) := ⟨fun _ _ hd _ ha hb ↦ hd hb ha⟩
  exact (List.nodup_flatten.mp h.tokens).2.forall hl hl' hne hp hp'

/-- The one port of ours with a major. -/
private theorem head?_filter_isUs (h : WellFormed inst netmap mappings ms) {line : List Plug}
    (hline : line ∈ netmapLines netmap) (major : Int) (v : Plug) :
    (line.filter (isUs inst major)).head? = some v ↔
      v ∈ line ∧ v.inst = inst ∧ v.major = major := by
  have hus (p : Plug) : p ∈ line.filter (isUs inst major) ↔
      p ∈ line ∧ p.inst = inst ∧ p.major = major := by
    rw [List.mem_filter, isUs_iff]
  constructor
  · intro hhead
    exact (hus v).mp (List.mem_of_head? hhead)
  · intro hv
    cases hfilter : line.filter (isUs inst major) with
    | nil =>
      rw [hfilter] at hus
      cases (hus v).mpr hv
    | cons u us =>
      rw [hfilter] at hus
      obtain ⟨hu, huinst, humajor⟩ := (hus u).mp List.mem_cons_self
      rw [List.head?_cons, h.alone line hline u hu v hv.1 huinst hv.2.1
        (Int.ofNat.inj (humajor.trans hv.2.2.symm))]

/-- The ports of a line that are not ours are all but the one that is. -/
private theorem filter_not_isUs (h : WellFormed inst netmap mappings ms) {line : List Plug}
    (hline : line ∈ netmapLines netmap) {major : Int} {v : Plug}
    (hv : v ∈ line ∧ v.inst = inst ∧ v.major = major) :
    (line.filter fun ii ↦ !isUs inst major ii) = line.filter (· ≠ v) := by
  apply List.filter_congr
  intro p hp
  by_cases hpv : p = v
  · simp [hpv, (isUs_iff inst major v).mpr hv.2]
  · have hnot : ¬ isUs inst major p = true := by
      intro hisus
      obtain ⟨hpinst, hpmajor⟩ := (isUs_iff inst major p).mp hisus
      exact hpv (h.alone line hline p hp v hv.1 hpinst hv.2.1
        (Int.ofNat.inj (hpmajor.trans hv.2.2.symm)))
    simp [hpv, hnot]

/-- What a line adds: its own port of the major, wired to the other ports. -/
theorem lineWire_iff (h : WellFormed inst netmap mappings ms) {line : List Plug}
    (hline : line ∈ netmapLines netmap) (major : Int) (v : Plug) (others : List Plug) :
    lineWire inst major line = some (v, others) ↔
      (v ∈ line ∧ v.inst = inst ∧ v.major = major) ∧ others = line.filter (· ≠ v) := by
  rw [lineWire_eq_some_iff, h.head?_filter_isUs hline]
  apply and_congr_right
  intro hv
  rw [h.filter_not_isUs hline hv]

end WellFormed

/-! ### Wires -/

/-- All that one mapping adds to the wires. -/
def mappingWires (inst : Int) (lines : List (List Plug)) (m : Mapping) :
    List (Plug × List Char × List Plug) :=
  lines.filterMap fun line ↦
    (lineWire inst m.major line).map fun wire ↦ (wire.1, m.sock, wire.2)

private def extendOthers (added : List Char × List Plug) :
    Option (List Char × List Plug) → List Char × List Plug
  | none => added
  | some (sock, others) => (sock, others ++ added.2)

private theorem addMapping_eq_foldl (inst : Int) (lines : List (List Plug)) (wires : Wires)
    (m : Mapping) :
    addMapping inst lines wires m =
      (mappingWires inst lines m).foldl (fun d a ↦ d.alter a.1 (extendOthers a.2)) wires := by
  unfold addMapping mappingWires
  rw [List.foldl_filterMap]
  apply congrArg (List.foldl · wires lines)
  funext d line
  unfold addLine
  cases lineWire inst m.major line with
  | none => rfl
  | some wire =>
    apply congrArg (d.alter wire.1)
    funext old
    cases old <;> rfl

namespace WellFormed

variable {inst : Int} {netmap : List Char} {mappings : List (List Char)} {ms : List Mapping}

private theorem mem_mappingWires_iff (h : WellFormed inst netmap mappings ms) (m : Mapping)
    (v : Plug) (sock : List Char) (others : List Plug) :
    (v, sock, others) ∈ mappingWires inst (netmapLines netmap) m ↔
      ∃ line ∈ netmapLines netmap, (v ∈ line ∧ v.inst = inst ∧ v.major = m.major) ∧
        sock = m.sock ∧ others = line.filter (· ≠ v) := by
  unfold mappingWires
  rw [List.mem_filterMap]
  apply exists_congr
  intro line
  apply and_congr_right
  intro hline
  rw [Option.map_eq_some_iff]
  constructor
  · rintro ⟨⟨v', others'⟩, hwire, heq⟩
    obtain ⟨rfl, rfl, rfl⟩ : v' = v ∧ m.sock = sock ∧ others' = others := by simpa using heq
    obtain ⟨hv, hothers⟩ := (h.lineWire_iff hline m.major v' others').mp hwire
    exact ⟨hv, rfl, hothers⟩
  · rintro ⟨hv, rfl, hothers⟩
    exact ⟨(v, others), (h.lineWire_iff hline m.major v others).mpr ⟨hv, hothers⟩, rfl⟩

private theorem keys_nodup (h : WellFormed inst netmap mappings ms) :
    ((ms.flatMap (mappingWires inst (netmapLines netmap))).map Prod.fst).Nodup := by
  have hkey {m : Mapping} {v : Plug}
      (hv : v ∈ (mappingWires inst (netmapLines netmap) m).map Prod.fst) :
      v.major = m.major := by
    obtain ⟨⟨v', sock, others⟩, hmem, rfl⟩ := List.mem_map.mp hv
    obtain ⟨line, hline, hv', -⟩ := (h.mem_mappingWires_iff m v' sock others).mp hmem
    exact hv'.2.2
  rw [List.map_flatMap, List.nodup_flatMap]
  constructor
  · intro m _
    unfold mappingWires List.Nodup
    rw [List.pairwise_map, List.pairwise_filterMap]
    have hdisjoint := (List.nodup_flatten.mp h.tokens).2
    apply hdisjoint.imp_of_mem
    intro l l' hl hl' hd a ha b hb heq
    obtain ⟨wire, hwire, rfl⟩ := Option.map_eq_some_iff.mp ha
    obtain ⟨wire', hwire', rfl⟩ := Option.map_eq_some_iff.mp hb
    have hmem := ((h.lineWire_iff hl m.major wire.1 wire.2).mp hwire).1.1
    have hmem' := ((h.lineWire_iff hl' m.major wire'.1 wire'.2).mp hwire').1.1
    exact hd hmem (heq ▸ hmem')
  · apply (List.pairwise_map.mp h.majors).imp
    intro m m' hne v hv hv'
    exact hne ((hkey hv).symm.trans (hkey hv'))

/-- The mappings are accepted, and a VDE plug is wired for each port of this program with a
mapped major: to the mapping's socket and the other ports on its line. -/
theorem parseNetmap_spec (h : WellFormed inst netmap mappings ms) :
    ∃ wires, parseNetmap inst netmap mappings = some wires ∧
      ∀ v sock others, (v, sock, others) ∈ wires.entries ↔
        ∃ m ∈ ms, ∃ line ∈ netmapLines netmap,
          (v ∈ line ∧ v.inst = inst ∧ v.major = m.major) ∧
            sock = m.sock ∧ others = line.filter (· ≠ v) := by
  unfold parseNetmap
  rw [h.parsed, Option.map_some]
  refine ⟨_, rfl, ?_⟩
  intro v sock others
  have hfold : ms.foldl (addMapping inst (netmapLines netmap)) .empty =
      (ms.flatMap (mappingWires inst (netmapLines netmap))).foldl
        (fun d a ↦ d.alter a.1 (extendOthers a.2)) Dict.empty := by
    rw [List.foldl_flatMap]
    apply congrArg (List.foldl · Dict.empty ms)
    funext wires m
    exact addMapping_eq_foldl inst (netmapLines netmap) wires m
  rw [hfold, Dict.entries_foldl_alter extendOthers (fun _ ↦ rfl) _ _ h.keys_nodup]
  change _ ∈ List.flatMap _ ms ↔ _
  rw [List.mem_flatMap]
  apply exists_congr
  intro m
  rw [h.mem_mappingWires_iff m v sock others]

end WellFormed
end NetworkLab.Iou
