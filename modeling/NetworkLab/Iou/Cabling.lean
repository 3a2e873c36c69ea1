import NetworkLab.Iou.Hub
import NetworkLab.Iou.Lab
import NetworkLab.Iou.Reader

/-!
# The lab as `iou2vde.py` wires it

`iou2vde.py` reads back what `lab-iou/setup` writes: each interface of an instance is wired to
a VDE plug of its own on the switch of its network, and frames pass between the two as long as
the numbers fit the header.
-/

namespace NetworkLab.Iou

open Lib Shell Numbering

/-! ### Reading the NETMAP -/

private theorem isSpace_of_mem_decimal {n : Nat} {c : Char} (h : c ∈ decimal n) :
    PyText.isSpace c = false :=
  PyText.isSpace_of_isDigit (Nat.isDigit_of_mem_toDigits (by decide) (by decide) h)

/-- A token as `$instance:$j/$i` makes it. -/
def token (p : Plug) : Text := decimal p.inst ++ ":" ++ decimal p.major ++ "/" ++ decimal p.minor

/-- A plug that was written is matched. -/
theorem matchToken_token (p : Plug) : matchToken (token p) = some p := by
  have hcolon : ∀ c ∈ (":".toList ++ (decimal p.major ++ ("/".toList ++ decimal p.minor))).head?,
      (PyText.decimal? c).isSome = false := by
    rintro c ⟨⟩
    decide
  have hslash : ∀ c ∈ ("/".toList ++ decimal p.minor).head?,
      (PyText.decimal? c).isSome = false := by
    rintro c ⟨⟩
    decide
  have hinst := PyText.matchDigits_toDigits p.inst hcolon
  have hmajor := PyText.matchDigits_toDigits p.major hslash
  have hminor := PyText.matchDigits_toDigits p.minor (s := []) nofun
  rw [List.append_nil] at hminor
  have htoken : token p = Nat.toDigits 10 p.inst ++
      (":".toList ++ (decimal p.major ++ ("/".toList ++ decimal p.minor))) := by
    simp only [token, decimal, List.append_assoc]
  unfold matchToken
  rw [htoken, hinst]
  change (PyText.matchDigits
    (Nat.toDigits 10 p.major ++ ("/".toList ++ decimal p.minor))).bind _ = _
  rw [hmajor]
  change (PyText.matchDigits (Nat.toDigits 10 p.minor)).bind _ = _
  rw [hminor]
  rfl

/-- The plug of the program for a port of a network. -/
def vdePlug (net port : Nat) : Plug := ⟨666, net, port⟩

private theorem netmapLine_eq (p : Attachment × Nat) :
    attachmentLine p =
      [' '].intercalate [token p.1.plug, token (vdePlug p.1.net p.2), ['1']] := by
  have hprogram : decimal 666 = "666".toList := by decide
  simp only [attachmentLine, netmapLine, token, vdePlug, hprogram, List.intercalate_cons_cons,
    List.intercalate_singleton, List.append_assoc]
  rfl

private theorem not_isSpace_token (p : Plug) :
    token p ≠ [] ∧ ∀ c ∈ token p, PyText.isSpace c = false := by
  constructor
  · simp [token]
  · intro c hc
    simp only [token, List.mem_append] at hc
    rcases hc with (((hc | hc) | hc) | hc) | hc
    · exact isSpace_of_mem_decimal hc
    · rw [List.mem_singleton.mp hc]
      decide
    · exact isSpace_of_mem_decimal hc
    · rw [List.mem_singleton.mp hc]
      decide
    · exact isSpace_of_mem_decimal hc

private theorem words_attachmentLine (p : Attachment × Nat) :
    PyText.words (attachmentLine p ++ ['\n']) =
      [token p.1.plug, token (vdePlug p.1.net p.2), ['1']] := by
  rw [netmapLine_eq]
  apply PyText.words_intercalate
  intro t ht
  simp only [List.mem_cons, List.not_mem_nil, or_false] at ht
  rcases ht with rfl | rfl | rfl
  · exact not_isSpace_token _
  · exact not_isSpace_token _
  · exact ⟨List.cons_ne_nil _ _, PyText.not_isSpace_of_any (by decide)⟩

private theorem lineTokens_eq_words (line : List Char) :
    lineTokens line = (PyText.words line).filterMap matchToken := by
  rw [lineTokens, PyText.words, List.filterMap_filter]
  apply List.filterMap_congr
  intro t _
  by_cases ht : t = []
  · rw [ht]
    rfl
  · simp [ht]

/-- The two plugs of a line. -/
theorem lineTokens_attachmentLine (p : Attachment × Nat) :
    lineTokens (attachmentLine p ++ ['\n']) = [p.1.plug, vdePlug p.1.net p.2] := by
  have hone : matchToken ['1'] = none := by decide
  rw [lineTokens_eq_words, words_attachmentLine]
  simp only [List.filterMap_cons, List.filterMap_nil, matchToken_token, hone]

private theorem not_mem_attachmentLine {c : Char} (hspace : PyText.isSpace c = true)
    (hblank : c ≠ ' ') (p : Attachment × Nat) : c ∉ attachmentLine p := by
  have htoken (q : Plug) : c ∉ token q := by
    intro hc
    rw [(not_isSpace_token q).2 c hc] at hspace
    cases hspace
  have hone : c ∉ ['1'] := by
    intro hc
    rw [List.mem_singleton.mp hc] at hspace
    exact absurd hspace (by decide)
  rw [netmapLine_eq, List.intercalate_cons_cons, List.intercalate_cons_cons,
    List.intercalate_singleton]
  simp only [List.mem_append, List.mem_singleton, htoken, hblank, false_or, or_false]
  simpa using hone

/-- The lines that the lab writes are read back. -/
theorem netmapLines_fileLines (ps : List (Attachment × Nat)) :
    netmapLines (fileLines (ps.map attachmentLine)) =
      ps.map fun p ↦ [p.1.plug, vdePlug p.1.net p.2] := by
  have hnewline : ∀ l ∈ ps.map attachmentLine, '\n' ∉ l := by
    intro l hl
    obtain ⟨p, -, rfl⟩ := List.mem_map.mp hl
    exact not_mem_attachmentLine (by decide) (by decide) p
  have hreturn : '\r' ∉ fileLines (ps.map attachmentLine) := by
    intro hmem
    obtain ⟨l, hl, hc⟩ := List.mem_flatMap.mp hmem
    obtain ⟨p, -, rfl⟩ := List.mem_map.mp hl
    rcases List.mem_append.mp hc with hc | hc
    · exact not_mem_attachmentLine (by decide) (by decide) p hc
    · exact absurd hc (by decide)
  have hlines : PyText.lines (fileLines (ps.map attachmentLine)) =
      (ps.map attachmentLine).map (· ++ ['\n']) := PyText.lines_flatMap _ hnewline
  rw [netmapLines, PyText.universalNewlines_of_not_mem hreturn, hlines, List.map_map, List.map_map]
  apply List.map_congr_left
  intro p _
  exact lineTokens_attachmentLine p

/-! ### Reading the mappings -/

/-- A mapping as `start_iou2vde` writes it. -/
def mappingText (tmp : Text) (net : Nat) : Text :=
  decimal net ++ ":" ++ switchSock tmp (decimal net)

/-- What is read from it. -/
def labMapping (tmp : Text) (net : Nat) : Mapping := ⟨net, switchSock tmp (decimal net)⟩

/-- A lab that can be started: every instance has a number of its own, which is not that of the
program, some interface is there, and no character of `$TMP` means anything to a reader. -/
structure Sound (tmp : Text) (calls : List IouCall) (mapped : List Nat) : Prop where
  insts : (calls.map IouCall.inst).Nodup
  program : ∀ c ∈ calls, c.inst ≠ 666
  interfaces : ∃ c ∈ calls, c.nets ≠ []
  mapped : mapped.Nodup
  blank : ∀ c ∈ tmp, isBlank c = false
  colon : ':' ∉ tmp

section

variable {tmp : Text} {calls : List IouCall} {mapped : List Nat}

private theorem not_mem_switchSock (h : ':' ∉ tmp) (net : Nat) :
    ':' ∉ switchSock tmp (decimal net) := by
  simp only [switchSock, List.mem_append, not_or]
  exact ⟨⟨⟨h, by decide⟩, not_mem_decimal (by decide) net⟩, by decide⟩

private theorem parseMapping_mappingText (h : ':' ∉ tmp) (net : Nat) :
    parseMapping (mappingText tmp net) = some (labMapping tmp net) := by
  have hparts : (mappingText tmp net).splitOn ':' =
      [decimal net, switchSock tmp (decimal net)] := by
    have hjoin : mappingText tmp net =
        [':'].intercalate [decimal net, switchSock tmp (decimal net)] := by
      rw [List.intercalate_cons_cons, List.intercalate_singleton]
      rfl
    rw [hjoin]
    apply List.splitOn_intercalate ':' _ (List.cons_ne_nil _ _)
    intro l hl
    rcases List.mem_pair.mp hl with rfl | rfl
    · exact not_mem_decimal (by decide) net
    · exact not_mem_switchSock h net
  rw [parseMapping, hparts]
  dsimp only
  rw [decimal, PyText.int?_toDigits]
  rfl

private theorem isBlank_of_isDigit {c : Char} (h : c.isDigit = true) : isBlank c = false := by
  have hspace := PyText.isSpace_of_isDigit h
  rw [isBlank, Bool.or_eq_false_iff, Bool.or_eq_false_iff]
  refine ⟨⟨?_, ?_⟩, ?_⟩ <;>
    (rw [beq_eq_false_iff_ne]
     rintro rfl
     exact absurd hspace (by decide))

private theorem isBlank_of_mem_mappingText (h : ∀ c ∈ tmp, isBlank c = false) (net : Nat) :
    ∀ c ∈ mappingText tmp net, isBlank c = false := by
  have hnumber : ∀ c ∈ decimal net, isBlank c = false := fun c hc ↦
    isBlank_of_isDigit (Nat.isDigit_of_mem_toDigits (by decide) (by decide) hc)
  intro c hc
  simp only [mappingText, switchSock, List.mem_append] at hc
  rcases hc with (hc | hc) | (((hc | hc) | hc) | hc)
  · exact hnumber c hc
  · exact not_isBlank_of_any (s := ":".toList) rfl c hc
  · exact h c hc
  · exact not_isBlank_of_any (s := "/switch-".toList) rfl c hc
  · exact hnumber c hc
  · exact not_isBlank_of_any (s := ".sock".toList) rfl c hc

/-- The mappings are handed over one by one. -/
theorem startIou2vde_netText (h : ∀ c ∈ tmp, isBlank c = false) (nets : List Nat) :
    startIou2vde tmp (netText nets) = nets.map (mappingText tmp) := by
  have hfold (args : Text) : fields ((nets.map decimal).foldl
      (fun args net ↦ args ++ " " ++ net ++ ":" ++ switchSock tmp net) args) =
        fields args ++ nets.map (mappingText tmp) := by
    induction nets generalizing args with
    | nil => exact (List.append_nil _).symm
    | cons net nets ih =>
      have hblank : isBlank ' ' = true := rfl
      have hne : mappingText tmp net ≠ [] := by simp [mappingText]
      have hargs : args ++ " ".toList ++ decimal net ++ ":".toList ++
          switchSock tmp (decimal net) = args ++ ' ' :: mappingText tmp net := by
        simp only [mappingText, List.append_assoc]
        rfl
      rw [List.map_cons, List.foldl_cons, ih, hargs, fields_append hblank,
        fields_of_not_blank hne (isBlank_of_mem_mappingText h net), List.append_assoc]
      rfl
  rw [startIou2vde, fieldsAt_netText]
  exact hfold []

/-! ### The NETMAP is well formed -/

private theorem map_plug_interfaces (c : IouCall) :
    c.interfaces.map Attachment.plug =
      (List.range' 0 c.nets.length).map fun k ↦ ⟨c.inst, k / 4, k % 4⟩ := by
  rw [IouCall.interfaces, interfacesFrom, List.map_map, ← List.zipIdx_map_snd, List.map_map]
  rfl

private theorem nodup_interfaces (c : IouCall) : (c.interfaces.map Attachment.plug).Nodup := by
  rw [map_plug_interfaces]
  apply List.Nodup.map _ (List.nodup_range' 1 Nat.one_pos)
  intro k k' h
  injection h with _ hmajor hminor
  omega

/-- What an interface looks like: four in a row. -/
theorem mem_interfaces {c : IouCall} {a : Attachment} (h : a ∈ c.interfaces) :
    a.plug.inst = c.inst ∧ a.plug.minor < 4 := by
  have hplug := List.mem_map_of_mem (f := Attachment.plug) h
  rw [map_plug_interfaces] at hplug
  obtain ⟨k, -, hk⟩ := List.mem_map.mp hplug
  rw [← hk]
  exact ⟨rfl, Nat.mod_lt _ (by decide)⟩

/-- No interface is attached twice. -/
theorem Sound.nodup_attachments (h : Sound tmp calls mapped) :
    ((attachments calls).map Attachment.plug).Nodup := by
  rw [attachments, List.map_flatMap, List.nodup_flatMap]
  refine ⟨fun c _ ↦ nodup_interfaces c, ?_⟩
  apply (List.pairwise_map.mp h.insts).imp
  intro c c' hne p hp hp'
  obtain ⟨a, ha, rfl⟩ := List.mem_map.mp hp
  obtain ⟨a', ha', heq⟩ := List.mem_map.mp hp'
  exact hne ((mem_interfaces ha).1.symm.trans (heq ▸ (mem_interfaces ha').1))

/-- No interface is one of the program. -/
theorem Sound.inst_ne (h : Sound tmp calls mapped) {a : Attachment} (ha : a ∈ attachments calls) :
    a.plug.inst ≠ 666 := by
  obtain ⟨c, hc, hac⟩ := List.mem_flatMap.mp ha
  rw [(mem_interfaces hac).1]
  exact h.program c hc

/-- The interfaces with their ports. -/
def ported (calls : List IouCall) : List (Attachment × Nat) :=
  numberFrom Attachment.net (fun _ ↦ 0) (attachments calls)

private theorem mem_attachments {p : Attachment × Nat} (h : p ∈ ported calls) :
    p.1 ∈ attachments calls := by
  rw [← map_fst_numberFrom Attachment.net (fun _ ↦ 0) (attachments calls)]
  exact List.mem_map_of_mem h

/-- The lines of the NETMAP. -/
theorem Sound.netmap_eq (h : Sound tmp calls mapped) :
    ∃ netmap, (startAll calls).netmap = some netmap ∧
      netmapLines netmap = (ported calls).map fun p ↦ [p.1.plug, vdePlug p.1.net p.2] := by
  obtain ⟨c, hc, hnets⟩ := h.interfaces
  have hsome : attachments calls ≠ [] := by
    intro hnil
    have hlength := congrArg List.length (List.flatMap_eq_nil_iff.mp hnil c hc)
    rw [IouCall.interfaces, interfacesFrom, List.length_map, List.length_zipIdx] at hlength
    exact hnets (List.length_eq_zero_iff.mp hlength)
  have hwrote := startAll_wrote calls
  obtain ⟨netmap, hnetmap⟩ := Option.isSome_iff_exists.mp (hwrote.netmap (Or.inl hsome))
  have htext : netmap = fileLines ((ported calls).map attachmentLine) := by
    have heq := hwrote.text
    rw [Tmp.text, hnetmap] at heq
    exact heq
  refine ⟨netmap, hnetmap, ?_⟩
  rw [htext, netmapLines_fileLines]

/-- `iou2vde.py` accepts what the lab writes. -/
theorem Sound.wellFormed (h : Sound tmp calls mapped) {netmap : List Char}
    (hlines : netmapLines netmap = (ported calls).map fun p ↦ [p.1.plug, vdePlug p.1.net p.2]) :
    WellFormed 666 netmap (startIou2vde tmp (netText mapped)) (mapped.map (labMapping tmp)) where
  parsed := by
    rw [startIou2vde_netText h.blank, mapM_parseMapping_eq_some_iff]
    constructor
    · intro m hm
      obtain ⟨net, -, rfl⟩ := List.mem_map.mp hm
      rw [parseMapping_mappingText h.colon]
      rfl
    · rw [List.filterMap_map, ← List.filterMap_eq_map]
      exact List.filterMap_congr fun net _ ↦ parseMapping_mappingText h.colon net
  majors := by
    rw [List.map_map]
    exact h.mapped.map fun _ _ heq ↦ Int.ofNat.inj heq
  tokens := by
    have hplugs : ((ported calls).map fun p ↦ p.1.plug).Nodup := by
      have hfst := h.nodup_attachments
      rw [← map_fst_numberFrom Attachment.net (fun _ ↦ 0) (attachments calls), List.map_map] at hfst
      exact hfst
    have hports := nodup_numberFrom Attachment.net (fun _ ↦ 0) (attachments calls)
    rw [hlines, List.nodup_flatten]
    constructor
    · intro l hl
      obtain ⟨p, hp, rfl⟩ := List.mem_map.mp hl
      have hne := h.inst_ne (mem_attachments hp)
      have hdiff : p.1.plug ≠ vdePlug p.1.net p.2 := fun heq ↦ hne (congrArg Plug.inst heq)
      simpa using hdiff
    · rw [List.pairwise_map]
      have hboth := (List.pairwise_map.mp hplugs).and (List.pairwise_map.mp hports)
      apply hboth.imp_of_mem
      rintro p q hp hq ⟨hplug, hport⟩ x hx hy
      have hpinst := h.inst_ne (mem_attachments hp)
      have hqinst := h.inst_ne (mem_attachments hq)
      rcases List.mem_pair.mp hx with rfl | rfl <;> rcases List.mem_pair.mp hy with heq | heq
      · exact hplug heq
      · exact hpinst (congrArg Plug.inst heq)
      · exact hqinst (congrArg Plug.inst heq.symm)
      · injection heq with _ hnet hnumber
        exact hport (Prod.ext hnet hnumber)
  alone := by
    rw [hlines]
    intro line hline p hp q hq hpinst hqinst _
    obtain ⟨x, hx, rfl⟩ := List.mem_map.mp hline
    have hne := h.inst_ne (mem_attachments hx)
    rcases List.mem_pair.mp hp with rfl | rfl
    · exact absurd (Int.ofNat.inj hpinst) hne
    · rcases List.mem_pair.mp hq with rfl | rfl
      · exact absurd (Int.ofNat.inj hqinst) hne
      · rfl

/-- The port of an interface is its place on its network. -/
theorem mem_ported_iff (net port : Nat) (p : Plug) :
    (⟨net, p⟩, port) ∈ ported calls ↔ (onNet net (attachments calls))[port]? = some p := by
  rw [ported, mem_numberFrom_iff, onNet, List.getElem?_map, Option.map_eq_some_iff]
  simp only [Nat.zero_add]
  constructor
  · rintro ⟨i, hi, rfl⟩
    exact ⟨_, hi, rfl⟩
  · rintro ⟨a, ha, rfl⟩
    have hnet : a.net = net := by
      have hmem := List.mem_of_getElem? ha
      exact of_decide_eq_true (List.mem_filter.mp hmem).2
    refine ⟨port, ?_, rfl⟩
    rw [ha, ← hnet]

/-- The interfaces on mapped networks are cabled: each to a VDE plug of its own, which has its
place on the network as its port and is connected to the switch of the network. -/
def Cabled (tmp : Text) (calls : List IouCall) (mapped : List Nat) (wires : Wires) : Prop :=
  ∀ v sock others, (v, sock, others) ∈ wires.entries ↔
    ∃ net ∈ mapped, ∃ port p, (onNet net (attachments calls))[port]? = some p ∧
      v = vdePlug net port ∧ sock = switchSock tmp (decimal net) ∧ others = [p]

/-- What `iou2vde.py` makes of the lab. -/
theorem lab_wires (h : Sound tmp calls mapped) :
    ∃ netmap wires, (startAll calls).netmap = some netmap ∧
      parseNetmap 666 netmap (startIou2vde tmp (netText mapped)) = some wires ∧
      Cabled tmp calls mapped wires := by
  obtain ⟨netmap, hnetmap, hlines⟩ := h.netmap_eq
  obtain ⟨wires, hparse, hwires⟩ := (h.wellFormed hlines).parseNetmap_spec
  refine ⟨netmap, wires, hnetmap, hparse, ?_⟩
  intro v sock others
  rw [hwires, hlines]
  constructor
  · rintro ⟨m, hm, line, hline, ⟨hv, hinst, hmajor⟩, rfl, rfl⟩
    obtain ⟨net, hnet, rfl⟩ := List.mem_map.mp hm
    obtain ⟨⟨a, port⟩, hport, rfl⟩ := List.mem_map.mp hline
    have hne := h.inst_ne (mem_attachments hport)
    rcases List.mem_pair.mp hv with rfl | rfl
    · exact absurd (Int.ofNat.inj hinst) hne
    · obtain rfl : a.net = net := Int.ofNat.inj hmajor
      refine ⟨a.net, hnet, port, a.plug, (mem_ported_iff _ _ _).mp hport, rfl, rfl, ?_⟩
      have hdiff : a.plug ≠ vdePlug a.net port := fun heq ↦ hne (congrArg Plug.inst heq)
      simp [hdiff]
  · rintro ⟨net, hnet, port, p, hport, rfl, rfl, rfl⟩
    have hmem := (mem_ported_iff net port p).mpr hport
    have hne := h.inst_ne (mem_attachments hmem)
    have hdiff : p ≠ vdePlug net port := fun heq ↦ hne (congrArg Plug.inst heq)
    refine ⟨_, List.mem_map_of_mem hnet, _, List.mem_map_of_mem hmem,
      ⟨by simp, rfl, rfl⟩, rfl, ?_⟩
    simp [hdiff]

end

/-! ### Frames -/

/-- Frames pass between the VDE plug `v` and the interface `p`: a frame from the switch is sent
to the instance once, in a datagram that names both, and a datagram of the instance that names
both is handed on to the switch once. -/
def Passes (wires : Wires) (v p : Plug) : Prop :=
  (∀ r : Received, 0 < r.nx → ∃ d, dataReader v [p] r = [.send p v r.frame] ∧
    p.send v r.frame = some d ∧ d.inst = p.inst ∧ decode d.bytes = some (p, v, r.frame)) ∧
  ∀ buffer : List UInt8, buffer.length ≤ mtu → ∃ header, packHeader v p = some header ∧
    (setupVde wires).reader (header ++ buffer) = [⟨v, some p, buffer⟩]

private theorem get?_attachIou (pairs : List (Plug × Plug)) (r : Registries) (k : Plug) :
    (pairs.foldl (fun r pair ↦ r.attach pair.2 pair.1) r).iouplugs.get? k =
      if k ∈ pairs.map Prod.snd then some k else r.iouplugs.get? k := by
  induction pairs generalizing r with
  | nil => rfl
  | cons pair pairs ih =>
    have hattach : (r.attach pair.2 pair.1).iouplugs.get? k =
        if k = pair.2 then some pair.2 else r.iouplugs.get? k := Dict.get?_set _ _ _ _
    rw [List.foldl_cons, ih, hattach, List.map_cons]
    by_cases hmem : k ∈ pairs.map Prod.snd
    · rw [if_pos hmem, if_pos (List.mem_cons_of_mem pair.2 hmem)]
    · rw [if_neg hmem]
      by_cases hk : k = pair.2
      · have hhead : k ∈ pair.2 :: pairs.map Prod.snd := List.mem_cons.mpr (Or.inl hk)
        rw [if_pos hk, if_pos hhead, hk]
      · have hnot : k ∉ pair.2 :: pairs.map Prod.snd :=
          fun h ↦ (List.mem_cons.mp h).elim hk hmem
        rw [if_neg hk, if_neg hnot]

/-- A lookup in the registry of IOU plugs finds those that are wired. -/
theorem iouplugs_of_wired {wires : Wires} {v p : Plug} (h : Wired wires v p) :
    (setupVde wires).iouplugs.get? p = some p := by
  obtain ⟨sock, others, hget, hp⟩ := h
  have hpair : p ∈ (wirePairs wires).map Prod.snd := by
    rw [wirePairs, List.map_flatMap, List.mem_flatMap]
    refine ⟨_, Dict.mem_of_get? hget, ?_⟩
    rw [List.map_map]
    exact List.mem_map.mpr ⟨p, hp, rfl⟩
  have hfind := get?_attachIou (wirePairs wires) ⟨.empty, .empty⟩ p
  rw [if_pos hpair] at hfind
  exact hfind

/-- A header has its length and its delimiter. -/
theorem packHeader_bytes {destination source : Plug} {header : List UInt8}
    (h : packHeader destination source = some header) :
    header.length = headerSize ∧
      ∀ x, unpackHeader header = some x → (x.m1, x.m2) = (0x01, 0x00) := by
  unfold packHeader packH packB at h
  split at h
  · split at h
    · split at h
      · split at h
        · obtain rfl := Option.some.inj h
          refine ⟨rfl, ?_⟩
          rintro x hx
          obtain rfl := Option.some.inj hx
          rfl
        · cases h
      · cases h
    · cases h
  · cases h

/-- A datagram with a header for a wired pair reaches the switch. -/
theorem reader_of_wired {wires : Wires} {v p : Plug} (h : Wired wires v p) (hv : v.Fits)
    (hp : p.Fits) {buffer : List UInt8} (hlength : buffer.length ≤ mtu) :
    ∃ header, packHeader v p = some header ∧
      (setupVde wires).reader (header ++ buffer) = [⟨v, some p, buffer⟩] := by
  obtain ⟨d, hsend, hdecode⟩ := (roundTrip_iff p v buffer).mpr ⟨hp, hv⟩
  obtain ⟨header, hheader, rfl⟩ := Option.map_eq_some_iff.mp hsend
  refine ⟨header, hheader, ?_⟩
  have hbytes := packHeader_bytes hheader
  have htake : (header ++ buffer).take (mtu + headerSize) = header ++ buffer := by
    apply List.take_of_length_le
    rw [List.length_append, hbytes.1]
    omega
  have hhead : (header ++ buffer).take headerSize = header := by
    rw [← hbytes.1, List.take_left]
  have htail : (header ++ buffer).drop headerSize = buffer := by
    rw [← hbytes.1, List.drop_left]
  unfold decode at hdecode
  dsimp only at hdecode
  rw [hhead, htail] at hdecode
  obtain ⟨x, hx, hnames⟩ := Option.map_eq_some_iff.mp hdecode
  obtain ⟨hdestination, hnames⟩ := Prod.mk.inj hnames
  obtain ⟨hsource, -⟩ := Prod.mk.inj hnames
  have hregistered : (setupVde wires).vdeplugs.get? v = some v := by
    rcases get?_setupVde wires v with ⟨hget, -⟩ | ⟨-, hnot⟩
    · exact hget
    · exact absurd ⟨p, h⟩ hnot
  unfold Registries.reader
  dsimp only
  rw [htake, hhead, htail, hx]
  dsimp only
  rw [if_neg (not_not.mpr (hbytes.2 x hx)), hdestination, hregistered, hsource,
    iouplugs_of_wired h]

/-- Frames pass between two plugs that are wired exactly when both fit the header. -/
theorem passes_iff {wires : Wires} {v p : Plug} (h : Wired wires v p) :
    Passes wires v p ↔ v.Fits ∧ p.Fits := by
  constructor
  · intro hpass
    obtain ⟨d, -, hsend, -, hdecode⟩ := hpass.1 oneByte Int.one_pos
    exact (roundTrip_iff v p _).mp ⟨d, hsend, hdecode⟩
  · rintro ⟨hv, hp⟩
    refine ⟨fun r hr ↦ ?_, fun buffer ↦ reader_of_wired h hv hp⟩
    obtain ⟨d, hsend, hdecode⟩ := (roundTrip_iff v p r.frame).mpr ⟨hv, hp⟩
    refine ⟨d, ?_, hsend, ?_, hdecode⟩
    · unfold dataReader sendAll
      rw [if_neg (Int.not_le.mpr hr), List.nil_append]
      split <;> rfl
    · obtain ⟨header, -, rfl⟩ := Option.map_eq_some_iff.mp hsend
      rfl

/-- The numbers of the lab fit the header: each mapped network in use has a number below 16 and
at most 16 interfaces, all of them among the first 64 of an instance whose number has 16 bits. -/
def Numbered (calls : List IouCall) (mapped : List Nat) : Prop :=
  ∀ net ∈ mapped, onNet net (attachments calls) ≠ [] →
    net < 16 ∧ (onNet net (attachments calls)).length ≤ 16 ∧
      ∀ p ∈ onNet net (attachments calls), p.inst < 65536 ∧ p.major < 16

/-- `iou2vde.py` accepts what the lab writes and cables every interface on a mapped network, and
frames pass between all interfaces and their switches exactly when the numbers fit the header. -/
theorem lab_cabling {tmp : Text} {calls : List IouCall} {mapped : List Nat}
    (h : Sound tmp calls mapped) :
    ∃ netmap wires, (startAll calls).netmap = some netmap ∧
      parseNetmap 666 netmap (startIou2vde tmp (netText mapped)) = some wires ∧
      Cabled tmp calls mapped wires ∧
      ((∀ v p, Wired wires v p → Passes wires v p) ↔ Numbered calls mapped) := by
  obtain ⟨netmap, wires, hnetmap, hparse, hwires⟩ := lab_wires h
  refine ⟨netmap, wires, hnetmap, hparse, hwires, ?_⟩
  have hwired {net port : Nat} {p : Plug} (hnet : net ∈ mapped)
      (hport : (onNet net (attachments calls))[port]? = some p) :
      Wired wires (vdePlug net port) p :=
    ⟨_, _, Dict.get?_of_mem ((hwires _ _ _).mpr ⟨net, hnet, port, p, hport, rfl, rfl, rfl⟩),
      List.mem_singleton_self p⟩
  have hpass {net port : Nat} {p : Plug} (hnet : net ∈ mapped)
      (hport : (onNet net (attachments calls))[port]? = some p) :
      Passes wires (vdePlug net port) p ↔
        (net < 16 ∧ port < 16) ∧ p.inst < 65536 ∧ p.major < 16 := by
    obtain ⟨a, ha, rfl⟩ := List.mem_map.mp (List.mem_of_getElem? hport)
    obtain ⟨c, -, hac⟩ := List.mem_flatMap.mp (List.mem_filter.mp ha).1
    have hminor := (mem_interfaces hac).2
    rw [passes_iff (hwired hnet hport)]
    unfold Plug.Fits vdePlug
    dsimp only
    omega
  constructor
  · intro hall net hnet hused
    have hplace {port : Nat} (hport : port < (onNet net (attachments calls)).length) :=
      (hpass hnet (List.getElem?_eq_getElem hport)).mp
        (hall _ _ (hwired hnet (List.getElem?_eq_getElem hport)))
    have hfirst := hplace (List.length_pos_iff.mpr hused)
    refine ⟨hfirst.1.1, ?_, ?_⟩
    · by_contra hlength
      have hlast : 16 < (onNet net (attachments calls)).length := Nat.not_le.mp hlength
      exact absurd (hplace hlast).1.2 (Nat.lt_irrefl 16)
    · intro p hp
      obtain ⟨port, hport, rfl⟩ := List.mem_iff_getElem.mp hp
      exact (hplace hport).2
  · intro hall v p hwire
    obtain ⟨sock, others, hget, hp⟩ := hwire
    obtain ⟨net, hnet, port, p', hport, rfl, -, rfl⟩ := (hwires _ _ _).mp (Dict.mem_of_get? hget)
    obtain rfl := List.mem_singleton.mp hp
    have hused := List.mem_of_getElem? hport
    obtain ⟨hnumber, hlength, hplugs⟩ := hall net hnet (List.ne_nil_of_mem hused)
    obtain ⟨hlt, -⟩ := List.getElem?_eq_some_iff.mp hport
    exact (hpass hnet hport).mpr ⟨⟨hnumber, by omega⟩, hplugs p hused⟩

/-- The lab as it is shipped: two instances on one network. -/
theorem shipped_lab_cabling :
    ∃ netmap wires, (startAll [⟨10, [1]⟩, ⟨11, [1]⟩]).netmap = some netmap ∧
      parseNetmap 666 netmap (startIou2vde "/tmp/t" (netText [1])) = some wires ∧
      Cabled "/tmp/t" [⟨10, [1]⟩, ⟨11, [1]⟩] [1] wires ∧
      ((∀ v p, Wired wires v p → Passes wires v p) ↔
        Numbered [⟨10, [1]⟩, ⟨11, [1]⟩] [1]) :=
  lab_cabling ⟨by decide, by decide, by decide, by decide, not_isBlank_of_any rfl, by decide⟩

end NetworkLab.Iou
