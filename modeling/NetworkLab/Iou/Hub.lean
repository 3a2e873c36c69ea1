import NetworkLab.Iou.Wiring
import Mathlib.Data.List.Perm.Subperm

/-!
# Delivery from VDE to IOU

`VDEPlug._data_reader` of `lab-iou/iou2vde.py:140–154` after `setup_vde`, `:374–383`, which
gives each VDE plug its IOU plugs. An error of the system in `IOUPlug.send` is caught there;
an error of packing is not, and ends the loop over the plugs.
-/

namespace NetworkLab.Iou

/-- What `vde_recv` leaves: its result and the buffer, `:144–145`. -/
structure Received where
  nx : Int
  buffer : List UInt8
  size : buffer.length = mtu
  bound : nx ≤ mtu

/-- `ffi.buffer(buffer, nx)`, `:154`. A negative size stands for the whole array. -/
def Received.frame (r : Received) : List UInt8 :=
  if r.nx < 0 then r.buffer else r.buffer.take r.nx.toNat

/-- A frame of one byte. -/
def oneByte : Received := ⟨1, List.replicate mtu 0, List.length_replicate, by decide⟩

/-- What `_data_reader` does. -/
inductive Effect where
  | close
  | send (other self : Plug) (buffer : List UInt8)
  deriving DecidableEq

/-- The loop over the IOU plugs, `:153–154`. -/
def sendAll (self : Plug) (frame : List UInt8) : List Plug → List Effect
  | [] => []
  | other :: others =>
    .send other self frame :: match other.send self frame with
      | none => []
      | some _ => sendAll self frame others

/-- `_data_reader`, `:140–154`. It goes on after it has closed the plug. -/
def dataReader (self : Plug) (others : List Plug) (r : Received) : List Effect :=
  (if r.nx ≤ 0 then [.close] else []) ++ sendAll self r.frame others

/-! ### The loop -/

/-- The loop sends to the plugs in order, as far as it gets. -/
theorem sendAll_upTo (self : Plug) (frame : List UInt8) (others : List Plug) :
    sendAll self frame others <+: others.map (Effect.send · self frame) := by
  induction others with
  | nil => exact List.prefix_rfl
  | cons other others ih =>
    rw [sendAll, List.map_cons, List.prefix_cons_inj]
    split
    · exact List.nil_prefix
    · exact ih

/-- The loop gets to the end if sending raises for none but the last plug. -/
theorem sendAll_eq_map_iff (self : Plug) (frame : List UInt8) (others : List Plug) :
    sendAll self frame others = others.map (Effect.send · self frame) ↔
      ∀ w ∈ others.dropLast, w.Packs ∧ self.Packs := by
  induction others with
  | nil => simp [sendAll]
  | cons other others ih =>
    rw [sendAll, List.map_cons, List.cons_inj_right]
    have hsend := send_isSome_iff other self frame
    cases others with
    | nil => split <;> simp [sendAll]
    | cons next others =>
      rw [List.dropLast_cons_cons, List.forall_mem_cons, ← hsend, ← ih]
      cases other.send self frame with
      | none => simp
      | some datagram => simp

private theorem send_injective (self : Plug) (frame : List UInt8) :
    Function.Injective (Effect.send · self frame) := by
  intro w w' heq
  injection heq

/-! ### Hub semantics -/

/-- The frame goes once to each port of the line but `v`, and nothing else is done. -/
def Delivers (v : Plug) (line : List Plug) (frame : List UInt8) (effects : List Effect) : Prop :=
  (∀ t, effects.count (.send t v frame) = if t ∈ line ∧ t ≠ v then 1 else 0) ∧
    ∀ e ∈ effects, ∃ t, e = .send t v frame

/-- Each frame reaches the other ports on the line of its VDE plug, and the wires do not
depend on the order of the mappings. -/
structure HubSemantics (inst : Int) (netmap : List Char) (mappings : List (List Char)) :
    Prop where
  delivers : ∀ wires, parseNetmap inst netmap mappings = some wires →
    ∀ v sock others, wires.get? v = some (sock, others) →
      ∃ line ∈ netmapLines netmap, v ∈ line ∧
        ∀ r : Received, 0 < r.nx → Delivers v line r.frame (dataReader v others r)
  orderFree : ∀ mappings', mappings'.Perm mappings →
    ∃ wires wires', parseNetmap inst netmap mappings = some wires ∧
      parseNetmap inst netmap mappings' = some wires' ∧
      ∀ wire, wire ∈ wires'.entries ↔ wire ∈ wires.entries

/-- A frame reaches all other ports of a line when no plug but the last raises. -/
theorem delivers_iff {v : Plug} {line : List Plug} (hnodup : line.Nodup) (r : Received)
    (hr : 0 < r.nx) :
    Delivers v line r.frame (dataReader v (line.filter (· ≠ v)) r) ↔
      ∀ w ∈ (line.filter (· ≠ v)).dropLast, w.Packs ∧ v.Packs := by
  have hothers : (line.filter (· ≠ v)).Nodup := hnodup.filter _
  have hmem (t : Plug) : t ∈ line.filter (· ≠ v) ↔ t ∈ line ∧ t ≠ v := by simp
  rw [← sendAll_eq_map_iff v r.frame]
  unfold dataReader Delivers
  rw [if_neg (Int.not_le.mpr hr), List.nil_append]
  generalize line.filter (· ≠ v) = others at hothers hmem
  have hall : (others.map (Effect.send · v r.frame)).Nodup :=
    hothers.map (send_injective v r.frame)
  constructor
  · intro ⟨hcount, _⟩
    -- The sends that were made are a prefix, and none of them all is missing.
    apply (sendAll_upTo v r.frame others).sublist.eq_of_length_le
    apply List.Subperm.length_le
    apply hall.subperm
    intro e he
    obtain ⟨t, ht, rfl⟩ := List.mem_map.mp he
    have hone := hcount t
    rw [if_pos ((hmem t).mp ht)] at hone
    exact List.count_pos_iff.mp (hone ▸ Nat.one_pos)
  · intro heq
    rw [heq]
    constructor
    · intro t
      rw [hall.count]
      exact if_congr ((List.mem_map_of_injective (send_injective v r.frame)).trans (hmem t)) rfl rfl
    · intro e he
      obtain ⟨t, _, rfl⟩ := List.mem_map.mp he
      exact ⟨t, rfl⟩

/-- The wires are the same set for any order of the mappings. -/
theorem WellFormed.orderFree {inst : Int} {netmap : List Char}
    {mappings mappings' : List (List Char)} {ms : List Mapping}
    (h : WellFormed inst netmap mappings ms) (hperm : mappings'.Perm mappings) :
    ∃ wires wires', parseNetmap inst netmap mappings = some wires ∧
      parseNetmap inst netmap mappings' = some wires' ∧
      ∀ wire, wire ∈ wires'.entries ↔ wire ∈ wires.entries := by
  obtain ⟨ms', h', hms⟩ := h.perm hperm
  obtain ⟨wires, hparse, hwires⟩ := h.parseNetmap_spec
  obtain ⟨wires', hparse', hwires'⟩ := h'.parseNetmap_spec
  refine ⟨wires, wires', hparse, hparse', ?_⟩
  intro ⟨v, sock, others⟩
  rw [hwires, hwires']
  simp only [hms.mem_iff]

/-- For a NETMAP that names each port once, every frame is delivered to all other ports on
its line exactly when the numbers of its plug and of each other port but the last can be
packed into a header. -/
theorem hubSemantics_iff {inst : Int} {netmap : List Char} {mappings : List (List Char)}
    {ms : List Mapping} (h : WellFormed inst netmap mappings ms) :
    HubSemantics inst netmap mappings ↔
      ∀ line ∈ netmapLines netmap, ∀ v ∈ line, v.inst = inst → (∃ m ∈ ms, v.major = m.major) →
        ∀ w ∈ (line.filter (· ≠ v)).dropLast, w.Packs ∧ v.Packs := by
  obtain ⟨wires, hparse, hwires⟩ := h.parseNetmap_spec
  have hnodup {line : List Plug} (hline : line ∈ netmapLines netmap) : line.Nodup :=
    (List.nodup_flatten.mp h.tokens).1 line hline
  constructor
  · intro hhub line hline v hv hinst ⟨m, hm, hmajor⟩
    have hentry : (v, m.sock, line.filter (· ≠ v)) ∈ wires.entries :=
      (hwires _ _ _).mpr ⟨m, hm, line, hline, ⟨hv, hinst, hmajor⟩, rfl, rfl⟩
    obtain ⟨line', hline', hv', hdelivers⟩ :=
      hhub.delivers wires hparse v _ _ (Lib.Dict.get?_of_mem hentry)
    obtain rfl := h.line_unique hline' hline hv' hv
    exact (delivers_iff (hnodup hline) oneByte Int.one_pos).mp (hdelivers oneByte Int.one_pos)
  · intro hpacks
    refine ⟨?_, fun mappings' hperm ↦ h.orderFree hperm⟩
    intro wires' hparse' v sock others hget
    obtain rfl := Option.some.inj (hparse.symm.trans hparse')
    obtain ⟨m, hm, line, hline, ⟨hv, hinst, hmajor⟩, rfl, rfl⟩ :=
      (hwires v sock others).mp (Lib.Dict.mem_of_get? hget)
    refine ⟨line, hline, hv, ?_⟩
    intro r hr
    exact (delivers_iff (hnodup hline) r hr).mpr
      (hpacks line hline v hv hinst ⟨m, hm, hmajor⟩)

/-- On two buses with ports that can be packed every frame is delivered. -/
theorem twoBuses_hubSemantics :
    HubSemantics 666 "1:0/0 2:0/0 666:1/0 1\n1:0/1 3:0/0 666:2/0 1\n".toList
      ["1:/tmp/s".toList, "2:/tmp/t".toList] := by
  have hwf : WellFormed 666 "1:0/0 2:0/0 666:1/0 1\n1:0/1 3:0/0 666:2/0 1\n".toList
      ["1:/tmp/s".toList, "2:/tmp/t".toList] [⟨1, "/tmp/s".toList⟩, ⟨2, "/tmp/t".toList⟩] :=
    ⟨by decide, by decide, by decide, by decide⟩
  exact (hubSemantics_iff hwf).mpr (by decide)

/-- On a bus with port 16 of this program a frame from that port gets to no second plug:
sending to the first raises. -/
theorem sixteenth_minor_stops :
    WellFormed 666 "1:0/0 2:0/0 666:1/16 1\n".toList ["1:/tmp/s".toList]
        [⟨1, "/tmp/s".toList⟩] ∧
      (∀ r : Received, 0 < r.nx → dataReader ⟨666, 1, 16⟩ [⟨1, 0, 0⟩, ⟨2, 0, 0⟩] r =
        [.send ⟨1, 0, 0⟩ ⟨666, 1, 16⟩ r.frame]) ∧
      ¬ HubSemantics 666 "1:0/0 2:0/0 666:1/16 1\n".toList ["1:/tmp/s".toList] := by
  have hwf : WellFormed 666 "1:0/0 2:0/0 666:1/16 1\n".toList ["1:/tmp/s".toList]
      [⟨1, "/tmp/s".toList⟩] := ⟨by decide, by decide, by decide, by decide⟩
  have hreader (r : Received) (hr : 0 < r.nx) :
      dataReader ⟨666, 1, 16⟩ [⟨1, 0, 0⟩, ⟨2, 0, 0⟩] r =
        [.send ⟨1, 0, 0⟩ ⟨666, 1, 16⟩ r.frame] := by
    unfold dataReader
    rw [if_neg (Int.not_le.mpr hr)]
    rfl
  refine ⟨hwf, hreader, ?_⟩
  intro hhub
  obtain ⟨line, hline, -, hdelivers⟩ := hhub.delivers _ rfl ⟨666, 1, 16⟩ "/tmp/s".toList
    [⟨1, 0, 0⟩, ⟨2, 0, 0⟩] (by decide)
  obtain rfl : line = [⟨1, 0, 0⟩, ⟨2, 0, 0⟩, ⟨666, 1, 16⟩] := List.mem_singleton.mp hline
  have hsecond := (hdelivers oneByte Int.one_pos).1 ⟨2, 0, 0⟩
  rw [hreader oneByte Int.one_pos, if_pos (by decide)] at hsecond
  have hmem := List.count_pos_iff.mp (hsecond ▸ Nat.one_pos)
  cases List.mem_singleton.mp hmem

end NetworkLab.Iou
