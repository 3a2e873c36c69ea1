import NetworkLab.Iou.Header

/-!
# Forwarding from IOU to VDE

`IOUPlugBase._reader` and `attach` of `lab-iou/iou2vde.py:235–273` after `setup_vde`,
`:374–383`. Plugs are looked up by their triple. A datagram is cut when it is received; an
unknown source is only logged.
-/

namespace NetworkLab.Iou

open Lib

/-- The registries of the class that `IOUPlugFactory` creates, `:221–225`. -/
structure Registries where
  vdeplugs : Dict Plug Plug
  iouplugs : Dict Plug Plug

/-- `IOUPlugBase.attach` of an IOU plug to a VDE plug, `:270–273`. -/
def Registries.attach (r : Registries) (self other : Plug) : Registries where
  vdeplugs := r.vdeplugs.set other other
  iouplugs := r.iouplugs.set self self

/-- The wires with their plugs, in the order of `setup_vde`. -/
def wirePairs (wires : Wires) : List (Plug × Plug) :=
  wires.entries.flatMap fun wire ↦ wire.2.2.map (wire.1, ·)

/-- The registries after `setup_vde`, `:374–383`. -/
def setupVde (wires : Wires) : Registries :=
  (wirePairs wires).foldl (fun r pair ↦ r.attach pair.2 pair.1) ⟨.empty, .empty⟩

/-- A call of `VDEPlug.send`: the plug, the source it is told and the bytes. -/
structure Send where
  destination : Plug
  source : Option Plug
  buffer : List UInt8
  deriving DecidableEq

/-- `_reader` for one datagram on the socket, `:235–268`. -/
def Registries.reader (r : Registries) (datagram : List UInt8) : List Send :=
  let data := datagram.take (mtu + headerSize)
  match unpackHeader (data.take headerSize) with
  | none => []
  | some h =>
    if (h.m1, h.m2) ≠ (0x01, 0x00) then []
    else
      let source := r.iouplugs.get? h.source
      match r.vdeplugs.get? h.destination with
      | none => []
      | some destination => [{ destination, source, buffer := data.drop headerSize }]

/-! ### Registries -/

private theorem get?_attach (r : Registries) (self other k : Plug) :
    (r.attach self other).vdeplugs.get? k =
      if k = other then some other else r.vdeplugs.get? k :=
  Dict.get?_set r.vdeplugs other k other

private theorem get?_attachAll (pairs : List (Plug × Plug)) (r : Registries) (k : Plug) :
    (pairs.foldl (fun r pair ↦ r.attach pair.2 pair.1) r).vdeplugs.get? k =
      if k ∈ pairs.map Prod.fst then some k else r.vdeplugs.get? k := by
  induction pairs generalizing r with
  | nil => rfl
  | cons pair pairs ih =>
    rw [List.foldl_cons, ih, get?_attach, List.map_cons]
    by_cases hmem : k ∈ pairs.map Prod.fst
    · rw [if_pos hmem, if_pos (List.mem_cons_of_mem pair.1 hmem)]
    · rw [if_neg hmem]
      by_cases hk : k = pair.1
      · have hhead : k ∈ pair.1 :: pairs.map Prod.fst := List.mem_cons.mpr (Or.inl hk)
        rw [if_pos hk, if_pos hhead, hk]
      · have hnot : k ∉ pair.1 :: pairs.map Prod.fst :=
          fun h ↦ (List.mem_cons.mp h).elim hk hmem
        rw [if_neg hk, if_neg hnot]

/-- A VDE plug is registered once an IOU plug is wired to it. -/
def Registered (wires : Wires) (d : Plug) : Prop := ∃ w, Wired wires d w

private theorem mem_wirePairs (wires : Wires) (v w : Plug) :
    (v, w) ∈ wirePairs wires ↔ Wired wires v w := by
  unfold wirePairs Wired
  rw [List.mem_flatMap]
  constructor
  · rintro ⟨⟨v', sock, others⟩, hmem, hpair⟩
    obtain ⟨w', hw', heq⟩ := List.mem_map.mp hpair
    obtain ⟨rfl, rfl⟩ := Prod.mk.inj heq
    exact ⟨sock, others, Dict.get?_of_mem hmem, hw'⟩
  · rintro ⟨sock, others, hget, hw⟩
    exact ⟨_, Dict.mem_of_get? hget, List.mem_map_of_mem hw⟩

/-- A lookup in the registry of VDE plugs finds the registered ones. -/
theorem get?_setupVde (wires : Wires) (d : Plug) :
    ((setupVde wires).vdeplugs.get? d = some d ∧ Registered wires d) ∨
      ((setupVde wires).vdeplugs.get? d = none ∧ ¬ Registered wires d) := by
  have hmem : d ∈ (wirePairs wires).map Prod.fst ↔ Registered wires d := by
    rw [List.mem_map]
    constructor
    · rintro ⟨⟨v, w⟩, hpair, rfl⟩
      exact ⟨w, (mem_wirePairs wires v w).mp hpair⟩
    · rintro ⟨w, hw⟩
      exact ⟨(d, w), (mem_wirePairs wires d w).mpr hw, rfl⟩
  have hget := get?_attachAll (wirePairs wires) ⟨.empty, .empty⟩ d
  by_cases hd : d ∈ (wirePairs wires).map Prod.fst
  · left
    rw [if_pos hd] at hget
    exact ⟨hget, hmem.mp hd⟩
  · right
    rw [if_neg hd] at hget
    exact ⟨hget, fun h ↦ hd (hmem.mpr h)⟩

/-! ### Policy -/

/-- A header that is complete, has the delimiter and names a registered VDE plug. -/
def Addressed (wires : Wires) (datagram : List UInt8) (h : Header) : Prop :=
  unpackHeader (datagram.take headerSize) = some h ∧ (h.m1, h.m2) = (0x01, 0x00) ∧
    Registered wires h.destination

/-- The forwarding policy: the bytes after the header go once, unchanged, to the VDE plug
that the header names if its source is wired to it, and nothing else is sent. -/
def Forwards (wires : Wires) (datagram : List UInt8) : Prop :=
  let sends := ((setupVde wires).reader datagram).map fun s ↦ (s.destination, s.buffer)
  (∀ h, Addressed wires datagram h → Wired wires h.destination h.source →
    sends = [(h.destination, datagram.drop headerSize)]) ∧
  ((¬ ∃ h, Addressed wires datagram h ∧ Wired wires h.destination h.source) → sends = [])

/-- A datagram has one header. -/
theorem Addressed.unique {wires : Wires} {datagram : List UInt8} {h h' : Header}
    (haddr : Addressed wires datagram h)
    (hunpack : unpackHeader (datagram.take headerSize) = some h') : h = h' :=
  Option.some.inj (haddr.1.symm.trans hunpack)

private theorem take_header (datagram : List UInt8) :
    (datagram.take (mtu + headerSize)).take headerSize = datagram.take headerSize := by
  rw [List.take_take, Nat.min_eq_left (Nat.le_add_left _ _)]

/-- All that `_reader` does: an addressed datagram is handed on, cut, whatever its source. -/
theorem reader_spec (wires : Wires) (datagram : List UInt8) :
    (∃ h, Addressed wires datagram h ∧
      ((setupVde wires).reader datagram).map (fun s ↦ (s.destination, s.buffer)) =
        [(h.destination, (datagram.take (mtu + headerSize)).drop headerSize)]) ∨
    ((¬ ∃ h, Addressed wires datagram h) ∧ (setupVde wires).reader datagram = []) := by
  unfold Registries.reader
  dsimp only
  rw [take_header]
  cases hunpack : unpackHeader (datagram.take headerSize) with
  | none =>
    right
    refine ⟨?_, rfl⟩
    rintro ⟨h, hh, -⟩
    rw [hunpack] at hh
    cases hh
  | some h =>
    dsimp only
    by_cases hdelim : (h.m1, h.m2) = (0x01, 0x00)
    · rw [if_neg (not_not.mpr hdelim)]
      rcases get?_setupVde wires h.destination with ⟨hget, hreg⟩ | ⟨hget, hnot⟩
      · left
        rw [hget]
        exact ⟨h, ⟨hunpack, hdelim, hreg⟩, rfl⟩
      · right
        rw [hget]
        refine ⟨?_, rfl⟩
        rintro ⟨h', haddr⟩
        rw [haddr.unique hunpack] at haddr
        exact hnot haddr.2.2
    · right
      rw [if_pos hdelim]
      refine ⟨?_, rfl⟩
      rintro ⟨h', haddr⟩
      rw [haddr.unique hunpack] at haddr
      exact hdelim haddr.2.1

/-- The policy holds for a datagram exactly when its header is incomplete, has a wrong
delimiter or names no registered VDE plug, or when its source is wired to the plug it
names and it is no longer than the reader's buffer. -/
theorem forwards_iff (wires : Wires) (datagram : List UInt8) :
    Forwards wires datagram ↔
      ∀ h, Addressed wires datagram h →
        Wired wires h.destination h.source ∧ datagram.length ≤ mtu + headerSize := by
  unfold Forwards
  dsimp only
  rcases reader_spec wires datagram with ⟨h, haddr, hsends⟩ | ⟨hnone, hsends⟩
  · rw [hsends]
    constructor
    · intro ⟨hwired, hother⟩ h' haddr'
      rw [haddr'.unique haddr.1]
      by_cases hw : Wired wires h.destination h.source
      · refine ⟨hw, ?_⟩
        -- Only a datagram that was not cut keeps its length.
        have hbuffer := congrArg (List.map (fun x ↦ x.2.length)) (hwired h haddr hw)
        simp only [List.map_cons, List.map_nil, List.length_drop, List.length_take,
          List.cons.injEq, and_true] at hbuffer
        have hsize : mtu + headerSize = 1588 ∧ headerSize = 8 := ⟨rfl, rfl⟩
        omega
      · have hnot : ¬ ∃ h', Addressed wires datagram h' ∧ Wired wires h'.destination h'.source := by
          rintro ⟨h'', haddr'', hw''⟩
          rw [haddr''.unique haddr.1] at hw''
          exact hw hw''
        cases hother hnot
    · intro hall
      obtain ⟨hw, hlen⟩ := hall h haddr
      rw [List.take_of_length_le hlen]
      constructor
      · intro h' haddr' _
        rw [haddr'.unique haddr.1]
      · intro hnot
        exact absurd ⟨h, haddr, hw⟩ hnot
  · rw [hsends]
    constructor
    · intro _ h' haddr'
      exact absurd ⟨h', haddr'⟩ hnone
    · intro _
      exact ⟨fun h' haddr' _ ↦ absurd ⟨h', haddr'⟩ hnone, fun _ ↦ rfl⟩

/-- One bus between port `1/0` of this program and port `0/1` of instance 2. -/
def oneWire : Wires := Dict.empty.set ⟨666, 1, 0⟩ ("/tmp/s".toList, [⟨2, 0, 1⟩])

/-- A datagram from instance 9, which is wired to nothing, reaches the switch. -/
theorem unknown_source_forwarded :
    (setupVde oneWire).reader [2, 154, 0, 9, 1, 0, 1, 0, 7] =
        [{ destination := ⟨666, 1, 0⟩, source := none, buffer := [7] }] ∧
      ¬ Forwards oneWire [2, 154, 0, 9, 1, 0, 1, 0, 7] := by
  have hreader : (setupVde oneWire).reader [2, 154, 0, 9, 1, 0, 1, 0, 7] =
      [{ destination := ⟨666, 1, 0⟩, source := none, buffer := [7] }] := by decide
  refine ⟨hreader, ?_⟩
  intro ⟨_, hother⟩
  rw [hreader] at hother
  have hnot : ¬ ∃ h, Addressed oneWire [2, 154, 0, 9, 1, 0, 1, 0, 7] h ∧
      Wired oneWire h.destination h.source := by
    rintro ⟨h, ⟨hunpack, -⟩, sock, others, hget, hmem⟩
    obtain rfl : ⟨666, 9, 1, 0, 1, 0⟩ = h := Option.some.inj hunpack
    obtain rfl : [⟨2, 0, 1⟩] = others := congrArg Prod.snd (Option.some.inj hget)
    revert hmem
    decide
  cases hother hnot

end NetworkLab.Iou
