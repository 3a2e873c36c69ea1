import NetworkLab.Iou.Hub
import NetworkLab.Iou.Reader

/-!
# Losing a VDE switch

The callbacks of `lab-iou/iou2vde.py:135–200` and `:235–297` as steps of the event loop, which
runs a callback only while its reader is registered. An exception that leaves a callback stops
the loop, `:386–388`: fewer events follow then.
-/

namespace NetworkLab.Iou

open Lib

/-- A VDE plug: whether `_conn` is a connection, the readers that the loop has for it, and its
`_others`. A connection has both readers. -/
structure VdePlug where
  conn : Bool
  ctlReader : Bool
  dataReader : Bool
  others : List Plug
  ctl_eq : ctlReader = conn
  data_eq : dataReader = conn

/-- `VDEPlug.attach` to a switch, `:164–189`. -/
def VdePlug.attach (others : List Plug) : VdePlug := ⟨true, true, true, others, rfl, rfl⟩

/-- `VDEPlug.close`, `:156–162`. It leaves `_others` alone. -/
def VdePlug.close (p : VdePlug) : VdePlug := ⟨false, false, false, p.others, rfl, rfl⟩

/-- The registries, and the VDE plugs by their triples. -/
structure Hub where
  registries : Registries
  plugs : Plug → Option VdePlug

/-- The hub after `setup_vde`, `:374–383`. -/
def Hub.setUp (wires : Wires) : Hub where
  registries := setupVde wires
  plugs v := (wires.get? v).map fun wire ↦ VdePlug.attach wire.2

/-- What leaves the program: a datagram to an IOU instance, from a VDE plug, or bytes to the
switch of a VDE plug. -/
inductive Output where
  | toIou (vde : Plug) (datagram : Datagram)
  | toSwitch (vde : Plug) (buffer : List UInt8)
  deriving DecidableEq

/-- The VDE plug of an output. -/
def Output.vde : Output → Plug
  | .toIou vde _ => vde
  | .toSwitch vde _ => vde

/-- What the loop sees: a descriptor of a VDE plug, or a datagram on the socket. -/
inductive Event where
  | ctl (v : Plug)
  | data (v : Plug) (r : Received)
  | socket (datagram : List UInt8)

/-- What `_data_reader` does to its plug. -/
def VdePlug.apply (p : VdePlug) : Effect → VdePlug
  | .close => p.close
  | .send _ _ _ => p

/-- What `_data_reader` hands to the socket. Nothing is when packing raises. -/
def Effect.outputs : Effect → List Output
  | .close => []
  | .send other self buffer => (other.send self buffer).toList.map (.toIou self)

/-- `VDEPlug.send`, `:191–200`. -/
def Hub.vdeSend (hub : Hub) (s : Send) : List Output :=
  match hub.plugs s.destination with
  | none => []
  | some p => if p.conn then [.toSwitch s.destination s.buffer] else []

/-- One event. -/
def Hub.step (hub : Hub) : Event → Hub × List Output
  | .ctl v =>
    match hub.plugs v with
    | none => (hub, [])
    | some p =>
      if p.ctlReader then
        ({ hub with plugs := Function.update hub.plugs v (some p.close) }, [])
      else (hub, [])
  | .data v r =>
    match hub.plugs v with
    | none => (hub, [])
    | some p =>
      if p.dataReader then
        let effects := dataReader v p.others r
        ({ hub with plugs := Function.update hub.plugs v (some (effects.foldl VdePlug.apply p)) },
          effects.flatMap Effect.outputs)
      else (hub, [])
  | .socket datagram => (hub, (hub.registries.reader datagram).flatMap hub.vdeSend)

/-- A sequence of events. -/
def Hub.run (hub : Hub) : List Event → Hub × List Output
  | [] => (hub, [])
  | e :: es => (((hub.step e).1.run es).1, (hub.step e).2 ++ ((hub.step e).1.run es).2)

/-! ### Closed plugs -/

/-- A plug is closed and has no reader. -/
def Hub.Closed (hub : Hub) (v : Plug) : Prop :=
  ∃ p, hub.plugs v = some p ∧ p.conn = false ∧ p.ctlReader = false ∧ p.dataReader = false

private theorem vde_of_mem_outputs {v : Plug} {frame : List UInt8} {others : List Plug} {o : Output}
    (ho : o ∈ (sendAll v frame others).flatMap Effect.outputs) : o.vde = v := by
  obtain ⟨e, he, hmem⟩ := List.mem_flatMap.mp ho
  obtain ⟨w, -, rfl⟩ := List.mem_map.mp ((sendAll_upTo v frame others).subset he)
  obtain ⟨d, -, rfl⟩ := List.mem_map.mp hmem
  rfl

private theorem vde_of_mem_dataReader {v : Plug} {others : List Plug} {r : Received} {o : Output}
    (ho : o ∈ (dataReader v others r).flatMap Effect.outputs) : o.vde = v := by
  unfold dataReader at ho
  rw [List.flatMap_append, List.mem_append] at ho
  rcases ho with ho | ho
  · split at ho
    · cases ho
    · cases ho
  · exact vde_of_mem_outputs ho

/-- An event leaves a closed plug closed, and nothing leaves the program through it. -/
theorem Hub.Closed.step {hub : Hub} {v : Plug} (h : hub.Closed v) (e : Event) :
    (hub.step e).1.Closed v ∧ ∀ o ∈ (hub.step e).2, o.vde ≠ v := by
  obtain ⟨p, hp, hconn, hctl, hdata⟩ := h
  have hclosed : hub.Closed v := ⟨p, hp, hconn, hctl, hdata⟩
  have hupdate (w : Plug) (q : VdePlug) (hw : w ≠ v) :
      Hub.Closed { hub with plugs := Function.update hub.plugs w (some q) } v :=
    ⟨p, by rw [← hp]; exact Function.update_of_ne (Ne.symm hw) _ _, hconn, hctl, hdata⟩
  have hnone : ∀ o ∈ ([] : List Output), o.vde ≠ v := fun _ ho ↦ (nomatch ho)
  cases e with
  | ctl w =>
    unfold Hub.step
    dsimp only
    split
    · exact ⟨hclosed, hnone⟩
    · next q hq =>
      split
      · next hreader =>
        refine ⟨hupdate w _ ?_, hnone⟩
        rintro rfl
        rw [hp] at hq
        rw [← Option.some.inj hq, hctl] at hreader
        cases hreader
      · exact ⟨hclosed, hnone⟩
  | data w r =>
    unfold Hub.step
    dsimp only
    split
    · exact ⟨hclosed, hnone⟩
    · next q hq =>
      split
      · next hreader =>
        have hw : w ≠ v := by
          rintro rfl
          rw [hp] at hq
          rw [← Option.some.inj hq, hdata] at hreader
          cases hreader
        refine ⟨hupdate w _ hw, fun o ho ↦ ?_⟩
        rw [vde_of_mem_dataReader ho]
        exact hw
      · exact ⟨hclosed, hnone⟩
  | socket datagram =>
    refine ⟨hclosed, fun o ho ↦ ?_⟩
    obtain ⟨s, -, hs⟩ := List.mem_flatMap.mp ho
    unfold Hub.vdeSend at hs
    split at hs
    · cases hs
    · next q hq =>
      split at hs
      · next hopen =>
        rw [List.mem_singleton.mp hs]
        rintro rfl
        change hub.plugs s.destination = some p at hp
        rw [hp] at hq
        rw [← Option.some.inj hq, hconn] at hopen
        cases hopen
      · cases hs

/-- A closed plug stays closed over every sequence of events, and nothing leaves the program
through it. -/
theorem Hub.Closed.run {hub : Hub} {v : Plug} (h : hub.Closed v) (events : List Event) :
    (hub.run events).1.Closed v ∧ ∀ o ∈ (hub.run events).2, o.vde ≠ v := by
  induction events generalizing hub with
  | nil => exact ⟨h, fun _ ho ↦ (nomatch ho)⟩
  | cons e es ih =>
    obtain ⟨hstep, hout⟩ := h.step e
    obtain ⟨hrun, hrest⟩ := ih hstep
    refine ⟨hrun, fun o ho ↦ ?_⟩
    rcases List.mem_append.mp ho with ho | ho
    · exact hout o ho
    · exact hrest o ho

/-! ### A failing receive -/

/-- A failing receive is handled: the plug is closed, no datagram goes to an IOU instance, and
nothing leaves the program through the plug in any later sequence of events. -/
structure Hub.HandlesFailure (hub : Hub) (v : Plug) (r : Received) : Prop where
  closed : (hub.step (.data v r)).1.Closed v
  silent : ∀ vde d, .toIou vde d ∉ (hub.step (.data v r)).2
  later : ∀ events, ((hub.step (.data v r)).1.run events).1.Closed v ∧
    ∀ o ∈ ((hub.step (.data v r)).1.run events).2, o.vde ≠ v

private theorem foldl_apply_sendAll (p : VdePlug) (v : Plug) (frame : List UInt8)
    (others : List Plug) : (sendAll v frame others).foldl VdePlug.apply p = p := by
  have hsends : ∀ e ∈ sendAll v frame others, p.apply e = p := by
    intro e he
    obtain ⟨w, -, rfl⟩ := List.mem_map.mp ((sendAll_upTo v frame others).subset he)
    rfl
  exact List.foldlRecOn (sendAll v frame others) VdePlug.apply (motive := (· = p)) rfl
    fun q hq e he ↦ by rw [hq]; exact hsends e he

/-- The loop hands no datagram to the socket exactly if it is empty or raises at once. -/
theorem outputs_sendAll_eq_nil_iff (v : Plug) (frame : List UInt8) (others : List Plug) :
    (sendAll v frame others).flatMap Effect.outputs = [] ↔
      ∀ other, others.head? = some other → ¬ (other.Packs ∧ v.Packs) := by
  cases others with
  | nil => simp [sendAll]
  | cons other others =>
    rw [sendAll, List.flatMap_cons, List.append_eq_nil_iff]
    have hsend := send_isSome_iff other v frame
    have hhead : (∀ o, (other :: others).head? = some o → ¬ (o.Packs ∧ v.Packs)) ↔
        ¬ (other.Packs ∧ v.Packs) := by simp
    rw [hhead, ← hsend, Effect.outputs]
    cases other.send v frame with
    | none => simp
    | some d => simp

/-- In every state of the hub, a failing receive on an open plug is handled exactly if the plug
has no IOU plug, or sending to its first one raises since a number of the two cannot be packed. -/
theorem dataReader_handlesFailure_iff {hub : Hub} {v : Plug} {p : VdePlug}
    (hp : hub.plugs v = some p) (hopen : p.dataReader = true) {r : Received} (hr : r.nx ≤ 0) :
    hub.HandlesFailure v r ↔
      ∀ other, p.others.head? = some other → ¬ (other.Packs ∧ v.Packs) := by
  have heffects : dataReader v p.others r = .close :: sendAll v r.frame p.others := by
    rw [dataReader, if_pos hr]
    rfl
  have hplug : (Effect.close :: sendAll v r.frame p.others).foldl VdePlug.apply p = p.close :=
    foldl_apply_sendAll p.close v r.frame p.others
  have hstep : hub.step (.data v r) =
      ({ hub with plugs := Function.update hub.plugs v (some p.close) },
        (sendAll v r.frame p.others).flatMap Effect.outputs) := by
    unfold Hub.step
    dsimp only
    rw [hp]
    dsimp only
    rw [if_pos hopen, heffects, hplug]
    rfl
  have hclosed : (hub.step (.data v r)).1.Closed v := by
    rw [hstep]
    exact ⟨p.close, Function.update_self _ _ _, rfl, rfl, rfl⟩
  rw [← outputs_sendAll_eq_nil_iff v r.frame]
  constructor
  · intro h
    rw [List.eq_nil_iff_forall_not_mem]
    intro o ho
    have hsilent := h.silent
    rw [hstep] at hsilent
    obtain ⟨e, he, hmem⟩ := List.mem_flatMap.mp ho
    obtain ⟨w, -, rfl⟩ := List.mem_map.mp ((sendAll_upTo v r.frame p.others).subset he)
    obtain ⟨d, -, rfl⟩ := List.mem_map.mp hmem
    exact hsilent v d ho
  · intro hnil
    refine ⟨hclosed, fun vde d hmem ↦ ?_, fun events ↦ hclosed.run events⟩
    rw [hstep, hnil] at hmem
    cases hmem

/-- A receive that fails: the buffer is as it was allocated. -/
def failed : Received := { oneByte with nx := -1, bound := by decide }

/-- A bus with two IOU plugs, the first of which has an instance of more than 16 bits. -/
def hugeInstance : Wires := Dict.empty.set ⟨666, 1, 0⟩ ("/tmp/s".toList, [⟨70000, 0, 1⟩, ⟨2, 0, 1⟩])

/-- A failing receive is handled there: sending to the first plug raises, and the second one gets
nothing. -/
theorem hugeInstance_handlesFailure :
    (Hub.setUp hugeInstance).HandlesFailure ⟨666, 1, 0⟩ failed := by
  have hplug : (Hub.setUp hugeInstance).plugs ⟨666, 1, 0⟩ =
      some (VdePlug.attach [⟨70000, 0, 1⟩, ⟨2, 0, 1⟩]) := rfl
  apply (dataReader_handlesFailure_iff hplug rfl (by decide)).mpr
  intro other hother
  cases hother
  decide

/-- Where one is wired, it gets the whole buffer as a frame that nobody sent. -/
theorem oneWire_invents_frame :
    ((Hub.setUp oneWire).step (.data ⟨666, 1, 0⟩ failed)).2 =
        [.toIou ⟨666, 1, 0⟩
          ⟨2, [0, 2, 2, 154, 16, 1, 1, 0] ++ List.replicate mtu 0⟩] ∧
      ¬ (Hub.setUp oneWire).HandlesFailure ⟨666, 1, 0⟩ failed := by
  have hout : ((Hub.setUp oneWire).step (.data ⟨666, 1, 0⟩ failed)).2 =
      [.toIou ⟨666, 1, 0⟩ ⟨2, [0, 2, 2, 154, 16, 1, 1, 0] ++ List.replicate mtu 0⟩] := rfl
  refine ⟨hout, fun h ↦ ?_⟩
  have hsilent := h.silent
  rw [hout] at hsilent
  exact hsilent _ _ List.mem_cons_self

end NetworkLab.Iou
