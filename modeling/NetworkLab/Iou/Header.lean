import NetworkLab.Iou.Wiring

/-!
# Round trip of the IOU header

Whether `IOUPlugBase._reader` reads from a header what `IOUPlugBase.send` packed into it,
`lab-iou/iou2vde.py:235–297`, for the plugs that `parse_netmap` wires together. The parser
bounds no number, the header has 16 bits for an instance and four for a major or minor.
-/

namespace NetworkLab.Iou

/-- The destination, the source and the rest of a datagram, as `_reader` reads them. -/
def decode (bytes : List UInt8) : Option (Plug × Plug × List UInt8) :=
  (unpackHeader (bytes.take headerSize)).map fun h ↦
    (h.destination, h.source, bytes.drop headerSize)

/-- The IOU plug `w` can send on a frame from the VDE plug `v`, and the datagram names both
and carries the frame. -/
def RoundTrip (v w : Plug) (buffer : List UInt8) : Prop :=
  ∃ d, w.send v buffer = some d ∧ decode d.bytes = some (w, v, buffer)

private theorem packH_bytes (n : Nat) (h : n < 65536) :
    (UInt8.ofNat (n / 256)).toNat * 256 + (UInt8.ofNat (n % 256)).toNat = n := by
  rw [UInt8.toNat_ofNat', UInt8.toNat_ofNat']
  omega

private theorem packB_byte (n : Nat) (h : n < 256) : (UInt8.ofNat n).toNat = n := by
  rw [UInt8.toNat_ofNat']
  exact Nat.mod_eq_of_lt h

/-- What is read back is what the interface numbers stand for. -/
theorem decode_send {w v : Plug} (hw : w.Packs) (hv : v.Packs) (buffer : List UInt8) :
    ∃ d, w.send v buffer = some d ∧
      decode d.bytes =
        some (ifacePlug w.inst w.iface, ifacePlug v.inst v.iface, buffer) := by
  obtain ⟨hwi, hwf⟩ := hw
  obtain ⟨hvi, hvf⟩ := hv
  have hheader : packHeader w v = some
      [UInt8.ofNat (w.inst / 256), UInt8.ofNat (w.inst % 256), UInt8.ofNat (v.inst / 256),
        UInt8.ofNat (v.inst % 256), UInt8.ofNat w.iface, UInt8.ofNat v.iface, 1, 0] := by
    unfold packHeader packH packB
    rw [if_pos hwi, if_pos hvi, if_pos hwf, if_pos hvf]
    rfl
  unfold Plug.send
  rw [hheader]
  refine ⟨_, rfl, ?_⟩
  unfold decode
  change some (_, _, _) = _
  rw [Header.destination, Header.source]
  dsimp only
  rw [packH_bytes w.inst hwi, packH_bytes v.inst hvi, packB_byte w.iface hwf,
    packB_byte v.iface hvf]
  rfl

private theorem packs_of_fits {p : Plug} (h : p.Fits) : p.Packs :=
  ⟨h.1, (iface_lt_iff p).mpr ⟨h.2.2, Nat.lt_of_lt_of_le h.2.1 (by decide)⟩⟩

/-- The header carries two plugs exactly when both fit it. -/
theorem roundTrip_iff (v w : Plug) (buffer : List UInt8) :
    RoundTrip v w buffer ↔ v.Fits ∧ w.Fits := by
  constructor
  · rintro ⟨d, hsend, hdecode⟩
    obtain ⟨hw, hv⟩ := (send_isSome_iff w v buffer).mp (by rw [hsend]; rfl)
    obtain ⟨d', hsend', hdecode'⟩ := decode_send hw hv buffer
    obtain rfl := Option.some.inj (hsend.symm.trans hsend')
    have heq := Option.some.inj (hdecode'.symm.trans hdecode)
    have hwf := (ifacePlug_iface_eq_iff w).mp (congrArg Prod.fst heq)
    have hvf := (ifacePlug_iface_eq_iff v).mp (congrArg (fun x ↦ x.2.1) heq)
    exact ⟨⟨hv.1, hvf⟩, ⟨hw.1, hwf⟩⟩
  · rintro ⟨hv, hw⟩
    obtain ⟨d, hsend, hdecode⟩ := decode_send (packs_of_fits hw) (packs_of_fits hv) buffer
    refine ⟨d, hsend, ?_⟩
    rw [hdecode, (ifacePlug_iface_eq_iff w).mpr hw.2, (ifacePlug_iface_eq_iff v).mpr hv.2]

/-- Over everything that `parse_netmap` accepts, every frame makes the round trip between
the plugs wired together exactly when all ports that a line of the NETMAP connects for a
mapped major fit the header. -/
theorem parseNetmap_roundTrip_iff (inst : Int) (netmap : List Char)
    (mappings : List (List Char)) :
    (∀ wires, parseNetmap inst netmap mappings = some wires →
      ∀ v w, Wired wires v w → ∀ buffer, RoundTrip v w buffer) ↔
    ∀ ms, mappings.mapM parseMapping = some ms → ∀ m ∈ ms, ∀ line ∈ netmapLines netmap,
      ∀ v w, Connects inst m.major line v w → v.Fits ∧ w.Fits := by
  constructor
  · intro h ms hms m hm line hline v w hconnects
    have hparse : parseNetmap inst netmap mappings =
        some (ms.foldl (addMapping inst (netmapLines netmap)) .empty) := by
      rw [parseNetmap, hms, Option.map_some]
    have hwired := (wired_iff hparse v w).mpr ⟨ms, hms, m, hm, line, hline, hconnects⟩
    exact (roundTrip_iff v w []).mp (h _ hparse v w hwired [])
  · intro h wires hparse v w hwired buffer
    obtain ⟨ms, hms, m, hm, line, hline, hconnects⟩ := (wired_iff hparse v w).mp hwired
    exact (roundTrip_iff v w buffer).mpr (h ms hms m hm line hline v w hconnects)

/-- The line that the lab writes for the seventeenth port of a switch: its minor is 16, and
sending from it raises. -/
theorem seventeenth_port_raises :
    ∃ wires, parseNetmap 666 "1:0/0 666:1/16 1\n".toList ["1:/tmp/s".toList] = some wires ∧
      Wired wires ⟨666, 1, 16⟩ ⟨1, 0, 0⟩ ∧
      (⟨1, 0, 0⟩ : Plug).send ⟨666, 1, 16⟩ [] = none ∧
      ¬ RoundTrip ⟨666, 1, 16⟩ ⟨1, 0, 0⟩ [] := by
  refine ⟨_, rfl, ⟨"/tmp/s".toList, [⟨1, 0, 0⟩], by decide, List.mem_cons_self⟩, rfl, ?_⟩
  rw [roundTrip_iff]
  decide

end NetworkLab.Iou
