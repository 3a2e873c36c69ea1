import NetworkLab.Lib.Machine
import Mathlib.Data.List.TakeWhile

/-!
# The packet filter of the TIME-WAIT experiment

`NfQueue` from `misc/timewait-experiment:59–97`. A packet is what `dpkt` reads from the data that
netfilter hands over; it is written to the capture as it came. Printed messages are left out.
-/

namespace NetworkLab.Timewait

open Lib

/-- `dpkt.ip.IP_PROTO_TCP`. -/
def ipProtoTcp : Nat := 6

/-- `dpkt.tcp.TH_FIN`. -/
def thFin : Nat := 0x01

/-- `dpkt.tcp.TH_ACK`. -/
def thAck : Nat := 0x10

/-- An IP packet: its protocol, the flags and the acknowledgement number of its TCP header, and
its bytes. -/
structure Packet where
  p : Nat
  flags : Nat
  ack : Nat
  data : List UInt8
  deriving DecidableEq

/-- A packet whose protocol is TCP. -/
abbrev TcpPacket := { pkt : Packet // pkt.p = ipProtoTcp }

/-- The options of the filter, `:38–41`. -/
structure Options where
  dropLastAck : Bool
  dropDuplicateFin : Bool

/-- What the filter remembers, `:63–65`. -/
structure NfQueue where
  gotfin : Bool
  lastack : Option Nat
  lastfinack : Option Nat
  deriving DecidableEq

/-- `__init__`, `:60–69`. -/
def NfQueue.init : NfQueue := ⟨false, none, none⟩

/-- `NF_DROP` and `NF_ACCEPT`. -/
inductive Verdict where
  | drop
  | accept
  deriving DecidableEq

/-- What a call of `packet` does outside: it writes to the capture or gives a verdict. -/
inductive Effect where
  | writepkt (pkt : Packet)
  | setVerdict (verdict : Verdict)
  deriving DecidableEq

/-- A packet with the effects of its call, in order. -/
structure Handled where
  packet : Packet
  effects : List Effect

/-- The assertion of `packet`, `:76`. -/
inductive AssertionError where
  | tcpPacketReceived
  deriving DecidableEq

/-- The effects of a call that drops the packet, `:83` and `:92`. -/
def dropEffects : List Effect := [.setVerdict .drop]

/-- The effects of a call that goes through to its end, `:95–96`. -/
def keepEffects (pkt : Packet) : List Effect := [.writepkt pkt, .setVerdict .accept]

/-- `packet`, `:71–97`. No branch reads `drop_duplicate_fin`. -/
def NfQueue.packet (o : Options) (s : NfQueue) (pkt : Packet) :
    Except AssertionError (NfQueue × List Handled) :=
  if pkt.p ≠ ipProtoTcp then .error .tcpPacketReceived
  else if s.gotfin = false ∧ pkt.flags = thFin ||| thAck then
    .ok ({ s with gotfin := true }, [⟨pkt, keepEffects pkt⟩])
  else if s.gotfin = true ∧ pkt.flags = thFin ||| thAck then
    if s.lastfinack ≠ none ∧ s.lastfinack = some pkt.ack then .ok (s, [⟨pkt, dropEffects⟩])
    else .ok ({ s with lastfinack := some pkt.ack }, [⟨pkt, keepEffects pkt⟩])
  else if s.gotfin = true ∧ pkt.flags = thAck ∧
      (s.lastack = none ∨ s.lastack = some pkt.ack) then
    if o.dropLastAck then .ok ({ s with lastack := some pkt.ack }, [⟨pkt, dropEffects⟩])
    else .ok ({ s with lastack := some pkt.ack }, [⟨pkt, keepEffects pkt⟩])
  else .ok (s, [⟨pkt, keepEffects pkt⟩])

/-- The calls of `packet` for some packets. -/
def handle (o : Options) (packets : List TcpPacket) :
    Except AssertionError (NfQueue × List Handled) :=
  Machine.run (fun s pkt ↦ s.packet o pkt.val) .init packets.reverse

/-! ### What a packet means in its history -/

/-- A packet that carries FIN and ACK and no other flag. -/
def Packet.isFinAck (pkt : Packet) : Bool := pkt.flags == thFin ||| thAck

/-- A packet that carries ACK and no other flag. -/
def Packet.isAck (pkt : Packet) : Bool := pkt.flags == thAck

/-- No packet is both. -/
theorem Packet.isAck_of_isFinAck {pkt : Packet} (h : pkt.isFinAck = true) : pkt.isAck = false := by
  rw [isFinAck, beq_iff_eq] at h
  rw [isAck, h]
  rfl

private theorem packet_before {o : Options} {s : NfQueue} (hgot : s.gotfin = false)
    (pkt : TcpPacket) :
    s.packet o pkt.val =
      .ok ({ s with gotfin := pkt.val.isFinAck }, [⟨pkt.val, keepEffects pkt.val⟩]) := by
  rw [NfQueue.packet, if_neg (not_not_intro pkt.property)]
  by_cases hfin : pkt.val.flags = thFin ||| thAck
  · rw [if_pos ⟨hgot, hfin⟩, Packet.isFinAck, beq_iff_eq.mpr hfin]
  · have hnot : s.gotfin ≠ true := by simp [hgot]
    rw [if_neg (fun h ↦ hfin h.2), if_neg (fun h ↦ hnot h.1), if_neg (fun h ↦ hnot h.1),
      Packet.isFinAck, beq_eq_false_iff_ne.mpr hfin, ← hgot]

private theorem packet_finAck {o : Options} {s : NfQueue} (hgot : s.gotfin = true)
    {pkt : TcpPacket} (hfin : pkt.val.isFinAck = true) :
    s.packet o pkt.val =
      if s.lastfinack = some pkt.val.ack then .ok (s, [⟨pkt.val, dropEffects⟩])
      else .ok ({ s with lastfinack := some pkt.val.ack }, [⟨pkt.val, keepEffects pkt.val⟩]) := by
  have hnot : s.gotfin ≠ false := by simp [hgot]
  rw [NfQueue.packet, if_neg (not_not_intro pkt.property), if_neg (fun h ↦ hnot h.1),
    if_pos ⟨hgot, beq_iff_eq.mp hfin⟩]
  refine if_congr ⟨And.right, fun hlast ↦ ⟨?_, hlast⟩⟩ rfl rfl
  rw [hlast]
  exact Option.some_ne_none _

private theorem packet_ack {o : Options} {s : NfQueue} (hgot : s.gotfin = true)
    {pkt : TcpPacket} (hack : pkt.val.isAck = true) :
    s.packet o pkt.val =
      if s.lastack.getD pkt.val.ack = pkt.val.ack then
        .ok ({ s with lastack := some pkt.val.ack },
          [⟨pkt.val, if o.dropLastAck then dropEffects else keepEffects pkt.val⟩])
      else .ok (s, [⟨pkt.val, keepEffects pkt.val⟩]) := by
  have hnot : s.gotfin ≠ false := by simp [hgot]
  have hflags : pkt.val.flags = thAck := beq_iff_eq.mp hack
  have hnotfin : pkt.val.flags ≠ thFin ||| thAck := by
    rw [hflags]
    decide
  have hlast : s.lastack.getD pkt.val.ack = pkt.val.ack ↔
      s.lastack = none ∨ s.lastack = some pkt.val.ack := by
    cases s.lastack <;> simp
  rw [NfQueue.packet, if_neg (not_not_intro pkt.property), if_neg (fun h ↦ hnot h.1),
    if_neg (fun h ↦ hnotfin h.2)]
  by_cases h : s.lastack.getD pkt.val.ack = pkt.val.ack
  · rw [if_pos h, if_pos ⟨hgot, hflags, hlast.mp h⟩]
    split <;> rfl
  · rw [if_neg h, if_neg (fun hall ↦ h (hlast.mpr hall.2.2))]

private theorem packet_other {o : Options} {s : NfQueue} (hgot : s.gotfin = true)
    {pkt : TcpPacket} (hfin : pkt.val.isFinAck = false) (hack : pkt.val.isAck = false) :
    s.packet o pkt.val = .ok (s, [⟨pkt.val, keepEffects pkt.val⟩]) := by
  have hnot : s.gotfin ≠ false := by simp [hgot]
  rw [NfQueue.packet, if_neg (not_not_intro pkt.property), if_neg (fun h ↦ hnot h.1),
    if_neg (fun h ↦ beq_eq_false_iff_ne.mp hfin h.2),
    if_neg (fun h ↦ beq_eq_false_iff_ne.mp hack h.2.1)]

/-- Whether some packet was a FIN/ACK. -/
def gotFin (before : List Packet) : Bool := before.any (·.isFinAck)

/-- The packets after the first FIN/ACK. -/
def sinceFin (before : List Packet) : List Packet := (before.dropWhile (!·.isFinAck)).drop 1

/-- The acknowledgement number of the last FIN/ACK after the first one. -/
def lastFinAck (before : List Packet) : Option Nat :=
  ((sinceFin before).filter (·.isFinAck)).getLast?.map (·.ack)

/-- The acknowledgement number of the first pure ACK after the first FIN/ACK. -/
def firstAck (before : List Packet) : Option Nat :=
  ((sinceFin before).filter (·.isAck)).head?.map (·.ack)

/-- A FIN/ACK after the first one that repeats the number of the one before it. -/
def DuplicateFin (before : List Packet) (pkt : Packet) : Prop :=
  pkt.isFinAck = true ∧ lastFinAck before = some pkt.ack

/-- A pure ACK after the first FIN/ACK with the number of the first such ACK. -/
def LastAck (before : List Packet) (pkt : Packet) : Prop :=
  gotFin before = true ∧ pkt.isAck = true ∧ firstAck (before ++ [pkt]) = some pkt.ack

instance (before : List Packet) (pkt : Packet) : Decidable (DuplicateFin before pkt) :=
  inferInstanceAs (Decidable (_ ∧ _))

instance (before : List Packet) (pkt : Packet) : Decidable (LastAck before pkt) :=
  inferInstanceAs (Decidable (_ ∧ _ ∧ _))

private theorem dropWhile_eq_nil {before : List Packet} (h : gotFin before = false) :
    before.dropWhile (!·.isFinAck) = [] := by
  rw [List.dropWhile_eq_nil_iff]
  intro pkt hpkt
  rw [gotFin, List.any_eq_false] at h
  simpa using h pkt hpkt

/-- Up to the first FIN/ACK there is nothing after it. -/
theorem sinceFin_of_not_gotFin {before : List Packet} (h : gotFin before = false) :
    sinceFin before = [] := by
  rw [sinceFin, dropWhile_eq_nil h]
  rfl

/-- The first FIN/ACK itself is not after it. -/
theorem sinceFin_first {before : List Packet} (h : gotFin before = false) (pkt : Packet) :
    sinceFin (before ++ [pkt]) = [] := by
  rw [sinceFin, List.dropWhile_append, dropWhile_eq_nil h, List.isEmpty_nil, if_pos rfl]
  cases hfin : pkt.isFinAck <;> simp [hfin]

/-- Later packets are. -/
theorem sinceFin_append {before : List Packet} (h : gotFin before = true) (pkt : Packet) :
    sinceFin (before ++ [pkt]) = sinceFin before ++ [pkt] := by
  have hne : before.dropWhile (!·.isFinAck) ≠ [] := by
    rw [Ne, List.dropWhile_eq_nil_iff]
    intro hall
    obtain ⟨fin, hmem, hfin⟩ := List.any_eq_true.mp h
    have hnot := hall fin hmem
    rw [hfin] at hnot
    exact nomatch hnot
  have hempty : (before.dropWhile (!·.isFinAck)).isEmpty = false := by
    simpa using hne
  rw [sinceFin, List.dropWhile_append, hempty, if_neg Bool.false_ne_true,
    List.drop_append_of_le_length (List.length_pos_iff.mpr hne), sinceFin]

private theorem gotFin_append (before : List Packet) (pkt : Packet) :
    gotFin (before ++ [pkt]) = (gotFin before || pkt.isFinAck) := by
  simp [gotFin]

/-- A FIN/ACK after the first one is the last one from then on. -/
theorem lastFinAck_append {before : List Packet} (h : gotFin before = true) (pkt : Packet) :
    lastFinAck (before ++ [pkt]) =
      if pkt.isFinAck = true then some pkt.ack else lastFinAck before := by
  rw [lastFinAck, sinceFin_append h, List.filter_append]
  split
  · next hfin => simp [hfin]
  · next hfin => simp [hfin, lastFinAck]

/-- A pure ACK after the first FIN/ACK is the first one unless there was one before. -/
theorem firstAck_append {before : List Packet} (h : gotFin before = true) (pkt : Packet) :
    firstAck (before ++ [pkt]) =
      if pkt.isAck = true then some ((firstAck before).getD pkt.ack) else firstAck before := by
  rw [firstAck, sinceFin_append h, List.filter_append]
  split
  · next hack =>
    cases hacks : (sinceFin before).filter (·.isAck) with
    | nil => simp [hack, firstAck, hacks]
    | cons first rest => simp [firstAck, hacks]
  · next hack => simp [hack, firstAck]

/-! ### A run -/

/-- The state after some packets. -/
structure Remembers (before : List Packet) (s : NfQueue) : Prop where
  gotfin : s.gotfin = gotFin before
  lastfinack : s.lastfinack = lastFinAck before
  lastack : s.lastack = firstAck before

/-- The start. -/
theorem Remembers.init : Remembers [] .init := ⟨rfl, rfl, rfl⟩

/-- Whether the filter drops a packet. -/
def Drops (o : Options) (before : List Packet) (pkt : Packet) : Prop :=
  DuplicateFin before pkt ∨ LastAck before pkt ∧ o.dropLastAck = true

instance (o : Options) (before : List Packet) (pkt : Packet) : Decidable (Drops o before pkt) :=
  inferInstanceAs (Decidable (_ ∨ _))

/-- What the filter does with a packet, from the packets before it. -/
def effectsOf (o : Options) (before : List Packet) (pkt : Packet) : List Effect :=
  if Drops o before pkt then dropEffects else keepEffects pkt

private theorem step_before {o : Options} {before : List Packet} {s : NfQueue}
    (h : Remembers before s) (hgot : gotFin before = false) (pkt : TcpPacket) :
    ∃ s', s.packet o pkt.val = .ok (s', [⟨pkt.val, effectsOf o before pkt.val⟩]) ∧
      Remembers (before ++ [pkt.val]) s' := by
  have hlastfinack := h.lastfinack
  have hlastack := h.lastack
  rw [lastFinAck, sinceFin_of_not_gotFin hgot] at hlastfinack
  rw [firstAck, sinceFin_of_not_gotFin hgot] at hlastack
  have hkeep : ¬ Drops o before pkt.val := by
    simp [Drops, DuplicateFin, LastAck, hgot, lastFinAck, sinceFin_of_not_gotFin hgot]
  refine ⟨{ s with gotfin := pkt.val.isFinAck }, ?_, ?_, ?_, ?_⟩
  · rw [effectsOf, if_neg hkeep]
    exact packet_before (h.gotfin.trans hgot) pkt
  · rw [gotFin_append, hgot, Bool.false_or]
  · rw [lastFinAck, sinceFin_first hgot]
    exact hlastfinack
  · rw [firstAck, sinceFin_first hgot]
    exact hlastack

private theorem step_finAck {o : Options} {before : List Packet} {s : NfQueue}
    (h : Remembers before s) (hgot : gotFin before = true) {pkt : TcpPacket}
    (hfin : pkt.val.isFinAck = true) :
    ∃ s', s.packet o pkt.val = .ok (s', [⟨pkt.val, effectsOf o before pkt.val⟩]) ∧
      Remembers (before ++ [pkt.val]) s' := by
  have hack := Packet.isAck_of_isFinAck hfin
  have hgot' : gotFin (before ++ [pkt.val]) = true := by rw [gotFin_append, hgot, Bool.true_or]
  have hlastfinack := lastFinAck_append hgot pkt.val
  have hfirstack := firstAck_append hgot pkt.val
  rw [if_pos hfin] at hlastfinack
  rw [hack, if_neg Bool.false_ne_true] at hfirstack
  have hdrops : Drops o before pkt.val ↔ lastFinAck before = some pkt.val.ack := by
    simp [Drops, DuplicateFin, LastAck, hfin, hack]
  have hgotfin : s.gotfin = gotFin (before ++ [pkt.val]) := by rw [h.gotfin, hgot, hgot']
  have hlastack : s.lastack = firstAck (before ++ [pkt.val]) := by rw [h.lastack, hfirstack]
  rw [packet_finAck (h.gotfin.trans hgot) hfin, h.lastfinack, effectsOf]
  by_cases hdup : lastFinAck before = some pkt.val.ack
  · rw [if_pos hdup, if_pos (hdrops.mpr hdup)]
    exact ⟨s, rfl, hgotfin, by rw [h.lastfinack, hdup, hlastfinack], hlastack⟩
  · rw [if_neg hdup, if_neg (fun hd ↦ hdup (hdrops.mp hd))]
    exact ⟨_, rfl, hgotfin, hlastfinack.symm, hlastack⟩

private theorem step_ack {o : Options} {before : List Packet} {s : NfQueue}
    (h : Remembers before s) (hgot : gotFin before = true) {pkt : TcpPacket}
    (hfin : pkt.val.isFinAck = false) (hack : pkt.val.isAck = true) :
    ∃ s', s.packet o pkt.val = .ok (s', [⟨pkt.val, effectsOf o before pkt.val⟩]) ∧
      Remembers (before ++ [pkt.val]) s' := by
  have hgot' : gotFin (before ++ [pkt.val]) = true := by rw [gotFin_append, hgot, Bool.true_or]
  have hlastfinack := lastFinAck_append hgot pkt.val
  have hfirstack := firstAck_append hgot pkt.val
  rw [hfin, if_neg Bool.false_ne_true] at hlastfinack
  rw [if_pos hack] at hfirstack
  have hdrops : Drops o before pkt.val ↔
      (firstAck before).getD pkt.val.ack = pkt.val.ack ∧ o.dropLastAck = true := by
    simp [Drops, DuplicateFin, LastAck, hfin, hack, hgot, hfirstack]
  have hgotfin : s.gotfin = gotFin (before ++ [pkt.val]) := by rw [h.gotfin, hgot, hgot']
  have hlast : s.lastfinack = lastFinAck (before ++ [pkt.val]) := by
    rw [h.lastfinack, hlastfinack]
  rw [packet_ack (h.gotfin.trans hgot) hack, h.lastack, effectsOf]
  by_cases hfirst : (firstAck before).getD pkt.val.ack = pkt.val.ack
  · have heffects : (if Drops o before pkt.val then dropEffects else keepEffects pkt.val) =
        if o.dropLastAck = true then dropEffects else keepEffects pkt.val :=
      if_congr (hdrops.trans (and_iff_right hfirst)) rfl rfl
    rw [if_pos hfirst, heffects]
    exact ⟨_, rfl, hgotfin, hlast, by rw [hfirstack, hfirst]⟩
  · -- another number than the first one, which stays recorded
    rw [if_neg hfirst, if_neg (fun hd ↦ hfirst (hdrops.mp hd).1)]
    refine ⟨s, rfl, hgotfin, hlast, ?_⟩
    rw [hfirstack, h.lastack]
    cases hrec : firstAck before with
    | none => simp [hrec] at hfirst
    | some first => rfl

/-- One packet: its effects follow from the packets before it, and it is remembered. -/
theorem packet_step (o : Options) {before : List Packet} {s : NfQueue} (h : Remembers before s)
    (pkt : TcpPacket) :
    ∃ s', s.packet o pkt.val = .ok (s', [⟨pkt.val, effectsOf o before pkt.val⟩]) ∧
      Remembers (before ++ [pkt.val]) s' := by
  cases hgot : gotFin before with
  | false => exact step_before h hgot pkt
  | true =>
    cases hfin : pkt.val.isFinAck with
    | true => exact step_finAck h hgot hfin
    | false =>
      cases hack : pkt.val.isAck with
      | true => exact step_ack h hgot hfin hack
      | false =>
        have hlastfinack := lastFinAck_append hgot pkt.val
        have hfirstack := firstAck_append hgot pkt.val
        rw [hfin, if_neg Bool.false_ne_true] at hlastfinack
        rw [hack, if_neg Bool.false_ne_true] at hfirstack
        have hkeep : ¬ Drops o before pkt.val := by
          simp [Drops, DuplicateFin, LastAck, hfin, hack]
        refine ⟨s, ?_, ?_, ?_, ?_⟩
        · rw [effectsOf, if_neg hkeep]
          exact packet_other (h.gotfin.trans hgot) hfin hack
        · rw [gotFin_append, hgot, Bool.true_or, h.gotfin, hgot]
        · rw [hlastfinack, h.lastfinack]
        · rw [hfirstack, h.lastack]

/-- The packets with what the filter does with them, after those in `before`. -/
def handledFrom (o : Options) (before : List Packet) : List Packet → List Handled
  | [] => []
  | pkt :: packets => ⟨pkt, effectsOf o before pkt⟩ :: handledFrom o (before ++ [pkt]) packets

private theorem handledFrom_append (o : Options) (before packets after : List Packet) :
    handledFrom o before (packets ++ after) =
      handledFrom o before packets ++ handledFrom o (before ++ packets) after := by
  induction packets generalizing before with
  | nil => rw [List.nil_append, List.append_nil, handledFrom, List.nil_append]
  | cons pkt packets ih =>
    rw [List.cons_append, handledFrom, handledFrom, ih, List.append_assoc, List.singleton_append,
      List.cons_append]

/-- Every packet is handled, in order. -/
theorem handledFrom_packets (o : Options) (before packets : List Packet) :
    (handledFrom o before packets).map (·.packet) = packets := by
  induction packets generalizing before with
  | nil => rfl
  | cons pkt packets ih => rw [handledFrom, List.map_cons, ih]

/-- What is done with a packet follows from those before it. -/
theorem handledFrom_effects {o : Options} {packets : List Packet} {before after : List Handled}
    {h : Handled} (heq : handledFrom o [] packets = before ++ h :: after) :
    h.effects = effectsOf o (before.map (·.packet)) h.packet := by
  have hpackets := congrArg (List.map (·.packet)) heq
  rw [handledFrom_packets, List.map_append, List.map_cons] at hpackets
  rw [hpackets, handledFrom_append, List.nil_append, handledFrom] at heq
  have hlength : (handledFrom o [] (before.map (·.packet))).length = before.length := by
    rw [← List.length_map (·.packet), handledFrom_packets, List.length_map]
  obtain ⟨-, hrest⟩ := List.append_inj heq hlength
  rw [← (List.cons.inj hrest).1]

/-- A run does not fail, and ends in the state that remembers all the packets. -/
theorem handle_eq (o : Options) (packets : List TcpPacket) :
    ∃ s, handle o packets = .ok (s, handledFrom o [] (packets.map (·.val))) ∧
      Remembers (packets.map (·.val)) s := by
  obtain ⟨s, outs, hrun, houts, hs⟩ := Machine.run_rule
    (fun hist s outs ↦ outs = handledFrom o [] (hist.reverse.map (·.val)) ∧
      Remembers (hist.reverse.map (·.val)) s)
    ⟨rfl, .init⟩
    (fun hist s outs pkt _ ⟨houts, hs⟩ ↦ by
      obtain ⟨s', hstep, hs'⟩ := packet_step o hs pkt
      refine ⟨s', _, hstep, ?_, ?_⟩
      · rw [List.reverse_cons, List.map_append, handledFrom_append, houts, List.nil_append]
        rfl
      · rw [List.reverse_cons, List.map_append]
        exact hs')
    packets.reverse
  rw [List.reverse_reverse] at houts hs
  exact ⟨s, houts ▸ hrun, hs⟩

/-! ### What is asked of the filter -/

/-- The verdicts among some effects. -/
def verdicts (effects : List Effect) : List Verdict :=
  effects.filterMap fun
    | .setVerdict verdict => some verdict
    | .writepkt _ => none

/-- The packets that some effects write to the capture. -/
def captured (effects : List Effect) : List Packet :=
  effects.filterMap fun
    | .setVerdict _ => none
    | .writepkt pkt => some pkt

/-- Whether the packet was accepted. -/
def Handled.isAccepted (h : Handled) : Bool := decide (.accept ∈ verdicts h.effects)

/-- What the options allow to drop. -/
def MayDrop (o : Options) (before : List Packet) (pkt : Packet) : Prop :=
  DuplicateFin before pkt ∧ o.dropDuplicateFin = true ∨ LastAck before pkt ∧ o.dropLastAck = true

instance (o : Options) (before : List Packet) (pkt : Packet) : Decidable (MayDrop o before pkt) :=
  inferInstanceAs (Decidable (_ ∨ _))

/-- Each packet gets one verdict, is dropped only as the options allow, and is in the capture if
and only if it was accepted. -/
structure Filters (o : Options) (outs : List Handled) : Prop where
  oneVerdict : ∀ h ∈ outs, (verdicts h.effects).length = 1
  drops : ∀ before h after, outs = before ++ h :: after → .drop ∈ verdicts h.effects →
    MayDrop o (before.map (·.packet)) h.packet
  capture : captured (outs.flatMap (·.effects)) = (outs.filter (·.isAccepted)).map (·.packet)

private theorem captured_append (first rest : List Effect) :
    captured (first ++ rest) = captured first ++ captured rest := List.filterMap_append

private theorem verdicts_effectsOf (o : Options) (before : List Packet) (pkt : Packet) :
    verdicts (effectsOf o before pkt) = [if Drops o before pkt then .drop else .accept] := by
  rw [effectsOf]
  split
  · rfl
  · rfl

private theorem captured_effectsOf (o : Options) (before : List Packet) (pkt : Packet) :
    captured (effectsOf o before pkt) = if Drops o before pkt then [] else [pkt] := by
  rw [effectsOf]
  split
  · rfl
  · rfl

private theorem oneVerdict_handledFrom (o : Options) (before packets : List Packet) :
    ∀ h ∈ handledFrom o before packets, (verdicts h.effects).length = 1 := by
  induction packets generalizing before with
  | nil => exact fun _ hmem ↦ nomatch hmem
  | cons pkt packets ih =>
    intro h hmem
    rcases List.mem_cons.mp hmem with rfl | hmem
    · rw [verdicts_effectsOf]
      rfl
    · exact ih _ h hmem

private theorem capture_handledFrom (o : Options) (before packets : List Packet) :
    captured ((handledFrom o before packets).flatMap (·.effects)) =
      ((handledFrom o before packets).filter (·.isAccepted)).map (·.packet) := by
  induction packets generalizing before with
  | nil => rfl
  | cons pkt packets ih =>
    rw [handledFrom, List.flatMap_cons, captured_append, ih, captured_effectsOf,
      List.filter_cons, Handled.isAccepted, verdicts_effectsOf]
    by_cases hdrops : Drops o before pkt
    · simp [hdrops]
    · simp [hdrops]

private theorem drop_mem_handledFrom {o : Options} {before : List Packet} {h : Handled}
    (heffects : h.effects = effectsOf o before h.packet) :
    .drop ∈ verdicts h.effects ↔ Drops o before h.packet := by
  rw [heffects, verdicts_effectsOf]
  by_cases hdrops : Drops o before h.packet
  · simp [hdrops]
  · simp [hdrops]

/-- The filter is right about a run if and only if `--drop-duplicate-fin` is given or no FIN/ACK
after the first one repeats the number of the one before it. -/
theorem handle_filters_iff (o : Options) (packets : List TcpPacket) :
    (∃ s outs, handle o packets = .ok (s, outs) ∧
        outs.map (·.packet) = packets.map (·.val) ∧ Filters o outs) ↔
      o.dropDuplicateFin = true ∨
        ∀ before pkt after, packets = before ++ pkt :: after →
          ¬ DuplicateFin (before.map (·.val)) pkt.val := by
  obtain ⟨s, hrun, -⟩ := handle_eq o packets
  constructor
  · rintro ⟨s', outs, hrun', -, hfilters⟩
    rw [hrun] at hrun'
    obtain ⟨rfl, rfl⟩ := Prod.mk.inj (Except.ok.inj hrun')
    refine Decidable.or_iff_not_imp_left.mpr fun hoption before pkt after heq hdup ↦ ?_
    have hsplit : handledFrom o [] (packets.map (·.val)) =
        handledFrom o [] (before.map (·.val)) ++
          ⟨pkt.val, effectsOf o (before.map (·.val)) pkt.val⟩ ::
            handledFrom o (before.map (·.val) ++ [pkt.val]) (after.map (·.val)) := by
      rw [heq, List.map_append, List.map_cons, handledFrom_append, List.nil_append, handledFrom]
    have hmay := hfilters.drops _ _ _ hsplit
      ((drop_mem_handledFrom rfl).mpr (.inl hdup))
    rw [handledFrom_packets] at hmay
    rcases hmay with ⟨-, hset⟩ | ⟨⟨-, hack, -⟩, -⟩
    · exact hoption hset
    · rw [Packet.isAck_of_isFinAck hdup.1] at hack
      exact nomatch hack
  · intro hcond
    refine ⟨s, _, hrun, handledFrom_packets _ _ _, oneVerdict_handledFrom _ _ _, ?_,
      capture_handledFrom _ _ _⟩
    intro before h after heq hdrop
    rcases (drop_mem_handledFrom (handledFrom_effects heq)).mp hdrop with hdup | hlast
    · refine .inl ⟨hdup, hcond.resolve_right fun hnone ↦ ?_⟩
      have hpackets := congrArg (List.map (·.packet)) heq
      rw [handledFrom_packets, List.map_append, List.map_cons] at hpackets
      obtain ⟨before', rest, rfl, hbefore, hrest⟩ := List.map_eq_append_iff.mp hpackets
      obtain ⟨pkt, after', rfl, hpkt, -⟩ := List.map_eq_cons_iff.mp hrest
      refine hnone before' pkt after' rfl ?_
      rw [hbefore, hpkt]
      exact hdup
    · exact .inr hlast

/-- A closing handshake whose last ACK is dropped, so that the other end sends its FIN/ACK
again. -/
def retransmission : List TcpPacket :=
  [⟨⟨6, 0x11, 1000, []⟩, rfl⟩, ⟨⟨6, 0x11, 2000, []⟩, rfl⟩, ⟨⟨6, 0x10, 1001, []⟩, rfl⟩,
    ⟨⟨6, 0x11, 2000, []⟩, rfl⟩]

/-- The FIN/ACK that is sent again is dropped without `--drop-duplicate-fin`. -/
theorem retransmission_not_filters :
    ¬ ∀ (o : Options) (packets : List TcpPacket), ∃ s outs, handle o packets = .ok (s, outs) ∧
      outs.map (·.packet) = packets.map (·.val) ∧ Filters o outs := by
  intro h
  obtain ⟨s, outs, hrun, -, hfilters⟩ := h ⟨true, false⟩ retransmission
  obtain ⟨s', hrun', -⟩ := handle_eq ⟨true, false⟩ retransmission
  rw [hrun'] at hrun
  obtain ⟨-, rfl⟩ := Prod.mk.inj (Except.ok.inj hrun)
  have hmay := hfilters.drops (handledFrom _ [] ((retransmission.take 3).map (·.val)))
    ⟨⟨6, 0x11, 2000, []⟩, dropEffects⟩ [] rfl (by decide)
  exact absurd hmay (by decide)

end NetworkLab.Timewait
