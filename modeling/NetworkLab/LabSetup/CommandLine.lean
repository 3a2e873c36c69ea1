import NetworkLab.LabSetup.Addresses

/-!
# Devices and networks of a command line

QEMU wants the network devices of a command line to have ids of their own, and each of them to
have a card or a port of the switch device in front of it. What the start functions of
`common/lab-setup:534–1663` write for it.
-/

namespace NetworkLab.LabSetup

open Lib Shell

/-- The id of the network that an option sets up. -/
def Netarg.backEnd? : Netarg → Option Text
  | .vde _ id => some id
  | .option name value => if name = "-netdev".toList then property "id" value else none

/-- The networks that an option has a card or a port for. -/
def Netarg.frontEnds : Netarg → List Text
  | .vde _ _ => []
  | .option name value =>
    if name = "-device".toList then
      ((properties value).filter fun p ↦
        p.1 = "netdev".toList ∨ "ports[".toList <+: p.1).map Prod.snd
    else []

/-- The networks of a command line. -/
def backEnds (netargs : List Netarg) : List Text := netargs.filterMap Netarg.backEnd?

/-- The networks that the cards and the ports of a command line are for. -/
def frontEnds (netargs : List Netarg) : List Text := netargs.flatMap Netarg.frontEnds

/-- No id is given twice, and each network has one card or port. -/
def Wired (netargs : List Netarg) : Prop :=
  (backEnds netargs).Nodup ∧ (frontEnds netargs).Perm (backEnds netargs)

/-! ### Options -/

@[simp] theorem backEnds_nil : backEnds [] = [] := rfl

@[simp] theorem frontEnds_nil : frontEnds [] = [] := rfl

@[simp] theorem backEnds_append (xs ys : List Netarg) :
    backEnds (xs ++ ys) = backEnds xs ++ backEnds ys := List.filterMap_append

@[simp] theorem frontEnds_append (xs ys : List Netarg) :
    frontEnds (xs ++ ys) = frontEnds xs ++ frontEnds ys := List.flatMap_append

@[simp] theorem backEnds_vde (nb id : Text) (xs : List Netarg) :
    backEnds (.vde nb id :: xs) = id :: backEnds xs := rfl

@[simp] theorem frontEnds_vde (nb id : Text) (xs : List Netarg) :
    frontEnds (.vde nb id :: xs) = frontEnds xs := rfl

theorem backEnds_option {name value : Text} (h : name ≠ "-netdev".toList) (xs : List Netarg) :
    backEnds (.option name value :: xs) = backEnds xs := by
  have hnone : Netarg.backEnd? (.option name value) = none := if_neg h
  rw [backEnds, List.filterMap_cons_none hnone]
  rfl

theorem frontEnds_option {name value : Text} (h : name ≠ "-device".toList) (xs : List Netarg) :
    frontEnds (.option name value :: xs) = frontEnds xs := by
  have hnil : Netarg.frontEnds (.option name value) = [] := if_neg h
  rw [frontEnds, List.flatMap_cons, hnil]
  rfl

@[simp] theorem frontEnds_netdev (value : Text) (xs : List Netarg) :
    frontEnds (.option "-netdev" value :: xs) = frontEnds xs := frontEnds_option (by decide) xs

@[simp] theorem backEnds_device (value : Text) (xs : List Netarg) :
    backEnds (.option "-device" value :: xs) = backEnds xs := backEnds_option (by decide) xs

@[simp] theorem backEnds_card (driver mac netdev : Text) (xs : List Netarg) :
    backEnds (card driver mac netdev :: xs) = backEnds xs := backEnds_device _ xs

@[simp] theorem backEnds_unusedCard (driver mac : Text) (xs : List Netarg) :
    backEnds (unusedCard driver mac :: xs) = backEnds xs := backEnds_device _ xs

@[simp] theorem backEnds_monitor (env : Env) (name : Text) : backEnds (monitor env name) = [] := by
  unfold monitor
  split
  · rfl
  · exact backEnds_option (by decide) []

@[simp] theorem frontEnds_monitor (env : Env) (name : Text) :
    frontEnds (monitor env name) = [] := by
  unfold monitor
  split
  · rfl
  · exact frontEnds_option (by decide) []

/-- A network of QEMU itself has the id that it begins with. -/
theorem backEnds_netdev {id : Text} (h : ',' ∉ id) (options : Text) (xs : List Netarg) :
    backEnds (.option "-netdev" ("user,id=".toList ++ id ++ ',' :: options) :: xs) =
      id :: backEnds xs := by
  have hvalue : "user,id=".toList ++ id ++ ',' :: options =
      "user".toList ++ ',' :: ("id=".toList ++ id ++ ',' :: options) := by
    simp only [List.append_assoc]
    rfl
  have hid : ',' ∉ "id=".toList ++ id := by
    rw [List.mem_append, not_or]
    exact ⟨by decide, h⟩
  have hread : keyValue ("id=".toList ++ id) = ("id".toList, id) :=
    @keyValue_eq "id".toList (by decide) id
  have hsome : Netarg.backEnd? (.option "-netdev" ("user,id=".toList ++ id ++ ',' :: options)) =
      some id := by
    change property _ _ = _
    rw [property, hvalue, properties_append (by decide), parts_append hid, hread]
    rfl
  rw [backEnds, List.filterMap_cons_some hsome]
  rfl

/-- So does one without options. -/
theorem backEnds_plainNetdev {id : Text} (h : ',' ∉ id) (xs : List Netarg) :
    backEnds (.option "-netdev" ("user,id=".toList ++ id) :: xs) = id :: backEnds xs := by
  have hvalue : "user,id=".toList ++ id = "user".toList ++ ',' :: ("id=".toList ++ id) := rfl
  have hid : ',' ∉ "id=".toList ++ id := by
    rw [List.mem_append, not_or]
    exact ⟨by decide, h⟩
  have hread : keyValue ("id=".toList ++ id) = ("id".toList, id) :=
    @keyValue_eq "id".toList (by decide) id
  have hsome : Netarg.backEnd? (.option "-netdev" ("user,id=".toList ++ id)) = some id := by
    change property _ _ = _
    rw [property, hvalue, properties_append (by decide), parts_of_not_mem hid, hread]
    rfl
  rw [backEnds, List.filterMap_cons_some hsome]
  rfl

@[simp] theorem backEnds_userNetdev (options : Text) (xs : List Netarg) :
    backEnds (userNetdev options :: xs) = "oob".toList :: backEnds xs :=
  @backEnds_netdev "oob".toList (by decide) options xs

@[simp] theorem frontEnds_userNetdev (options : Text) (xs : List Netarg) :
    frontEnds (userNetdev options :: xs) = frontEnds xs := frontEnds_netdev _ xs

private theorem frontEnds_device {value : Text} {ps : List (Text × Text)}
    (h : properties value = ps) (xs : List Netarg) :
    frontEnds (.option "-device" value :: xs) =
      (ps.filter fun p ↦ p.1 = "netdev".toList ∨ "ports[".toList <+: p.1).map Prod.snd ++
        frontEnds xs := by
  rw [← h]
  rfl

/-- A card is for its network. -/
theorem frontEnds_card {driver mac netdev : Text} (hdriver : ',' ∉ driver) (hmac : ',' ∉ mac)
    (hnetdev : ',' ∉ netdev) (xs : List Netarg) :
    frontEnds (card driver mac netdev :: xs) = netdev :: frontEnds xs := by
  have hparts : parts ("netdev=" ++ netdev) = [("netdev".toList, netdev)] := by
    have hread : keyValue ("netdev=".toList ++ netdev) = ("netdev".toList, netdev) :=
      @keyValue_eq "netdev".toList (by decide) netdev
    rw [parts_of_not_mem, hread]
    rw [List.mem_append, not_or]
    exact ⟨by decide, hnetdev⟩
  have hprops := properties_card hdriver hmac netdev
  rw [hparts] at hprops
  apply (frontEnds_device hprops xs).trans
  rfl

/-- A card with nothing behind it is for none. -/
theorem frontEnds_unusedCard {driver mac : Text} (hdriver : ',' ∉ driver) (hmac : ',' ∉ mac)
    (xs : List Netarg) : frontEnds (unusedCard driver mac :: xs) = frontEnds xs :=
  frontEnds_device (properties_unusedCard hdriver hmac) xs

/-- The ports of the switch device are for the networks that were left to it. -/
theorem frontEnds_rocker {ports : List Text} (h : ∀ p ∈ ports, ',' ∉ p) :
    frontEnds (rocker ports) = ports := by
  have hport (count : Nat) :
      "ports[".toList <+: "ports[".toList ++ decimal count ++ "]".toList := by
    rw [List.append_assoc]
    exact List.prefix_append _ _
  unfold rocker
  split
  · next hnil => rw [hnil, frontEnds_nil]
  · dsimp only
    rw [frontEnds_device (properties_rocker h), List.filter_cons_of_neg, List.filter_cons_of_neg,
      List.filter_eq_self.mpr, List.map_map, frontEnds_nil, List.append_nil]
    · exact List.zipIdx_map_fst 0 ports
    · intro x hx
      obtain ⟨y, -, rfl⟩ := List.mem_map.mp hx
      exact decide_eq_true (Or.inr (hport y.2))
    · exact ne_of_beq_false rfl
    · decide

/-- A card behind a bridge is for its network. -/
theorem frontEnds_bridgedCard {driver mac : Text} (hdriver : ',' ∉ driver) (hmac : ',' ∉ mac)
    (count bridge addr : Nat) (xs : List Netarg) :
    frontEnds (card driver mac (netId count ++ ",bus=br".toList ++ decimal bridge ++
      ",addr=".toList ++ decimal addr) :: xs) = netId count :: frontEnds xs := by
  have hvalue : "netdev=".toList ++ (netId count ++ ",bus=br".toList ++ decimal bridge ++
      ",addr=".toList ++ decimal addr) = "netdev=".toList ++ netId count ++ ',' ::
        ("bus=br".toList ++ decimal bridge ++ ',' :: ("addr=".toList ++ decimal addr)) := by
    simp only [List.append_assoc]
    rfl
  have hnetdev : ',' ∉ "netdev=".toList ++ netId count := by
    rw [List.mem_append, not_or]
    exact ⟨by decide, not_mem_netId count⟩
  have hread : keyValue ("netdev=".toList ++ netId count) = ("netdev".toList, netId count) :=
    @keyValue_eq "netdev".toList (by decide) (netId count)
  have hbus : keyValue ("bus=br".toList ++ decimal bridge) =
      ("bus".toList, "br".toList ++ decimal bridge) :=
    @keyValue_eq "bus".toList (by decide) ("br".toList ++ decimal bridge)
  have haddr : keyValue ("addr=".toList ++ decimal addr) = ("addr".toList, decimal addr) :=
    @keyValue_eq "addr".toList (by decide) (decimal addr)
  have hprops := properties_card hdriver hmac (netId count ++ ",bus=br".toList ++ decimal bridge ++
    ",addr=".toList ++ decimal addr)
  rw [hvalue, parts_append hnetdev, parts_append (not_mem_append_decimal (by decide) bridge),
    parts_of_not_mem (not_mem_append_decimal (by decide) addr), hread, hbus, haddr] at hprops
  apply (frontEnds_device hprops xs).trans
  rfl

/-- The bridges are for no network. -/
theorem frontEnds_vmxBridge (count : Nat) : frontEnds (vmxBridge count) = [] := by
  unfold vmxBridge
  dsimp only
  split
  · apply (frontEnds_device (properties_rootPort _) _).trans
    rw [frontEnds_device (properties_pciBridge _)]
    rfl
  · rfl

@[simp] theorem backEnds_vmxBridge (count : Nat) : backEnds (vmxBridge count) = [] := by
  unfold vmxBridge
  dsimp only
  split
  · rw [backEnds_device, backEnds_device, backEnds_nil]
  · rfl

@[simp] theorem backEnds_rocker (ports : List Text) : backEnds (rocker ports) = [] := by
  unfold rocker
  split
  · rfl
  · exact backEnds_device _ []

/-! ### Results -/

/-- What a start function returns, whatever the counters are. -/
def Returns {α : Type} (Q : α → Prop) (m : Start α) : Prop := ∀ c, Q (m c).1

namespace Returns

variable {α β : Type} {Q : α → Prop} {R : β → Prop}

theorem ret {a : α} (h : Q a) : Returns Q (pure a) := fun _ ↦ h

theorem bind {m : Start α} {k : α → Start β} (hm : Returns Q m)
    (hk : ∀ a, Q a → Returns R (k a)) : Returns R (m >>= k) :=
  fun c ↦ hk (m c).1 (hm c) (m c).2

theorem macAddress {k : Text → Start β} (hk : ∀ mac, ',' ∉ mac → Returns R (k mac)) :
    Returns R (macAddress >>= k) :=
  bind (Q := (',' ∉ ·)) (fun c ↦ not_mem_macText c.nextMac) hk

theorem tcpPort {k : Nat → Start β} (env : Env) (hk : ∀ port, Returns R (k port)) :
    Returns R (tcpPort env >>= k) :=
  bind (Q := fun _ ↦ True) (fun _ ↦ trivial) fun port _ ↦ hk port

end Returns

/-! ### Loops over the networks -/

/-- What the loop leaves for the devices, if each network has one device. -/
def Served (ids : List Text) (r : Nics) : Prop :=
  backEnds r.netargs = ids ∧ (frontEnds r.netargs ++ r.rockerports).Perm ids

/-- The ids of the networks of a loop. -/
def ids (f : Text → Nat → Text) (nets : List Text) (count : Nat) : List Text :=
  (nets.zipIdx count).map fun x ↦ f x.1 x.2

theorem ids_cons (f : Text → Nat → Text) (net : Text) (nets : List Text) (count : Nat) :
    ids f (net :: nets) count = f net count :: ids f nets (count + 1) := rfl

/-- What each network leaves, the loop leaves. -/
theorem returns_nics {nic : Text → Nat → Start Nics} {f : Text → Nat → Text} {nets : List Text}
    (h : ∀ net ∈ nets, ∀ count, Returns (Served [f net count]) (nic net count)) (count : Nat) :
    Returns (Served (ids f nets count)) (nics nic nets count) := by
  induction nets generalizing count with
  | nil => exact fun c ↦ ⟨rfl, List.Perm.refl []⟩
  | cons net nets ih =>
    obtain ⟨hnet, hnets⟩ := List.forall_mem_cons.mp h
    intro c
    obtain ⟨hback, hfront⟩ := hnet count c
    obtain ⟨hbacks, hfronts⟩ := ih hnets (count + 1) (nic net count c).2
    constructor
    · apply (backEnds_append _ _).trans
      rw [hback, hbacks]
      rfl
    · have hall := hfront.append hfronts
      apply List.Perm.trans _ hall
      rw [List.perm_iff_count]
      intro id
      have hcons : frontEnds (nics nic (net :: nets) count c).1.netargs =
          frontEnds (nic net count c).1.netargs ++
            frontEnds (nics nic nets (count + 1) (nic net count c).2).1.netargs :=
        frontEnds_append _ _
      have hports : (nics nic (net :: nets) count c).1.rockerports =
          (nic net count c).1.rockerports ++
            (nics nic nets (count + 1) (nic net count c).2).1.rockerports := rfl
      rw [hcons, hports]
      simp only [List.count_append]
      omega

/-- The loop has a card of its own for each network. -/
theorem returns_nics_of_cards {nic : Text → Nat → Start Nics} (nets : List Text)
    (h : ∀ net count, Returns (fun r ↦ backEnds r.netargs = [netId count] ∧
      frontEnds r.netargs = [netId count] ∧ r.rockerports = []) (nic net count)) (count : Nat) :
    Returns (fun r ↦ backEnds r.netargs = ids (fun _ ↦ netId) nets count ∧
      (frontEnds r.netargs).Perm (ids (fun _ ↦ netId) nets count)) (nics nic nets count) := by
  have hserved : ∀ net ∈ nets, ∀ count, Returns (Served [netId count]) (nic net count) := by
    intro net _ count c
    obtain ⟨hback, hfront, hports⟩ := h net count c
    refine ⟨hback, ?_⟩
    rw [hfront, hports]
    exact List.Perm.refl _
  intro c
  obtain ⟨hback, hfront⟩ := returns_nics hserved count c
  have hnone : ∀ p ∈ (nics nic nets count c).1.rockerports, False := by
    apply forall_rockerports_nics
    intro net count c p hp
    rw [(h net count c).2.2] at hp
    exact List.not_mem_nil hp
  rw [List.eq_nil_iff_forall_not_mem.mpr hnone, List.append_nil] at hfront
  exact ⟨hback, hfront⟩

/-- A card on a switch. -/
theorem returns_literalNic {driver : Text} (hdriver : ',' ∉ driver) (net : Text) (count : Nat) :
    Returns (fun r ↦ backEnds r.netargs = [netId count] ∧ frontEnds r.netargs = [netId count] ∧
      r.rockerports = []) (literalNic driver net count) := by
  apply Returns.macAddress
  intro mac hmac
  apply Returns.ret
  refine ⟨?_, ?_, rfl⟩
  · rw [backEnds_vde, backEnds_card, backEnds_nil]
  · rw [frontEnds_vde, frontEnds_card hdriver hmac (not_mem_netId count), frontEnds_nil]

/-- A card of a forwarding engine, with a bridge before the first of sixteen. -/
theorem returns_vmxNic (net : Text) (count : Nat) :
    Returns (fun r ↦ backEnds r.netargs = [netId count] ∧ frontEnds r.netargs = [netId count] ∧
      r.rockerports = []) (vmxNic net count) := by
  have hdriver : ',' ∉ "virtio-net-pci".toList := by decide
  apply Returns.macAddress
  intro mac hmac
  apply Returns.ret
  refine ⟨?_, ?_, rfl⟩
  · rw [backEnds_append, backEnds_vmxBridge, backEnds_vde, backEnds_card, backEnds_nil,
      List.nil_append]
  · rw [frontEnds_append, frontEnds_vmxBridge, frontEnds_vde, frontEnds_bridgedCard hdriver hmac,
      frontEnds_nil, List.nil_append]

/-- A card on a switch leaves nothing to a switch device. -/
theorem served_literalNic {driver : Text} (hdriver : ',' ∉ driver) (net : Text) (count : Nat) :
    Returns (Served [netId count]) (literalNic driver net count) := by
  intro c
  obtain ⟨hback, hfront, hports⟩ := returns_literalNic hdriver net count c
  refine ⟨hback, ?_⟩
  rw [hfront, hports]
  exact List.Perm.refl _

/-- The id of a network of a virtual machine or of an image. -/
def oobOrId (net : Text) (count : Nat) : Text :=
  if net = "oob".toList then "oob" else netId count

/-- A management card. -/
theorem served_oobNic (env : Env) (name login : Text) (options : Nat → Text) :
    Returns (Served ["oob"]) (oobNic env name login options) := by
  apply Returns.tcpPort
  intro ssh
  apply Returns.ret
  have hdriver : ',' ∉ "virtio-net-pci".toList := by decide
  have hoob : ',' ∉ "oob".toList := by decide
  have hmac : ',' ∉ oobmac := by decide
  constructor
  · simp [-String.reduceToList]
  · simp [-String.reduceToList, frontEnds_card hdriver hmac hoob]

/-- A network of a virtual machine has a card or a port of the switch device. -/
theorem served_vmNic (env : Env) (name : Text) {net : Text} (hnet : ',' ∉ net) (count : Nat) :
    Returns (Served [oobOrId net count]) (vmNic env name net count) := by
  unfold vmNic oobOrId
  split
  · exact served_oobNic env name "root" _
  · split
    · exact Returns.ret ⟨rfl, List.Perm.refl _⟩
    · split
      · have hdriver : ',' ∉ beforeLast '@' net := fun h ↦ hnet (mem_of_mem_beforeLast h)
        exact served_literalNic hdriver (afterLast '@' net) count
      · exact served_literalNic (by decide) net count

/-- A network of an image has a card. -/
theorem served_imgNic (env : Env) (name net : Text) (count : Nat) :
    Returns (Served [oobOrId net count]) (imgNic env name net count) := by
  unfold imgNic oobOrId
  split
  · exact served_oobNic env name _ _
  · exact served_literalNic (by decide) net count

/-! ### Ids -/

private theorem ne_netId {w : Text} (h : w.head? ≠ some 'n') (count : Nat) : w ≠ netId count := by
  rintro rfl
  exact h rfl

private theorem oob_mem_ids (nets : List Text) (count : Nat) :
    "oob".toList ∈ ids oobOrId nets count ↔ "oob".toList ∈ nets := by
  induction nets generalizing count with
  | nil => exact iff_of_false List.not_mem_nil List.not_mem_nil
  | cons net nets ih =>
    have hhead : "oob".toList = oobOrId net count ↔ "oob".toList = net := by
      unfold oobOrId
      split
      · next hoob => exact iff_of_true rfl hoob.symm
      · next hne => exact iff_of_false (ne_netId (by decide) count) (Ne.symm hne)
    rw [ids_cons, List.mem_cons, List.mem_cons, ih, hhead]

private theorem le_of_netId_mem_ids {nets : List Text} {count j : Nat}
    (h : netId j ∈ ids oobOrId nets count) : count ≤ j := by
  obtain ⟨x, hx, hid⟩ := List.mem_map.mp h
  have hle := List.le_snd_of_mem_zipIdx hx
  unfold oobOrId at hid
  split at hid
  · exact absurd hid (ne_netId (by decide) j)
  · rw [netId_injective hid] at hle
    exact hle

/-- Each network has an id of its own, but for the management network. -/
theorem nodup_ids_oobOrId (nets : List Text) (count : Nat) :
    (ids oobOrId nets count).Nodup ↔ nets.count "oob".toList ≤ 1 := by
  induction nets generalizing count with
  | nil => exact iff_of_true List.nodup_nil (Nat.zero_le 1)
  | cons net nets ih =>
    rw [ids_cons, List.nodup_cons, ih]
    by_cases hoob : net = "oob".toList
    · have hid : oobOrId net count = "oob".toList := if_pos hoob
      have hzero := List.count_eq_zero (a := "oob".toList) (l := nets)
      rw [hid, oob_mem_ids, hoob, List.count_cons_self, ← hzero]
      omega
    · have hid : oobOrId net count = netId count := if_neg hoob
      have hfresh : netId count ∉ ids oobOrId nets (count + 1) :=
        fun h ↦ Nat.not_succ_le_self count (le_of_netId_mem_ids h)
      rw [hid, and_iff_right hfresh, List.count_cons_of_ne hoob]

/-- Where the networks are numbered, each has an id of its own. -/
theorem nodup_ids_netId (nets : List Text) (count : Nat) :
    (ids (fun _ ↦ netId) nets count).Nodup := by
  have hids : ids (fun _ ↦ netId) nets count = (List.range' count nets.length).map netId := by
    rw [← List.zipIdx_map_snd count nets, List.map_map]
    rfl
  rw [hids]
  exact (List.nodup_range' 1 Nat.one_pos).map netId_injective

/-- A word is not the id of a numbered network. -/
theorem not_mem_ids {w : Text} (h : w.head? ≠ some 'n') (nets : List Text) (count : Nat) :
    w ∉ ids (fun _ ↦ netId) nets count := by
  intro hmem
  obtain ⟨x, -, hx⟩ := List.mem_map.mp hmem
  exact ne_netId h x.2 hx.symm

/-! ### Start functions -/

/-- What holds of all command lines of some events. -/
def AllLines (P : List Netarg → Prop) (events : List Event) : Prop :=
  ∀ file netargs, Event.exec file netargs ∈ events → P netargs

/-- The command lines of some events are wired. -/
abbrev AllWired (events : List Event) : Prop := AllLines Wired events

/-- Each network of a command line has one card or port, and no other has one. -/
def Matched (netargs : List Netarg) : Prop := (frontEnds netargs).Perm (backEnds netargs)

section

variable {P : List Netarg → Prop}

private theorem allLines_append (xs ys : List Event) :
    AllLines P (xs ++ ys) ↔ AllLines P xs ∧ AllLines P ys := by
  unfold AllLines
  simp only [List.mem_append]
  grind

private theorem allLines_exec (file : Text) (netargs : List Netarg) (es : List Event) :
    AllLines P (.exec file netargs :: es) ↔ P netargs ∧ AllLines P es := by
  unfold AllLines
  grind

private theorem allLines_addSshConfig (host : Text) (port : Nat) (user : Text)
    (es : List Event) : AllLines P (.addSshConfig host port user :: es) ↔ AllLines P es := by
  unfold AllLines
  grind

private theorem allLines_setupSwitch (nb : Text) (es : List Event) :
    AllLines P (.setupSwitch nb :: es) ↔ AllLines P es := by
  unfold AllLines
  grind

private theorem allLines_nil : AllLines P [] := fun _ _ h ↦ absurd h List.not_mem_nil

end

/-- A command line with some networks of its own, whose ids are no numbered ones, and cards for the
networks of the loop. -/
theorem wired_of_cards (own : List Text) {netargs : List Netarg} {nics : Nics} {nets : List Text}
    {count : Nat}
    (hnics : backEnds nics.netargs = ids (fun _ ↦ netId) nets count ∧
      (frontEnds nics.netargs).Perm (ids (fun _ ↦ netId) nets count))
    (hback : backEnds netargs = own ++ backEnds nics.netargs)
    (hfront : frontEnds netargs = own ++ frontEnds nics.netargs)
    (hown : own.Nodup) (hword : ∀ w ∈ own, w.head? ≠ some 'n') : Wired netargs := by
  unfold Wired
  rw [hback, hfront, hnics.1]
  constructor
  · apply hown.append (nodup_ids_netId nets count)
    intro w hw
    exact not_mem_ids (hword w hw) nets count
  · exact (List.Perm.refl own).append hnics.2

section Start

variable (env : Env) (name : Text) (nets : List Text)

/-- The kinds with a card for each network and one for management. -/
theorem allWired_startManaged {oobDriver driver : Text} (hoob : ',' ∉ oobDriver)
    (hdriver : ',' ∉ driver) (options : Nat → Text) (login : Text) :
    Returns AllWired (startManaged env name nets oobDriver options login driver) := by
  have hmac : ',' ∉ oobmac := by decide
  have hid : ',' ∉ "oob".toList := by decide
  apply Returns.tcpPort
  intro ssh
  refine Returns.bind (returns_nics_of_cards nets (returns_literalNic hdriver) 0) ?_
  intro nics hnics
  apply Returns.ret
  rw [AllWired, allLines_addSshConfig, allLines_exec]
  refine ⟨wired_of_cards ["oob"] hnics ?_ ?_ (by decide) (by decide), allLines_nil⟩
  · simp [-String.reduceToList]
  · simp [-String.reduceToList, frontEnds_card hoob hmac hid]

/-- The two halves of a machine. -/
theorem allWired_startJuniperVqfx : Returns AllWired (startJuniperVqfx env name nets) := by
  have hdriver : ',' ∉ "e1000".toList := by decide
  have hoobmac : ',' ∉ oobmac := by decide
  have hoob : ',' ∉ "oob".toList := by decide
  have hpfe : ',' ∉ "pfe".toList := by decide
  have hre : ',' ∉ "re".toList := by decide
  apply Returns.tcpPort
  intro ssh
  apply Returns.macAddress
  intro pfeMac hpfeMac
  apply Returns.macAddress
  intro unusedMac hunusedMac
  refine Returns.bind (returns_nics_of_cards nets (returns_literalNic hdriver) 0) ?_
  intro nics hnics
  apply Returns.macAddress
  intro oobMac hoobMac
  apply Returns.macAddress
  intro reMac hreMac
  apply Returns.ret
  rw [AllWired, allLines_setupSwitch, allLines_addSshConfig, allLines_exec, allLines_exec]
  refine ⟨wired_of_cards ["oob", "pfe"] hnics ?_ ?_ (by decide)
    (by decide), ⟨?_, ?_⟩, allLines_nil⟩
  · simp [-String.reduceToList]
  · simp [-String.reduceToList, frontEnds_card hdriver hoobmac hoob,
      frontEnds_card hdriver hpfeMac hpfe, frontEnds_unusedCard hdriver hunusedMac]
  · simp [-String.reduceToList]
  · simp [-String.reduceToList, frontEnds_card hdriver hreMac hre,
      frontEnds_unusedCard hdriver hoobMac]

/-- Here the networks are those of the second half. -/
theorem allWired_startJuniperVmx : Returns AllWired (startJuniperVmx env name nets) := by
  have hdriver : ',' ∉ "virtio-net-pci".toList := by decide
  have he1000 : ',' ∉ "e1000".toList := by decide
  have hoobmac : ',' ∉ oobmac := by decide
  have hoob : ',' ∉ "oob".toList := by decide
  have hpfe : ',' ∉ "pfe".toList := by decide
  have hre : ',' ∉ "re".toList := by decide
  apply Returns.tcpPort
  intro ssh
  apply Returns.macAddress
  intro pfeMac hpfeMac
  apply Returns.macAddress
  intro oobMac hoobMac
  apply Returns.macAddress
  intro reMac hreMac
  refine Returns.bind (returns_nics_of_cards nets returns_vmxNic 0) ?_
  intro nics hnics
  apply Returns.ret
  rw [AllWired, allLines_setupSwitch, allLines_addSshConfig, allLines_exec, allLines_exec]
  refine ⟨⟨?_, ?_⟩, wired_of_cards ["oob", "re"] hnics ?_ ?_ (by decide) (by decide), allLines_nil⟩
  · simp [-String.reduceToList]
    decide
  · simp [-String.reduceToList, frontEnds_card he1000 hoobmac hoob,
      frontEnds_card hdriver hpfeMac hpfe]
  · have huser (xs : List Netarg) :
        backEnds (.option "-netdev" "user,id=oob" :: xs) = "oob".toList :: backEnds xs :=
      backEnds_plainNetdev hoob xs
    simp [-String.reduceToList, huser]
  · simp [-String.reduceToList, frontEnds_card hdriver hoobMac hoob,
      frontEnds_card hdriver hreMac hre]

/-- Four cards on switches of the machine. -/
theorem allWired_startJuniperVjunos : Returns AllWired (startJuniperVjunos env name) := by
  have hdriver : ',' ∉ "virtio-net-pci".toList := by decide
  have hoobmac : ',' ∉ oobmac := by decide
  have hoob : ',' ∉ "oob".toList := by decide
  have hpfe1 : ',' ∉ "pfe1".toList := by decide
  have hrpio1 : ',' ∉ "rpio1".toList := by decide
  have hrpio2 : ',' ∉ "rpio2".toList := by decide
  have hpfe2 : ',' ∉ "pfe2".toList := by decide
  apply Returns.tcpPort
  intro ssh
  apply Returns.macAddress
  intro pfe1Mac hpfe1Mac
  apply Returns.macAddress
  intro rpio1Mac hrpio1Mac
  apply Returns.macAddress
  intro rpio2Mac hrpio2Mac
  apply Returns.macAddress
  intro pfe2Mac hpfe2Mac
  apply Returns.ret
  rw [AllWired, allLines_setupSwitch, allLines_setupSwitch, allLines_addSshConfig, allLines_exec]
  refine ⟨⟨?_, ?_⟩, allLines_nil⟩
  · simp [-String.reduceToList]
    decide
  · simp [-String.reduceToList, frontEnds_card hdriver hoobmac hoob,
      frontEnds_card hdriver hpfe1Mac hpfe1, frontEnds_card hdriver hrpio1Mac hrpio1,
      frontEnds_card hdriver hrpio2Mac hrpio2, frontEnds_card hdriver hpfe2Mac hpfe2]

/-- One more card in place of the management card. -/
theorem allWired_startJuniperFirefly : Returns AllWired (startJuniperFirefly env name nets) := by
  have hdriver : ',' ∉ "e1000".toList := by decide
  have htftp : ',' ∉ "tftp".toList := by decide
  apply Returns.macAddress
  intro tftpMac htftpMac
  refine Returns.bind (returns_nics_of_cards nets (returns_literalNic hdriver) 0) ?_
  intro nics hnics
  apply Returns.ret
  rw [AllWired, allLines_exec]
  refine ⟨wired_of_cards ["tftp"] hnics ?_ ?_ (by decide) (by decide), allLines_nil⟩
  · have huser (xs : List Netarg) : backEnds (.option "-netdev" ("user,id=tftp,tftp=" ++ env.tmp ++
        "/tftp,hostname=" ++ name) :: xs) = "tftp".toList :: backEnds xs := by
      have hvalue : "user,id=tftp,tftp=".toList ++ env.tmp ++ "/tftp,hostname=".toList ++ name =
          "user,id=".toList ++ "tftp".toList ++ ',' ::
            ("tftp=".toList ++ env.tmp ++ "/tftp,hostname=".toList ++ name) := by
        simp only [List.append_assoc]
        rfl
      rw [hvalue, backEnds_netdev htftp]
    simp only [List.cons_append, List.nil_append, huser, backEnds_card]
  · simp [-String.reduceToList, frontEnds_card hdriver htftpMac htftp]

/-- Two cards with nothing behind them. -/
theorem allWired_startCiscoIosxrv : Returns AllWired (startCiscoIosxrv env name nets) := by
  have hdriver : ',' ∉ "virtio-net-pci".toList := by decide
  have he1000 : ',' ∉ "e1000".toList := by decide
  have hoobmac : ',' ∉ oobmac := by decide
  have hoob : ',' ∉ "oob".toList := by decide
  apply Returns.tcpPort
  intro ssh
  apply Returns.macAddress
  intro controlMac hcontrolMac
  apply Returns.macAddress
  intro devMac hdevMac
  refine Returns.bind (returns_nics_of_cards nets (returns_literalNic he1000) 0) ?_
  intro nics hnics
  apply Returns.ret
  rw [AllWired, allLines_addSshConfig, allLines_exec]
  refine ⟨wired_of_cards ["oob"] hnics ?_ ?_ (by decide) (by decide), allLines_nil⟩
  · simp [-String.reduceToList]
  · simp [-String.reduceToList, frontEnds_card hdriver hoobmac hoob,
      frontEnds_unusedCard hdriver hcontrolMac, frontEnds_unusedCard hdriver hdevMac]

private theorem allLines_nics {P : List Netarg → Prop} {nic : Text → Nat → Start Nics}
    (h : ∀ net count c, ∀ e ∈ (nic net count c).1.events, AllLines P [e]) (c : Counters) :
    AllLines P (nics nic nets 0 c).1.events := by
  intro file netargs hmem
  exact forall_events_nics h nets 0 c _ hmem file netargs (List.mem_singleton_self _)

private theorem allLines_oobNic {P : List Netarg → Prop} (login : Text) (options : Nat → Text)
    (c : Counters) : ∀ e ∈ (oobNic env name login options c).1.events, AllLines P [e] := by
  intro e he
  rw [List.mem_singleton.mp he, allLines_addSshConfig]
  exact allLines_nil

/-- The only command line of the kinds that find the management network among the others: its
networks are those of the loop, and each of them has a card or a port. -/
private def OneLine (nets : List Text) (events : List Event) : Prop :=
  ∃ netargs : List Netarg, backEnds netargs = ids oobOrId nets 0 ∧
    (frontEnds netargs).Perm (ids oobOrId nets 0) ∧
    ∀ P : List Netarg → Prop, AllLines P events ↔ P netargs

private theorem oneLine_startVm (hnets : ∀ net ∈ nets, ',' ∉ net) (c : Counters) :
    OneLine nets (startVm env name nets c).1 := by
  have hevents (P : List Netarg → Prop) :
      AllLines P (nics (vmNic env name) nets 0 c).1.events := by
    apply allLines_nics
    intro net count c e he
    unfold vmNic at he
    split at he
    · exact allLines_oobNic env name _ _ c e he
    · split at he
      · cases he
      · split at he <;> cases he
  have hports : ∀ p ∈ (nics (vmNic env name) nets 0 c).1.rockerports, ',' ∉ p :=
    forall_rockerports_nics nets c (rockerports_vmNic env name) 0
  obtain ⟨hback, hfront⟩ := returns_nics (fun net hnet ↦ served_vmNic env name (hnets net hnet)) 0 c
  have hdrive : ∃ drive : List Netarg, (startVm env name nets c).1 =
      (nics (vmNic env name) nets 0 c).1.events ++ [.exec ("vm-" ++ name ++ ".exec")
        ((nics (vmNic env name) nets 0 c).1.netargs ++
          rocker (nics (vmNic env name) nets 0 c).1.rockerports ++ drive)] ∧
      backEnds drive = [] ∧ frontEnds drive = [] := by
    refine ⟨_, rfl, ?_, ?_⟩
    · split
      · rfl
      · exact backEnds_option (by decide) []
    · split
      · rfl
      · exact frontEnds_option (by decide) []
  obtain ⟨drive, heq, hbackDrive, hfrontDrive⟩ := hdrive
  refine ⟨(nics (vmNic env name) nets 0 c).1.netargs ++
    rocker (nics (vmNic env name) nets 0 c).1.rockerports ++ drive, ?_, ?_, fun P ↦ ?_⟩
  · rw [backEnds_append, backEnds_append, backEnds_rocker, hbackDrive, List.append_nil,
      List.append_nil, hback]
  · rw [frontEnds_append, frontEnds_append, frontEnds_rocker hports, hfrontDrive, List.append_nil]
    exact hfront
  · rw [heq, allLines_append, and_iff_right (hevents P), allLines_exec, and_iff_left allLines_nil]

private theorem oneLine_startImg (c : Counters) : OneLine nets (startImg env name nets c).1 := by
  have hevents (P : List Netarg → Prop) :
      AllLines P (nics (imgNic env name) nets 0 c).1.events := by
    apply allLines_nics
    intro net count c e he
    unfold imgNic at he
    split at he
    · exact allLines_oobNic env name _ _ c e he
    · cases he
  obtain ⟨hback, hfront⟩ := returns_nics (fun net (_ : net ∈ nets) ↦ served_imgNic env name net) 0 c
  have hnone : ∀ p ∈ (nics (imgNic env name) nets 0 c).1.rockerports, False := by
    apply forall_rockerports_nics
    intro net count c p hp
    unfold imgNic at hp
    split at hp <;> cases hp
  rw [List.eq_nil_iff_forall_not_mem.mpr hnone, List.append_nil] at hfront
  have heq : (startImg env name nets c).1 = (nics (imgNic env name) nets 0 c).1.events ++
      [.exec ("vm-" ++ name ++ ".exec") (nics (imgNic env name) nets 0 c).1.netargs] := rfl
  refine ⟨_, hback, hfront, fun P ↦ ?_⟩
  rw [heq, allLines_append, and_iff_right (hevents P), allLines_exec, and_iff_left allLines_nil]

/-- Such a command line is wired if its management network is there once at most. -/
private theorem OneLine.allWired_iff {nets : List Text} {events : List Event}
    (h : OneLine nets events) : AllWired events ↔ nets.count "oob".toList ≤ 1 := by
  obtain ⟨netargs, hback, hfront, hall⟩ := h
  rw [AllWired, hall, Wired, hback, and_iff_left hfront, nodup_ids_oobOrId]

private theorem OneLine.matched {nets : List Text} {events : List Event}
    (h : OneLine nets events) : AllLines Matched events := by
  obtain ⟨netargs, hback, hfront, hall⟩ := h
  rw [hall, Matched, hback]
  exact hfront

/-- The kinds for which the management network is a word among the networks. -/
def Kind.NamesOob : Kind → Prop
  | .vm | .img => True
  | _ => False

/-- What a start function writes is wired, unless the management network is there twice. -/
theorem allWired_start_iff (kind : Kind) (hnets : ∀ net ∈ nets, ',' ∉ net) (c : Counters) :
    AllWired (kind.start env name nets c).1 ↔ (kind.NamesOob → nets.count "oob".toList ≤ 1) := by
  cases kind with
  | vm =>
    exact (oneLine_startVm env name nets hnets c).allWired_iff.trans (imp_iff_right trivial).symm
  | img => exact (oneLine_startImg env name nets c).allWired_iff.trans (imp_iff_right trivial).symm
  | ns =>
    apply iff_of_true _ nofun
    exact (allLines_exec (P := Wired) _ [] []).mpr
      ⟨⟨List.nodup_nil, List.Perm.refl []⟩, allLines_nil⟩
  | juniperVqfx => exact iff_of_true (allWired_startJuniperVqfx env name nets c) nofun
  | juniperVmx => exact iff_of_true (allWired_startJuniperVmx env name nets c) nofun
  | juniperVjunos => exact iff_of_true (allWired_startJuniperVjunos env name c) nofun
  | juniperFirefly => exact iff_of_true (allWired_startJuniperFirefly env name nets c) nofun
  | ciscoIosxrv => exact iff_of_true (allWired_startCiscoIosxrv env name nets c) nofun
  | juniperVrr | juniperVsrx | cumulusVx | sonic | ciscoNxos | hpVsr1000 =>
    exact iff_of_true
      (allWired_startManaged env name nets (by decide) (by decide) _ _ c) nofun

/-- Networks and cards match in any case. -/
theorem matched_start (kind : Kind) (hnets : ∀ net ∈ nets, ',' ∉ net) (c : Counters) :
    AllLines Matched (kind.start env name nets c).1 := by
  by_cases hoob : kind.NamesOob
  · cases kind with
    | vm => exact (oneLine_startVm env name nets hnets c).matched
    | img => exact (oneLine_startImg env name nets c).matched
    | _ => cases hoob
  · intro file netargs hmem
    exact ((allWired_start_iff env name nets kind hnets c).mpr (absurd · hoob) file netargs hmem).2

end Start

private theorem allLines_setups {P : List Netarg → Prop} (nets : List Text) :
    AllLines P ((nets.filterMap switchOf).map Event.setupSwitch) := by
  intro file netargs h
  obtain ⟨nb, -, hnb⟩ := List.mem_map.mp h
  cases hnb

/-- The command lines of a machine are wired exactly inside of a machine, where there are none, for
the kinds that look for no management network among the others, and when it is named at most once.
Networks and cards match in any case, so otherwise one id is given to two networks. -/
theorem spawn_wired_iff (env : Env) (kind : Kind) (name : Text) (args nets : List Text)
    (c c' : Counters) (events : List Event) (hnets : networks args = .ok nets)
    (hspawn : spawn env kind.text name args c = .ok (events, c')) :
    ((∀ file netargs, Event.exec file netargs ∈ events → Wired netargs) ↔
      env.state = "SETUP".toList ∨ ¬ kind.NamesOob ∨ nets.count "oob".toList ≤ 1) ∧
    (∀ file netargs, Event.exec file netargs ∈ events →
      (frontEnds netargs).Perm (backEnds netargs)) ∧
    (env.state ≠ "SETUP".toList → kind.NamesOob → 1 < nets.count "oob".toList →
      ∃ file netargs, Event.exec file netargs ∈ events ∧ ¬ (backEnds netargs).Nodup) := by
  have hall : (AllWired events ↔
      env.state = "SETUP".toList ∨ ¬ kind.NamesOob ∨ nets.count "oob".toList ≤ 1) ∧
        AllLines Matched events := by
    by_cases hstate : env.state = "SETUP".toList
    · have hnone (P : List Netarg → Prop) : AllLines P events := by
        rw [spawn, if_pos hstate] at hspawn
        split at hspawn <;> cases hspawn
        · intro file netargs h
          cases List.mem_singleton.mp h
        · exact allLines_nil
      exact ⟨iff_of_true (hnone Wired) (Or.inl hstate), hnone Matched⟩
    · rcases spawn_cases hnets hspawn with ⟨hsetup, -⟩ | ⟨-, rfl⟩
      · exact absurd hsetup hstate
      · have hcomma := not_mem_of_mem_networks hnets
        rw [AllWired, allLines_append, allLines_append, and_iff_right (allLines_setups nets),
          and_iff_right (allLines_setups nets), or_iff_right hstate, ← imp_iff_not_or]
        exact ⟨allWired_start_iff env name nets kind hcomma c,
          matched_start env name nets kind hcomma c⟩
  refine ⟨hall.1, hall.2, fun hstate hoob htwice ↦ ?_⟩
  -- What is not wired although it matches has an id twice.
  by_contra hnone
  have hwired : AllWired events := by
    intro file netargs hmem
    exact ⟨Classical.not_not.mp fun hdup ↦ hnone ⟨file, netargs, hmem, hdup⟩,
      hall.2 file netargs hmem⟩
  rcases hall.1.mp hwired with h | h | h
  · exact hstate h
  · exact h hoob
  · omega

/-- The two halves of a forwarding machine with two networks are wired. -/
theorem spawn_wired_vmx : ∃ events c', spawn .bare Kind.juniperVmx.text "r1" ["networks", "1,2"]
    ⟨none, none⟩ = .ok (events, c') ∧
      ∀ file netargs, Event.exec file netargs ∈ events → Wired netargs := by
  have hspawn : ∃ r, spawn .bare Kind.juniperVmx.text "r1" ["networks", "1,2"] ⟨none, none⟩ =
      .ok r := ⟨_, rfl⟩
  obtain ⟨⟨events, c'⟩, hspawn⟩ := hspawn
  have hwired := (spawn_wired_iff .bare .juniperVmx "r1" ["networks", "1,2"] ["1", "2"]
    ⟨none, none⟩ c' events rfl hspawn).1.mpr (Or.inr (Or.inl not_false))
  exact ⟨events, c', hspawn, hwired⟩

end NetworkLab.LabSetup
