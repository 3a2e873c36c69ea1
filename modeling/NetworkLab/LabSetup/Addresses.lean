import NetworkLab.LabSetup.Options
import NetworkLab.LabSetup.Switches
import NetworkLab.Lib.PyText
import NetworkLab.Lib.Supply

/-!
# Addresses and ports of a lab

What `mac_address` and `tcp_port` of `common/lab-setup:129–141` hand out while a lab calls `spawn`
again and again: the addresses of the cards of all machines and the ports that lead to them.
-/

namespace NetworkLab.LabSetup

open Lib Shell

/-! ### What is configured -/

/-- The address of a card. -/
def Netarg.mac? : Netarg → Option Text
  | .vde _ _ => none
  | .option name value => if name = "-device".toList then property "mac" value else none

/-- The addresses of the cards of a command line that are not for management. -/
def drawn (netargs : List Netarg) : List Text :=
  (netargs.filterMap Netarg.mac?).filter (· ≠ oobmac)

/-- The addresses that an event configures. -/
def Event.macs : Event → List Text
  | .exec _ netargs => drawn netargs
  | _ => []

/-- The port of an entry of the SSH configuration. -/
def Event.port? : Event → Option Nat
  | .addSshConfig _ port _ => some port
  | _ => none

/-- The addresses of all machines, in the order of the command lines. -/
def macs (events : List Event) : List Text := events.flatMap Event.macs

/-- The ports of the SSH configuration. -/
def ports (events : List Event) : List Nat := events.filterMap Event.port?

/-- What `mac_address` writes for a number. -/
def macText (n : Nat) : Text := "50:54:33:00:" ++ hexByte (n / 256) ++ ":" ++ hexByte (n % 256)

/-- The number of the next address. -/
def Counters.nextMac (c : Counters) : Nat := c.mac.getD 1

/-- A call of `spawn`. -/
structure Call where
  env : Env
  kind : Text
  name : Text
  args : List Text

/-- The calls of `spawn` of a lab. It stops where one fails. -/
def spawnAll : List Call → Counters → Except Failure (List Event × Counters)
  | [], c => .ok ([], c)
  | call :: calls, c => do
    let (events, c) ← spawn call.env call.kind call.name call.args c
    let (rest, c) ← spawnAll calls c
    return (events ++ rest, c)

/-! ### Addresses as texts -/

private theorem digitChar_of_mem {n : Nat} {c : Char} (h : c ∈ Nat.toDigits 16 n) :
    ∃ k < 16, c = k.digitChar := by
  induction n using Nat.strong_induction_on with
  | _ n ih =>
    rw [Nat.toDigits_eq_if (by decide)] at h
    split at h
    · next hn => exact ⟨n, hn, List.mem_singleton.mp h⟩
    · next hn =>
      rcases List.mem_append.mp h with h | h
      · exact ih (n / 16) (by omega) h
      · exact ⟨n % 16, Nat.mod_lt _ (by decide), List.mem_singleton.mp h⟩

private theorem ne_of_mem_hexByte {n : Nat} {c : Char} (h : c ∈ hexByte n) : c ≠ ',' := by
  have hdigits : ∀ k < 16, k.digitChar.toUpper ≠ ',' := by decide
  rcases List.mem_append.mp h with h | h
  · rw [List.eq_of_mem_replicate h]
    decide
  · obtain ⟨d, hd, rfl⟩ := List.mem_map.mp h
    obtain ⟨k, hk, rfl⟩ := digitChar_of_mem hd
    exact hdigits k hk

/-- A byte takes two digits, as does a smaller number. -/
theorem length_hexByte (n : Nat) : (hexByte n).length = 2 ↔ n < 256 := by
  have hdigits : (Nat.toDigits 16 n).length ≤ 2 ↔ n < 16 ^ 2 :=
    Nat.length_toDigits_le_iff (by decide) (by decide)
  rw [hexByte]
  simp only [List.length_append, List.length_replicate, List.length_map]
  omega

/-- The number that hexadecimal digits write. -/
private def hexValue (ds : Text) : Nat :=
  ds.foldl (fun n d ↦ 16 * n + (PyText.hexDigit? d).getD 0) 0

private theorem hexValue_append (ds : Text) (d : Char) :
    hexValue (ds ++ [d]) = 16 * hexValue ds + (PyText.hexDigit? d).getD 0 := by
  rw [hexValue, List.foldl_append]
  rfl

private theorem hexValue_toDigits (n : Nat) :
    hexValue ((Nat.toDigits 16 n).map Char.toUpper) = n := by
  have hdigits : ∀ k < 16, (PyText.hexDigit? k.digitChar.toUpper).getD 0 = k := by decide
  induction n using Nat.strong_induction_on with
  | _ n ih =>
    rw [Nat.toDigits_eq_if (by decide)]
    split
    · next hn =>
      change 16 * 0 + (PyText.hexDigit? n.digitChar.toUpper).getD 0 = n
      rw [hdigits n hn, Nat.mul_zero, Nat.zero_add]
    · next hn =>
      rw [List.map_append, List.map_singleton, hexValue_append, ih (n / 16) (by omega),
        hdigits _ (Nat.mod_lt _ (by decide)), Nat.div_add_mod]

private theorem hexValue_hexByte (n : Nat) : hexValue (hexByte n) = n := by
  have hzeros (k : Nat) (ds : Text) : hexValue (List.replicate k '0' ++ ds) = hexValue ds := by
    induction k with
    | zero => rfl
    | succ k ih =>
      rw [List.replicate_succ, List.cons_append]
      exact ih
  rw [hexByte, hzeros, hexValue_toDigits]

private theorem length_lowByte (n : Nat) : (hexByte (n % 256)).length = 2 :=
  (length_hexByte _).mpr (Nat.mod_lt _ (Nat.succ_pos 255))

/-- No two numbers are written as one address. -/
theorem macText_injective : Function.Injective macText := by
  intro m n h
  obtain ⟨hfront, hback⟩ :=
    List.append_inj' h ((length_lowByte m).trans (length_lowByte n).symm)
  have hhigh := List.append_cancel_left (List.append_cancel_right hfront)
  have hdiv : m / 256 = n / 256 := by
    rw [← hexValue_hexByte (m / 256), hhigh, hexValue_hexByte]
  have hmod : m % 256 = n % 256 := by
    rw [← hexValue_hexByte (m % 256), hback, hexValue_hexByte]
  rw [← Nat.div_add_mod m 256, hdiv, hmod, Nat.div_add_mod]

/-- An address has the size of an address as long as its number has 16 bits. -/
theorem length_macText (n : Nat) : (macText n).length = 17 ↔ n < 65536 := by
  have hhigh := length_hexByte (n / 256)
  have hlow := length_lowByte n
  unfold macText
  generalize hexByte (n / 256) = high at hhigh ⊢
  generalize hexByte (n % 256) = low at hlow ⊢
  simp only [List.length_append, hlow, String.length_toList]
  have hprefix : "50:54:33:00:".length = 12 := rfl
  have hcolon : ":".length = 1 := rfl
  omega

/-- An address has no comma. -/
theorem not_mem_macText (n : Nat) : ',' ∉ macText n := by
  have hbyte (k : Nat) : ',' ∉ hexByte k := fun h ↦ ne_of_mem_hexByte h rfl
  unfold macText
  simp only [List.mem_append, not_or]
  exact ⟨⟨⟨by decide, hbyte _⟩, by decide⟩, hbyte _⟩

/-- The address of the management cards is not drawn. -/
theorem macText_ne_oobmac (n : Nat) : macText n ≠ oobmac := by
  intro h
  have hhead := congrArg List.head? h
  have hfive : (macText n).head? = some '5' := rfl
  rw [hfive] at hhead
  exact absurd hhead (by decide)

/-! ### Command lines -/

@[simp] theorem drawn_nil : drawn [] = [] := rfl

@[simp] theorem drawn_append (xs ys : List Netarg) : drawn (xs ++ ys) = drawn xs ++ drawn ys := by
  rw [drawn, List.filterMap_append, List.filter_append]
  rfl

@[simp] theorem drawn_vde (nb id : Text) (xs : List Netarg) : drawn (.vde nb id :: xs) = drawn xs :=
  rfl

/-- Options that are no cards have no address. -/
theorem drawn_option {name value : Text} (h : name ≠ "-device".toList) (xs : List Netarg) :
    drawn (.option name value :: xs) = drawn xs := by
  have hnone : Netarg.mac? (.option name value) = none := if_neg h
  rw [drawn, List.filterMap_cons_none hnone]
  rfl

@[simp] theorem drawn_netdev (value : Text) (xs : List Netarg) :
    drawn (.option "-netdev" value :: xs) = drawn xs := drawn_option (by decide) xs

@[simp] theorem drawn_userNetdev (options : Text) (xs : List Netarg) :
    drawn (userNetdev options :: xs) = drawn xs := drawn_netdev _ xs

@[simp] theorem drawn_monitor (env : Env) (name : Text) : drawn (monitor env name) = [] := by
  unfold monitor
  split
  · rfl
  · exact drawn_option (by decide) []

private theorem mac?_card {driver mac : Text} (hdriver : ',' ∉ driver) (hmac : ',' ∉ mac)
    (netdev : Text) : (card driver mac netdev).mac? = some mac := by
  change property _ _ = _
  rw [property, properties_card hdriver hmac]
  rfl

/-- The address of a card. -/
theorem drawn_card {driver : Text} (hdriver : ',' ∉ driver) (n : Nat) (netdev : Text)
    (xs : List Netarg) : drawn (card driver (macText n) netdev :: xs) = macText n :: drawn xs := by
  rw [drawn, List.filterMap_cons_some (mac?_card hdriver (not_mem_macText n) netdev),
    List.filter_cons_of_pos]
  · rfl
  · exact decide_eq_true (macText_ne_oobmac n)

/-- The address of a card with nothing behind it. -/
theorem drawn_unusedCard {driver : Text} (hdriver : ',' ∉ driver) (n : Nat) (xs : List Netarg) :
    drawn (unusedCard driver (macText n) :: xs) = macText n :: drawn xs := by
  have hmac : (unusedCard driver (macText n)).mac? = some (macText n) := by
    change property _ _ = _
    rw [property, properties_unusedCard hdriver (not_mem_macText n)]
    rfl
  rw [drawn, List.filterMap_cons_some hmac, List.filter_cons_of_pos]
  · rfl
  · exact decide_eq_true (macText_ne_oobmac n)

/-- The management card has an address of its own. -/
theorem drawn_oobCard {driver : Text} (hdriver : ',' ∉ driver) (xs : List Netarg) :
    drawn (card driver oobmac "oob" :: xs) = drawn xs := by
  have hmac : ',' ∉ oobmac := by decide
  rw [drawn, List.filterMap_cons_some (mac?_card hdriver hmac "oob"), List.filter_cons_of_neg]
  · rfl
  · simp

/-- The switch device has no address. -/
theorem drawn_rocker {ports : List Text} (h : ∀ p ∈ ports, ',' ∉ p) :
    drawn (rocker ports) = [] := by
  have hnone {value : Text} {rest : List (Text × Text)}
      (hvalue : properties value = ("name".toList, "sw1".toList) ::
        ("len-ports".toList, decimal ports.length) :: rest)
      (hrest : ∀ x ∈ rest, x.1 ≠ "mac".toList) :
      Netarg.mac? (.option "-device" value) = none := by
    change property _ _ = _
    rw [property, hvalue, List.find?_cons_of_neg (by decide),
      List.find?_cons_of_neg (ne_of_beq_false rfl), List.find?_eq_none.mpr]
    · rfl
    · intro x hx
      rw [decide_eq_true_eq]
      exact hrest x hx
  have hport (count : Nat) : "ports[".toList ++ decimal count ++ "]".toList ≠ "mac".toList := by
    intro heq
    have hhead : some 'p' = some 'm' := congrArg List.head? heq
    exact absurd hhead (by decide)
  unfold rocker
  split
  · rfl
  · dsimp only
    rw [drawn, List.filterMap_cons_none (hnone (properties_rocker h) ?_)]
    · rfl
    · intro x hx
      obtain ⟨y, -, rfl⟩ := List.mem_map.mp hx
      exact hport y.2

/-- The bridges of a forwarding engine have no address. -/
theorem drawn_vmxBridge (count : Nat) : drawn (vmxBridge count) = [] := by
  have hport (n : Nat) : Netarg.mac? (.option "-device" ("pcie-root-port,bus=pcie.0,id=rp".toList ++
      decimal n ++ ",slot=".toList ++ decimal n)) = none := by
    change property _ _ = _
    rw [property, properties_rootPort]
    rfl
  have hbridge (n : Nat) : Netarg.mac? (.option "-device" ("pcie-pci-bridge,id=br".toList ++
      decimal n ++ ",bus=rp".toList ++ decimal n)) = none := by
    change property _ _ = _
    rw [property, properties_pciBridge]
    rfl
  unfold vmxBridge
  dsimp only
  split
  · rw [drawn, List.filterMap_cons_none (hport _), List.filterMap_cons_none (hbridge _)]
    rfl
  · rfl

/-! ### Events -/

@[simp] theorem macs_append (xs ys : List Event) : macs (xs ++ ys) = macs xs ++ macs ys :=
  List.flatMap_append

@[simp] theorem ports_append (xs ys : List Event) : ports (xs ++ ys) = ports xs ++ ports ys :=
  List.filterMap_append

@[simp] theorem macs_nil : macs [] = [] := rfl

@[simp] theorem macs_setupSwitch (nb : Text) (es : List Event) :
    macs (.setupSwitch nb :: es) = macs es := rfl

@[simp] theorem macs_addSshConfig (host : Text) (port : Nat) (user : Text) (es : List Event) :
    macs (.addSshConfig host port user :: es) = macs es := rfl

@[simp] theorem macs_exec (file : Text) (netargs : List Netarg) (es : List Event) :
    macs (.exec file netargs :: es) = drawn netargs ++ macs es := rfl

@[simp] theorem ports_nil : ports [] = [] := rfl

@[simp] theorem ports_setupSwitch (nb : Text) (es : List Event) :
    ports (.setupSwitch nb :: es) = ports es := rfl

@[simp] theorem ports_addSshConfig (host : Text) (port : Nat) (user : Text) (es : List Event) :
    ports (.addSshConfig host port user :: es) = port :: ports es := rfl

@[simp] theorem ports_exec (file : Text) (netargs : List Netarg) (es : List Event) :
    ports (.exec file netargs :: es) = ports es := rfl

/-! ### Counters -/

/-- From the counters `c` to `c'`, addresses and ports are drawn in order. -/
structure Supplies (c c' : Counters) (macs : List Text) (ports : List Nat) : Prop where
  mac : ∃ ns, Draws c.nextMac c'.nextMac ns ∧ macs = ns.map macText
  tcp : Starts c.tcp c'.tcp ports

namespace Supplies

variable {c c' c'' : Counters} {ms ns : List Text} {ps qs : List Nat}

/-- Nothing is drawn. -/
theorem nil (c : Counters) : Supplies c c [] [] := ⟨⟨[], Draws.nil _, rfl⟩, Starts.nil _⟩

/-- Some are drawn after others. -/
theorem append (hm : Supplies c c' ms ps) (hn : Supplies c' c'' ns qs) :
    Supplies c c'' (ms ++ ns) (ps ++ qs) := by
  obtain ⟨is, hi, rfl⟩ := hm.mac
  obtain ⟨js, hj, rfl⟩ := hn.mac
  exact ⟨⟨is ++ js, hi.append hj, List.map_append.symm⟩, hm.tcp.append hn.tcp⟩

/-- What is drawn is what is written. -/
theorem of_eq (h : Supplies c c' ms ps) (hm : ns = ms) (hp : qs = ps) : Supplies c c' ns qs := by
  rw [hm, hp]
  exact h

/-- `mac_address` draws an address. -/
theorem macAddress (c : Counters) :
    Supplies c (macAddress c).2 [macText c.nextMac] [] :=
  ⟨⟨[c.nextMac], Draws.one _, rfl⟩, Starts.nil _⟩

/-- `tcp_port` draws a port. -/
theorem tcpPort (env : Env) (c : Counters) :
    Supplies c (tcpPort env c).2 [] [(tcpPort env c).1] :=
  ⟨⟨[], Draws.nil _, rfl⟩, Starts.one c.tcp env.tcpStart⟩

/-- What each network draws, the loop draws. -/
theorem nics {nic : Text → Nat → Start Nics} {nets : List Text}
    (h : ∀ net ∈ nets, ∀ count c, Supplies c (nic net count c).2
      (drawn (nic net count c).1.netargs) (ports (nic net count c).1.events)) (count : Nat)
    (c : Counters) :
    Supplies c (nics nic nets count c).2 (drawn (nics nic nets count c).1.netargs)
      (ports (nics nic nets count c).1.events) := by
  induction nets generalizing count c with
  | nil => exact nil c
  | cons net nets ih =>
    obtain ⟨hnet, hnets⟩ := List.forall_mem_cons.mp h
    have hcons := (hnet count c).append (ih hnets (count + 1) (nic net count c).2)
    rw [← drawn_append, ← ports_append] at hcons
    exact hcons

end Supplies

/-! ### Start functions -/

section Start

variable (env : Env) (name : Text) (nets : List Text) (c : Counters)

/-- A card on a switch draws an address. -/
theorem supplies_literalNic {driver : Text} (hdriver : ',' ∉ driver) (net : Text) (count : Nat)
    (c : Counters) :
    Supplies c (literalNic driver net count c).2 (drawn (literalNic driver net count c).1.netargs)
      (ports (literalNic driver net count c).1.events) := by
  have hdrawn : drawn (literalNic driver net count c).1.netargs = [macText c.nextMac] := by
    apply (drawn_vde _ _ _).trans
    exact drawn_card hdriver c.nextMac (netId count) []
  rw [hdrawn]
  exact Supplies.macAddress c

/-- The management card draws a port. -/
theorem supplies_oobNic (login : Text) (options : Nat → Text) :
    Supplies c (oobNic env name login options c).2
      (drawn (oobNic env name login options c).1.netargs)
      (ports (oobNic env name login options c).1.events) := by
  have hdrawn : drawn (oobNic env name login options c).1.netargs = [] := by
    apply (drawn_userNetdev _ _).trans
    apply (drawn_oobCard (by decide) _).trans
    exact drawn_monitor env name
  rw [hdrawn]
  exact Supplies.tcpPort env c

/-- A network of a virtual machine draws what it configures. -/
theorem supplies_vmNic {net : Text} (hnet : ',' ∉ net) (count : Nat) (c : Counters) :
    Supplies c (vmNic env name net count c).2 (drawn (vmNic env name net count c).1.netargs)
      (ports (vmNic env name net count c).1.events) := by
  unfold vmNic
  split
  · exact supplies_oobNic env name c "root" _
  · split
    · exact Supplies.nil c
    · split
      · have hdriver : ',' ∉ beforeLast '@' net := fun h ↦ hnet (mem_of_mem_beforeLast h)
        have hdrawn : drawn [.vde (afterLast '@' net) (netId count),
            card (beforeLast '@' net) (macText c.nextMac) (netId count)] = [macText c.nextMac] :=
          drawn_card hdriver c.nextMac (netId count) []
        have h := Supplies.macAddress c
        rw [← hdrawn] at h
        exact h
      · exact supplies_literalNic (by decide) net count c

/-- So does a network of an image. -/
theorem supplies_imgNic (net : Text) (count : Nat) (c : Counters) :
    Supplies c (imgNic env name net count c).2 (drawn (imgNic env name net count c).1.netargs)
      (ports (imgNic env name net count c).1.events) := by
  unfold imgNic
  split
  · exact supplies_oobNic env name c _ _
  · exact supplies_literalNic (by decide) net count c

/-- So does a network of a forwarding engine. -/
theorem supplies_vmxNic (net : Text) (count : Nat) (c : Counters) :
    Supplies c (vmxNic net count c).2 (drawn (vmxNic net count c).1.netargs)
      (ports (vmxNic net count c).1.events) := by
  have hdrawn : drawn (vmxNic net count c).1.netargs = [macText c.nextMac] := by
    apply (drawn_append _ _).trans
    rw [drawn_vmxBridge]
    exact drawn_card (by decide) c.nextMac _ []
  rw [hdrawn]
  exact Supplies.macAddress c

/-- The loop adds no machine to those of its function. -/
theorem macs_nics_events {nic : Text → Nat → Start Nics}
    (h : ∀ net count c, ∀ e ∈ (nic net count c).1.events, e.macs = []) (count : Nat) :
    macs (nics nic nets count c).1.events = [] :=
  List.flatMap_eq_nil_iff.mpr (forall_events_nics h nets count c)

/-- What holds of the ports that each network leaves to the switch device holds of all. -/
theorem forall_rockerports_nics {nic : Text → Nat → Start Nics} {P : Text → Prop}
    (h : ∀ net count c, ∀ p ∈ (nic net count c).1.rockerports, P p) (count : Nat) :
    ∀ p ∈ (nics nic nets count c).1.rockerports, P p := by
  induction nets generalizing count c with
  | nil => exact List.forall_mem_nil P
  | cons net nets ih =>
    intro p hp
    have hcons : (nics nic (net :: nets) count c).1.rockerports =
        (nic net count c).1.rockerports ++
          (nics nic nets (count + 1) (nic net count c).2).1.rockerports := rfl
    rw [hcons, List.mem_append] at hp
    rcases hp with hp | hp
    · exact h net count c p hp
    · exact ih _ _ p hp

/-- Without the word for the management network the loop does nothing else. -/
theorem nics_events {nic : Text → Nat → Start Nics}
    (h : ∀ net count c, (nic net count c).1.events = []) (count : Nat) :
    (nics nic nets count c).1.events = [] := by
  apply List.eq_nil_iff_forall_not_mem.mpr
  apply forall_events_nics
  intro net count c e he
  rw [h] at he
  exact List.not_mem_nil he

end Start

/-! ### Start functions -/

/-- What was drawn since `c₀` is configured once the rest of a start function ran. -/
def Configures (c₀ : Counters) (m : Start (List Event)) (c : Counters) : Prop :=
  Supplies c₀ (m c).2 (macs (m c).1) (ports (m c).1)

namespace Configures

variable {c₀ c : Counters} {ms : List Text} {ps : List Nat}

theorem ret {events : List Event} (h : Supplies c₀ c ms ps) (hm : macs events = ms)
    (hp : ports events = ps) : Configures c₀ (pure events) c := h.of_eq hm hp

theorem macAddress {k : Text → Start (List Event)} (h : Supplies c₀ c ms ps)
    (hk : ∀ n c', Supplies c₀ c' (ms ++ [macText n]) ps → Configures c₀ (k (macText n)) c') :
    Configures c₀ (macAddress >>= k) c := by
  apply hk c.nextMac (LabSetup.macAddress c).2
  have hnext := h.append (Supplies.macAddress c)
  rw [List.append_nil] at hnext
  exact hnext

theorem tcpPort {k : Nat → Start (List Event)} (env : Env) (h : Supplies c₀ c ms ps)
    (hk : ∀ p c', Supplies c₀ c' ms (ps ++ [p]) → Configures c₀ (k p) c') :
    Configures c₀ (tcpPort env >>= k) c := by
  apply hk (LabSetup.tcpPort env c).1 (LabSetup.tcpPort env c).2
  have hnext := h.append (Supplies.tcpPort env c)
  rw [List.append_nil] at hnext
  exact hnext

theorem nics {k : Nics → Start (List Event)} {nic : Text → Nat → Start Nics} {nets : List Text}
    (hnic : ∀ net ∈ nets, ∀ count c, Supplies c (nic net count c).2
      (drawn (nic net count c).1.netargs) (ports (nic net count c).1.events)) (count : Nat)
    (h : Supplies c₀ c ms ps)
    (hk : ∀ c', Supplies c₀ c' (ms ++ drawn (nics nic nets count c).1.netargs)
      (ps ++ ports (nics nic nets count c).1.events) →
      Configures c₀ (k (nics nic nets count c).1) c') :
    Configures c₀ (nics nic nets count >>= k) c :=
  hk _ (h.append (Supplies.nics hnic count c))

theorem literalNics {k : Nics → Start (List Event)} {driver : Text} (nets : List Text)
    (hdriver : ',' ∉ driver) (count : Nat) (h : Supplies c₀ c ms ps)
    (hk : ∀ nics c', Supplies c₀ c' (ms ++ drawn nics.netargs) ps → Configures c₀ (k nics) c') :
    Configures c₀ (LabSetup.nics (literalNic driver) nets count >>= k) c := by
  apply nics (fun net _ ↦ supplies_literalNic hdriver net) count h
  intro c' h'
  rw [nics_events nets c fun _ _ _ ↦ rfl, ports_nil, List.append_nil] at h'
  exact hk _ c' h'

end Configures

section Configures

variable (env : Env) (name : Text) (nets : List Text) (c : Counters)

/-- The kinds with a card for each network and one for management. -/
theorem configures_startManaged {oobDriver driver : Text} (hoob : ',' ∉ oobDriver)
    (hdriver : ',' ∉ driver) (options : Nat → Text) (login : Text) :
    Configures c (startManaged env name nets oobDriver options login driver) c := by
  apply Configures.tcpPort env (Supplies.nil c)
  intro ssh c₁ h₁
  apply Configures.literalNics nets hdriver 0 h₁
  intro nics c₂ h₂
  apply Configures.ret h₂
  · simp [-String.reduceToList, drawn_oobCard hoob]
  · rfl

/-- The two halves of a machine have a card on the switch between them, and one more each. -/
theorem configures_startJuniperVqfx : Configures c (startJuniperVqfx env name nets) c := by
  have hdriver : ',' ∉ "e1000".toList := by decide
  apply Configures.tcpPort env (Supplies.nil c)
  intro ssh c₁ h₁
  apply Configures.macAddress h₁
  intro pfeMac c₂ h₂
  apply Configures.macAddress h₂
  intro unusedMac c₃ h₃
  apply Configures.literalNics nets hdriver 0 h₃
  intro nics c₄ h₄
  apply Configures.macAddress h₄
  intro oobMac c₅ h₅
  apply Configures.macAddress h₅
  intro reMac c₆ h₆
  apply Configures.ret h₆
  · simp [-String.reduceToList, drawn_oobCard hdriver, drawn_card hdriver, drawn_unusedCard hdriver]
  · rfl

/-- Here the networks are those of the second half. -/
theorem configures_startJuniperVmx : Configures c (startJuniperVmx env name nets) c := by
  have hdriver : ',' ∉ "virtio-net-pci".toList := by decide
  have hoob : ',' ∉ "e1000".toList := by decide
  apply Configures.tcpPort env (Supplies.nil c)
  intro ssh c₁ h₁
  apply Configures.macAddress h₁
  intro pfeMac c₂ h₂
  apply Configures.macAddress h₂
  intro oobMac c₃ h₃
  apply Configures.macAddress h₃
  intro reMac c₄ h₄
  apply Configures.nics (fun net _ ↦ supplies_vmxNic net) 0 h₄
  intro c₅ h₅
  rw [nics_events nets c₄ fun _ _ _ ↦ rfl] at h₅
  apply Configures.ret h₅
  · simp [-String.reduceToList, drawn_oobCard hoob, drawn_card hdriver]
  · rfl

/-- Four cards on switches of the machine. -/
theorem configures_startJuniperVjunos : Configures c (startJuniperVjunos env name) c := by
  have hdriver : ',' ∉ "virtio-net-pci".toList := by decide
  apply Configures.tcpPort env (Supplies.nil c)
  intro ssh c₁ h₁
  apply Configures.macAddress h₁
  intro pfe1Mac c₂ h₂
  apply Configures.macAddress h₂
  intro rpio1Mac c₃ h₃
  apply Configures.macAddress h₃
  intro rpio2Mac c₄ h₄
  apply Configures.macAddress h₄
  intro pfe2Mac c₅ h₅
  apply Configures.ret h₅
  · simp only [macs_setupSwitch, macs_addSshConfig, macs_exec, macs_nil, drawn_append, drawn_nil,
      drawn_userNetdev, drawn_vde, drawn_monitor, drawn_oobCard hdriver, drawn_card hdriver,
      List.cons_append, List.nil_append, List.append_nil, List.append_assoc]
  · rfl

/-- One more card, and no port. -/
theorem configures_startJuniperFirefly : Configures c (startJuniperFirefly env name nets) c := by
  have hdriver : ',' ∉ "e1000".toList := by decide
  apply Configures.macAddress (Supplies.nil c)
  intro tftpMac c₁ h₁
  apply Configures.literalNics nets hdriver 0 h₁
  intro nics c₂ h₂
  apply Configures.ret h₂
  · simp [-String.reduceToList, drawn_card hdriver]
  · rfl

/-- Two cards with nothing behind them. -/
theorem configures_startCiscoIosxrv : Configures c (startCiscoIosxrv env name nets) c := by
  have hoob : ',' ∉ "virtio-net-pci".toList := by decide
  have hdriver : ',' ∉ "e1000".toList := by decide
  apply Configures.tcpPort env (Supplies.nil c)
  intro ssh c₁ h₁
  apply Configures.macAddress h₁
  intro controlMac c₂ h₂
  apply Configures.macAddress h₂
  intro devMac c₃ h₃
  apply Configures.literalNics nets hdriver 0 h₃
  intro nics c₄ h₄
  apply Configures.ret h₄
  · simp [-String.reduceToList, drawn_oobCard hoob, drawn_unusedCard hoob]
  · rfl

private theorem macs_vmNic (net : Text) (count : Nat) (c : Counters) :
    ∀ e ∈ (vmNic env name net count c).1.events, e.macs = [] := by
  intro e he
  unfold vmNic at he
  split at he
  · rw [List.mem_singleton.mp he]
    rfl
  · split at he
    · nomatch he
    · split at he <;> nomatch he

private theorem macs_imgNic (net : Text) (count : Nat) (c : Counters) :
    ∀ e ∈ (imgNic env name net count c).1.events, e.macs = [] := by
  intro e he
  unfold imgNic at he
  split at he
  · rw [List.mem_singleton.mp he]
    rfl
  · nomatch he

/-- What is left to the switch device has no comma. -/
theorem rockerports_vmNic (net : Text) (count : Nat) (c : Counters) :
    ∀ p ∈ (vmNic env name net count c).1.rockerports, ',' ∉ p := by
  intro p hp
  unfold vmNic at hp
  split at hp
  · nomatch hp
  · split at hp
    · rw [List.mem_singleton.mp hp]
      exact not_mem_netId count
    · split at hp <;> nomatch hp

/-- A virtual machine may have a switch device, which has no address. -/
theorem configures_startVm (hnets : ∀ net ∈ nets, ',' ∉ net) :
    Configures c (startVm env name nets) c := by
  apply Configures.nics (fun net hnet ↦ supplies_vmNic env name (hnets net hnet)) 0 (Supplies.nil c)
  intro c₁ h₁
  have hrocker := drawn_rocker (forall_rockerports_nics nets c (rockerports_vmNic env name) 0)
  have hdrive : drawn (if env.disk = [] then []
      else [.option "-drive" ("file=" ++ env.disk ++ ",if=virtio,media=disk")]) = [] := by
    split
    · rfl
    · exact drawn_option (by decide) []
  apply Configures.ret h₁
  · simp only [macs_append, macs_exec, macs_nil, macs_nics_events nets c (macs_vmNic env name),
      drawn_append, hrocker, hdrive, List.append_nil]
  · simp only [ports_append, ports_exec, ports_nil, List.append_nil, List.nil_append]

/-- An image may have a management card. -/
theorem configures_startImg : Configures c (startImg env name nets) c := by
  apply Configures.nics (fun net _ ↦ supplies_imgNic env name net) 0 (Supplies.nil c)
  intro c₁ h₁
  apply Configures.ret h₁
  · simp only [macs_append, macs_exec, macs_nil, macs_nics_events nets c (macs_imgNic env name),
      List.append_nil]
  · simp only [ports_append, ports_exec, ports_nil, List.append_nil, List.nil_append]

/-- Every kind of machine configures what it draws. -/
theorem configures_start (kind : Kind) (hnets : ∀ net ∈ nets, ',' ∉ net) :
    Configures c (kind.start env name nets) c := by
  cases kind with
  | vm => exact configures_startVm env name nets c hnets
  | img => exact configures_startImg env name nets c
  | ns => exact Supplies.nil c
  | juniperVqfx => exact configures_startJuniperVqfx env name nets c
  | juniperVmx => exact configures_startJuniperVmx env name nets c
  | juniperVjunos => exact configures_startJuniperVjunos env name c
  | juniperFirefly => exact configures_startJuniperFirefly env name nets c
  | ciscoIosxrv => exact configures_startCiscoIosxrv env name nets c
  | juniperVrr | juniperVsrx | cumulusVx | sonic | ciscoNxos | hpVsr1000 =>
    exact configures_startManaged env name nets c (by decide) (by decide) _ _

end Configures

/-! ### Labs -/

private theorem not_mem_readNetworks {net net' : Text} {args : List Text} (hnet : ',' ∉ net)
    (h : readNetworks net args = .ok net') : ',' ∉ net' := by
  induction net, args using readNetworks.induct with
  | case1 net keyword value args hkeyword ih =>
    rw [readNetworks, if_pos hkeyword] at h
    exact ih (not_mem_tr (by decide) _) h
  | case2 net keyword value args hkeyword =>
    rw [readNetworks, if_neg hkeyword] at h
    cases h
  | case3 net args hargs =>
    rw [readNetworks] at h
    · cases h
      exact hnet
    · exact hargs

/-- A network has no comma. -/
theorem not_mem_of_mem_networks {args nets : List Text} (h : networks args = .ok nets) :
    ∀ net ∈ nets, ',' ∉ net := by
  cases hread : readNetworks [] args with
  | error e =>
    rw [networks, hread] at h
    cases h
  | ok net =>
    rw [networks, hread] at h
    cases h
    intro w hw hcomma
    exact not_mem_readNetworks List.not_mem_nil hread (mem_of_mem_fields hw hcomma)

theorem supplies_setups {nets : List Text} {setups : List Event}
    (h : setupSwitches nets = .ok setups) : macs setups = [] ∧ ports setups = [] := by
  rw [setupSwitches_eq h]
  constructor
  · exact List.flatMap_eq_nil_iff.mpr fun e he ↦ by
      obtain ⟨nb, -, rfl⟩ := List.mem_map.mp he
      rfl
  · exact List.filterMap_eq_nil_iff.mpr fun e he ↦ by
      obtain ⟨nb, -, rfl⟩ := List.mem_map.mp he
      rfl

/-- A call of `spawn` configures what it draws. -/
theorem supplies_spawn {env : Env} {kind name : Text} {args : List Text} {c c' : Counters}
    {events : List Event} (h : spawn env kind name args c = .ok (events, c')) :
    Supplies c c' (macs events) (ports events) := by
  unfold spawn at h
  split at h
  · split at h <;> cases h <;> exact Supplies.nil c
  · cases hnets : networks args with
    | error e =>
      rw [hnets] at h
      nomatch h
    | ok nets =>
      cases hsetups : setupSwitches nets with
      | error e =>
        simp only [bind, Except.bind, hnets, hsetups] at h
        nomatch h
      | ok setups =>
        simp only [bind, Except.bind, hnets, hsetups] at h
        split at h
        · nomatch h
        · next kind _ =>
          cases h
          obtain ⟨hmacs, hports⟩ := supplies_setups hsetups
          apply (configures_start env name nets c kind (not_mem_of_mem_networks hnets)).of_eq
          · rw [macs_append, hmacs, List.nil_append]
            rfl
          · rw [ports_append, hports, List.nil_append]
            rfl

/-- So does a lab. -/
theorem supplies_spawnAll {calls : List Call} {c c' : Counters} {events : List Event}
    (h : spawnAll calls c = .ok (events, c')) : Supplies c c' (macs events) (ports events) := by
  induction calls generalizing c events with
  | nil =>
    cases h
    exact Supplies.nil _
  | cons call calls ih =>
    unfold spawnAll at h
    cases hcall : spawn call.env call.kind call.name call.args c with
    | error e =>
      rw [hcall] at h
      nomatch h
    | ok r =>
      cases hcalls : spawnAll calls r.2 with
      | error e =>
        simp only [bind, Except.bind, hcall, hcalls] at h
        nomatch h
      | ok rest =>
        simp only [bind, Except.bind, hcall, hcalls] at h
        cases h
        rw [macs_append, ports_append]
        exact (supplies_spawn hcall).append (ih hcalls)

end NetworkLab.LabSetup
