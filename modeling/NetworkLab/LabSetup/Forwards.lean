import NetworkLab.LabSetup.CommandLine

/-!
# Ports that lead to the machines of a lab

A network of QEMU itself forwards ports of the host by its `hostfwd` properties. What the start
functions of `common/lab-setup:534–1663` forward, next to the ports that they write to the SSH
configuration.
-/

namespace NetworkLab.LabSetup

open Lib Shell

/-- The rules among some properties. -/
def rules (properties : List (Text × Text)) : List Text :=
  (properties.filter (·.1 = "hostfwd".toList)).map Prod.snd

/-- The rules of an option. -/
def Netarg.rules : Netarg → List Text
  | .vde _ _ => []
  | .option name value =>
    if name = "-netdev".toList then LabSetup.rules (properties value) else []

/-- The rules of a command line. -/
def hostfwds (netargs : List Netarg) : List Text := netargs.flatMap Netarg.rules

/-- The rules of an event. -/
def Event.forwards : Event → List Text
  | .exec _ netargs => hostfwds netargs
  | _ => []

/-- The rules of all machines, in the order of the command lines. -/
def forwards (events : List Event) : List Text := events.flatMap Event.forwards

/-- The rule that leads from a port of the host to the SSH server of a machine. -/
def sshRule (port : Nat) : Text := "tcp:127.0.0.1:" ++ decimal port ++ "-:22"

/-- A text that stays one word of one property. -/
def IsValue (t : Text) : Prop := ∀ c ∈ t, c ≠ ',' ∧ isBlank c = false

instance (t : Text) : Decidable (IsValue t) :=
  List.decidableBAll (fun c ↦ c ≠ ',' ∧ isBlank c = false) t

/-- No two ports have one rule. -/
theorem sshRule_injective : Function.Injective sshRule := fun _ _ h ↦
  decimal_injective (List.append_cancel_left (List.append_cancel_right h))

/-! ### Command lines -/

@[simp] theorem hostfwds_nil : hostfwds [] = [] := rfl

@[simp] theorem hostfwds_append (xs ys : List Netarg) :
    hostfwds (xs ++ ys) = hostfwds xs ++ hostfwds ys := List.flatMap_append

@[simp] theorem hostfwds_vde (nb id : Text) (xs : List Netarg) :
    hostfwds (.vde nb id :: xs) = hostfwds xs := rfl

theorem hostfwds_option {name value : Text} (h : name ≠ "-netdev".toList) (xs : List Netarg) :
    hostfwds (.option name value :: xs) = hostfwds xs := by
  have hnil : Netarg.rules (.option name value) = [] := if_neg h
  rw [hostfwds, List.flatMap_cons, hnil]
  rfl

@[simp] theorem hostfwds_device (value : Text) (xs : List Netarg) :
    hostfwds (.option "-device" value :: xs) = hostfwds xs := hostfwds_option (by decide) xs

@[simp] theorem hostfwds_card (driver mac netdev : Text) (xs : List Netarg) :
    hostfwds (card driver mac netdev :: xs) = hostfwds xs := hostfwds_device _ xs

@[simp] theorem hostfwds_unusedCard (driver mac : Text) (xs : List Netarg) :
    hostfwds (unusedCard driver mac :: xs) = hostfwds xs := hostfwds_device _ xs

@[simp] theorem hostfwds_monitor (env : Env) (name : Text) : hostfwds (monitor env name) = [] := by
  unfold monitor
  split
  · rfl
  · exact hostfwds_option (by decide) []

@[simp] theorem hostfwds_rocker (ports : List Text) : hostfwds (rocker ports) = [] := by
  unfold rocker
  split
  · rfl
  · exact hostfwds_device _ []

@[simp] theorem hostfwds_vmxBridge (count : Nat) : hostfwds (vmxBridge count) = [] := by
  unfold vmxBridge
  dsimp only
  split
  · rw [hostfwds_device, hostfwds_device, hostfwds_nil]
  · rfl

/-- A network of QEMU itself has the rules among its properties. -/
theorem hostfwds_netdev (value : Text) (xs : List Netarg) :
    hostfwds (.option "-netdev" value :: xs) = rules (properties value) ++ hostfwds xs := rfl

private theorem parts_key {key value : Text} (hkey : '=' ∉ key) (hcomma : ',' ∉ key)
    (hvalue : ',' ∉ value) (t : Text) :
    parts (key ++ '=' :: value ++ ',' :: t) = (key, value) :: parts t := by
  have hpart : ',' ∉ key ++ '=' :: value := by
    rw [List.mem_append, List.mem_cons]
    rintro (h | h | h)
    · exact hcomma h
    · exact absurd h (by decide)
    · exact hvalue h
  rw [parts_append hpart, keyValue_eq hkey]

/-- The management network has the rules among its own options. -/
@[simp] theorem hostfwds_userNetdev (options : Text) (xs : List Netarg) :
    hostfwds (userNetdev options :: xs) = rules (parts options) ++ hostfwds xs := by
  have hvalue : "user,id=oob,".toList ++ options =
      "user".toList ++ ',' :: ("id".toList ++ '=' :: "oob".toList ++ ',' :: options) := rfl
  have hread : properties ("user,id=oob,".toList ++ options) =
      ("id".toList, "oob".toList) :: parts options := by
    have hid := @parts_key "id".toList "oob".toList (by decide) (by decide) (by decide) options
    rw [hvalue, properties_append (by decide), hid]
  have hnetdev := hostfwds_netdev ("user,id=oob,".toList ++ options) xs
  rw [hread] at hnetdev
  exact hnetdev

/-! ### Rules -/

private theorem sshForward_eq (ssh : Nat) :
    sshForward ssh = "hostfwd".toList ++ '=' :: sshRule ssh := by
  have hkey : "hostfwd=tcp:127.0.0.1:".toList =
      "hostfwd".toList ++ '=' :: "tcp:127.0.0.1:".toList := by decide
  unfold sshForward sshRule
  rw [hkey, List.append_assoc, List.append_assoc, List.append_assoc, List.cons_append]

private theorem not_mem_sshRule (ssh : Nat) : ',' ∉ sshRule ssh := by
  unfold sshRule
  rw [List.mem_append, List.mem_append]
  rintro ((h | h) | h)
  · exact absurd h (by decide)
  · exact not_mem_decimal (by decide) ssh h
  · exact absurd h (by decide)

private theorem parts_sshForward (ssh : Nat) :
    parts (sshForward ssh) = [("hostfwd".toList, sshRule ssh)] := by
  have hcomma : ',' ∉ sshForward ssh := by
    rw [sshForward_eq, List.mem_append, List.mem_cons]
    rintro (h | h | h)
    · exact absurd h (by decide)
    · exact absurd h (by decide)
    · exact not_mem_sshRule ssh h
  have hssh := @keyValue_eq "hostfwd".toList (by decide) (sshRule ssh)
  rw [parts_of_not_mem hcomma, sshForward_eq, hssh]

private theorem rules_sshForward_append (ssh : Nat) (t : Text) :
    rules (parts (sshForward ssh ++ ',' :: t)) = sshRule ssh :: rules (parts t) := by
  have hssh := @parts_key "hostfwd".toList (sshRule ssh) (by decide) (by decide)
    (not_mem_sshRule ssh) t
  rw [sshForward_eq, hssh]
  rfl

/-- Some rules lead from some ports to SSH servers; without `$hostfwd` there are no others. -/
structure Leads (unset : Prop) (ports : List Nat) (rules : List Text) : Prop where
  sub : (ports.map sshRule).Sublist rules
  only : unset → rules = ports.map sshRule

namespace Leads

variable {unset unset' : Prop} {ps qs : List Nat} {rs ts : List Text}

/-- No port and no rule. -/
theorem nil : Leads unset [] [] := ⟨List.Sublist.refl [], fun _ ↦ rfl⟩

/-- Ports and rules come after others. -/
theorem append (hp : Leads unset ps rs) (hq : Leads unset qs ts) :
    Leads unset (ps ++ qs) (rs ++ ts) where
  sub := by
    rw [List.map_append]
    exact hp.sub.append hq.sub
  only h := by
    rw [hp.only h, hq.only h, List.map_append]

/-- Where more has to be unset, fewer rules are promised to be the only ones. -/
theorem mono (h : Leads unset ps rs) (hunset : unset' → unset) : Leads unset' ps rs :=
  ⟨h.sub, fun h' ↦ h.only (hunset h')⟩

end Leads

/-- One rule leads from the port of a machine. -/
theorem leads_sshForward (unset : Prop) (ssh : Nat) :
    Leads unset [ssh] (rules (parts (sshForward ssh))) := by
  rw [parts_sshForward]
  exact ⟨List.Sublist.refl _, fun _ ↦ rfl⟩

/-- So does the first rule where the user may add some. -/
theorem leads_moreForwards (env : Env) (ssh : Nat) :
    Leads (env.hostfwd = none) [ssh] (rules (parts (sshForward ssh ++ moreForwards env))) := by
  unfold moreForwards
  cases env.hostfwd with
  | none =>
    rw [List.append_nil]
    exact leads_sshForward _ ssh
  | some hostfwd =>
    have hmore := rules_sshForward_append ssh ("hostfwd=".toList ++ hostfwd)
    refine ⟨?_, fun h ↦ absurd h (Option.some_ne_none hostfwd)⟩
    change [sshRule ssh].Sublist
      (rules (parts (sshForward ssh ++ ',' :: ("hostfwd=".toList ++ hostfwd))))
    rw [hmore]
    exact (List.nil_sublist _).cons_cons _

private theorem not_mem_metadata {env : Env} {name : Text} (htmp : IsValue env.tmp)
    (hname : IsValue name) (dir : Text) (hdir : ',' ∉ dir) : ',' ∉ env.tmp ++ dir ++ name := by
  rw [List.mem_append, List.mem_append]
  rintro ((h | h) | h)
  · exact (htmp _ h).1 rfl
  · exact hdir h
  · exact (hname _ h).1 rfl

/-- The Cisco machines name their files before it. -/
theorem leads_ciscoOptions {env : Env} {name : Text} (htmp : IsValue env.tmp)
    (hname : IsValue name) (ssh : Nat) :
    Leads (env.hostfwd = none) [ssh] (rules (parts (ciscoOptions env name ssh))) := by
  have hvalue : ciscoOptions env name ssh =
      "tftp".toList ++ '=' :: (env.tmp ++ "/metadata-".toList ++ name) ++
        ',' :: (sshForward ssh ++ moreForwards env) := by
    unfold ciscoOptions
    simp only [List.append_assoc, List.cons_append]
    rfl
  have hfiles := @parts_key "tftp".toList (env.tmp ++ "/metadata-".toList ++ name) (by decide)
    (by decide) (not_mem_metadata htmp hname _ (by decide)) (sshForward ssh ++ moreForwards env)
  rw [hvalue, hfiles]
  exact leads_moreForwards env ssh

/-- The HP machine names them behind it. -/
theorem leads_hpOptions {env : Env} {name : Text} (htmp : IsValue env.tmp)
    (hname : IsValue name) (ssh : Nat) :
    Leads (env.hostfwd = none) [ssh] (rules (parts (sshForward ssh ++ ",tftp=".toList ++ env.tmp ++
      "/tftp-".toList ++ name ++ ",tftp-server-name=10.0.2.2,bootfile=device.cfg".toList))) := by
  have hvalue : sshForward ssh ++ ",tftp=".toList ++ env.tmp ++ "/tftp-".toList ++ name ++
      ",tftp-server-name=10.0.2.2,bootfile=device.cfg".toList =
        sshForward ssh ++ ',' :: ("tftp".toList ++ '=' :: (env.tmp ++ "/tftp-".toList ++ name) ++
          ',' :: "tftp-server-name=10.0.2.2,bootfile=device.cfg".toList) := by
    simp only [List.append_assoc, List.cons_append]
    rfl
  have hfiles := @parts_key "tftp".toList (env.tmp ++ "/tftp-".toList ++ name) (by decide)
    (by decide) (not_mem_metadata htmp hname "/tftp-".toList (by decide))
    "tftp-server-name=10.0.2.2,bootfile=device.cfg".toList
  rw [hvalue, rules_sshForward_append, hfiles]
  exact ⟨List.Sublist.refl _, fun _ ↦ rfl⟩

/-! ### Loops over the networks -/

/-- What forwards nothing for one network forwards nothing for all. -/
theorem hostfwds_nics {nic : Text → Nat → Start Nics}
    (h : ∀ net count c, hostfwds (nic net count c).1.netargs = []) (nets : List Text)
    (count : Nat) (c : Counters) : hostfwds (nics nic nets count c).1.netargs = [] := by
  induction nets generalizing count c with
  | nil => rfl
  | cons net nets ih =>
    have hcons : (nics nic (net :: nets) count c).1.netargs =
        (nic net count c).1.netargs ++
          (nics nic nets (count + 1) (nic net count c).2).1.netargs := rfl
    rw [hcons, hostfwds_append, h, ih, List.append_nil]

@[simp] theorem hostfwds_literalNics (driver : Text) (nets : List Text) (count : Nat)
    (c : Counters) : hostfwds (nics (literalNic driver) nets count c).1.netargs = [] :=
  hostfwds_nics (fun _ _ _ ↦ rfl) nets count c

@[simp] theorem hostfwds_vmxNics (nets : List Text) (count : Nat) (c : Counters) :
    hostfwds (nics vmxNic nets count c).1.netargs = [] := by
  apply hostfwds_nics
  intro net count c
  apply (hostfwds_append (vmxBridge count) _).trans
  rw [hostfwds_vmxBridge]
  rfl

/-- What holds for each network holds for the loop. -/
theorem leads_nics {unset : Prop} {nic : Text → Nat → Start Nics}
    (h : ∀ net count c, Leads unset (ports (nic net count c).1.events)
      (hostfwds (nic net count c).1.netargs)) (nets : List Text) (count : Nat) (c : Counters) :
    Leads unset (ports (nics nic nets count c).1.events)
      (hostfwds (nics nic nets count c).1.netargs) := by
  induction nets generalizing count c with
  | nil => exact Leads.nil
  | cons net nets ih =>
    have hcons := (h net count c).append (ih (count + 1) (nic net count c).2)
    rw [← ports_append, ← hostfwds_append] at hcons
    exact hcons

/-! ### Start functions -/

section Start

variable (env : Env) (name : Text) (nets : List Text) (c : Counters)

private theorem leads_oobNic {options : Nat → Text} (login : Text)
    (h : ∀ ssh, Leads (env.hostfwd = none) [ssh] (rules (parts (options ssh)))) :
    Leads (env.hostfwd = none) (ports (oobNic env name login options c).1.events)
      (hostfwds (oobNic env name login options c).1.netargs) := by
  have hrules : hostfwds (oobNic env name login options c).1.netargs =
      rules (parts (options (tcpPort env c).1)) := by
    apply (hostfwds_userNetdev _ _).trans
    change _ ++ hostfwds (card _ _ _ :: monitor env name) = _
    rw [hostfwds_card, hostfwds_monitor, List.append_nil]
    rfl
  rw [hrules]
  exact h _

/-- A network of a virtual machine. -/
theorem leads_vmNic (net : Text) (count : Nat) :
    Leads (env.hostfwd = none) (ports (vmNic env name net count c).1.events)
      (hostfwds (vmNic env name net count c).1.netargs) := by
  unfold vmNic
  split
  · exact leads_oobNic env name c _ (leads_moreForwards env)
  · split
    · exact Leads.nil
    · split <;> exact Leads.nil

/-- A network of an image. -/
theorem leads_imgNic (net : Text) (count : Nat) :
    Leads (env.hostfwd = none) (ports (imgNic env name net count c).1.events)
      (hostfwds (imgNic env name net count c).1.netargs) := by
  unfold imgNic
  split
  · exact leads_oobNic env name c _ (leads_sshForward _)
  · exact Leads.nil

@[simp] private theorem forwards_nil : forwards [] = [] := rfl

@[simp] private theorem forwards_append (xs ys : List Event) :
    forwards (xs ++ ys) = forwards xs ++ forwards ys := List.flatMap_append

@[simp] private theorem forwards_setupSwitch (nb : Text) (es : List Event) :
    forwards (.setupSwitch nb :: es) = forwards es := rfl

@[simp] private theorem forwards_addSshConfig (host : Text) (port : Nat) (user : Text)
    (es : List Event) : forwards (.addSshConfig host port user :: es) = forwards es := rfl

@[simp] private theorem forwards_exec (file : Text) (netargs : List Netarg) (es : List Event) :
    forwards (.exec file netargs :: es) = hostfwds netargs ++ forwards es := rfl

private theorem forwards_nics {nic : Text → Nat → Start Nics}
    (h : ∀ net count c, ∀ e ∈ (nic net count c).1.events, e.forwards = []) :
    forwards (nics nic nets 0 c).1.events = [] :=
  List.flatMap_eq_nil_iff.mpr (forall_events_nics h nets 0 c)

private theorem forwards_oobNic (login : Text) (options : Nat → Text) (c : Counters) :
    ∀ e ∈ (oobNic env name login options c).1.events, e.forwards = [] := by
  intro e he
  rw [List.mem_singleton.mp he]
  rfl

/-- The ports of a start function lead to its machine. -/
abbrev LeadsTo (events : List Event) : Prop :=
  Leads (env.hostfwd = none) (ports events) (forwards events)

private theorem leads_startVm : LeadsTo env (startVm env name nets c).1 := by
  have hevents : forwards (nics (vmNic env name) nets 0 c).1.events = [] := by
    apply forwards_nics
    intro net count c e he
    unfold vmNic at he
    split at he
    · exact forwards_oobNic env name _ _ c e he
    · split at he
      · cases he
      · split at he <;> cases he
  have hdrive : hostfwds (if env.disk = [] then []
      else [.option "-drive" ("file=" ++ env.disk ++ ",if=virtio,media=disk")]) = [] := by
    split
    · rfl
    · exact hostfwds_option (by decide) []
  have hstart : (startVm env name nets c).1 = (nics (vmNic env name) nets 0 c).1.events ++
      [.exec ("vm-" ++ name ++ ".exec") ((nics (vmNic env name) nets 0 c).1.netargs ++
        rocker (nics (vmNic env name) nets 0 c).1.rockerports ++
          if env.disk = [] then []
          else [.option "-drive" ("file=" ++ env.disk ++ ",if=virtio,media=disk")])] := rfl
  rw [LeadsTo, hstart]
  simp only [ports_append, ports_exec, ports_nil, forwards_append, forwards_exec, forwards_nil,
    hevents, hostfwds_append, hostfwds_rocker, hdrive, List.append_nil, List.nil_append]
  exact leads_nics (fun net count c ↦ leads_vmNic env name c net count) nets 0 c

private theorem leads_startImg : LeadsTo env (startImg env name nets c).1 := by
  have hevents : forwards (nics (imgNic env name) nets 0 c).1.events = [] := by
    apply forwards_nics
    intro net count c e he
    unfold imgNic at he
    split at he
    · exact forwards_oobNic env name _ _ c e he
    · cases he
  have hstart : (startImg env name nets c).1 = (nics (imgNic env name) nets 0 c).1.events ++
      [.exec ("vm-" ++ name ++ ".exec") (nics (imgNic env name) nets 0 c).1.netargs] := rfl
  rw [LeadsTo, hstart]
  simp only [ports_append, ports_exec, ports_nil, forwards_append, forwards_exec, forwards_nil,
    hevents, List.append_nil, List.nil_append]
  exact leads_nics (fun net count c ↦ leads_imgNic env name c net count) nets 0 c

/-- One port and the options of the management network, which lead to the machine. -/
private theorem leadsTo_of_eq {events : List Event} {options : Nat → Text} {ssh : Nat}
    (h : ∀ ssh, Leads (env.hostfwd = none) [ssh] (rules (parts (options ssh))))
    (hports : ports events = [ssh]) (hrules : forwards events = rules (parts (options ssh))) :
    LeadsTo env events := by
  rw [LeadsTo, hports, hrules]
  exact h ssh

private theorem leads_startManaged {oobDriver driver login : Text} {options : Nat → Text}
    (h : ∀ ssh, Leads (env.hostfwd = none) [ssh] (rules (parts (options ssh)))) :
    LeadsTo env (startManaged env name nets oobDriver options login driver c).1 := by
  apply leadsTo_of_eq env h rfl
  change forwards [.addSshConfig name _ login, .exec _ ([userNetdev (options _), card _ _ _] ++
    monitor env name ++ (nics (literalNic driver) nets 0 _).1.netargs)] = _
  simp

private theorem leads_startJuniperVqfx : LeadsTo env (startJuniperVqfx env name nets c).1 := by
  apply leadsTo_of_eq env (leads_sshForward _) rfl
  change forwards [.setupSwitch _, .addSshConfig name _ _,
    .exec _ ([userNetdev (sshForward _), card _ _ _] ++ monitor env name ++
      [.vde _ _, card _ _ _, unusedCard _ _] ++ (nics (literalNic _) nets 0 _).1.netargs),
    .exec _ [unusedCard _ _, .vde _ _, card _ _ _]] = _
  simp

private theorem leads_startJuniperVmx : LeadsTo env (startJuniperVmx env name nets c).1 := by
  apply leadsTo_of_eq env (leads_moreForwards env) rfl
  change forwards [.setupSwitch _, .addSshConfig name _ _,
    .exec _ ([userNetdev (sshForward _ ++ moreForwards env), card _ _ _] ++ monitor env name ++
      [.vde _ _, card _ _ _]),
    .exec _ ([.option "-netdev" "user,id=oob", card _ _ _, .vde _ _, card _ _ _] ++
      (nics vmxNic nets 0 _).1.netargs)] = _
  have hplain : rules (properties "user,id=oob".toList) = [] := by decide
  simp only [forwards_setupSwitch, forwards_addSshConfig, forwards_exec, forwards_nil,
    hostfwds_append, hostfwds_userNetdev, hostfwds_card, hostfwds_vde, hostfwds_monitor,
    hostfwds_netdev, hostfwds_vmxNics, hostfwds_nil, hplain, List.append_nil]

private theorem leads_startJuniperVjunos : LeadsTo env (startJuniperVjunos env name c).1 := by
  apply leadsTo_of_eq env (leads_moreForwards env) rfl
  change forwards [.setupSwitch _, .setupSwitch _, .addSshConfig name _ _,
    .exec _ ([userNetdev (sshForward _ ++ moreForwards env), card _ _ _] ++ monitor env name ++
      [.vde _ _, card _ _ _, .vde _ _, card _ _ _, .vde _ _, card _ _ _, .vde _ _,
        card _ _ _])] = _
  simp

private theorem leads_startJuniperFirefly (htmp : IsValue env.tmp) (hname : IsValue name) :
    LeadsTo env (startJuniperFirefly env name nets c).1 := by
  have hvalue : "user,id=tftp,tftp=".toList ++ env.tmp ++ "/tftp,hostname=".toList ++ name =
      "user".toList ++ ',' :: ("id".toList ++ '=' :: "tftp".toList ++
        ',' :: ("tftp".toList ++ '=' :: (env.tmp ++ "/tftp".toList) ++
          ',' :: ("hostname".toList ++ '=' :: name))) := by
    simp only [List.append_assoc, List.cons_append]
    rfl
  have htftp : ',' ∉ env.tmp ++ "/tftp".toList := by
    rw [List.mem_append]
    rintro (h | h)
    · exact (htmp _ h).1 rfl
    · exact absurd h (by decide)
  have hhost : ',' ∉ "hostname".toList ++ '=' :: name := by
    rw [List.mem_append, List.mem_cons]
    rintro (h | h | h)
    · exact absurd h (by decide)
    · exact absurd h (by decide)
    · exact (hname _ h).1 rfl
  have hnone : rules (properties ("user,id=tftp,tftp=".toList ++ env.tmp ++
      "/tftp,hostname=".toList ++ name)) = [] := by
    rw [hvalue, properties_append (by decide),
      @parts_key "id".toList "tftp".toList (by decide) (by decide) (by decide),
      @parts_key "tftp".toList _ (by decide) (by decide) htftp, parts_of_not_mem hhost,
      @keyValue_eq "hostname".toList (by decide)]
    rfl
  have hrules : forwards (startJuniperFirefly env name nets c).1 = [] := by
    change forwards [.exec _ ([.option "-netdev" ("user,id=tftp,tftp=" ++ env.tmp ++
      "/tftp,hostname=" ++ name), card _ _ _] ++ (nics (literalNic _) nets 0 _).1.netargs)] = _
    simp only [forwards_exec, forwards_nil, hostfwds_append, hostfwds_netdev, hostfwds_card,
      hostfwds_nil, hostfwds_literalNics, hnone, List.append_nil]
  rw [LeadsTo, hrules]
  exact Leads.nil

private theorem leads_startCiscoIosxrv (htmp : IsValue env.tmp) (hname : IsValue name) :
    LeadsTo env (startCiscoIosxrv env name nets c).1 := by
  apply leadsTo_of_eq env (leads_ciscoOptions htmp hname) rfl
  change forwards [.addSshConfig name _ _, .exec _ ([userNetdev (ciscoOptions env name _),
    card _ _ _, unusedCard _ _, unusedCard _ _] ++ monitor env name ++
      (nics (literalNic _) nets 0 _).1.netargs)] = _
  simp

/-- The ports of every kind of machine lead to it. -/
theorem leads_start (kind : Kind) (htmp : IsValue env.tmp) (hname : IsValue name) :
    LeadsTo env (kind.start env name nets c).1 := by
  cases kind with
  | vm => exact leads_startVm env name nets c
  | img => exact leads_startImg env name nets c
  | ns => exact Leads.nil
  | juniperVqfx => exact leads_startJuniperVqfx env name nets c
  | juniperVmx => exact leads_startJuniperVmx env name nets c
  | juniperVjunos => exact leads_startJuniperVjunos env name c
  | juniperFirefly => exact leads_startJuniperFirefly env name nets c htmp hname
  | ciscoIosxrv => exact leads_startCiscoIosxrv env name nets c htmp hname
  | juniperVrr | juniperVsrx | cumulusVx | sonic =>
    exact leads_startManaged env name nets c (leads_sshForward _)
  | ciscoNxos => exact leads_startManaged env name nets c (leads_ciscoOptions htmp hname)
  | hpVsr1000 => exact leads_startManaged env name nets c (leads_hpOptions htmp hname)

end Start

/-! ### Labs -/

/-- The ports of a call of `spawn` lead to its machine. -/
theorem leads_spawn {call : Call} {c c' : Counters} {events : List Event}
    (htmp : IsValue call.env.tmp) (hname : IsValue call.name)
    (h : spawn call.env call.kind call.name call.args c = .ok (events, c')) :
    LeadsTo call.env events := by
  unfold spawn at h
  split at h
  · split at h <;> cases h <;> exact Leads.nil
  · cases hnets : networks call.args with
    | error e =>
      rw [hnets] at h
      cases h
    | ok nets =>
      cases hsetups : setupSwitches nets with
      | error e =>
        simp only [bind, Except.bind, hnets, hsetups] at h
        cases h
      | ok setups =>
        simp only [bind, Except.bind, hnets, hsetups] at h
        split at h
        · cases h
        · next kind _ =>
          cases h
          have hstart := leads_start call.env call.name nets c kind htmp hname
          have hnone : Leads (call.env.hostfwd = none) (ports setups) (forwards setups) := by
            have hrules : forwards setups = [] := by
              rw [setupSwitches_eq hsetups]
              exact List.flatMap_eq_nil_iff.mpr fun e he ↦ by
                obtain ⟨nb, -, rfl⟩ := List.mem_map.mp he
                rfl
            rw [(supplies_setups hsetups).2, hrules]
            exact Leads.nil
          have hall := hnone.append hstart
          rw [← ports_append, ← forwards_append] at hall
          exact hall

/-- The ports of a lab lead to its machines. -/
theorem leads_spawnAll {calls : List Call} {c c' : Counters} {events : List Event}
    (hcalls : ∀ call ∈ calls, IsValue call.env.tmp ∧ IsValue call.name)
    (h : spawnAll calls c = .ok (events, c')) :
    Leads (∀ call ∈ calls, call.env.hostfwd = none) (ports events) (forwards events) := by
  induction calls generalizing c events with
  | nil =>
    cases h
    exact Leads.nil
  | cons call calls ih =>
    obtain ⟨⟨htmp, hname⟩, hcalls⟩ := List.forall_mem_cons.mp hcalls
    unfold spawnAll at h
    cases hcall : spawn call.env call.kind call.name call.args c with
    | error e =>
      rw [hcall] at h
      cases h
    | ok r =>
      cases hrest : spawnAll calls r.2 with
      | error e =>
        simp only [bind, Except.bind, hcall, hrest] at h
        cases h
      | ok rest =>
        simp only [bind, Except.bind, hcall, hrest] at h
        cases h
        have hone := (leads_spawn htmp hname hcall).mono
          fun (hall : ∀ x ∈ call :: calls, x.env.hostfwd = none) ↦ hall call List.mem_cons_self
        have hmore := (ih hcalls hrest).mono
          fun (hall : ∀ x ∈ call :: calls, x.env.hostfwd = none) x hx ↦
            hall x (List.mem_cons_of_mem call hx)
        rw [ports_append, forwards_append]
        exact hone.append hmore

/-- In a lab, whatever kinds of machines it spawns and with whatever networks, no address is given
to two cards and none is that of the management cards, all have the size of an address unless there
are more than 16 bits can number. The ports of the SSH configuration are consecutive, each of them
is forwarded to the SSH server of its machine, and unless the user adds rules by `$hostfwd` no other
port is forwarded and no rule is there twice. -/
theorem lab_addresses (calls : List Call) (events : List Event) (c : Counters)
    (hlab : spawnAll calls ⟨none, none⟩ = .ok (events, c)) :
    macs events = (List.range' 1 (macs events).length).map macText ∧
      (macs events).Nodup ∧ oobmac ∉ macs events ∧
      ((∀ mac ∈ macs events, mac.length = oobmac.length) ↔ (macs events).length < 65536) ∧
      (∃ first, ports events = List.range' first (ports events).length) ∧
      (ports events).Nodup ∧
      ((∀ call ∈ calls, IsValue call.env.tmp ∧ IsValue call.name) →
        ((ports events).map sshRule).Sublist (forwards events) ∧
        ((∀ call ∈ calls, call.env.hostfwd = none) →
          forwards events = (ports events).map sshRule ∧ (forwards events).Nodup)) := by
  obtain ⟨⟨ns, hdraws, hmacs⟩, hports⟩ := supplies_spawnAll hlab
  have hlength : (macs events).length = ns.length := by
    rw [hmacs, List.length_map]
  have hrun : ns = List.range' 1 ns.length := hdraws.run
  obtain ⟨first, hfirst⟩ := hports.eq_range'
  have hnodup : (ports events).Nodup := by
    rw [hfirst]
    exact List.nodup_range' 1 Nat.one_pos
  refine ⟨?_, ?_, ?_, ?_, ⟨first, hfirst⟩, hnodup, fun hcalls ↦ ?_⟩
  · rw [hlength, ← hrun, hmacs]
  · rw [hmacs]
    exact hdraws.nodup.map macText_injective
  · rw [hmacs]
    intro h
    obtain ⟨n, -, hn⟩ := List.mem_map.mp h
    exact macText_ne_oobmac n hn
  · have hmem (n : Nat) : n ∈ ns ↔ 1 ≤ n ∧ n < 1 + ns.length := by
      rw [hrun, List.mem_range'_1, List.length_range']
    have hsize : oobmac.length = 17 := rfl
    rw [hlength, hmacs, List.forall_mem_map, hsize]
    simp only [length_macText, hmem]
    constructor
    · intro hall
      by_contra hge
      have hlast := hall ns.length (by omega)
      omega
    · intro hlt n hn
      omega
  · have hleads := leads_spawnAll hcalls hlab
    refine ⟨hleads.sub, fun hunset ↦ ⟨hleads.only hunset, ?_⟩⟩
    rw [hleads.only hunset]
    exact hnodup.map sshRule_injective

/-- A lab with a virtual machine, a switch of two halves and an image. -/
def Call.sample : List Call :=
  [⟨.bare, "vm", "r1", ["networks", "oob,e1000@1"]⟩,
    ⟨.bare, "juniper-vqfx", "s1", ["networks", "1,2"]⟩,
    ⟨.bare, "img", "h1", ["network", "oob", "network", "2"]⟩]

/-- Its cards have addresses of their own, and ports of their own lead to its machines. -/
theorem sample_lab_addresses : ∃ events c, spawnAll Call.sample ⟨none, none⟩ = .ok (events, c) ∧
    (macs events).Nodup ∧ oobmac ∉ macs events ∧
    forwards events = (ports events).map sshRule ∧ (forwards events).Nodup := by
  have hlab : ∃ r, spawnAll Call.sample ⟨none, none⟩ = .ok r := ⟨_, rfl⟩
  have hvalues : ∀ call ∈ Call.sample, IsValue call.env.tmp ∧ IsValue call.name := by decide
  obtain ⟨⟨events, c⟩, hlab⟩ := hlab
  obtain ⟨-, hmacs, hoob, -, -, -, hports⟩ := lab_addresses Call.sample events c hlab
  exact ⟨events, c, hlab, hmacs, hoob, (hports hvalues).2 (by decide)⟩

end NetworkLab.LabSetup
