import NetworkLab.LabSetup.Spawn
import NetworkLab.Lib.Provision
import NetworkLab.Lib.Reading

/-!
# Switches of the network devices

`spawn` and the start function that it calls, `common/lab-setup:224–317`, each read the networks,
the one to set up switches, the other one to connect network devices to them.
-/

namespace NetworkLab.LabSetup

open Lib Shell Provision Reading

/-- Each network device on a command line of QEMU names a switch that was set up before. -/
def HasSwitches (events : List Event) : Prop :=
  ∀ before file netargs after, events = before ++ .exec file netargs :: after →
    ∀ nb id, Netarg.vde nb id ∈ netargs → Event.setupSwitch nb ∈ before

/-- The switch that an event sets up. -/
def Event.provides : Event → List Text
  | .setupSwitch nb => [nb]
  | _ => []

/-- The switches that an event names. -/
def Event.needs : Event → List Text
  | .exec _ netargs => switches netargs
  | _ => []

/-- The switches of some events are there when they are named. -/
abbrev Ready (there : List Text) (events : List Event) : Prop :=
  Served Event.provides Event.needs there events

private theorem mem_provides {nb : Text} {events : List Event} :
    nb ∈ events.flatMap Event.provides ↔ .setupSwitch nb ∈ events := by
  rw [List.mem_flatMap]
  constructor
  · rintro ⟨e, he, hnb⟩
    cases e with
    | setupSwitch nb' =>
      obtain rfl := List.mem_singleton.mp hnb
      exact he
    | _ => nomatch hnb
  · intro h
    exact ⟨_, h, List.mem_singleton_self nb⟩

/-- The switches that are named were set up before if they are there when they are named. -/
theorem hasSwitches_iff_ready (events : List Event) : HasSwitches events ↔ Ready [] events := by
  rw [Ready, served_iff]
  constructor
  · intro h before e after heq nb hnb
    rw [List.nil_append, mem_provides]
    cases e with
    | exec file netargs =>
      obtain ⟨id, hid⟩ := mem_switches.mp hnb
      exact h before file netargs after heq nb id hid
    | _ => nomatch hnb
  · intro h before file netargs after heq nb id hid
    have hnb := h before _ after heq nb (mem_switches.mpr ⟨id, hid⟩)
    rwa [List.nil_append, mem_provides] at hnb

/-! ### Traces of the start functions -/

/-- Events that set up no switch and name none do not matter. -/
theorem ready_append_of_quiet {events : List Event}
    (h : ∀ e ∈ events, e.needs = [] ∧ e.provides = []) (there : List Text)
    (rest : List Event) : Ready there (events ++ rest) ↔ Ready there rest := by
  have hneeds : Ready there events := served_of_needs_nothing (fun e he ↦ (h e he).1) there
  have hprovides : events.flatMap Event.provides = [] :=
    List.flatMap_eq_nil_iff.mpr fun e he ↦ (h e he).2
  rw [Ready, served_append, hprovides, List.append_nil]
  exact and_iff_right hneeds

/-- A command line needs the switches that it names. -/
theorem ready_exec (there : List Text) (file : Text) (netargs : List Netarg) (rest : List Event) :
    Ready there (.exec file netargs :: rest) ↔
      (∀ nb ∈ switches netargs, nb ∈ there) ∧ Ready there rest := by
  rw [Ready, Served]
  simp only [Event.needs, Event.provides, List.append_nil]

/-- A switch that was set up is there. -/
theorem ready_setupSwitch (there : List Text) (nb : Text) (rest : List Event) :
    Ready there (.setupSwitch nb :: rest) ↔ Ready (there ++ [nb]) rest := by
  rw [Ready, Served]
  exact and_iff_right (List.forall_mem_nil _)

/-- The configuration of SSH does not matter. -/
theorem ready_addSshConfig (there : List Text) (host : Text) (port : Nat) (user : Text)
    (rest : List Event) :
    Ready there (.addSshConfig host port user :: rest) ↔ Ready there rest := by
  rw [Ready, Served]
  simp only [Event.needs, Event.provides, List.append_nil]
  exact and_iff_right (List.forall_mem_nil _)

/-- A machine with one command line. -/
theorem ready_machine (there : List Text) (file : Text) (netargs : List Netarg) :
    Ready there [.exec file netargs] ↔ ∀ nb ∈ switches netargs, nb ∈ there := by
  rw [ready_exec]
  exact and_iff_left trivial

/-! ### Start functions -/

section Start

variable (env : Env) (name : Text) (nets there : List Text) (c : Counters)

/-- A machine with a management card names its networks. -/
theorem startManaged_spec (oobDriver : Text) (options : Nat → Text) (login driver : Text) :
    ∃ port file netargs, (startManaged env name nets oobDriver options login driver c).1 =
        [.addSshConfig name port login, .exec file netargs] ∧ switches netargs = nets := by
  refine ⟨_, _, _, rfl, ?_⟩
  simp

/-- So does IOS XRv. -/
theorem startCiscoIosxrv_spec :
    ∃ port file netargs, (startCiscoIosxrv env name nets c).1 =
        [.addSshConfig name port "cisco", .exec file netargs] ∧ switches netargs = nets := by
  refine ⟨_, _, _, rfl, ?_⟩
  simp

/-- So does Firefly, which has no SSH. -/
theorem startJuniperFirefly_spec :
    ∃ file netargs, (startJuniperFirefly env name nets c).1 = [.exec file netargs] ∧
      switches netargs = nets := by
  refine ⟨_, _, rfl, ?_⟩
  simp

/-- vJunos names its two own switches only. -/
theorem startJuniperVjunos_spec :
    ∃ port file netargs, (startJuniperVjunos env name c).1 =
        [.setupSwitch (name ++ "-pfe"), .setupSwitch (name ++ "-rpio"),
          .addSshConfig name port "juniper", .exec file netargs] ∧
      switches netargs = [name ++ "-pfe", name ++ "-rpio", name ++ "-rpio", name ++ "-pfe"] := by
  refine ⟨_, _, _, rfl, ?_⟩
  simp

/-- The routing engine of a vQFX names the networks. -/
theorem startJuniperVqfx_spec :
    ∃ port file re file' pfe, (startJuniperVqfx env name nets c).1 =
        [.setupSwitch (internal name), .addSshConfig name port "juniper", .exec file re,
          .exec file' pfe] ∧
      switches re = internal name :: nets ∧ switches pfe = [internal name] := by
  refine ⟨_, _, _, _, _, rfl, ?_, rfl⟩
  simp

/-- Every port of the forwarding engine of a vMX names its network. -/
theorem switches_vmxNic (net : Text) (count : Nat) (c : Counters) :
    switches (vmxNic net count c).1.netargs = [net] := by
  have hbridge : switches (vmxBridge count) = [] := by
    unfold vmxBridge
    dsimp only
    split <;> rfl
  have hnic : switches (vmxNic net count c).1.netargs = switches (vmxBridge count) ++ [net] :=
    switches_append _ _
  rw [hnic, hbridge, List.nil_append]

/-- The forwarding engine of a vMX names the networks. -/
theorem startJuniperVmx_spec :
    ∃ port file re file' pfe, (startJuniperVmx env name nets c).1 =
        [.setupSwitch (internal name), .addSshConfig name port "juniper", .exec file re,
          .exec file' pfe] ∧
      switches re = [internal name] ∧ switches pfe = internal name :: nets := by
  have hnics (count : Nat) (c : Counters) :
      switches (nics vmxNic nets count c).1.netargs = nets := by
    rw [switches_nics switches_vmxNic, List.flatMap_singleton']
  refine ⟨_, _, _, _, _, rfl, ?_, ?_⟩
  · simp
  · simp [hnics]

/-- An image reads every word but `oob` as the name of a switch. -/
theorem switches_imgNic (net : Text) (count : Nat) (c : Counters) :
    switches (imgNic env name net count c).1.netargs =
      if net = "oob".toList then [] else [net] := by
  unfold imgNic
  split
  · exact switches_monitor env name
  · rfl

/-- A virtual machine reads the words as `spawn` does. -/
theorem switches_vmNic (net : Text) (count : Nat) (c : Counters) :
    switches (vmNic env name net count c).1.netargs = (switchOf net).toList := by
  unfold vmNic switchOf
  split
  · exact switches_monitor env name
  · split
    · rfl
    · split <;> rfl

/-- The loop of an image sets up no switch. -/
theorem quiet_imgNic (net : Text) (count : Nat) (c : Counters) :
    ∀ e ∈ (imgNic env name net count c).1.events, e.needs = [] ∧ e.provides = [] := by
  intro e he
  unfold imgNic at he
  split at he
  · rw [List.mem_singleton.mp he]
    exact ⟨rfl, rfl⟩
  · nomatch he

/-- Neither does that of a virtual machine. -/
theorem quiet_vmNic (net : Text) (count : Nat) (c : Counters) :
    ∀ e ∈ (vmNic env name net count c).1.events, e.needs = [] ∧ e.provides = [] := by
  intro e he
  unfold vmNic at he
  split at he
  · rw [List.mem_singleton.mp he]
    exact ⟨rfl, rfl⟩
  · split at he
    · nomatch he
    · split at he <;> nomatch he

/-- An image names the networks other than `oob`. -/
theorem startImg_spec :
    ∃ file netargs, (startImg env name nets c).1 =
        (nics (imgNic env name) nets 0 c).1.events ++ [.exec file netargs] ∧
      switches netargs = nets.flatMap fun net ↦ if net = "oob".toList then [] else [net] :=
  ⟨_, _, rfl, switches_nics (switches_imgNic env name) nets 0 c⟩

/-- A virtual machine names the switches of its networks. -/
theorem startVm_spec :
    ∃ file netargs, (startVm env name nets c).1 =
        (nics (vmNic env name) nets 0 c).1.events ++ [.exec file netargs] ∧
      switches netargs = nets.filterMap switchOf := by
  refine ⟨_, _, rfl, ?_⟩
  have hrocker (ports : List Text) : switches (rocker ports) = [] := by
    unfold rocker
    split <;> rfl
  have hdrive : switches (if env.disk = [] then []
      else [.option "-drive" ("file=" ++ env.disk ++ ",if=virtio,media=disk")]) = [] := by
    split <;> rfl
  rw [switches_append, switches_append, hrocker, hdrive, List.append_nil, List.append_nil,
    switches_nics (switches_vmNic env name), List.filterMap_eq_flatMap_toList]

/-- What a start function needs of the switches that are there. -/
theorem ready_start (kind : Kind) :
    Ready there (kind.start env name nets c).1 ↔
      match kind with
      | .ns | .juniperVjunos => True
      | .vm => ∀ nb ∈ nets.filterMap switchOf, nb ∈ there
      | .img => ∀ net ∈ nets, net ≠ "oob".toList → net ∈ there
      | .juniperVqfx | .juniperVmx => ∀ net ∈ nets, net = internal name ∨ net ∈ there
      | _ => ∀ net ∈ nets, net ∈ there := by
  have hmanaged (oobDriver : Text) (options : Nat → Text) (login driver : Text) :
      Ready there (startManaged env name nets oobDriver options login driver c).1 ↔
        ∀ net ∈ nets, net ∈ there := by
    obtain ⟨port, file, netargs, heq, hnets⟩ :=
      startManaged_spec env name nets c oobDriver options login driver
    rw [heq, ready_addSshConfig, ready_machine, hnets]
  have hinternal : (∀ nb ∈ internal name :: nets, nb ∈ there ++ [internal name]) ↔
      ∀ net ∈ nets, net = internal name ∨ net ∈ there := by
    rw [List.forall_mem_cons, and_iff_right (List.mem_append_right _ (List.mem_singleton_self _))]
    exact forall₂_congr fun net _ ↦ by rw [List.mem_append, List.mem_singleton, or_comm]
  have hown : (∀ nb ∈ [internal name], nb ∈ there ++ [internal name]) ↔ True :=
    iff_true_intro fun nb hnb ↦ List.mem_append_right _ hnb
  cases kind with
  | vm =>
    obtain ⟨file, netargs, heq, hnets⟩ := startVm_spec env name nets c
    have hquiet := forall_events_nics (quiet_vmNic env name) nets 0 c
    rw [Kind.start, heq, ready_append_of_quiet hquiet, ready_machine, hnets]
  | img =>
    obtain ⟨file, netargs, heq, hnets⟩ := startImg_spec env name nets c
    have hquiet := forall_events_nics (quiet_imgNic env name) nets 0 c
    rw [Kind.start, heq, ready_append_of_quiet hquiet, ready_machine, hnets,
      List.forall_mem_flatMap]
    refine forall₂_congr fun net _ ↦ ?_
    split
    · next hoob => exact iff_of_true (List.forall_mem_nil _) fun hne ↦ absurd hoob hne
    · next hne => rw [List.forall_mem_singleton, imp_iff_right hne]
  | ns => exact iff_true_intro ((ready_machine there _ []).mpr (List.forall_mem_nil _))
  | juniperVqfx =>
    obtain ⟨port, file, re, file', pfe, heq, hre, hpfe⟩ := startJuniperVqfx_spec env name nets c
    rw [Kind.start, heq, ready_setupSwitch, ready_addSshConfig, ready_exec, ready_machine, hre,
      hpfe, hinternal, hown, and_true]
  | juniperVmx =>
    obtain ⟨port, file, re, file', pfe, heq, hre, hpfe⟩ := startJuniperVmx_spec env name nets c
    rw [Kind.start, heq, ready_setupSwitch, ready_addSshConfig, ready_exec, ready_machine, hre,
      hpfe, hinternal, hown, true_and]
  | juniperVjunos =>
    obtain ⟨port, file, netargs, heq, hnets⟩ := startJuniperVjunos_spec env name c
    rw [Kind.start, heq, ready_setupSwitch, ready_setupSwitch, ready_addSshConfig, ready_machine,
      hnets]
    refine iff_true_intro fun nb hnb ↦ ?_
    simp only [List.mem_cons, List.not_mem_nil, or_false] at hnb
    rcases hnb with rfl | rfl | rfl | rfl <;> simp
  | juniperFirefly =>
    obtain ⟨file, netargs, heq, hnets⟩ := startJuniperFirefly_spec env name nets c
    rw [Kind.start, heq, ready_machine, hnets]
  | ciscoIosxrv =>
    obtain ⟨port, file, netargs, heq, hnets⟩ := startCiscoIosxrv_spec env name nets c
    rw [Kind.start, heq, ready_addSshConfig, ready_machine, hnets]
  | juniperVrr | juniperVsrx | cumulusVx | sonic | ciscoNxos | hpVsr1000 => exact hmanaged _ _ _ _

end Start

/-! ### The two readings -/

/-- A network that `spawn` reads as the name of its switch. -/
def Plain (net : Text) : Prop :=
  net ≠ "oob".toList ∧ ¬ "rocker".toList <+: net ∧ '@' ∉ net

instance (net : Text) : Decidable (Plain net) := inferInstanceAs (Decidable (_ ∧ _ ∧ _))

/-- A network that is read as another name is read as a shorter one. -/
theorem length_switchOf_lt {net nb : Text} (h : switchOf net = some nb) (hne : nb ≠ net) :
    nb.length < net.length := by
  unfold switchOf at h
  split at h
  · nomatch h
  · split at h
    · next hrocker =>
      obtain rfl := Option.some.inj h
      exact length_dropPrefix_lt (by decide) hrocker
    · split at h
      · next hat =>
        obtain rfl := Option.some.inj h
        exact length_afterLast_lt hat
      · exact absurd (Option.some.inj h).symm hne

/-- The plain networks are those that are read as themselves. -/
theorem switchOf_eq_self_iff (net : Text) : switchOf net = some net ↔ Plain net := by
  unfold switchOf Plain
  split
  · next hoob => exact iff_of_false nofun fun h ↦ h.1 hoob
  · next hoob =>
    split
    · next hrocker =>
      have hlt := length_dropPrefix_lt (by decide) hrocker
      refine iff_of_false (fun h ↦ ?_) fun h ↦ h.2.1 hrocker
      rw [Option.some.inj h] at hlt
      exact Nat.lt_irrefl _ hlt
    · next hrocker =>
      split
      · next hat =>
        have hlt := length_afterLast_lt hat
        refine iff_of_false (fun h ↦ ?_) fun h ↦ h.2.2 hat
        rw [Option.some.inj h] at hlt
        exact Nat.lt_irrefl _ hlt
      · next hat => exact iff_of_true rfl ⟨hoob, hrocker, hat⟩

/-- The networks with which a kind of machine finds its switches. Those that read every network
as the name of a switch need plain ones; where a machine has a switch of its own, that name will
do, and what `spawn` makes of it if it is itself among the networks. -/
def Kind.Suits (kind : Kind) (name : Text) (nets : List Text) : Prop :=
  match kind with
  | .ns | .vm | .juniperVjunos => True
  | .img => ∀ net ∈ nets, net ≠ "oob".toList → Plain net
  | .juniperVqfx | .juniperVmx =>
    ∀ net ∈ nets, Plain net ∨ Derived switchOf nets (· = internal name) net
  | _ => ∀ net ∈ nets, Plain net

/-- With the switches of `spawn`, a start function has those that it needs exactly for the
networks that suit its kind. -/
theorem ready_start_iff_suits (env : Env) (kind : Kind) (name : Text) (nets : List Text)
    (c : Counters) :
    Ready (nets.filterMap switchOf) (kind.start env name nets c).1 ↔ kind.Suits name nets := by
  have hplain : (∀ net ∈ nets, net ∈ nets.filterMap switchOf) ↔ ∀ net ∈ nets, Plain net := by
    have h : (∀ net ∈ nets, True → net ∈ nets.filterMap switchOf) ↔
        ∀ net ∈ nets, True → switchOf net = some net :=
      forall_mem_iff List.length length_switchOf_lt fun _ ↦ trivial
    simp only [true_imp_iff, switchOf_eq_self_iff] at h
    exact h
  have hoob {net nb : Text} (hread : switchOf net = some nb) : net ≠ "oob".toList := by
    intro he
    rw [switchOf, if_pos he] at hread
    nomatch hread
  have himg : (∀ net ∈ nets, net ≠ "oob".toList → net ∈ nets.filterMap switchOf) ↔
      ∀ net ∈ nets, net ≠ "oob".toList → Plain net := by
    rw [forall_mem_iff List.length length_switchOf_lt hoob]
    simp only [switchOf_eq_self_iff]
  have hinternal : (∀ net ∈ nets, net = internal name ∨ net ∈ nets.filterMap switchOf) ↔
      ∀ net ∈ nets, Plain net ∨ Derived switchOf nets (· = internal name) net := by
    have h : (∀ net ∈ nets, True → net = internal name ∨ net ∈ nets.filterMap switchOf) ↔
        ∀ net ∈ nets, True → switchOf net = some net ∨
          Derived switchOf nets (· = internal name) net :=
      forall_given_or_mem_iff List.length length_switchOf_lt fun _ ↦ trivial
    simp only [true_imp_iff, switchOf_eq_self_iff] at h
    exact h
  rw [ready_start]
  cases kind with
  | ns | juniperVjunos => exact Iff.rfl
  | vm => exact iff_true_intro fun nb hnb ↦ hnb
  | img => exact himg
  | juniperVqfx | juniperVmx => exact hinternal
  | _ => exact hplain

/-- The loop of `spawn` sets up the switch of each network. -/
theorem setupSwitches_eq {nets : List Text} {setups : List Event}
    (h : setupSwitches nets = .ok setups) :
    setups = (nets.filterMap switchOf).map Event.setupSwitch := by
  induction nets generalizing setups with
  | nil =>
    cases h
    rfl
  | cons net nets ih =>
    unfold setupSwitches at h
    cases hread : switchOf net with
    | none =>
      rw [hread] at h
      rw [List.filterMap_cons_none hread]
      exact ih h
    | some nb =>
      rw [hread] at h
      dsimp only at h
      split at h
      · nomatch h
      · cases hrest : setupSwitches nets with
        | error e =>
          rw [hrest] at h
          nomatch h
        | ok rest =>
          rw [hrest] at h
          cases h
          rw [List.filterMap_cons_some hread, List.map_cons, ih hrest]

/-- After the loop of `spawn` the switches of the networks are there. -/
theorem ready_setups (nets : List Text) (events : List Event) :
    Ready [] ((nets.filterMap switchOf).map Event.setupSwitch ++ events) ↔
      Ready (nets.filterMap switchOf) events := by
  have hneeds : ∀ e ∈ (nets.filterMap switchOf).map Event.setupSwitch, e.needs = [] := by
    intro e he
    obtain ⟨nb, -, rfl⟩ := List.mem_map.mp he
    rfl
  have hprovides : ((nets.filterMap switchOf).map Event.setupSwitch).flatMap Event.provides =
      nets.filterMap switchOf := by
    rw [List.flatMap_map]
    exact List.flatMap_singleton' _
  rw [Ready, served_append, hprovides, List.nil_append]
  exact and_iff_right (served_of_needs_nothing hneeds [])

/-- What `spawn` does for a kind: outside of a machine, the setups and the start function. -/
theorem spawn_cases {env : Env} {kind : Kind} {name : Text} {args nets : List Text}
    {c c' : Counters} {events : List Event} (hnets : networks args = .ok nets)
    (hspawn : spawn env kind.text name args c = .ok (events, c')) :
    (env.state = "SETUP".toList ∧ ∀ e ∈ events, e.needs = []) ∨
      (env.state ≠ "SETUP".toList ∧ events =
        (nets.filterMap switchOf).map Event.setupSwitch ++ (kind.start env name nets c).1) := by
  unfold spawn at hspawn
  split at hspawn
  · next hstate =>
    refine Or.inl ⟨hstate, ?_⟩
    split at hspawn <;> cases hspawn
    · exact List.forall_mem_singleton.mpr rfl
    · exact List.forall_mem_nil _
  · next hstate =>
    refine Or.inr ⟨hstate, ?_⟩
    rw [hnets] at hspawn
    cases hsetups : setupSwitches nets with
    | error e =>
      simp only [bind, Except.bind, hsetups] at hspawn
      nomatch hspawn
    | ok setups =>
      simp only [bind, Except.bind, hsetups, Kind.ofText?_text] at hspawn
      cases hspawn
      rw [setupSwitches_eq hsetups]
      rfl

/-- Each network device has its switch exactly inside of a machine, where none is started, or when
the networks suit the kind. -/
theorem spawn_hasSwitches_iff (env : Env) (kind : Kind) (name : Text) (args nets : List Text)
    (c c' : Counters) (events : List Event) (hnets : networks args = .ok nets)
    (hspawn : spawn env kind.text name args c = .ok (events, c')) :
    HasSwitches events ↔ env.state = "SETUP".toList ∨ kind.Suits name nets := by
  rw [hasSwitches_iff_ready]
  rcases spawn_cases hnets hspawn with ⟨hstate, hneeds⟩ | ⟨hstate, rfl⟩
  · exact iff_of_true (served_of_needs_nothing hneeds []) (Or.inl hstate)
  · rw [ready_setups, ready_start_iff_suits, or_iff_right hstate]

/-- An environment in which only `TMP` is set. -/
def Env.bare : Env := ⟨[], [], "/tmp/lab", none, [], [], [], 9400⟩

/-- An image on the management network and on switch 1 finds its switch. -/
theorem spawn_hasSwitches_img :
    ∃ events c', spawn .bare Kind.img.text "h1" ["networks", "oob,1"] ⟨none, none⟩ =
      .ok (events, c') ∧ HasSwitches events := by
  have hsuits : Kind.img.Suits "h1" ["oob", "1"] := by
    simp only [Kind.Suits]
    decide
  refine ⟨_, _, rfl, ?_⟩
  exact (spawn_hasSwitches_iff .bare .img "h1" ["networks", "oob,1"] ["oob", "1"] ⟨none, none⟩ _ _
    rfl rfl).mpr (Or.inr hsuits)

/-- An image with a card of another model is connected to a switch that was never set up. -/
theorem spawn_img_device :
    ∃ events c', spawn .bare Kind.img.text "h1" ["networks", "e1000@5"] ⟨none, none⟩ =
      .ok (events, c') ∧ ¬ HasSwitches events := by
  refine ⟨_, _, rfl, fun h ↦ ?_⟩
  have hmem := h [.setupSwitch "5"] _ _ [] rfl "e1000@5" _ (List.mem_cons_self ..)
  revert hmem
  decide

end NetworkLab.LabSetup
