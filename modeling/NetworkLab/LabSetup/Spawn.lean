import NetworkLab.LabSetup.Start

/-!
# Spawning

`spawn` of `common/lab-setup:224–317`: it reads the networks, sets up their switches and calls the
start function of the kind of virtual machine.
-/

namespace NetworkLab.LabSetup

open Lib.Shell

/-- How `spawn` fails: with a message, or as `setup_switch` gets no argument to shift. -/
inductive Failure where
  | logError (msg : Text)
  | cannotShift
  deriving DecidableEq

/-- The kinds of virtual machines, `:268–316`. -/
inductive Kind where
  | vm
  | img
  | ns
  | juniperVrr
  | juniperVsrx
  | juniperVqfx
  | juniperVmx
  | juniperVjunos
  | juniperFirefly
  | cumulusVx
  | sonic
  | ciscoIosxrv
  | ciscoNxos
  | hpVsr1000
  deriving DecidableEq

/-- A kind in the arguments of `spawn`. -/
def Kind.text : Kind → Text
  | .vm => "vm"
  | .img => "img"
  | .ns => "ns"
  | .juniperVrr => "juniper-vrr"
  | .juniperVsrx => "juniper-vsrx"
  | .juniperVqfx => "juniper-vqfx"
  | .juniperVmx => "juniper-vmx"
  | .juniperVjunos => "juniper-vjunos"
  | .juniperFirefly => "juniper-firefly"
  | .cumulusVx => "cumulus-vx"
  | .sonic => "sonic"
  | .ciscoIosxrv => "cisco-iosxrv"
  | .ciscoNxos => "cisco-nxos"
  | .hpVsr1000 => "hp-vsr1000"

/-- All kinds. -/
def Kind.all : List Kind :=
  [.vm, .img, .ns, .juniperVrr, .juniperVsrx, .juniperVqfx, .juniperVmx, .juniperVjunos,
    .juniperFirefly, .cumulusVx, .sonic, .ciscoIosxrv, .ciscoNxos, .hpVsr1000]

/-- The kind that an argument names. -/
def Kind.ofText? (t : Text) : Option Kind := Kind.all.find? fun kind ↦ kind.text == t

/-- Every kind is named by its text. -/
theorem Kind.ofText?_text (kind : Kind) : Kind.ofText? kind.text = some kind := by
  cases kind <;> decide

/-- The start function of a kind. -/
def Kind.start (kind : Kind) (env : Env) (name : Text) (nets : List Text) : Start (List Event) :=
  match kind with
  | .vm => startVm env name nets
  | .img => startImg env name nets
  | .ns => startNs name
  | .juniperVrr => startJuniperVrr env name nets
  | .juniperVsrx => startJuniperVsrx env name nets
  | .juniperVqfx => startJuniperVqfx env name nets
  | .juniperVmx => startJuniperVmx env name nets
  | .juniperVjunos => startJuniperVjunos env name
  | .juniperFirefly => startJuniperFirefly env name nets
  | .cumulusVx => startCumulusVx env name nets
  | .sonic => startSonic env name nets
  | .ciscoIosxrv => startCiscoIosxrv env name nets
  | .ciscoNxos => startCiscoNxos env name nets
  | .hpVsr1000 => startHpVsr1000 env name nets

/-- `$NET` after the arguments, `:245–256`. -/
def readNetworks (net : Text) : List Text → Except Failure Text
  | keyword :: value :: args =>
    if keyword = "network".toList ∨ keyword = "networks".toList then
      readNetworks (tr ',' ' ' (echo (fields (net ++ ' ' :: value)))) args
    else .error (.logError ("Unknown keyword for spawn `" ++ keyword ++ "'"))
  | _ => .ok net

/-- The networks that the arguments name. -/
def networks (args : List Text) : Except Failure (List Text) := do
  let net ← readNetworks [] args
  return fields net

/-- The switch of a network, `:259–264`. -/
def switchOf (net : Text) : Option Text :=
  if net = "oob".toList then none
  else if "rocker".toList <+: net then some (dropPrefix "rocker" net)
  else if '@' ∈ net then some (afterLast '@' net)
  else some net

/-- The loop that sets up the switches, `:258–265`. -/
def setupSwitches : List Text → Except Failure (List Event)
  | [] => .ok []
  | net :: nets =>
    match switchOf net with
    | none => setupSwitches nets
    | some nb =>
      if nb = [] then .error .cannotShift
      else do
        let rest ← setupSwitches nets
        return .setupSwitch nb :: rest

/-- `spawn`, `:224–317`. Inside of a machine it adds a namespace at most. -/
def spawn (env : Env) (kind name : Text) (args : List Text) (c : Counters) :
    Except Failure (List Event × Counters) :=
  if env.state = "SETUP".toList then
    if kind = "ns".toList ∧ env.uts = beforeFirst '/' name then
      .ok ([.netnsAdd (afterFirst '/' name)], c)
    else .ok ([], c)
  else do
    let nets ← networks args
    let setups ← setupSwitches nets
    match Kind.ofText? kind with
    | none => .error (.logError ("Unknown kind of VM `" ++ kind ++ "'"))
    | some kind =>
      let (events, c) := kind.start env name nets c
      return (setups ++ events, c)

end NetworkLab.LabSetup
