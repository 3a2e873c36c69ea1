import NetworkLab.LabSetup.Netargs

/-!
# Start functions

The `start_…` functions of `common/lab-setup`, one for each kind of virtual machine, with the
networks of `$NET` as a list. `check_kernel` and `setup_initrd`, which only the first kind needs,
are left out.
-/

namespace NetworkLab.LabSetup

open Lib.Shell

/-- `start_ns`, `:514–532`. -/
def startNs (name : Text) : Start (List Event) :=
  return [.exec ("ns-" ++ beforeFirst '/' name ++ "--" ++ afterFirst '/' name ++ ".exec") []]

/-- The management card of an image, for the word `oob`. -/
def oobNic (env : Env) (name login : Text) (options : Nat → Text) : Start Nics := do
  let ssh ← tcpPort env
  return ⟨[.addSshConfig name ssh login],
    [userNetdev (options ssh), card "virtio-net-pci" oobmac "oob"] ++ monitor env name, []⟩

/-- A network of `start_vm`, `:541–564`. -/
def vmNic (env : Env) (name net : Text) (count : Nat) : Start Nics := do
  if net = "oob".toList then
    oobNic env name "root" fun ssh ↦ sshForward ssh ++ moreForwards env
  else if "rocker".toList <+: net then
    let net := dropPrefix "rocker" net
    return ⟨[], [.vde net (netId count)], [netId count]⟩
  else if '@' ∈ net then
    let mac ← macAddress
    return ⟨[], [.vde (afterLast '@' net) (netId count),
      card (beforeLast '@' net) mac (netId count)], []⟩
  else literalNic "virtio-net-pci" net count

/-- The switch device of `start_vm` with the ports that the loop left to it, `:567–575`. -/
def rocker (ports : List Text) : List Netarg :=
  if ports = [] then []
  else
    let str : Text :=
      ports.zipIdx.flatMap fun (p, count) ↦ ",ports[" ++ decimal count ++ "]=" ++ p
    [.option "-device" ("rocker,name=sw1,len-ports=" ++ decimal ports.length ++ str)]

/-- `start_vm`, `:534–630`. -/
def startVm (env : Env) (name : Text) (nets : List Text) : Start (List Event) := do
  let nics ← nics (vmNic env name) nets 0
  let drive : List Netarg :=
    if env.disk = [] then []
    else [.option "-drive" ("file=" ++ env.disk ++ ",if=virtio,media=disk")]
  return nics.events ++
    [.exec ("vm-" ++ name ++ ".exec") (nics.netargs ++ rocker nics.rockerports ++ drive)]

/-- A network of `start_img`, `:641–654`. -/
def imgNic (env : Env) (name net : Text) (count : Nat) : Start Nics :=
  if net = "oob".toList then
    oobNic env name (if env.sshUser = [] then "root" else env.sshUser) sshForward
  else literalNic "virtio-net-pci" net count

/-- `start_img`, `:632–710`. -/
def startImg (env : Env) (name : Text) (nets : List Text) : Start (List Event) := do
  let nics ← nics (imgNic env name) nets 0
  return nics.events ++ [.exec ("vm-" ++ name ++ ".exec") nics.netargs]

/-- The body of the functions that give their machine a management card and a card for each
network. -/
def startManaged (env : Env) (name : Text) (nets : List Text) (oobDriver : Text)
    (options : Nat → Text) (login driver : Text) : Start (List Event) := do
  let ssh ← tcpPort env
  let nics ← nics (literalNic driver) nets 0
  return [.addSshConfig name ssh login,
    .exec ("vm-" ++ name ++ ".exec") ([userNetdev (options ssh), card oobDriver oobmac "oob"] ++
      monitor env name ++ nics.netargs)]

/-- `start_juniper_vrr`, `:712–776`. -/
def startJuniperVrr (env : Env) (name : Text) (nets : List Text) : Start (List Event) :=
  startManaged env name nets "e1000" sshForward "juniper" "e1000"

/-- `$name-internal`, the switch between the two halves of a machine. -/
def internal (name : Text) : Text := name ++ "-internal"

/-- `start_juniper_vqfx`, `:778–896`. -/
def startJuniperVqfx (env : Env) (name : Text) (nets : List Text) : Start (List Event) := do
  let ssh ← tcpPort env
  let pfeMac ← macAddress
  let unusedMac ← macAddress
  let nics ← nics (literalNic "e1000") nets 0
  let re := [userNetdev (sshForward ssh), card "e1000" oobmac "oob"] ++ monitor env name ++
    [.vde (internal name) "pfe", card "e1000" pfeMac "pfe", unusedCard "e1000" unusedMac] ++
    nics.netargs
  let oobMac ← macAddress
  let reMac ← macAddress
  let pfe := [unusedCard "e1000" oobMac, .vde (internal name) "re", card "e1000" reMac "re"]
  return [.setupSwitch (internal name), .addSshConfig name ssh "juniper",
    .exec ("vm-" ++ name ++ "-re.exec") re, .exec ("vm-" ++ name ++ "-pfe.exec") pfe]

/-- The bridge of sixteen cards, put before the first of them, `:988–992`. -/
def vmxBridge (count : Nat) : List Netarg :=
  let bridge := decimal (count / 16 + 1)
  if count % 16 = 0 then
    [.option "-device" ("pcie-root-port,bus=pcie.0,id=rp" ++ bridge ++ ",slot=" ++ bridge),
      .option "-device" ("pcie-pci-bridge,id=br" ++ bridge ++ ",bus=rp" ++ bridge)]
  else []

/-- A network of the forwarding engine of `start_juniper_vmx`, `:987–994`. -/
def vmxNic (net : Text) (count : Nat) : Start Nics := do
  let mac ← macAddress
  return ⟨[], vmxBridge count ++ [.vde net (netId count), card "virtio-net-pci" mac
    (netId count ++ ",bus=br" ++ decimal (count / 16 + 1) ++ ",addr=" ++
      decimal (count % 16 + 1))], []⟩

/-- `start_juniper_vmx`, `:898–1046`. -/
def startJuniperVmx (env : Env) (name : Text) (nets : List Text) : Start (List Event) := do
  let ssh ← tcpPort env
  let pfeMac ← macAddress
  let re := [userNetdev (sshForward ssh ++ moreForwards env), card "e1000" oobmac "oob"] ++
    monitor env name ++
    [.vde (internal name) "pfe", card "virtio-net-pci" pfeMac "pfe"]
  let oobMac ← macAddress
  let reMac ← macAddress
  let nics ← nics vmxNic nets 0
  let pfe := [.option "-netdev" "user,id=oob", card "virtio-net-pci" oobMac "oob",
    .vde (internal name) "re", card "virtio-net-pci" reMac "re"] ++ nics.netargs
  return [.setupSwitch (internal name), .addSshConfig name ssh "juniper",
    .exec ("vm-" ++ name ++ "-re.exec") re, .exec ("vm-" ++ name ++ "-pfe.exec") pfe]

/-- `start_juniper_vjunos`, `:1048–1117`: the networks are only counted. -/
def startJuniperVjunos (env : Env) (name : Text) : Start (List Event) := do
  let ssh ← tcpPort env
  let pfe1Mac ← macAddress
  let rpio1Mac ← macAddress
  let rpio2Mac ← macAddress
  let pfe2Mac ← macAddress
  let netargs := [userNetdev (sshForward ssh ++ moreForwards env),
    card "virtio-net-pci" oobmac "oob"] ++ monitor env name ++
    [.vde (name ++ "-pfe") "pfe1", card "virtio-net-pci" pfe1Mac "pfe1",
      .vde (name ++ "-rpio") "rpio1", card "virtio-net-pci" rpio1Mac "rpio1",
      .vde (name ++ "-rpio") "rpio2", card "virtio-net-pci" rpio2Mac "rpio2",
      .vde (name ++ "-pfe") "pfe2", card "virtio-net-pci" pfe2Mac "pfe2"]
  return [.setupSwitch (name ++ "-pfe"), .setupSwitch (name ++ "-rpio"),
    .addSshConfig name ssh "juniper", .exec ("vm-" ++ name ++ "-re.exec") netargs]

/-- `start_juniper_vsrx`, `:1119–1185`. -/
def startJuniperVsrx (env : Env) (name : Text) (nets : List Text) : Start (List Event) :=
  startManaged env name nets "virtio-net-pci" sshForward "juniper" "virtio-net-pci"

/-- `start_juniper_firefly`, `:1187–1236`. -/
def startJuniperFirefly (env : Env) (name : Text) (nets : List Text) : Start (List Event) := do
  let tftpMac ← macAddress
  let nics ← nics (literalNic "e1000") nets 0
  return [.exec ("vm-" ++ name ++ ".exec")
    ([.option "-netdev" ("user,id=tftp,tftp=" ++ env.tmp ++ "/tftp,hostname=" ++ name),
      card "e1000" tftpMac "tftp"] ++ nics.netargs)]

/-- `start_cumulus_vx`, `:1238–1314`. -/
def startCumulusVx (env : Env) (name : Text) (nets : List Text) : Start (List Event) :=
  startManaged env name nets "virtio-net-pci" sshForward "cumulus" "virtio-net-pci"

/-- `start_sonic`, `:1316–1359`. -/
def startSonic (env : Env) (name : Text) (nets : List Text) : Start (List Event) :=
  startManaged env name nets "virtio-net-pci" sshForward "admin" "virtio-net-pci"

/-- The options of the management network of the two Cisco machines. -/
def ciscoOptions (env : Env) (name : Text) (ssh : Nat) : Text :=
  "tftp=" ++ env.tmp ++ "/metadata-" ++ name ++ "," ++ sshForward ssh ++ moreForwards env

/-- `start_cisco_iosxrv`, `:1361–1498`. -/
def startCiscoIosxrv (env : Env) (name : Text) (nets : List Text) : Start (List Event) := do
  let ssh ← tcpPort env
  let controlMac ← macAddress
  let devMac ← macAddress
  let nics ← nics (literalNic "e1000") nets 0
  return [.addSshConfig name ssh "cisco",
    .exec ("vm-" ++ name ++ ".exec") ([userNetdev (ciscoOptions env name ssh),
      card "virtio-net-pci" oobmac "oob", unusedCard "virtio-net-pci" controlMac,
      unusedCard "virtio-net-pci" devMac] ++ monitor env name ++ nics.netargs)]

/-- `start_cisco_nxos`, `:1500–1571`. -/
def startCiscoNxos (env : Env) (name : Text) (nets : List Text) : Start (List Event) :=
  startManaged env name nets "e1000" (ciscoOptions env name) "cisco" "e1000"

/-- `start_hp_vsr1000`, `:1573–1663`. -/
def startHpVsr1000 (env : Env) (name : Text) (nets : List Text) : Start (List Event) :=
  startManaged env name nets "virtio-net-pci"
    (fun ssh ↦ sshForward ssh ++ ",tftp=" ++ env.tmp ++ "/tftp-" ++ name ++
      ",tftp-server-name=10.0.2.2,bootfile=device.cfg") "hp" "e1000"

end NetworkLab.LabSetup
