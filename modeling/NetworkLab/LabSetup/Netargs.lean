import NetworkLab.Lib.Shell

/-!
# Network options of the virtual machines

What the start functions of `common/lab-setup` put into `$netargs` and what they do on the way.
Of the scripts that start QEMU only these options are kept: those that are written there name no
switch, and `$QEMU_ARGS` is what the user gives.
-/

namespace NetworkLab.LabSetup

open Lib.Shell

/-- The variables that the functions read: `STATE`, `uts`, `TMP`, `hostfwd`, `SWITCH_MON`, `DISK`,
`SSH_USER`, and the first port that `tcp_port` draws. -/
structure Env where
  state : Text
  uts : Text
  tmp : Text
  hostfwd : Option Text
  switchMon : Text
  disk : Text
  sshUser : Text
  tcpStart : Nat

/-- `$TMP/mac-counter` and `$TMP/tcp-counter`. -/
structure Counters where
  mac : Option Nat
  tcp : Option Nat
  deriving DecidableEq

/-- What a start function runs in. -/
abbrev Start := StateM Counters

/-- An option of `$netargs`: `vde` is `-netdev vde,sock=$TMP/switch-SWITCH.sock,id=ID`. -/
inductive Netarg where
  | vde (switch id : Text)
  | option (name value : Text)
  deriving DecidableEq

/-- What the functions do outside. `exec` writes the script that starts QEMU and runs it in a
window. -/
inductive Event where
  | netnsAdd (ns : Text)
  | setupSwitch (nb : Text)
  | addSshConfig (host : Text) (port : Nat) (user : Text)
  | exec (file : Text) (netargs : List Netarg)
  deriving DecidableEq

/-- `oobmac`, `:41`. -/
def oobmac : Text := "02:00:00:00:00:01"

/-- `%02X` of `printf`. -/
def hexByte (n : Nat) : Text :=
  let ds := (Nat.toDigits 16 n).map Char.toUpper
  List.replicate (2 - ds.length) '0' ++ ds

/-- A number in decimal. -/
def decimal (n : Nat) : Text := Nat.toDigits 10 n

/-- `mac_address`, `:129–135`. -/
def macAddress : Start Text := do
  let s ← get
  let counter := s.mac.getD 1
  set { s with mac := some (counter + 1) }
  return "50:54:33:00:" ++ hexByte (counter / 256) ++ ":" ++ hexByte (counter % 256)

/-- `tcp_port`, `:137–141`. -/
def tcpPort (env : Env) : Start Nat := do
  let s ← get
  let counter := s.tcp.getD env.tcpStart
  set { s with tcp := some (counter + 1) }
  return counter

/-- A card with a network device behind it. -/
def card (driver mac netdev : Text) : Netarg :=
  .option "-device" (driver ++ ",mac=" ++ mac ++ ",netdev=" ++ netdev)

/-- A card with nothing behind it. -/
def unusedCard (driver mac : Text) : Netarg := .option "-device" (driver ++ ",mac=" ++ mac)

/-- `hostfwd=tcp:127.0.0.1:${ssh}-:22`. -/
def sshForward (ssh : Nat) : Text := "hostfwd=tcp:127.0.0.1:" ++ decimal ssh ++ "-:22"

/-- `${hostfwd+,hostfwd=}${hostfwd}`. -/
def moreForwards (env : Env) : Text :=
  match env.hostfwd with
  | none => []
  | some hostfwd => ",hostfwd=" ++ hostfwd

/-- The management network of QEMU itself. -/
def userNetdev (options : Text) : Netarg := .option "-netdev" ("user,id=oob," ++ options)

/-- `[ x$SWITCH_MON = x ] || netargs="$netargs -object filter-dump,…"`. -/
def monitor (env : Env) (name : Text) : List Netarg :=
  if env.switchMon = [] then []
  else [.option "-object"
    ("filter-dump,id=f1,netdev=oob,file=" ++ env.tmp ++ "/oob-" ++ name ++ ".pcap")]

/-! ### The loop over the networks -/

/-- What the loop over `$NET` collects. -/
structure Nics where
  events : List Event
  netargs : List Netarg
  rockerports : List Text

/-- The id of a network device. -/
def netId (count : Nat) : Text := "net" ++ decimal count

/-- The loop over `$NET`, with what it does for each network and the value of `count`. -/
def nics (nic : Text → Nat → Start Nics) : List Text → Nat → Start Nics
  | [], _ => return ⟨[], [], []⟩
  | net :: nets, count => do
    let one ← nic net count
    let rest ← nics nic nets (count + 1)
    return ⟨one.events ++ rest.events, one.netargs ++ rest.netargs,
      one.rockerports ++ rest.rockerports⟩

/-- A card on the switch of the name that a network is given as. -/
def literalNic (driver net : Text) (count : Nat) : Start Nics := do
  let mac ← macAddress
  return ⟨[], [.vde net (netId count), card driver mac (netId count)], []⟩

/-! ### Switches of a command line -/

/-- The switch that an option names. -/
def Netarg.switch? : Netarg → Option Text
  | .vde switch _ => some switch
  | .option _ _ => none

/-- The switches that some options name. -/
def switches (netargs : List Netarg) : List Text := netargs.filterMap Netarg.switch?

/-- A switch is named by a network device. -/
theorem mem_switches {nb : Text} {netargs : List Netarg} :
    nb ∈ switches netargs ↔ ∃ id, Netarg.vde nb id ∈ netargs := by
  rw [switches, List.mem_filterMap]
  constructor
  · rintro ⟨arg, harg, hnb⟩
    cases arg with
    | vde switch id =>
      obtain rfl := Option.some.inj hnb
      exact ⟨id, harg⟩
    | option name value => nomatch hnb
  · rintro ⟨id, harg⟩
    exact ⟨_, harg, rfl⟩

@[simp] theorem switches_nil : switches [] = [] := rfl

@[simp] theorem switches_append (xs ys : List Netarg) :
    switches (xs ++ ys) = switches xs ++ switches ys := List.filterMap_append

@[simp] theorem switches_vde (nb id : Text) (xs : List Netarg) :
    switches (.vde nb id :: xs) = nb :: switches xs := rfl

@[simp] theorem switches_option (name value : Text) (xs : List Netarg) :
    switches (.option name value :: xs) = switches xs := rfl

@[simp] theorem switches_card (driver mac netdev : Text) (xs : List Netarg) :
    switches (card driver mac netdev :: xs) = switches xs := rfl

@[simp] theorem switches_unusedCard (driver mac : Text) (xs : List Netarg) :
    switches (unusedCard driver mac :: xs) = switches xs := rfl

@[simp] theorem switches_userNetdev (options : Text) (xs : List Netarg) :
    switches (userNetdev options :: xs) = switches xs := rfl

@[simp] theorem switches_monitor (env : Env) (name : Text) : switches (monitor env name) = [] := by
  unfold monitor
  split <;> rfl

/-- The switches of the loop are those of each network, whatever the counters are. -/
theorem switches_nics {nic : Text → Nat → Start Nics} {f : Text → List Text}
    (h : ∀ net count c, switches (nic net count c).1.netargs = f net) (nets : List Text)
    (count : Nat) (c : Counters) :
    switches (nics nic nets count c).1.netargs = nets.flatMap f := by
  induction nets generalizing count c with
  | nil => rfl
  | cons net nets ih =>
    have hcons : (nics nic (net :: nets) count c).1.netargs =
        (nic net count c).1.netargs ++
          (nics nic nets (count + 1) (nic net count c).2).1.netargs := rfl
    rw [hcons, switches_append, h, ih, List.flatMap_cons]

/-- Networks that are read as they are given are all named. -/
@[simp] theorem switches_literalNics (driver : Text) (nets : List Text) (count : Nat)
    (c : Counters) :
    switches (nics (literalNic driver) nets count c).1.netargs = nets := by
  rw [switches_nics (f := fun net ↦ [net]) (fun _ _ _ ↦ rfl), List.flatMap_singleton']

/-- What holds of the events of each network holds of those of the loop. -/
theorem forall_events_nics {nic : Text → Nat → Start Nics} {P : Event → Prop}
    (h : ∀ net count c, ∀ e ∈ (nic net count c).1.events, P e) (nets : List Text) (count : Nat)
    (c : Counters) : ∀ e ∈ (nics nic nets count c).1.events, P e := by
  induction nets generalizing count c with
  | nil => exact List.forall_mem_nil P
  | cons net nets ih =>
    intro e he
    have hcons : (nics nic (net :: nets) count c).1.events =
        (nic net count c).1.events ++
          (nics nic nets (count + 1) (nic net count c).2).1.events := rfl
    rw [hcons, List.mem_append] at he
    rcases he with he | he
    · exact h net count c e he
    · exact ih _ _ e he

end NetworkLab.LabSetup
