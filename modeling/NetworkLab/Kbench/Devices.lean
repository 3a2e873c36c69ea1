import NetworkLab.Kbench.Ipv4.Bench
import NetworkLab.Kbench.Ipv6.Settings

/-!
# Device references of the interface attributes

The handlers of `flow_oif` and `flow_iif` are the same in
`lab-routes-ipv6/2026/kbench_mod.c:583–661` and `lab-routes-ipv4/2026/kbench_mod.c:450–528`.
`dev_get_by_index` and `dev_get_by_name` take a reference on the device that they return.
No handler calls `dev_put`, so a reference once taken is held for good.
-/

namespace NetworkLab.Kbench

/-- `struct net_device`, as far as the handlers look at it. -/
structure NetDevice where
  ifindex : Int32
  name : List Char
  deriving DecidableEq

/-- The globals of a module and the references that it holds, newest first. -/
structure Held (S : Type) where
  g : S
  held : List NetDevice

/-- The number of references held on a device. -/
def Held.refs {S : Type} (s : Held S) (d : NetDevice) : Nat := s.held.count d

/-- The global behind an interface attribute. -/
structure IfindexGlobal (S : Type) where
  get : S → Int32
  set : S → Int32 → S

/-- The two interface attributes. -/
inductive Interface where
  | oif
  | iif
  deriving DecidableEq, Repr

/-- A read of an attribute, or a write of a text to it. -/
inductive Access where
  | read (a : Interface)
  | write (a : Interface) (buf : List Char)

/-- The handlers of the two attributes of a module. -/
structure Handlers (S : Type) where
  oifShow : Held S → List Char × Held S
  oifStore : List Char → Held S → Int × Held S
  iifShow : Held S → List Char × Held S
  iifStore : List Char → Held S → Int × Held S

/-- One access through its handler. -/
def Handlers.step {S : Type} (h : Handlers S) (s : Held S) : Access → Held S
  | .read .oif => (h.oifShow s).2
  | .read .iif => (h.iifShow s).2
  | .write .oif buf => (h.oifStore buf s).2
  | .write .iif buf => (h.iifStore buf s).2

/-- A sequence of accesses. -/
def Handlers.run {S : Type} (h : Handlers S) (s : Held S) (ops : List Access) : Held S :=
  ops.foldl h.step s

/-- `-ENODEV`. -/
def noDevice : Int := -19

/-- `-EINVAL`. -/
def invalidArgument : Int := -22

section

-- The devices of the initial namespace, and the kernel's parsers: `kstrtoint` with base 0,
-- `none` where it returns an error, and `sscanf` with `%15s`.
variable (devices : List NetDevice) (kstrtoint : List Char → Option Int32)
  (scanName : List Char → List Char)

/-- `dev_get_by_index`, without the reference. -/
def deviceByIndex (ifindex : Int32) : Option NetDevice := devices.find? (·.ifindex = ifindex)

/-- `dev_get_by_name`, without the reference. -/
def deviceByName (name : List Char) : Option NetDevice := devices.find? (·.name = name)

/-! ### Handlers -/

variable {S : Type}

/-- The show handlers differ in the global that they read. -/
def ifindexShow (a : IfindexGlobal S) (s : Held S) : List Char × Held S :=
  match deviceByIndex devices (a.get s.g) with
  | none => ((toString (a.get s.g).toInt).toList ++ ['\n'], s)
  | some dev => (dev.name ++ ['\n'], { s with held := dev :: s.held })

/-- The store handlers differ in the global that they assign. -/
def ifindexTextStore (a : IfindexGlobal S) (buf : List Char) (s : Held S) : Int × Held S :=
  match kstrtoint buf with
  | none =>
    match deviceByName devices (scanName buf) with
    | none => (noDevice, s)
    | some dev => (buf.length, { g := a.set s.g dev.ifindex, held := dev :: s.held })
  | some val =>
    match ifindexStore (a.set s.g) val with
    | .error .einval => (invalidArgument, s)
    | .ok g => (buf.length, { s with g })

/-- The handlers for the globals of the two attributes. -/
def ifindexHandlers (globals : Interface → IfindexGlobal S) : Handlers S where
  oifShow := ifindexShow devices (globals .oif)
  oifStore := ifindexTextStore devices kstrtoint scanName (globals .oif)
  iifShow := ifindexShow devices (globals .iif)
  iifStore := ifindexTextStore devices kstrtoint scanName (globals .iif)

/-- The device that an access finds: the one with the configured index for a read, and the
one that is named for a write of no number. -/
def found (globals : Interface → IfindexGlobal S) (s : Held S) : Access → Option NetDevice
  | .read a => deviceByIndex devices ((globals a).get s.g)
  | .write _ buf =>
    match kstrtoint buf with
    | none => deviceByName devices (scanName buf)
    | some _ => none

/-! ### References -/

private theorem held_ifindexShow (a : IfindexGlobal S) (s : Held S) :
    (ifindexShow devices a s).2.held =
      (deviceByIndex devices (a.get s.g)).toList ++ s.held := by
  unfold ifindexShow
  cases deviceByIndex devices (a.get s.g) <;> rfl

private theorem held_ifindexTextStore (a : IfindexGlobal S) (buf : List Char) (s : Held S) :
    (ifindexTextStore devices kstrtoint scanName a buf s).2.held =
      (match kstrtoint buf with
        | none => deviceByName devices (scanName buf)
        | some _ => none).toList ++ s.held := by
  unfold ifindexTextStore
  cases kstrtoint buf with
  | none =>
    dsimp only
    cases deviceByName devices (scanName buf) <;> rfl
  | some val =>
    dsimp only
    split <;> rfl

/-- An access takes a reference on the device that it finds and keeps it. -/
theorem held_step (globals : Interface → IfindexGlobal S) (s : Held S) (op : Access) :
    ((ifindexHandlers devices kstrtoint scanName globals).step s op).held =
      (found devices kstrtoint scanName globals s op).toList ++ s.held := by
  cases op with
  | read a => cases a <;> exact held_ifindexShow devices _ s
  | write a buf => cases a <;> exact held_ifindexTextStore devices kstrtoint scanName _ buf s

/-- An access of a sequence finds a device. -/
def Finds (globals : Interface → IfindexGlobal S) (s : Held S) (ops : List Access) : Prop :=
  ∃ pre op post, ops = pre ++ op :: post ∧
    found devices kstrtoint scanName globals
      ((ifindexHandlers devices kstrtoint scanName globals).run s pre) op ≠ none

/-- The first access or a later one finds a device. -/
theorem finds_cons (globals : Interface → IfindexGlobal S) (s : Held S) (op : Access)
    (ops : List Access) :
    Finds devices kstrtoint scanName globals s (op :: ops) ↔
      found devices kstrtoint scanName globals s op ≠ none ∨
        Finds devices kstrtoint scanName globals
          ((ifindexHandlers devices kstrtoint scanName globals).step s op) ops := by
  constructor
  · rintro ⟨pre, op', post, hsplit, hfound⟩
    cases pre with
    | nil =>
      obtain ⟨rfl, -⟩ := List.cons.inj hsplit
      exact Or.inl hfound
    | cons first pre =>
      obtain ⟨rfl, hrest⟩ := List.cons.inj hsplit
      exact Or.inr ⟨pre, op', post, hrest, hfound⟩
  · rintro (hfound | ⟨pre, op', post, rfl, hfound⟩)
    · exact ⟨[], op, ops, rfl, hfound⟩
    · exact ⟨op :: pre, op', post, rfl, hfound⟩

/-- No access gives a reference back, so those taken are all held at the end. -/
theorem held_run (globals : Interface → IfindexGlobal S) (s : Held S) (ops : List Access) :
    ∃ taken, ((ifindexHandlers devices kstrtoint scanName globals).run s ops).held =
        taken ++ s.held ∧
      (taken ≠ [] ↔ Finds devices kstrtoint scanName globals s ops) := by
  induction ops generalizing s with
  | nil =>
    refine ⟨[], rfl, ?_⟩
    simp [Finds]
  | cons op ops ih =>
    obtain ⟨taken, hheld, hfinds⟩ :=
      ih ((ifindexHandlers devices kstrtoint scanName globals).step s op)
    refine ⟨taken ++ (found devices kstrtoint scanName globals s op).toList, ?_, ?_⟩
    · rw [List.append_assoc, ← held_step]
      exact hheld
    · rw [finds_cons, ← hfinds, ne_eq, List.append_eq_nil_iff, Option.toList_eq_nil_iff,
        not_and_or, or_comm]

/-- The number of references is as before exactly when no access finds a device. -/
theorem refs_run_iff (globals : Interface → IfindexGlobal S) (s : Held S) (ops : List Access) :
    (∀ d, ((ifindexHandlers devices kstrtoint scanName globals).run s ops).refs d = s.refs d) ↔
      ¬ Finds devices kstrtoint scanName globals s ops := by
  obtain ⟨taken, hheld, hfinds⟩ := held_run devices kstrtoint scanName globals s ops
  rw [← hfinds, not_not]
  unfold Held.refs
  constructor
  · intro hsame
    cases taken with
    | nil => rfl
    | cons d taken =>
      have hd := hsame d
      rw [hheld, List.count_append, List.count_cons_self] at hd
      omega
  · rintro rfl d
    rw [hheld]
    rfl

end

/-! ### The two modules -/

namespace Ipv6

/-- The globals of the attributes, `lab-routes-ipv6/2026/kbench_mod.c:55–56`. -/
def interfaceGlobal : Interface → IfindexGlobal Settings
  | .oif => ⟨Settings.flowOif, fun g i ↦ { g with flowOif := i }⟩
  | .iif => ⟨Settings.flowIif, fun g i ↦ { g with flowIif := i }⟩

namespace Sysfs

variable (devices : List NetDevice) (kstrtoint : List Char → Option Int32)
  (scanName : List Char → List Char)

/-- `flow_oif_show`, `lab-routes-ipv6/2026/kbench_mod.c:583–596`. -/
def flowOifShow : Held Settings → List Char × Held Settings :=
  ifindexShow devices (interfaceGlobal .oif)

/-- `flow_oif_store`, `lab-routes-ipv6/2026/kbench_mod.c:598–621`. -/
def flowOifStore : List Char → Held Settings → Int × Held Settings :=
  ifindexTextStore devices kstrtoint scanName (interfaceGlobal .oif)

/-- `flow_iif_show`, `lab-routes-ipv6/2026/kbench_mod.c:623–636`. -/
def flowIifShow : Held Settings → List Char × Held Settings :=
  ifindexShow devices (interfaceGlobal .iif)

/-- `flow_iif_store`, `lab-routes-ipv6/2026/kbench_mod.c:638–661`. -/
def flowIifStore : List Char → Held Settings → Int × Held Settings :=
  ifindexTextStore devices kstrtoint scanName (interfaceGlobal .iif)

/-- The handlers of `flow_oif` and `flow_iif`. -/
def handlers : Handlers Settings where
  oifShow := flowOifShow devices
  oifStore := flowOifStore devices kstrtoint scanName
  iifShow := flowIifShow devices
  iifStore := flowIifStore devices kstrtoint scanName

end Sysfs
end Ipv6

namespace Ipv4

/-- The globals of the attributes, `lab-routes-ipv4/2026/kbench_mod.c:52–53`. -/
def interfaceGlobal : Interface → IfindexGlobal Settings
  | .oif => ⟨Settings.flowOif, fun g i ↦ { g with flowOif := i }⟩
  | .iif => ⟨Settings.flowIif, fun g i ↦ { g with flowIif := i }⟩

namespace Sysfs

variable (devices : List NetDevice) (kstrtoint : List Char → Option Int32)
  (scanName : List Char → List Char)

/-- `flow_oif_show`, `lab-routes-ipv4/2026/kbench_mod.c:450–463`. -/
def flowOifShow : Held Settings → List Char × Held Settings :=
  ifindexShow devices (interfaceGlobal .oif)

/-- `flow_oif_store`, `lab-routes-ipv4/2026/kbench_mod.c:465–488`. -/
def flowOifStore : List Char → Held Settings → Int × Held Settings :=
  ifindexTextStore devices kstrtoint scanName (interfaceGlobal .oif)

/-- `flow_iif_show`, `lab-routes-ipv4/2026/kbench_mod.c:490–503`. -/
def flowIifShow : Held Settings → List Char × Held Settings :=
  ifindexShow devices (interfaceGlobal .iif)

/-- `flow_iif_store`, `lab-routes-ipv4/2026/kbench_mod.c:505–528`. -/
def flowIifStore : List Char → Held Settings → Int × Held Settings :=
  ifindexTextStore devices kstrtoint scanName (interfaceGlobal .iif)

/-- The handlers of `flow_oif` and `flow_iif`. -/
def handlers : Handlers Settings where
  oifShow := flowOifShow devices
  oifStore := flowOifStore devices kstrtoint scanName
  iifShow := flowIifShow devices
  iifStore := flowIifStore devices kstrtoint scanName

end Sysfs
end Ipv4

/-- Over every sequence of reads and writes of the two attributes of either module, the
references held on each device are as many as before exactly when no access finds a device:
no read while the configured number is the index of one, and no write that names one. -/
theorem interface_refs_iff (devices : List NetDevice) (kstrtoint : List Char → Option Int32)
    (scanName : List Char → List Char) (ops : List Access) :
    (∀ s : Held Ipv6.Settings,
      (∀ d, ((Ipv6.Sysfs.handlers devices kstrtoint scanName).run s ops).refs d = s.refs d) ↔
        ¬ Finds devices kstrtoint scanName Ipv6.interfaceGlobal s ops) ∧
    ∀ s : Held Ipv4.Settings,
      (∀ d, ((Ipv4.Sysfs.handlers devices kstrtoint scanName).run s ops).refs d = s.refs d) ↔
        ¬ Finds devices kstrtoint scanName Ipv4.interfaceGlobal s ops :=
  ⟨fun s ↦ refs_run_iff devices kstrtoint scanName Ipv6.interfaceGlobal s ops,
    fun s ↦ refs_run_iff devices kstrtoint scanName Ipv4.interfaceGlobal s ops⟩

/-- The loopback device. -/
def loopback : NetDevice := ⟨1, ['l', 'o']⟩

/-- The addresses and interfaces that the module is loaded with,
`lab-routes-ipv6/2026/kbench_mod.c:38–61`, and single lookups. -/
def Ipv6.loaded : Ipv6.Settings where
  warmupCount := Count.one
  loopCount := Count.one
  maxLoopCount := Count.one
  batchCount := Count.one
  flowOif := 0
  flowIif := 0
  flowLabel := 0
  flowMark := 0
  flowDstIpaddrS := .ofHost 0x20000000 0 0 0
  flowDstIpaddrE := .ofHost 0x3fffffff 0xffffffff 0xffffffff 0xffffffff
  flowSrcIpaddr := .ofHost 0 0 0 0

/-- Writing the name of a device and reading it back leaves two references where there was
none. -/
theorem loopback_refs_leak :
    (((Ipv6.Sysfs.handlers [loopback] (fun _ ↦ none) (·.takeWhile (· ≠ '\n'))).run
      ⟨Ipv6.loaded, []⟩ [.write .oif ['l', 'o', '\n'], .read .oif]).refs loopback) = 2 ∧
    (⟨Ipv6.loaded, []⟩ : Held Ipv6.Settings).refs loopback = 0 := ⟨rfl, rfl⟩

end NetworkLab.Kbench
