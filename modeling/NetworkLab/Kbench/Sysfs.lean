import NetworkLab.Kbench.Devices
import NetworkLab.Kbench.Ipv4.ScanRange
import NetworkLab.Lib.Kstrtox

/-!
# Attributes of the modules as texts

The show and store handlers of `lab-routes-ipv6/2026/kbench_mod.c:483–707` and
`lab-routes-ipv4/2026/kbench_mod.c:375–576`, over the texts that user space reads and writes.
A text ends before its NUL and fits in its page.
-/

namespace NetworkLab.Kbench

open NetworkLab.Lib

/-! ### Device names -/

/-- The kernel's `isspace`. -/
def isspace (c : Char) : Bool := (9 ≤ c.toNat && c.toNat ≤ 13) || c.toNat == 32 || c.toNat == 160

/-- `sscanf(buf, "%15s", ifname)` into an empty buffer. -/
def scanName (buf : List Char) : List Char :=
  ((buf.dropWhile isspace).takeWhile fun c ↦ !isspace c).take 15

/-- The kernel's `dev_valid_name`. -/
def devValidName (name : List Char) : Bool :=
  name ≠ [] && name.length < 16 && name ≠ ['.'] && name ≠ ['.', '.'] &&
    name.all fun c ↦ c ≠ '/' && c ≠ ':' && !isspace c

/-- The devices of the initial namespace: distinct valid names, distinct positive indexes. -/
structure DeviceTable where
  devices : List NetDevice
  valid : ∀ d ∈ devices, devValidName d.name = true
  nodup_name : (devices.map NetDevice.name).Nodup
  nodup_ifindex : (devices.map NetDevice.ifindex).Nodup
  ifindex_pos : ∀ d ∈ devices, 0 < d.ifindex

/-- A name that the kernel accepts is scanned up to the newline behind it. -/
theorem scanName_of_valid {name : List Char} (hvalid : devValidName name = true) :
    scanName (name ++ ['\n']) = name := by
  simp only [devValidName, Bool.and_eq_true, decide_eq_true_eq, List.all_eq_true,
    Bool.not_eq_true'] at hvalid
  obtain ⟨⟨⟨⟨hne, hlen⟩, -⟩, -⟩, hall⟩ := hvalid
  have hspace : ∀ c ∈ name, isspace c = false := fun c hc ↦ (hall c hc).2
  have hdrop : (name ++ ['\n']).dropWhile isspace = name ++ ['\n'] := by
    cases name with
    | nil => exact absurd rfl hne
    | cons c name =>
      rw [List.cons_append, List.dropWhile_cons_of_neg]
      rw [hspace c List.mem_cons_self]
      exact Bool.false_ne_true
  have htake : (name ++ ['\n']).takeWhile (fun c ↦ !isspace c) = name := by
    rw [List.takeWhile_append_of_pos]
    · exact List.append_nil name
    · intro c hc
      rw [hspace c hc]
      rfl
  rw [scanName, hdrop, htake, List.take_of_length_le (by omega)]

/-- A device of the table is found by its name. -/
theorem DeviceTable.deviceByName_of_mem (t : DeviceTable) {d : NetDevice} (hd : d ∈ t.devices) :
    deviceByName t.devices d.name = some d := by
  cases hfind : deviceByName t.devices d.name with
  | none => exact absurd (List.find?_eq_none.mp hfind d hd) (by simp)
  | some d' =>
    have hname : d'.name = d.name := by simpa using List.find?_some hfind
    have hmem : d' ∈ t.devices := List.mem_of_find?_eq_some hfind
    rw [List.inj_on_of_nodup_map t.nodup_name hmem hd hname]

/-! ### Handlers by their kind -/

section

variable {S V : Type}

/-- The store handlers of the numbers differ in their parser and in what they assign. -/
def numberStore (parser : List Char → Except Int V) (assign : S → V → Except Errno S)
    (buf : List Char) (s : Held S) : Int × Held S :=
  match parser buf with
  | .error err => (err, s)
  | .ok val =>
    match assign s.g val with
    | .error .einval => (invalidArgument, s)
    | .ok g => (buf.length, { s with g })

/-- The show handlers of the counts differ in the global that they read. -/
def countShow (count : S → Count) (s : Held S) : List Char × Held S :=
  (Kstrtox.decimal (count s.g).toNat, s)

/-- The show handlers of the other numbers differ in their digits as well. -/
def hexShow (width : Nat) (number : S → UInt32) (s : Held S) : List Char × Held S :=
  (Kstrtox.hexadecimal width (number s.g).toNat, s)

/-- Writing back the text that was shown succeeds and changes no setting. -/
def RoundTrip (shower : Held S → List Char × Held S)
    (store : List Char → Held S → Int × Held S) (s : Held S) : Prop :=
  let shown := shower s
  let stored := store shown.1 shown.2
  stored.1 = shown.1.length ∧ stored.2.g = s.g

private theorem roundTrip_number {parser : List Char → Except Int V}
    {assign : S → V → Except Errno S} {text : List Char} {s : Held S} {v : V}
    (hparser : parser text = .ok v) (hassign : assign s.g v = .ok s.g) :
    RoundTrip (fun s ↦ (text, s)) (numberStore parser assign) s := by
  dsimp only [RoundTrip, numberStore]
  rw [hparser]
  dsimp only
  rw [hassign]
  exact ⟨rfl, rfl⟩

private theorem countStore_val (assign : Count → S) (c : Count) :
    countStore assign c.val = .ok (assign c) := by
  have hle : ¬ c.val < 1 := UInt64.not_lt.mpr c.one_le
  rw [countStore, dif_neg hle]

/-- A count is read back. -/
theorem roundTrip_count {count : S → Count} {assign : S → Count → S} {s : Held S}
    (hsame : assign s.g (count s.g) = s.g) :
    RoundTrip (countShow count)
      (numberStore Kstrtox.kstrtoul fun g ↦ countStore (assign g)) s := by
  apply roundTrip_number (Kstrtox.kstrtoul_decimal _)
  rw [countStore_val, hsame]

/-- A number shown in hexadecimal is read back. -/
theorem roundTrip_hex {width : Nat} {number : S → UInt32} {assign : S → UInt32 → Except Errno S}
    {s : Held S} (hsame : assign s.g (number s.g) = .ok s.g) :
    RoundTrip (hexShow width number) (numberStore Kstrtox.kstrtouint assign) s :=
  roundTrip_number (Kstrtox.kstrtouint_hexadecimal width _) hsame

/-! ### The interfaces -/

/-- `kstrtoint`, for the handlers of the interfaces. -/
def readInt (buf : List Char) : Option Int32 := (Kstrtox.kstrtoint buf).toOption

/-- The device with an index, if there is one, has a name that is no number, or one that is
this very index. -/
def NameKept (t : DeviceTable) (ifindex : Int32) : Prop :=
  ∀ dev ∈ t.devices, dev.ifindex = ifindex →
    ∀ val, Kstrtox.kstrtoint (dev.name ++ ['\n']) = .ok val → val = ifindex

/-- The globals of the two interfaces are two fields of the settings. -/
structure Lawful (globals : Interface → IfindexGlobal S) : Prop where
  get_set : ∀ a g val, (globals a).get ((globals a).set g val) = val
  get_set_of_ne : ∀ a b g val, b ≠ a → (globals b).get ((globals a).set g val) = (globals b).get g
  set_get : ∀ a g, (globals a).set g ((globals a).get g) = g

private theorem nonneg_toInt {i : Int32} : 0 ≤ i.toInt ↔ ¬ i < 0 := by
  rw [Int32.lt_iff_toInt_lt]
  change 0 ≤ i.toInt ↔ ¬ i.toInt < 0
  omega

private theorem ifindexShow_none {t : DeviceTable} {a : IfindexGlobal S} {s : Held S}
    (hnone : deviceByIndex t.devices (a.get s.g) = none) (hnonneg : ¬ a.get s.g < 0) :
    ifindexShow t.devices a s = (Kstrtox.decimal (a.get s.g).toInt.toNat, s) := by
  have hpos := nonneg_toInt.mpr hnonneg
  unfold ifindexShow
  rw [hnone, Kstrtox.decimal]
  obtain ⟨n, hn⟩ := Int.eq_ofNat_of_zero_le hpos
  rw [hn]
  change ((Nat.repr n).toList ++ ['\n'], s) = (Nat.toDigits 10 n ++ ['\n'], s)
  rw [Nat.repr, String.toList_ofList]

/-- An interface is read back exactly when the name of its device is. -/
theorem roundTrip_ifindex_iff {t : DeviceTable} {globals : Interface → IfindexGlobal S}
    (hlawful : Lawful globals) (a : Interface) {s : Held S} (hnonneg : ¬ (globals a).get s.g < 0) :
    RoundTrip (ifindexShow t.devices (globals a))
        (ifindexTextStore t.devices readInt scanName (globals a)) s ↔
      NameKept t ((globals a).get s.g) := by
  cases hdev : deviceByIndex t.devices ((globals a).get s.g) with
  | none =>
    have hkept : NameKept t ((globals a).get s.g) := by
      intro dev hmem hindex
      exact absurd (List.find?_eq_none.mp hdev dev hmem) (by simp [hindex])
    refine iff_of_true ?_ hkept
    have hread : readInt (Kstrtox.decimal ((globals a).get s.g).toInt.toNat) =
        some ((globals a).get s.g) := by
      rw [readInt, Kstrtox.kstrtoint_decimal (nonneg_toInt.mpr hnonneg)]
      rfl
    dsimp only [RoundTrip]
    rw [ifindexShow_none hdev hnonneg]
    unfold ifindexTextStore
    dsimp only
    rw [hread]
    dsimp only
    rw [ifindexStore, if_neg hnonneg]
    exact ⟨rfl, hlawful.set_get a s.g⟩
  | some dev =>
    have hmem : dev ∈ t.devices := List.mem_of_find?_eq_some hdev
    have hindex : dev.ifindex = (globals a).get s.g := by simpa using List.find?_some hdev
    have hkept : NameKept t ((globals a).get s.g) ↔
        ∀ val, Kstrtox.kstrtoint (dev.name ++ ['\n']) = .ok val → val = (globals a).get s.g := by
      constructor
      · intro h
        exact h dev hmem hindex
      · intro h dev' hmem' hindex'
        have hsame : dev' = dev :=
          List.inj_on_of_nodup_map t.nodup_ifindex hmem' hmem (hindex'.trans hindex.symm)
        rw [hsame]
        exact h
    have hshow : ifindexShow t.devices (globals a) s =
        (dev.name ++ ['\n'], { s with held := dev :: s.held }) := by
      unfold ifindexShow
      rw [hdev]
    rw [hkept]
    dsimp only [RoundTrip]
    rw [hshow]
    unfold ifindexTextStore readInt
    dsimp only
    cases hparse : Kstrtox.kstrtoint (dev.name ++ ['\n']) with
    | error err =>
      dsimp only [Except.toOption]
      rw [scanName_of_valid (t.valid dev hmem), t.deviceByName_of_mem hmem]
      dsimp only
      rw [hindex, hlawful.set_get]
      simp
    | ok val =>
      dsimp only [Except.toOption]
      unfold ifindexStore
      by_cases hneg : val < 0
      · rw [if_pos hneg]
        -- the handler refuses a negative number, and no device has a negative index
        refine iff_of_false (fun h ↦ ?_) (fun h ↦ hnonneg (h val rfl ▸ hneg))
        have hlen := h.1
        simp [invalidArgument] at hlen
        omega
      · rw [if_neg hneg]
        constructor
        · rintro ⟨-, hsame⟩ val' hval'
          have hget := congrArg (globals a).get hsame
          rw [hlawful.get_set] at hget
          rw [← Except.ok.inj hval', hget]
        · intro h
          refine ⟨rfl, ?_⟩
          dsimp only
          rw [h val rfl, hlawful.set_get]

/-! ### Runs -/

/-- No global of an interface is negative. -/
def Nonneg (globals : Interface → IfindexGlobal S) (g : S) : Prop :=
  ∀ a, ¬ (globals a).get g < 0

/-- Reading an attribute of an interface changes no setting. -/
theorem ifindexShow_g (devices : List NetDevice) (a : IfindexGlobal S) (s : Held S) :
    (ifindexShow devices a s).2.g = s.g := by
  unfold ifindexShow
  cases deviceByIndex devices (a.get s.g) <;> rfl

/-- Writing a number changes no global of an interface if assigning it does not. -/
theorem Nonneg.numberStore {globals : Interface → IfindexGlobal S}
    {parser : List Char → Except Int V} {assign : S → V → Except Errno S}
    (hkeep : ∀ g val g', assign g val = .ok g' → ∀ a, (globals a).get g' = (globals a).get g)
    (buf : List Char) {s : Held S} (hs : Nonneg globals s.g) :
    Nonneg globals (numberStore parser assign buf s).2.g := by
  unfold Kbench.numberStore
  split
  · exact hs
  · split
    · exact hs
    · next g' hassign =>
      intro a
      rw [hkeep _ _ _ hassign a]
      exact hs a

/-- Writing a count changes no global of an interface. -/
theorem Nonneg.countStore {globals : Interface → IfindexGlobal S} {assign : S → Count → S}
    (hkeep : ∀ g c a, (globals a).get (assign g c) = (globals a).get g)
    (buf : List Char) {s : Held S} (hs : Nonneg globals s.g) :
    Nonneg globals
      (Kbench.numberStore Kstrtox.kstrtoul (fun g ↦ Kbench.countStore (assign g)) buf s).2.g := by
  refine Nonneg.numberStore (fun g val g' hassign ↦ ?_) buf hs
  unfold Kbench.countStore at hassign
  split at hassign
  · cases hassign
  · cases hassign
    exact hkeep g _

/-- Writing an attribute of an interface assigns no negative number. -/
theorem Nonneg.ifindexTextStore {globals : Interface → IfindexGlobal S} (hlawful : Lawful globals)
    (t : DeviceTable) (a : Interface) (buf : List Char) {s : Held S} (hs : Nonneg globals s.g) :
    Nonneg globals (ifindexTextStore t.devices readInt scanName (globals a) buf s).2.g := by
  have hset : ∀ val, ¬ val < 0 → Nonneg globals ((globals a).set s.g val) := by
    intro val hval b
    by_cases hb : b = a
    · rw [hb, hlawful.get_set]
      exact hval
    · rw [hlawful.get_set_of_ne a b s.g val hb]
      exact hs b
  unfold Kbench.ifindexTextStore
  split
  · split
    · exact hs
    · next dev hdev =>
      have hpos := t.ifindex_pos dev (List.mem_of_find?_eq_some hdev)
      exact hset dev.ifindex (Int32.not_lt.mpr (Int32.le_of_lt hpos))
  · next val hval =>
    unfold ifindexStore
    by_cases hneg : val < 0
    · rw [if_pos hneg]
      exact hs
    · rw [if_neg hneg]
      exact hset val hneg

/-- What every use keeps holds after all of them. -/
theorem Nonneg.foldl {U : Type*} {globals : Interface → IfindexGlobal S}
    {step : Held S → U → Held S}
    (hstep : ∀ s u, Nonneg globals s.g → Nonneg globals (step s u).g) (history : List U)
    {s : Held S} (hs : Nonneg globals s.g) : Nonneg globals (history.foldl step s).g := by
  induction history generalizing s with
  | nil => exact hs
  | cons u history ih => exact ih (hstep s u hs)

end

/-! ### The handlers of both modules -/

namespace Ipv6.Sysfs

/-- `warmup_count_show`, `lab-routes-ipv6/2026/kbench_mod.c:483–491`. -/
def warmupCountShow : Held Settings → List Char × Held Settings :=
  countShow Settings.warmupCount

/-- `warmup_count_store`, `lab-routes-ipv6/2026/kbench_mod.c:493–506`. -/
def warmupCountStore : List Char → Held Settings → Int × Held Settings :=
  numberStore Kstrtox.kstrtoul Ipv6.warmupCountStore

/-- `loop_count_show`, `lab-routes-ipv6/2026/kbench_mod.c:508–516`. -/
def loopCountShow : Held Settings → List Char × Held Settings := countShow Settings.loopCount

/-- `loop_count_store`, `lab-routes-ipv6/2026/kbench_mod.c:518–531`. -/
def loopCountStore : List Char → Held Settings → Int × Held Settings :=
  numberStore Kstrtox.kstrtoul Ipv6.loopCountStore

/-- `max_loop_count_show`, `lab-routes-ipv6/2026/kbench_mod.c:533–541`. -/
def maxLoopCountShow : Held Settings → List Char × Held Settings :=
  countShow Settings.maxLoopCount

/-- `max_loop_count_store`, `lab-routes-ipv6/2026/kbench_mod.c:543–556`. -/
def maxLoopCountStore : List Char → Held Settings → Int × Held Settings :=
  numberStore Kstrtox.kstrtoul Ipv6.maxLoopCountStore

/-- `batch_count_show`, `lab-routes-ipv6/2026/kbench_mod.c:558–566`. -/
def batchCountShow : Held Settings → List Char × Held Settings := countShow Settings.batchCount

/-- `batch_count_store`, `lab-routes-ipv6/2026/kbench_mod.c:568–581`. -/
def batchCountStore : List Char → Held Settings → Int × Held Settings :=
  numberStore Kstrtox.kstrtoul Ipv6.batchCountStore

/-- `flow_label_show`, `lab-routes-ipv6/2026/kbench_mod.c:663–671`. -/
def flowLabelShow : Held Settings → List Char × Held Settings := hexShow 8 Settings.flowLabel

/-- `flow_label_store`, `lab-routes-ipv6/2026/kbench_mod.c:673–684`. -/
def flowLabelStore : List Char → Held Settings → Int × Held Settings :=
  numberStore Kstrtox.kstrtouint fun g val ↦ .ok { g with flowLabel := val }

/-- `flow_mark_show`, `lab-routes-ipv6/2026/kbench_mod.c:686–694`. -/
def flowMarkShow : Held Settings → List Char × Held Settings := hexShow 8 Settings.flowMark

/-- `flow_mark_store`, `lab-routes-ipv6/2026/kbench_mod.c:696–707`. -/
def flowMarkStore : List Char → Held Settings → Int × Held Settings :=
  numberStore Kstrtox.kstrtouint fun g val ↦ .ok { g with flowMark := val }

/-- The attributes that are no address. -/
inductive Attribute where
  | warmupCount
  | loopCount
  | maxLoopCount
  | batchCount
  | interface (a : Interface)
  | flowLabel
  | flowMark
  deriving DecidableEq, Repr

/-- The show handler of an attribute. -/
def Attribute.shower (t : DeviceTable) : Attribute → Held Settings → List Char × Held Settings
  | .warmupCount => warmupCountShow
  | .loopCount => loopCountShow
  | .maxLoopCount => maxLoopCountShow
  | .batchCount => batchCountShow
  | .interface .oif => flowOifShow t.devices
  | .interface .iif => flowIifShow t.devices
  | .flowLabel => flowLabelShow
  | .flowMark => flowMarkShow

/-- The store handler of an attribute. -/
def Attribute.store (t : DeviceTable) :
    Attribute → List Char → Held Settings → Int × Held Settings
  | .warmupCount => warmupCountStore
  | .loopCount => loopCountStore
  | .maxLoopCount => maxLoopCountStore
  | .batchCount => batchCountStore
  | .interface .oif => flowOifStore t.devices readInt scanName
  | .interface .iif => flowIifStore t.devices readInt scanName
  | .flowLabel => flowLabelStore
  | .flowMark => flowMarkStore

/-- What user space does with the module: reading and writing attributes, addresses among
them, and running the benchmark, which assigns no global. -/
inductive Use where
  | read (a : Attribute)
  | write (a : Attribute) (buf : List Char)
  | flowDstIpaddrS (parsed : In6Addr)
  | flowDstIpaddrE (parsed : In6Addr)
  | flowSrcIpaddr (parsed : In6Addr)
  | run

/-- One use, with the devices of its time. -/
def step (s : Held Settings) : DeviceTable × Use → Held Settings
  | (t, .read a) => (a.shower t s).2
  | (t, .write a buf) => (a.store t buf s).2
  | (_, .flowDstIpaddrS parsed) => { s with g := s.g.store (.flowDstIpaddrS parsed) }
  | (_, .flowDstIpaddrE parsed) => { s with g := s.g.store (.flowDstIpaddrE parsed) }
  | (_, .flowSrcIpaddr parsed) => { s with g := s.g.store (.flowSrcIpaddr parsed) }
  | (_, .run) => s

/-- The globals that the module is loaded with, `lab-routes-ipv6/2026/kbench_mod.c:35–61`. -/
def initial : Settings where
  warmupCount := ⟨100000, by decide⟩
  loopCount := ⟨5000, by decide⟩
  maxLoopCount := ⟨1000000, by decide⟩
  batchCount := Count.one
  flowOif := 0
  flowIif := 0
  flowLabel := 0
  flowMark := 0x00000000
  flowDstIpaddrS := .ofHost 0x20000000 0 0 0
  flowDstIpaddrE := .ofHost 0x3fffffff 0xffffffff 0xffffffff 0xffffffff
  flowSrcIpaddr := .ofHost 0 0 0 0

/-- A state that the module reaches from its loading. -/
def reached (history : List (DeviceTable × Use)) : Held Settings :=
  history.foldl step ⟨initial, []⟩

/-- The two globals are two fields. -/
theorem lawful_interfaceGlobal : Lawful interfaceGlobal where
  get_set a g val := by cases a <;> rfl
  get_set_of_ne a b g val hne := by cases a <;> cases b <;> first | rfl | exact absurd rfl hne
  set_get a g := by cases a <;> rfl

private theorem shower_g (t : DeviceTable) (a : Attribute) (s : Held Settings) :
    (a.shower t s).2.g = s.g := by
  cases a with
  | interface i => cases i <;> exact ifindexShow_g t.devices _ s
  | _ => rfl

private theorem nonneg_store (t : DeviceTable) (a : Attribute) (buf : List Char)
    {s : Held Settings} (hs : Nonneg interfaceGlobal s.g) :
    Nonneg interfaceGlobal (a.store t buf s).2.g := by
  cases a with
  | interface i =>
    cases i <;> exact Nonneg.ifindexTextStore lawful_interfaceGlobal t _ buf hs
  | flowLabel | flowMark =>
    refine Nonneg.numberStore (fun g val g' hok i ↦ ?_) buf hs
    rw [← Except.ok.inj hok]
    cases i <;> rfl
  | warmupCount | loopCount | maxLoopCount | batchCount =>
    exact Nonneg.countStore (fun g c i ↦ by cases i <;> rfl) buf hs

/-- No use makes the global of an interface negative. -/
theorem nonneg_step {s : Held Settings} (hs : Nonneg interfaceGlobal s.g)
    (u : DeviceTable × Use) : Nonneg interfaceGlobal (step s u).g := by
  obtain ⟨t, u⟩ := u
  cases u with
  | read a =>
    change Nonneg interfaceGlobal (a.shower t s).2.g
    rw [shower_g]
    exact hs
  | write a buf => exact nonneg_store t a buf hs
  | flowDstIpaddrS parsed | flowDstIpaddrE parsed | flowSrcIpaddr parsed =>
    intro i
    have hi := hs i
    cases i <;> exact hi
  | run => exact hs

/-- No global of an interface is negative in a state that the module reaches. -/
theorem nonneg_reached (history : List (DeviceTable × Use)) :
    Nonneg interfaceGlobal (reached history).g := by
  have hinit : Nonneg interfaceGlobal (Held.mk initial []).g := by
    intro i
    have hzero : ¬ (0 : Int32) < 0 := by decide
    cases i <;> exact hzero
  exact Nonneg.foldl (fun _ u hs ↦ nonneg_step hs u) history hinit

/-- The device name that an attribute of an interface shows is read back as its index. -/
def Attribute.Kept (t : DeviceTable) (s : Held Settings) : Attribute → Prop
  | .interface a => NameKept t ((interfaceGlobal a).get s.g)
  | _ => True

/-- What every attribute shows is read back, as far as device names allow. -/
theorem roundTrip_iff (t : DeviceTable) (a : Attribute) {s : Held Settings}
    (hs : Nonneg interfaceGlobal s.g) :
    RoundTrip (a.shower t) (a.store t) s ↔ a.Kept t s := by
  cases a with
  | interface i =>
    have hiff := roundTrip_ifindex_iff lawful_interfaceGlobal i (hs i) (t := t)
    cases i <;> exact hiff
  | flowLabel => exact iff_of_true (roundTrip_hex rfl) trivial
  | flowMark => exact iff_of_true (roundTrip_hex rfl) trivial
  | warmupCount => exact iff_of_true (roundTrip_count rfl) trivial
  | loopCount => exact iff_of_true (roundTrip_count rfl) trivial
  | maxLoopCount => exact iff_of_true (roundTrip_count rfl) trivial
  | batchCount => exact iff_of_true (roundTrip_count rfl) trivial

end Ipv6.Sysfs

namespace Ipv4.Sysfs

/-- `warmup_count_show`, `lab-routes-ipv4/2026/kbench_mod.c:375–383`. -/
def warmupCountShow : Held Settings → List Char × Held Settings :=
  countShow Settings.warmupCount

/-- `warmup_count_store`, `lab-routes-ipv4/2026/kbench_mod.c:385–398`. -/
def warmupCountStore : List Char → Held Settings → Int × Held Settings :=
  numberStore Kstrtox.kstrtoul fun g ↦ countStore fun c ↦ { g with warmupCount := c }

/-- `loop_count_show`, `lab-routes-ipv4/2026/kbench_mod.c:400–408`. -/
def loopCountShow : Held Settings → List Char × Held Settings := countShow Settings.loopCount

/-- `loop_count_store`, `lab-routes-ipv4/2026/kbench_mod.c:410–423`. -/
def loopCountStore : List Char → Held Settings → Int × Held Settings :=
  numberStore Kstrtox.kstrtoul fun g ↦ countStore fun c ↦ { g with loopCount := c }

/-- `batch_count_show`, `lab-routes-ipv4/2026/kbench_mod.c:425–433`. -/
def batchCountShow : Held Settings → List Char × Held Settings := countShow Settings.batchCount

/-- `batch_count_store`, `lab-routes-ipv4/2026/kbench_mod.c:435–448`. -/
def batchCountStore : List Char → Held Settings → Int × Held Settings :=
  numberStore Kstrtox.kstrtoul fun g ↦ countStore fun c ↦ { g with batchCount := c }

/-- `flow_tos_show`, `lab-routes-ipv4/2026/kbench_mod.c:530–538`. -/
def flowTosShow : Held Settings → List Char × Held Settings :=
  hexShow 2 fun g ↦ g.flowTos.toUInt32

/-- `flow_tos_store`, `lab-routes-ipv4/2026/kbench_mod.c:540–553`. -/
def flowTosStore : List Char → Held Settings → Int × Held Settings :=
  numberStore Kstrtox.kstrtouint fun g val ↦
    if val < 0 ∨ 255 < val then .error .einval else .ok { g with flowTos := val.toUInt8 }

/-- `flow_mark_show`, `lab-routes-ipv4/2026/kbench_mod.c:555–563`. -/
def flowMarkShow : Held Settings → List Char × Held Settings := hexShow 8 Settings.flowMark

/-- `flow_mark_store`, `lab-routes-ipv4/2026/kbench_mod.c:565–576`. -/
def flowMarkStore : List Char → Held Settings → Int × Held Settings :=
  numberStore Kstrtox.kstrtouint fun g val ↦ .ok { g with flowMark := val }

/-- The attributes that are no address. -/
inductive Attribute where
  | warmupCount
  | loopCount
  | batchCount
  | interface (a : Interface)
  | flowTos
  | flowMark
  deriving DecidableEq, Repr

/-- The show handler of an attribute. -/
def Attribute.shower (t : DeviceTable) : Attribute → Held Settings → List Char × Held Settings
  | .warmupCount => warmupCountShow
  | .loopCount => loopCountShow
  | .batchCount => batchCountShow
  | .interface .oif => flowOifShow t.devices
  | .interface .iif => flowIifShow t.devices
  | .flowTos => flowTosShow
  | .flowMark => flowMarkShow

/-- The store handler of an attribute. -/
def Attribute.store (t : DeviceTable) :
    Attribute → List Char → Held Settings → Int × Held Settings
  | .warmupCount => warmupCountStore
  | .loopCount => loopCountStore
  | .batchCount => batchCountStore
  | .interface .oif => flowOifStore t.devices readInt scanName
  | .interface .iif => flowIifStore t.devices readInt scanName
  | .flowTos => flowTosStore
  | .flowMark => flowMarkStore

/-- What user space does with the module: reading and writing attributes, addresses among
them, and running the benchmark, which may swap the range. -/
inductive Use where
  | read (a : Attribute)
  | write (a : Attribute) (buf : List Char)
  | flowDstIpaddrS (parsed : UInt32)
  | flowDstIpaddrE (parsed : UInt32)
  | flowSrcIpaddr (parsed : UInt32)
  | run

/-- One use, with the devices of its time. -/
def step (s : Held Settings) : DeviceTable × Use → Held Settings
  | (t, .read a) => (a.shower t s).2
  | (t, .write a buf) => (a.store t buf s).2
  | (_, .flowDstIpaddrS parsed) => { s with g := { s.g with flowDstIpaddrS := parsed } }
  | (_, .flowDstIpaddrE parsed) => { s with g := { s.g with flowDstIpaddrE := parsed } }
  | (_, .flowSrcIpaddr parsed) => { s with g := { s.g with flowSrcIpaddr := parsed } }
  | (_, .run) => { s with g := s.g.swapRange }

/-- The globals that the module is loaded with, `lab-routes-ipv4/2026/kbench_mod.c:35–58`. The
addresses stand in the byte order of the host. -/
def initial : Settings where
  warmupCount := ⟨100000, by decide⟩
  loopCount := ⟨5000, by decide⟩
  batchCount := Count.one
  flowOif := 0
  flowIif := 0
  flowTos := 0x00
  flowMark := 0x00000000
  flowDstIpaddrS := 0x00000000
  flowDstIpaddrE := 0xdfffffff
  flowSrcIpaddr := 0x00000000

/-- A state that the module reaches from its loading. -/
def reached (history : List (DeviceTable × Use)) : Held Settings :=
  history.foldl step ⟨initial, []⟩

/-- The two globals are two fields. -/
theorem lawful_interfaceGlobal : Lawful interfaceGlobal where
  get_set a g val := by cases a <;> rfl
  get_set_of_ne a b g val hne := by cases a <;> cases b <;> first | rfl | exact absurd rfl hne
  set_get a g := by cases a <;> rfl

private theorem shower_g (t : DeviceTable) (a : Attribute) (s : Held Settings) :
    (a.shower t s).2.g = s.g := by
  cases a with
  | interface i => cases i <;> exact ifindexShow_g t.devices _ s
  | _ => rfl

private theorem nonneg_store (t : DeviceTable) (a : Attribute) (buf : List Char)
    {s : Held Settings} (hs : Nonneg interfaceGlobal s.g) :
    Nonneg interfaceGlobal (a.store t buf s).2.g := by
  cases a with
  | interface i =>
    cases i <;> exact Nonneg.ifindexTextStore lawful_interfaceGlobal t _ buf hs
  | flowMark =>
    refine Nonneg.numberStore (fun g val g' hok i ↦ ?_) buf hs
    rw [← Except.ok.inj hok]
    cases i <;> rfl
  | flowTos =>
    refine Nonneg.numberStore (fun g val g' hok i ↦ ?_) buf hs
    split at hok
    · cases hok
    · cases hok
      cases i <;> rfl
  | warmupCount | loopCount | batchCount =>
    exact Nonneg.countStore (fun g c i ↦ by cases i <;> rfl) buf hs

/-- No use makes the global of an interface negative. -/
theorem nonneg_step {s : Held Settings} (hs : Nonneg interfaceGlobal s.g)
    (u : DeviceTable × Use) : Nonneg interfaceGlobal (step s u).g := by
  obtain ⟨t, u⟩ := u
  cases u with
  | read a =>
    change Nonneg interfaceGlobal (a.shower t s).2.g
    rw [shower_g]
    exact hs
  | write a buf => exact nonneg_store t a buf hs
  | flowDstIpaddrS parsed | flowDstIpaddrE parsed | flowSrcIpaddr parsed =>
    intro i
    have hi := hs i
    cases i <;> exact hi
  | run =>
    change Nonneg interfaceGlobal s.g.swapRange
    rw [swapRange_eq]
    exact hs

/-- No global of an interface is negative in a state that the module reaches. -/
theorem nonneg_reached (history : List (DeviceTable × Use)) :
    Nonneg interfaceGlobal (reached history).g := by
  have hinit : Nonneg interfaceGlobal (Held.mk initial []).g := by
    intro i
    have hzero : ¬ (0 : Int32) < 0 := by decide
    cases i <;> exact hzero
  exact Nonneg.foldl (fun _ u hs ↦ nonneg_step hs u) history hinit

private theorem not_tos_refused (tos : UInt8) :
    ¬ (tos.toUInt32 < 0 ∨ 255 < tos.toUInt32) := by
  have hlt : tos.toNat < 256 := tos.toNat_lt
  rw [UInt32.lt_iff_toNat_lt, UInt32.lt_iff_toNat_lt, UInt8.toNat_toUInt32]
  change ¬ (tos.toNat < 0 ∨ 255 < tos.toNat)
  omega

/-- The device name that an attribute of an interface shows is read back as its index. -/
def Attribute.Kept (t : DeviceTable) (s : Held Settings) : Attribute → Prop
  | .interface a => NameKept t ((interfaceGlobal a).get s.g)
  | _ => True

/-- What every attribute shows is read back, as far as device names allow. -/
theorem roundTrip_iff (t : DeviceTable) (a : Attribute) {s : Held Settings}
    (hs : Nonneg interfaceGlobal s.g) :
    RoundTrip (a.shower t) (a.store t) s ↔ a.Kept t s := by
  cases a with
  | interface i =>
    have hiff := roundTrip_ifindex_iff lawful_interfaceGlobal i (hs i) (t := t)
    cases i <;> exact hiff
  | flowTos =>
    have htos : RoundTrip flowTosShow flowTosStore s := by
      unfold flowTosShow flowTosStore
      apply roundTrip_hex
      rw [if_neg (not_tos_refused s.g.flowTos), UInt8.toUInt8_toUInt32]
    exact iff_of_true htos trivial
  | flowMark => exact iff_of_true (roundTrip_hex rfl) trivial
  | warmupCount => exact iff_of_true (roundTrip_count rfl) trivial
  | loopCount => exact iff_of_true (roundTrip_count rfl) trivial
  | batchCount => exact iff_of_true (roundTrip_count rfl) trivial

end Ipv4.Sysfs

/-- After every sequence of uses of either module, with any devices at each of them, every
attribute takes back the text that it shows, without a change of any setting, exactly if it is
no interface, or the device with its index has no name that reads as another number. -/
theorem showStore_roundTrip_iff (t : DeviceTable) :
    (∀ (history : List (DeviceTable × Ipv6.Sysfs.Use)) (a : Ipv6.Sysfs.Attribute),
      RoundTrip (a.shower t) (a.store t) (Ipv6.Sysfs.reached history) ↔
        a.Kept t (Ipv6.Sysfs.reached history)) ∧
    ∀ (history : List (DeviceTable × Ipv4.Sysfs.Use)) (a : Ipv4.Sysfs.Attribute),
      RoundTrip (a.shower t) (a.store t) (Ipv4.Sysfs.reached history) ↔
        a.Kept t (Ipv4.Sysfs.reached history) :=
  ⟨fun history a ↦ Ipv6.Sysfs.roundTrip_iff t a (Ipv6.Sysfs.nonneg_reached history),
    fun history a ↦ Ipv4.Sysfs.roundTrip_iff t a (Ipv4.Sysfs.nonneg_reached history)⟩

/-- A device with the index three and the name `10`. -/
def numberNamed : DeviceTable where
  devices := [⟨3, ['1', '0']⟩]
  valid := by decide
  nodup_name := by decide
  nodup_ifindex := by decide
  ifindex_pos := by decide

/-- The index three is shown as the name of its device, which is read back as the index ten. -/
theorem numberNamed_not_roundTrip :
    let s := Ipv6.Sysfs.reached [(numberNamed, .write (.interface .oif) ['3', '\n'])]
    let shown := (Ipv6.Sysfs.Attribute.interface .oif).shower numberNamed s
    let stored := (Ipv6.Sysfs.Attribute.interface .oif).store numberNamed shown.1 shown.2
    shown.1 = ['1', '0', '\n'] ∧ s.g.flowOif = 3 ∧ stored.2.g.flowOif = 10 ∧
      ¬ RoundTrip ((Ipv6.Sysfs.Attribute.interface .oif).shower numberNamed)
        ((Ipv6.Sysfs.Attribute.interface .oif).store numberNamed) s := by
  have hstored : ((Ipv6.Sysfs.Attribute.interface .oif).store numberNamed ['1', '0', '\n']
      ⟨{ Ipv6.Sysfs.initial with flowOif := 3 }, [⟨3, ['1', '0']⟩]⟩).2.g.flowOif = 10 := by decide
  refine ⟨by decide, by decide, hstored, fun h ↦ ?_⟩
  have hsame := congrArg Ipv6.Settings.flowOif h.2
  exact absurd (hstored.symm.trans hsame) (by decide)

end NetworkLab.Kbench
