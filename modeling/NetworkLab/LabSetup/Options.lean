import NetworkLab.LabSetup.Start

/-!
# Options as QEMU reads them

The value of an option that the start functions of `common/lab-setup` write is a driver or a kind
of network, and properties behind it, all of them separated by commas.
-/

namespace NetworkLab.LabSetup

open Lib.Shell

/-- A property and what it is set to. -/
def keyValue (part : Text) : Text × Text := (beforeFirst '=' part, afterFirst '=' part)

/-- The properties between commas. -/
def parts (s : Text) : List (Text × Text) := (s.splitOn ',').map keyValue

/-- The properties of a value. -/
def properties (value : Text) : List (Text × Text) := (parts value).tail

/-- What a property is set to. The first one counts. -/
def property (key value : Text) : Option Text :=
  ((properties value).find? (·.1 = key)).map Prod.snd

/-! ### Parts -/

/-- A property that was written is read back. -/
theorem keyValue_eq {key : Text} (h : '=' ∉ key) (value : Text) :
    keyValue (key ++ '=' :: value) = (key, value) := by
  have hall : ∀ c ∈ key, decide (c ≠ '=') = true := by
    intro c hc
    rw [decide_eq_true_eq]
    rintro rfl
    exact h hc
  have hmem : '=' ∈ key ++ '=' :: value := List.mem_append_right _ List.mem_cons_self
  rw [keyValue, beforeFirst, afterFirst, if_pos hmem, List.takeWhile_append_of_pos hall,
    List.dropWhile_append_of_pos hall]
  simp

/-- A text without commas is one part. -/
theorem parts_of_not_mem {s : Text} (h : ',' ∉ s) : parts s = [keyValue s] := by
  have hsplit : s.splitOn ',' = [s] := by
    apply List.splitOnP_eq_singleton
    intro c hc
    rw [beq_eq_false_iff_ne]
    rintro rfl
    exact h hc
  rw [parts, hsplit, List.map_singleton]

/-- A part ends at the first comma. -/
theorem parts_append {s : Text} (h : ',' ∉ s) (t : Text) :
    parts (s ++ ',' :: t) = keyValue s :: parts t := by
  have hsplit : (s ++ ',' :: t).splitOn ',' = s.splitOn ',' ++ t.splitOn ',' :=
    List.splitOnP_append_cons s t (beq_self_eq_true ',')
  rw [parts, hsplit, List.map_append]
  change parts s ++ parts t = _
  rw [parts_of_not_mem h]
  rfl

/-- The properties stand behind the first comma. -/
theorem properties_append {driver : Text} (h : ',' ∉ driver) (t : Text) :
    properties (driver ++ ',' :: t) = parts t := by
  rw [properties, parts_append h, List.tail_cons]

/-- Parts that were written one after the other are read back. -/
theorem parts_flatMap {α : Type} {f : α → Text} {s : Text} {as : List α} (hs : ',' ∉ s)
    (h : ∀ a ∈ as, ',' ∉ f a) :
    parts (s ++ as.flatMap fun a ↦ ',' :: f a) = keyValue s :: as.map fun a ↦ keyValue (f a) := by
  induction as generalizing s with
  | nil =>
    rw [List.flatMap_nil, List.append_nil, parts_of_not_mem hs]
    rfl
  | cons a as ih =>
    obtain ⟨ha, has⟩ := List.forall_mem_cons.mp h
    rw [List.flatMap_cons, List.cons_append, parts_append hs, ih ha has, List.map_cons]

/-! ### Numbers -/

/-- A number has no character but digits. -/
theorem not_mem_decimal {c : Char} (hc : c.isDigit = false) (n : Nat) : c ∉ decimal n := by
  intro h
  rw [Nat.isDigit_of_mem_toDigits (by decide) (by decide) h] at hc
  cases hc

/-- No two numbers are written alike. -/
theorem decimal_injective : Function.Injective decimal := by
  intro m n h
  have hm : Nat.ofDigitChars 10 (decimal m) 0 = m := Nat.ofDigitChars_ten_toDigits
  have hn : Nat.ofDigitChars 10 (decimal n) 0 = n := Nat.ofDigitChars_ten_toDigits
  rw [← hm, h, hn]

/-- No two network devices have one id. -/
theorem netId_injective : Function.Injective netId := fun _ _ h ↦
  decimal_injective (List.append_cancel_left h)

/-- An id has no comma. -/
theorem not_mem_netId (count : Nat) : ',' ∉ netId count := by
  rw [netId, List.mem_append, not_or]
  exact ⟨by decide, not_mem_decimal (by decide) count⟩

/-! ### Cards -/

/-- The properties of a card with a network device behind it. -/
theorem properties_card {driver mac : Text} (hdriver : ',' ∉ driver) (hmac : ',' ∉ mac)
    (netdev : Text) :
    properties (driver ++ ",mac=".toList ++ mac ++ ",netdev=".toList ++ netdev) =
      ("mac".toList, mac) :: parts ("netdev=" ++ netdev) := by
  have hvalue : driver ++ ",mac=".toList ++ mac ++ ",netdev=".toList ++ netdev =
      driver ++ ',' :: ("mac=".toList ++ mac ++ ',' :: ("netdev=".toList ++ netdev)) := by
    simp only [List.append_assoc]
    rfl
  have hkey : ',' ∉ "mac=".toList ++ mac := by
    rw [List.mem_append, not_or]
    exact ⟨by decide, hmac⟩
  have hread : keyValue ("mac=".toList ++ mac) = ("mac".toList, mac) :=
    @keyValue_eq "mac".toList (by decide) mac
  rw [hvalue, properties_append hdriver, parts_append hkey, hread]

/-- The properties of a card with nothing behind it. -/
theorem properties_unusedCard {driver mac : Text} (hdriver : ',' ∉ driver) (hmac : ',' ∉ mac) :
    properties (driver ++ ",mac=".toList ++ mac) = [("mac".toList, mac)] := by
  have hvalue : driver ++ ",mac=".toList ++ mac = driver ++ ',' :: ("mac=".toList ++ mac) := by
    rw [List.append_assoc]
    rfl
  have hkey : ',' ∉ "mac=".toList ++ mac := by
    rw [List.mem_append, not_or]
    exact ⟨by decide, hmac⟩
  have hread : keyValue ("mac=".toList ++ mac) = ("mac".toList, mac) :=
    @keyValue_eq "mac".toList (by decide) mac
  rw [hvalue, properties_append hdriver, parts_of_not_mem hkey, hread]

private theorem keyValue_decimal {key value : Text} (hkey : '=' ∉ key) (n : Nat) :
    keyValue (key ++ '=' :: value ++ decimal n) = (key, value ++ decimal n) := by
  rw [List.append_assoc, List.cons_append, keyValue_eq hkey]

/-- A number adds no comma. -/
theorem not_mem_append_decimal {s : Text} (h : ',' ∉ s) (n : Nat) :
    ',' ∉ s ++ decimal n := by
  rw [List.mem_append, not_or]
  exact ⟨h, not_mem_decimal (by decide) n⟩

/-- The properties of the port of a bridge. -/
theorem properties_rootPort (n : Nat) :
    properties ("pcie-root-port,bus=pcie.0,id=rp".toList ++ decimal n ++ ",slot=".toList ++
        decimal n) =
      [("bus".toList, "pcie.0".toList), ("id".toList, "rp" ++ decimal n),
        ("slot".toList, decimal n)] := by
  have hvalue : "pcie-root-port,bus=pcie.0,id=rp".toList ++ decimal n ++ ",slot=".toList ++
      decimal n = "pcie-root-port".toList ++ ',' :: ("bus=pcie.0".toList ++ ',' ::
        ("id=rp".toList ++ decimal n ++ ',' :: ("slot=".toList ++ decimal n))) := by
    simp only [List.append_assoc]
    rfl
  have hid : keyValue ("id=rp".toList ++ decimal n) = ("id".toList, "rp" ++ decimal n) :=
    @keyValue_decimal "id".toList "rp".toList (by decide) n
  have hslot : keyValue ("slot=".toList ++ decimal n) = ("slot".toList, decimal n) :=
    @keyValue_decimal "slot".toList [] (by decide) n
  rw [hvalue, properties_append (by decide), parts_append (by decide),
    parts_append (not_mem_append_decimal (by decide) n),
    parts_of_not_mem (not_mem_append_decimal (by decide) n), hid, hslot]
  rfl

/-- The properties of a bridge. -/
theorem properties_pciBridge (n : Nat) :
    properties ("pcie-pci-bridge,id=br".toList ++ decimal n ++ ",bus=rp".toList ++ decimal n) =
      [("id".toList, "br" ++ decimal n), ("bus".toList, "rp" ++ decimal n)] := by
  have hvalue : "pcie-pci-bridge,id=br".toList ++ decimal n ++ ",bus=rp".toList ++ decimal n =
      "pcie-pci-bridge".toList ++ ',' ::
        ("id=br".toList ++ decimal n ++ ',' :: ("bus=rp".toList ++ decimal n)) := by
    simp only [List.append_assoc]
    rfl
  have hid : keyValue ("id=br".toList ++ decimal n) = ("id".toList, "br" ++ decimal n) :=
    @keyValue_decimal "id".toList "br".toList (by decide) n
  have hbus : keyValue ("bus=rp".toList ++ decimal n) = ("bus".toList, "rp" ++ decimal n) :=
    @keyValue_decimal "bus".toList "rp".toList (by decide) n
  rw [hvalue, properties_append (by decide), parts_append (not_mem_append_decimal (by decide) n),
    parts_of_not_mem (not_mem_append_decimal (by decide) n), hid, hbus]

/-- The properties of the switch device of a virtual machine. -/
theorem properties_rocker {ports : List Text} (h : ∀ p ∈ ports, ',' ∉ p) :
    properties ("rocker,name=sw1,len-ports=".toList ++ decimal ports.length ++
        ports.zipIdx.flatMap fun (p, count) ↦
          ",ports[".toList ++ decimal count ++ "]=".toList ++ p) =
      ("name".toList, "sw1".toList) :: ("len-ports".toList, decimal ports.length) ::
        ports.zipIdx.map fun (p, count) ↦ ("ports[".toList ++ decimal count ++ "]", p) := by
  have hvalue : "rocker,name=sw1,len-ports=".toList ++ decimal ports.length ++
      (ports.zipIdx.flatMap fun (p, count) ↦
        ",ports[".toList ++ decimal count ++ "]=".toList ++ p) =
      "rocker".toList ++ ',' :: ("name=sw1".toList ++ ',' ::
        ("len-ports=".toList ++ decimal ports.length ++ ports.zipIdx.flatMap fun x ↦
          ',' :: ("ports[".toList ++ decimal x.2 ++ "]=".toList ++ x.1))) := by
    simp only [List.append_assoc]
    rfl
  have hlength : ',' ∉ "len-ports=".toList ++ decimal ports.length := by
    rw [List.mem_append, not_or]
    exact ⟨by decide, not_mem_decimal (by decide) _⟩
  have hport : ∀ x ∈ ports.zipIdx, ',' ∉ "ports[".toList ++ decimal x.2 ++ "]=".toList ++ x.1 := by
    intro x hx
    simp only [List.mem_append, not_or]
    exact ⟨⟨⟨by decide, not_mem_decimal (by decide) _⟩, by decide⟩,
      h x.1 (List.fst_mem_of_mem_zipIdx hx)⟩
  have hkey (count : Nat) : '=' ∉ "ports[".toList ++ decimal count ++ "]".toList := by
    simp only [List.mem_append, not_or]
    exact ⟨⟨by decide, not_mem_decimal (by decide) _⟩, by decide⟩
  have hread (x : Text × Nat) : keyValue ("ports[".toList ++ decimal x.2 ++ "]=".toList ++ x.1) =
      ("ports[".toList ++ decimal x.2 ++ "]".toList, x.1) := by
    have hsplit : "ports[".toList ++ decimal x.2 ++ "]=".toList ++ x.1 =
        ("ports[".toList ++ decimal x.2 ++ "]".toList) ++ '=' :: x.1 := by
      simp only [List.append_assoc]
      rfl
    rw [hsplit, keyValue_eq (hkey x.2)]
  have hlen : keyValue ("len-ports=".toList ++ decimal ports.length) =
      ("len-ports".toList, decimal ports.length) :=
    @keyValue_eq "len-ports".toList (by decide) _
  rw [hvalue, properties_append (by decide), parts_append (by decide), parts_flatMap hlength hport,
    hlen]
  simp only [hread]
  rfl

end NetworkLab.LabSetup
