import NetworkLab.Lib.Dict

/-!
# Plugs and the IOU header

`Plug` and `IOUPlugBase.send` of `lab-iou/iou2vde.py:58–93` and `:275–297`, and the header
as `IOUPlugBase._reader` takes it apart, `:238–257`. A parsed number is never negative.
-/

namespace NetworkLab.Iou

/-- The triple that identifies a plug, `:58–93`. -/
structure Plug where
  inst : Nat
  major : Nat
  minor : Nat
  deriving DecidableEq, Repr

/-- `MTU`, `:55`. -/
def mtu : Nat := 1580

/-- The size of the header, `:238–239`. -/
def headerSize : Nat := 8

/-! ### Packing -/

/-- The format `H`: two bytes, most significant first, or `struct.error`. -/
def packH (n : Nat) : Option (List UInt8) :=
  if n < 65536 then some [UInt8.ofNat (n / 256), UInt8.ofNat (n % 256)] else none

/-- The format `B`: one byte, or `struct.error`. -/
def packB (n : Nat) : Option (List UInt8) :=
  if n < 256 then some [UInt8.ofNat n] else none

/-- The interface number of a plug in a header. -/
def Plug.iface (p : Plug) : Nat := p.minor <<< 4 ||| p.major

/-- The header from `source` to a plug, `:285–290`. -/
def packHeader (destination source : Plug) : Option (List UInt8) := do
  let dinstance ← packH destination.inst
  let sinstance ← packH source.inst
  let diface ← packB destination.iface
  let siface ← packB source.iface
  return dinstance ++ sinstance ++ diface ++ siface ++ [0x01, 0x00]

/-- A datagram and the instance to whose socket it goes. -/
structure Datagram where
  inst : Nat
  bytes : List UInt8
  deriving DecidableEq

/-- `IOUPlugBase.send`, `:275–297`: `none` where it raises. An error of the socket is
caught and only logged. -/
def Plug.send (self source : Plug) (buffer : List UInt8) : Option Datagram :=
  (packHeader self source).map fun header ↦ { inst := self.inst, bytes := header ++ buffer }

/-! ### Unpacking -/

/-- The fields of a header, `:245–246`. -/
structure Header where
  dinstance : Nat
  sinstance : Nat
  diface : Nat
  siface : Nat
  m1 : UInt8
  m2 : UInt8
  deriving DecidableEq

/-- `struct.unpack` with the header format; `none` for another length. -/
def unpackHeader : List UInt8 → Option Header
  | [a, b, c, d, diface, siface, m1, m2] =>
    some ⟨a.toNat * 256 + b.toNat, c.toNat * 256 + d.toNat, diface.toNat, siface.toNat, m1, m2⟩
  | _ => none

/-- The plug an interface number stands for, `:251–257`. -/
def ifacePlug (inst iface : Nat) : Plug :=
  { inst, major := iface &&& 0xf, minor := (iface >>> 4) &&& 0xf }

/-- The destination of a header. -/
def Header.destination (h : Header) : Plug := ifacePlug h.dinstance h.diface

/-- The source of a header. -/
def Header.source (h : Header) : Plug := ifacePlug h.sinstance h.siface

/-! ### What the two ends make of a plug -/

/-- A plug whose numbers can be packed. -/
def Plug.Packs (p : Plug) : Prop := p.inst < 65536 ∧ p.iface < 256

/-- A plug whose numbers survive the header. -/
def Plug.Fits (p : Plug) : Prop := p.inst < 65536 ∧ p.major < 16 ∧ p.minor < 16

instance (p : Plug) : Decidable p.Packs :=
  inferInstanceAs (Decidable (p.inst < 65536 ∧ p.iface < 256))

instance (p : Plug) : Decidable p.Fits :=
  inferInstanceAs (Decidable (p.inst < 65536 ∧ p.major < 16 ∧ p.minor < 16))

/-- An interface number fits a byte if the minor has four bits and the major eight. -/
theorem iface_lt_iff (p : Plug) : p.iface < 256 ↔ p.minor < 16 ∧ p.major < 256 := by
  have hshift : p.minor <<< 4 = p.minor * 16 := Nat.shiftLeft_eq p.minor 4
  have hleft : p.minor * 16 ≤ p.iface := hshift ▸ Nat.left_le_or
  have hright : p.major ≤ p.iface := Nat.right_le_or
  constructor
  · intro h
    omega
  · intro ⟨hminor, hmajor⟩
    exact Nat.or_lt_two_pow (n := 8) (by rw [hshift]; omega) hmajor

/-- A plug that fits reads back from its interface number, and no other does. -/
theorem ifacePlug_iface_eq_iff (p : Plug) :
    ifacePlug p.inst p.iface = p ↔ p.major < 16 ∧ p.minor < 16 := by
  have hmajor (n : Nat) : n &&& 0xf = n % 16 := Nat.and_two_pow_sub_one_eq_mod n 4
  have hminor (n : Nat) : n >>> 4 = n / 16 := Nat.shiftRight_eq_div_pow n 4
  constructor
  · intro h
    have h1 := congrArg Plug.major h
    have h2 := congrArg Plug.minor h
    simp only [ifacePlug, hmajor] at h1 h2
    omega
  · intro ⟨h1, h2⟩
    have hiface : p.iface = p.minor * 16 + p.major := by
      unfold Plug.iface
      rw [← Nat.shiftLeft_add_eq_or_of_lt (i := 4) h1, Nat.shiftLeft_eq]
    obtain ⟨inst, major, minor⟩ := p
    simp only [ifacePlug, hmajor, hminor, hiface, Plug.mk.injEq, true_and]
    dsimp only at h1 h2
    omega

/-- Sending raises exactly for numbers that cannot be packed. -/
theorem send_isSome_iff (w v : Plug) (buffer : List UInt8) :
    (w.send v buffer).isSome ↔ w.Packs ∧ v.Packs := by
  unfold Plug.send packHeader packH packB Plug.Packs
  by_cases h1 : w.inst < 65536 <;> by_cases h2 : v.inst < 65536 <;>
    by_cases h3 : w.iface < 256 <;> by_cases h4 : v.iface < 256 <;> simp [h1, h2, h3, h4]

end NetworkLab.Iou
