import NetworkLab.Lib.Limbs

/-!
# Machine words and IPv6 addresses of kbench

The C types of `lab-routes-ipv6/2026/kbench_mod.c` on x86-64: `u32` is `UInt32`,
`unsigned long` and `unsigned long long` are `UInt64`, and memory is little-endian,
so `ntohl` and `htonl` both reverse the four bytes of a word.
-/

namespace NetworkLab.Kbench

open Lib

/-- `ntohl` on a little-endian machine: the byte reversal of a word. -/
def ntohl (x : UInt32) : UInt32 :=
  UInt32.ofNat (x.toNat % 256 * 2 ^ 24 + x.toNat / 2 ^ 8 % 256 * 2 ^ 16 +
    x.toNat / 2 ^ 16 % 256 * 2 ^ 8 + x.toNat / 2 ^ 24)

/-- `htonl` on a little-endian machine is the same reversal. -/
def htonl (x : UInt32) : UInt32 := ntohl x

private theorem toNat_ntohl (x : UInt32) :
    (ntohl x).toNat = x.toNat % 256 * 2 ^ 24 + x.toNat / 2 ^ 8 % 256 * 2 ^ 16 +
      x.toNat / 2 ^ 16 % 256 * 2 ^ 8 + x.toNat / 2 ^ 24 := by
  have hx := x.toNat_lt
  rw [ntohl, UInt32.toNat_ofNat']
  apply Nat.mod_eq_of_lt
  omega

-- The reversal on bytes known to be bytes; `omega` needs them apart from the word.
private theorem reverse_bytes (b0 b1 b2 b3 : Nat) (h0 : b0 < 256) (h1 : b1 < 256)
    (h2 : b2 < 256) :
    let n := b3 * 2 ^ 24 + b2 * 2 ^ 16 + b1 * 2 ^ 8 + b0
    n % 256 = b0 ∧ n / 2 ^ 8 % 256 = b1 ∧ n / 2 ^ 16 % 256 = b2 ∧ n / 2 ^ 24 = b3 := by
  intro n
  refine ⟨?_, ?_, ?_, ?_⟩ <;> omega

/-- Reversing the bytes twice restores the word. -/
@[simp] theorem ntohl_htonl (x : UInt32) : ntohl (htonl x) = x := by
  apply UInt32.toNat_inj.mp
  have hx := x.toNat_lt
  obtain ⟨h0, h1, h2, h3⟩ := reverse_bytes (x.toNat / 2 ^ 24) (x.toNat / 2 ^ 16 % 256)
    (x.toNat / 2 ^ 8 % 256) (x.toNat % 256) (by omega) (by omega) (by omega)
  rw [htonl, toNat_ntohl, toNat_ntohl, h0, h1, h2, h3]
  clear h0 h1 h2 h3
  omega

/-- The two conversions are the same, so they also cancel the other way round. -/
@[simp] theorem htonl_ntohl (x : UInt32) : htonl (ntohl x) = x := ntohl_htonl x

/-- Zero reads the same in either order. -/
@[simp] theorem ntohl_zero : ntohl 0 = 0 := by decide

/-- `ULONG_MAX`, the largest `unsigned long`. -/
def ulongMax : UInt64 := 0xffffffffffffffff

/-- No 64-bit value exceeds `ULONG_MAX`. -/
@[simp] theorem not_ulongMax_lt (x : UInt64) : ¬ ulongMax < x := by
  have hx := x.toNat_lt
  rw [UInt64.lt_iff_toNat_lt]
  change ¬ 18446744073709551615 < x.toNat
  omega

/-- One step of the generator, `lab-routes-ipv6/2026/kbench_mod.c:117–120`. -/
def lcg32 (cur : UInt64) : UInt64 := cur * 1664525 + 1013904223

/-- `struct in6_addr` through its `s6_addr32` view: four words in network byte order,
most significant first. -/
structure In6Addr where
  s6Addr32 : List UInt32
  length_eq : s6Addr32.length = 4
  deriving DecidableEq

/-- The limbs of an address in host byte order, as numbers. -/
def hostLimbs (words : List UInt32) : List Nat := words.map (fun w ↦ (ntohl w).toNat)

@[simp] theorem hostLimbs_nil : hostLimbs [] = [] := rfl

@[simp] theorem hostLimbs_cons (w : UInt32) (ws : List UInt32) :
    hostLimbs (w :: ws) = (ntohl w).toNat :: hostLimbs ws := rfl

@[simp] theorem length_hostLimbs (ws : List UInt32) : (hostLimbs ws).length = ws.length := by
  simp [hostLimbs]

/-- Host limbs are 32-bit digits. -/
theorem bounded_hostLimbs (ws : List UInt32) : Limbs.Bounded (2 ^ 32) (hostLimbs ws) := by
  intro x hx
  obtain ⟨w, _, rfl⟩ := List.mem_map.mp hx
  exact (ntohl w).toNat_lt

namespace In6Addr

/-- The address read as a 128-bit integer. -/
def toNat (a : In6Addr) : Nat := Limbs.value (2 ^ 32) (hostLimbs a.s6Addr32)

/-- The address with the given host-order limbs. -/
def ofHost (w0 w1 w2 w3 : UInt32) : In6Addr :=
  ⟨[htonl w0, htonl w1, htonl w2, htonl w3], rfl⟩

end In6Addr
end NetworkLab.Kbench
