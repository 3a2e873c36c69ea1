import NetworkLab.Exabgp.Healthcheck
import NetworkLab.Lib.PyText
import Mathlib.Data.List.Dedup
import Mathlib.Algebra.Order.Ring.Nat

/-!
# The addresses of the loopback interface

`loopback_ips` and `setup_ips` from `lab-exabgp/healthcheck.py:181–215`, on Linux. What `ip -o
address show dev lo` prints is given line by line; an address that is added stays on `lo`.
-/

namespace NetworkLab.Exabgp

open Lib

/-! ### Reading an address -/

/-- What `loopback_ips` and `setup_ips` raise. -/
inductive SetupError where
  | valueError
  | runtimeError
  | calledProcessError
  deriving DecidableEq

/-- An octet of `ipaddress`: up to three ASCII digits, no leading zero, at most 255. -/
def octet? (s : List Char) : Option Nat :=
  if s = [] ∨ s.length > 3 ∨ s.any (fun c ↦ !c.isDigit) ∨ (s.head? = some '0' ∧ s.length ≠ 1) then
    none
  else
    let n := PyText.digitsValue (s.map fun c ↦ c.toNat - 48)
    if n ≤ 255 then some n else none

/-- The dotted form of `ipaddress`. -/
def ipv4? (s : List Char) : Option (BitVec 32) :=
  match (PyText.split '.' s).mapM octet? with
  | some [a, b, c, d] => some (BitVec.ofNat 32 (((a * 256 + b) * 256 + c) * 256 + d))
  | _ => none

/-- A group of `ipaddress`: up to four hexadecimal digits. -/
def hextet? (s : List Char) : Option Nat :=
  if s = [] ∨ s.length > 4 then none
  else (s.mapM fun c ↦ if c.toNat < 128 then PyText.hexDigit? c else none).map
    (·.foldl (fun n d ↦ 16 * n + d) 0)

/-- The groups of an address, where a dotted suffix stands for two. -/
def hextets? (parts : List (List Char)) : Option (List Nat) :=
  match parts.getLast? with
  | some last =>
    if '.' ∈ last then do
      let suffix ← ipv4? last
      let groups ← parts.dropLast.mapM hextet?
      return groups ++ [suffix.toNat / 65536, suffix.toNat % 65536]
    else parts.mapM hextet?
  | none => some []

/-- The side of a `::` at an end of the text is one empty part and has no group. -/
def sideParts (parts : List (List Char)) : List (List Char) := if parts = [[]] then [] else parts

/-- The form of `ipaddress` with colons: eight groups, or fewer around one `::`, which is the
only empty part behind the first one and before the last one. -/
def ipv6? (s : List Char) : Option (BitVec 128) :=
  let parts := PyText.split ':' s
  let value := fun groups : List Nat ↦ BitVec.ofNat 128 (groups.foldl (fun n g ↦ 65536 * n + g) 0)
  if parts.length < 3 then none
  else match (parts.drop 1).dropLast.findIdx? (· = []) with
    | none => do
      let groups ← hextets? parts
      if groups.length = 8 then some (value groups) else none
    | some i => do
      let hi ← (sideParts (parts.take (i + 1))).mapM hextet?
      let lo ← hextets? (sideParts (parts.drop (i + 2)))
      if hi.length + lo.length < 8 then
        some (value (hi ++ List.replicate (8 - hi.length - lo.length) 0 ++ lo))
      else none

/-- `ip_address` of a text without a scope, `none` where it raises `ValueError`. -/
def ipAddress? (s : List Char) : Option IpAddress :=
  match ipv4? s with
  | some a => some (.v4 a)
  | none => (ipv6? s).map .v6

/-- `is_loopback`: `127.0.0.0/8` and `::1`. -/
def IpAddress.isLoopback : IpAddress → Bool
  | .v4 a => a.toNat / 2 ^ 24 == 127
  | .v6 a => a == 1

/-! ### `loopback_ips` -/

/-- `decode("ascii", "ignore")`. -/
def decodeAscii (bytes : List UInt8) : List Char :=
  (bytes.filter (· < 128)).map fun b ↦ Char.ofNat b.toNat

/-- A repeated class of a regular expression: the characters it takes and what follows. -/
def many1 (p : Char → Bool) (s : List Char) : Option (List Char × List Char) :=
  if s.takeWhile p = [] then none else some (s.takeWhile p, s.dropWhile p)

/-- The class of an address, `:188`. -/
def isAddressChar (c : Char) : Bool :=
  (PyText.decimal? c).isSome || ('a' ≤ c && c ≤ 'f') || c == '.' || c == ':'

/-- The group `ip` of `ipre`, `:188`, where the expression matches. What follows a repeated class
is never in it, so the match never backs up. -/
def matchIp (line : List Char) : Option (List Char) := do
  let (_, s) ← PyText.matchDigits line
  let s ← s.dropPrefix? [':']
  let (_, s) ← many1 PyText.isSpace s
  let (_, s) ← many1 (fun c ↦ !PyText.isSpace c) s
  let (_, s) ← many1 PyText.isSpace s
  let s ← s.dropPrefix? ['i', 'n', 'e', 't']
  let (_, s) ← many1 PyText.isSpace ((s.dropPrefix? ['6']).getD s)
  let (ip, s) ← many1 isAddressChar s
  let s ← s.dropPrefix? ['/']
  let (_, s) ← PyText.matchDigits s
  let _ ← many1 PyText.isSpace s
  return ip

/-- The group `ip` of a line of the output, `:195–196`. -/
def lineIp (line : List UInt8) : Option (List Char) := matchIp (PyText.strip (decodeAscii line))

/-- The loop over the lines, `:194–201`. -/
def readAddresses : List (List UInt8) → Except SetupError (List IpAddress)
  | [] => .ok []
  | line :: lines =>
    match lineIp line with
    | none => readAddresses lines
    | some field =>
      match ipAddress? field with
      | none => .error .valueError
      | some ip => do
        let addresses ← readAddresses lines
        return if ip.isLoopback then addresses else ip :: addresses

/-- `loopback_ips`, `:181–205`. -/
def loopbackIps (lines : List (List UInt8)) : Except SetupError (List IpAddress) := do
  let addresses ← readAddresses lines
  if addresses = [] then throw .runtimeError
  return addresses

/-! ### `setup_ips` -/

/-- An address on `lo` with the line that `ip -o address show` prints for it: an expression that
matches the line finds that address. It matches unless the address has a peer. -/
structure AddressLine where
  ip : IpAddress
  line : List UInt8
  reads : ∀ field, lineIp line = some field → ipAddress? field = some ip

/-- A line that reads as an address. -/
def AddressLine.ofLine {ip : IpAddress} {line : List UInt8}
    (h : (lineIp line).bind ipAddress? = some ip) : AddressLine where
  ip := ip
  line := line
  reads field hfield := by rwa [hfield] at h

/-- Whether `loopback_ips` returns the address: it has no peer and is in no loopback range. -/
def AddressLine.isKept (a : AddressLine) : Bool := (lineIp a.line).isSome && !a.ip.isLoopback

/-- The addresses of `lo` that `loopback_ips` returns. -/
def keptIps (lo : List AddressLine) : List IpAddress := (lo.filter (·.isKept)).map (·.ip)

/-- Membership in the addresses that are kept. -/
theorem mem_keptIps {lo : List AddressLine} {ip : IpAddress} :
    ip ∈ keptIps lo ↔ ∃ a ∈ lo, a.isKept = true ∧ a.ip = ip := by
  simp only [keptIps, List.mem_map, List.mem_filter, and_assoc]

/-- Reading goes through all the lines. -/
theorem readAddresses_lines (lo : List AddressLine) :
    readAddresses (lo.map (·.line)) = .ok (keptIps lo) := by
  induction lo with
  | nil => rfl
  | cons a lo ih =>
    rw [List.map_cons, readAddresses, ih]
    cases hfield : lineIp a.line with
    | none =>
      have hkept : a.isKept = false := by simp [AddressLine.isKept, hfield]
      simp only [keptIps, List.filter_cons, hkept, Bool.false_eq_true, if_false]
    | some field =>
      simp only [a.reads field hfield]
      have hkept : a.isKept = !a.ip.isLoopback := by simp [AddressLine.isKept, hfield]
      cases hloop : a.ip.isLoopback with
      | true =>
        rw [hloop] at hkept
        simp [keptIps, hkept, pure, Except.pure, bind, Except.bind]
      | false =>
        rw [hloop] at hkept
        simp [keptIps, hkept, pure, Except.pure, bind, Except.bind]

/-- `loopback_ips` raises when it keeps no address. -/
theorem loopbackIps_lines (lo : List AddressLine) :
    loopbackIps (lo.map (·.line)) =
      if keptIps lo = [] then .error .runtimeError else .ok (keptIps lo) := by
  unfold loopbackIps
  rw [readAddresses_lines]
  by_cases h : keptIps lo = []
  · rw [if_pos h]
    simp [h, bind, Except.bind, throw, throwThe, MonadExceptOf.throw]
  · rw [if_neg h]
    simp [h, bind, Except.bind, pure, Except.pure]

/-- The order in which a set is gone through. -/
structure SetOrder where
  arrange : List IpAddress → List IpAddress
  perm : ∀ l, (arrange l).Perm l

/-- What a run of `setup_ips` leaves: the addresses it gave to `ip address add`, those on `lo`
and the exception that it ended with. -/
structure Setup where
  commands : List IpAddress
  onLo : List IpAddress
  raised : Option SetupError

/-- The loop of `setup_ips`, `:211–215`. An address that is not on `lo` is added; `readd` tells
whether the command also succeeds for one that is there. -/
def addIps (readd : IpAddress → Bool) (onLo : List IpAddress) : List IpAddress → Setup
  | [] => ⟨[], onLo, none⟩
  | ip :: toadd =>
    if ip ∈ onLo ∧ readd ip = false then ⟨[ip], onLo, some .calledProcessError⟩
    else
      let rest := addIps readd (ip :: onLo) toadd
      { rest with commands := ip :: rest.commands }

/-- `setup_ips`, `:207–215`. -/
def setupIps (order : SetOrder) (readd : IpAddress → Bool) (lo : List AddressLine)
    (ips : List IpAddress) : Setup :=
  match loopbackIps (lo.map (·.line)) with
  | .error e => ⟨[], lo.map (·.ip), some e⟩
  | .ok existing =>
    addIps readd (lo.map (·.ip)) (order.arrange (ips.dedup.filter (· ∉ existing)))

/-- Addresses that are not on `lo` are added one after the other. -/
theorem addIps_missing {readd : IpAddress → Bool} {toadd : List IpAddress} (hnodup : toadd.Nodup)
    {onLo : List IpAddress} (hmissing : ∀ ip ∈ toadd, ip ∉ onLo) :
    addIps readd onLo toadd = ⟨toadd, toadd.reverse ++ onLo, none⟩ := by
  induction toadd generalizing onLo with
  | nil => rfl
  | cons ip toadd ih =>
    obtain ⟨hip, hrest⟩ := List.forall_mem_cons.mp hmissing
    obtain ⟨hnot, hnodup⟩ := List.nodup_cons.mp hnodup
    have hmissing' : ∀ i ∈ toadd, i ∉ ip :: onLo := by
      intro i hi hmem
      rcases List.mem_cons.mp hmem with rfl | hmem
      · exact hnot hi
      · exact hrest i hi hmem
    rw [addIps, if_neg (fun h ↦ hip h.1), ih hnodup hmissing']
    simp

/-- A loop that ends without an exception has given every address to the command. -/
theorem addIps_commands {readd : IpAddress → Bool} {toadd onLo : List IpAddress}
    (h : (addIps readd onLo toadd).raised = none) :
    (addIps readd onLo toadd).commands = toadd := by
  induction toadd generalizing onLo with
  | nil => rfl
  | cons ip toadd ih =>
    rw [addIps] at h ⊢
    by_cases hfails : ip ∈ onLo ∧ readd ip = false
    · rw [if_pos hfails] at h
      exact nomatch h
    · rw [if_neg hfails] at h ⊢
      exact congrArg (ip :: ·) (ih h)

/-- The set of addresses to add, `:210`. -/
theorem mem_toadd {order : SetOrder} {ips existing : List IpAddress} {ip : IpAddress} :
    ip ∈ order.arrange (ips.dedup.filter (· ∉ existing)) ↔ ip ∈ ips ∧ ip ∉ existing := by
  rw [(order.perm _).mem_iff]
  simp

private theorem nodup_toadd (order : SetOrder) (ips existing : List IpAddress) :
    (order.arrange (ips.dedup.filter (· ∉ existing))).Nodup :=
  (order.perm _).nodup_iff.mpr ((List.nodup_dedup ips).filter _)

/-- What is asked of `setup_ips`: it ends without an exception, gives each configured address that
is not on `lo` to `ip address add` once and no other, and leaves all of them on `lo`. -/
structure ConfiguresMissing (lo ips : List IpAddress) (r : Setup) : Prop where
  finishes : r.raised = none
  addsMissing : ∀ ip, r.commands.count ip = if ip ∈ ips ∧ ip ∉ lo then 1 else 0
  allOnLo : ∀ ip ∈ ips, ip ∈ r.onLo

private theorem setupIps_of_kept {order : SetOrder} {readd : IpAddress → Bool}
    {lo : List AddressLine} (hkept : keptIps lo ≠ []) (ips : List IpAddress) :
    setupIps order readd lo ips = addIps readd (lo.map (·.ip))
      (order.arrange (ips.dedup.filter (· ∉ keptIps lo))) := by
  unfold setupIps
  rw [loopbackIps_lines, if_neg hkept]

private theorem keptIps_subset {lo : List AddressLine} {ip : IpAddress} (h : ip ∈ keptIps lo) :
    ip ∈ lo.map (·.ip) := by
  obtain ⟨a, ha, -, rfl⟩ := mem_keptIps.mp h
  exact List.mem_map_of_mem ha

/-- `setup_ips` adds what is missing if and only if `loopback_ips` keeps some address and also
each configured address that is already on `lo`. -/
theorem setupIps_configuresMissing_iff (order : SetOrder) (readd : IpAddress → Bool)
    (lo : List AddressLine) (ips : List IpAddress) :
    ConfiguresMissing (lo.map (·.ip)) ips (setupIps order readd lo ips) ↔
      (∃ a ∈ lo, a.isKept = true) ∧
        ∀ ip ∈ ips, ip ∈ lo.map (·.ip) → ∃ a ∈ lo, a.isKept = true ∧ a.ip = ip := by
  constructor
  · intro h
    have hkept : keptIps lo ≠ [] := by
      intro hnil
      have hraised := h.finishes
      rw [setupIps, loopbackIps_lines, if_pos hnil] at hraised
      exact nomatch hraised
    refine ⟨?_, fun ip hip hlo ↦ ?_⟩
    · obtain ⟨ip, hip⟩ := List.exists_mem_of_ne_nil _ hkept
      obtain ⟨a, ha, hak, -⟩ := mem_keptIps.mp hip
      exact ⟨a, ha, hak⟩
    · rw [← mem_keptIps]
      by_contra hnot
      have hcount := h.addsMissing ip
      have hraised := h.finishes
      rw [setupIps_of_kept hkept] at hcount hraised
      rw [addIps_commands hraised, if_neg (fun hm ↦ hm.2 hlo), List.count_eq_zero] at hcount
      exact hcount (mem_toadd.mpr ⟨hip, hnot⟩)
  · rintro ⟨⟨a, ha, hak⟩, hpresent⟩
    have hkept : keptIps lo ≠ [] := List.ne_nil_of_mem (mem_keptIps.mpr ⟨a, ha, hak, rfl⟩)
    have hmissing : ∀ ip ∈ order.arrange (ips.dedup.filter (· ∉ keptIps lo)),
        ip ∉ lo.map (·.ip) := by
      intro ip hip hlo
      obtain ⟨hips, hnot⟩ := mem_toadd.mp hip
      exact hnot (mem_keptIps.mpr (hpresent ip hips hlo))
    rw [setupIps_of_kept hkept, addIps_missing (nodup_toadd order ips _) hmissing]
    refine ⟨rfl, fun ip ↦ ?_, fun ip hip ↦ ?_⟩
    · rw [(nodup_toadd order ips _).count]
      refine if_congr (mem_toadd.trans (and_congr_right fun hips ↦ not_congr ?_)) rfl rfl
      exact ⟨keptIps_subset, fun hlo ↦ mem_keptIps.mpr (hpresent ip hips hlo)⟩
    · by_cases hlo : ip ∈ keptIps lo
      · exact List.mem_append_right _ (keptIps_subset hlo)
      · exact List.mem_append_left _ (List.mem_reverse.mpr (mem_toadd.mpr ⟨hip, hlo⟩))

/-- The line of `127.0.0.1`. -/
def loLine4 : List UInt8 :=
  "1: lo    inet 127.0.0.1/8 scope host lo\\       valid_lft forever\n".toList.map
    (·.toNat.toUInt8)

/-- The line of `::1`. -/
def loLine6 : List UInt8 :=
  "1: lo    inet6 ::1/128 scope host \\       valid_lft forever\n".toList.map (·.toNat.toUInt8)

/-- `lo` before anything has been set up. -/
def freshLo : List AddressLine :=
  [.ofLine (show (lineIp loLine4).bind ipAddress? = some (.v4 0x7f000001) by decide),
    .ofLine (show (lineIp loLine6).bind ipAddress? = some (.v6 1) by decide)]

/-- Nothing can be added there: `loopback_ips` keeps neither address and raises. -/
theorem freshLo_not_configuresMissing :
    ¬ ∀ (order : SetOrder) (readd : IpAddress → Bool) (lo : List AddressLine)
      (ips : List IpAddress),
      ConfiguresMissing (lo.map (·.ip)) ips (setupIps order readd lo ips) := by
  intro h
  have hraised : (setupIps ⟨id, fun l ↦ .refl l⟩ (fun _ ↦ false) freshLo
      [.v4 0xc0000201#32]).raised = some .runtimeError := by
    rw [setupIps, loopbackIps_lines, if_pos (by decide)]
  rw [(h _ _ _ _).finishes] at hraised
  exact nomatch hraised

end NetworkLab.Exabgp
