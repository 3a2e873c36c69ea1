import NetworkLab.Kbench.Ipv6.ScanRange

/-!
# The scan increment as a quotient

The set-up of `delta` in `lab-routes-ipv6/2026/kbench_mod.c:251–281`, the same as
`lab-routes-ipv6/kbench_mod.c:232–262`. A limb that borrows is stored negated, as
`start + carry - end`, where the limb of the difference is `2 ^ 32` minus that. The division
after it is exact.
-/

namespace NetworkLab.Kbench.Ipv6

open Lib

/-! ### The stored difference -/

/-- The limb that the subtraction loop stores for a limb of each address. -/
def storedLimb (s e carry : Nat) : Nat :=
  if s + carry ≤ e then e - s - carry else (s + carry - e) % 2 ^ 32

/-- The limbs that the subtraction loop stores. -/
def storedLimbs : List Nat → List Nat → List Nat
  | s :: ss, e :: es => storedLimb s e (Limbs.borrow (2 ^ 32) es ss) :: storedLimbs ss es
  | _, _ => []

private theorem negated_limb (a b : UInt32) (c : UInt64) (hc : c.toNat ≤ 1)
    (h : b.toNat < a.toNat + c.toNat) :
    (a.toUInt64 + c - b.toUInt64).toUInt32.toNat = (a.toNat + c.toNat - b.toNat) % 2 ^ 32 := by
  have ha := a.toNat_lt
  have hsum : (a.toUInt64 + c).toNat = a.toNat + c.toNat := by
    rw [UInt64.toNat_add, UInt32.toNat_toUInt64, Nat.mod_eq_of_lt (by omega)]
  have hle : b.toUInt64 ≤ a.toUInt64 + c := by
    rw [UInt64.le_iff_toNat_le, hsum, UInt32.toNat_toUInt64]
    omega
  rw [UInt64.toNat_toUInt32, UInt64.toNat_sub_of_le _ _ hle, hsum, UInt32.toNat_toUInt64]

/-- The subtraction loop on numbers. -/
theorem limbNats_subtractLimbs {ss es : List UInt32} (hl : ss.length = es.length) :
    limbNats (subtractLimbs ss es).1 = storedLimbs (hostLimbs ss) (hostLimbs es) := by
  induction ss generalizing es with
  | nil => simp [subtractLimbs, storedLimbs, limbNats]
  | cons s ss ih =>
    cases es with
    | nil => simp at hl
    | cons e es =>
      have hl' : ss.length = es.length := by simpa using hl
      have hflag := subtractLimbs_carry_le hl'
      have hcarry : (subtractLimbs ss es).2.toNat =
          Limbs.borrow (2 ^ 32) (hostLimbs es) (hostLimbs ss) := by
        rw [subtractLimbs_carry hl', Limbs.borrow]
        split <;> rfl
      rw [hostLimbs_cons, hostLimbs_cons, storedLimbs, ← ih hl', ← hcarry, storedLimb]
      simp only [subtractLimbs, add_flag_le _ _ _ hflag]
      split
      · next h => rw [limbNats_cons, sub_flag _ _ _ h]
      · next h => rw [limbNats_cons, negated_limb _ _ _ hflag (Nat.not_le.mp h)]

/-- A limb that does not borrow is stored as it is, and so is one that is its own negation. -/
def KeptLimb (s e carry : Nat) : Prop :=
  s + carry ≤ e ∨ s + carry = e + 2 ^ 31 ∨ s + carry = e + 2 ^ 32

/-- Every limb of `end - start` above the last one is stored as it is. -/
def KeepsUpperLimbs : List Nat → List Nat → Prop
  | s :: ss, e :: es =>
    (ss = [] ∨ KeptLimb s e (Limbs.borrow (2 ^ 32) es ss)) ∧ KeepsUpperLimbs ss es
  | _, _ => True

private theorem storedLimb_of_kept {s e c : Nat} (hs : s < 2 ^ 32) (he : e < 2 ^ 32)
    (h : KeptLimb s e c) : storedLimb s e c = (e + 2 ^ 32 - s - c) % 2 ^ 32 := by
  unfold KeptLimb at h
  unfold storedLimb
  split <;> omega

private theorem storedLimb_of_not_kept {s e c : Nat} (hs : s < 2 ^ 32) (he : e < 2 ^ 32)
    (hc : c ≤ 1) (h : ¬ KeptLimb s e c) :
    (storedLimb s e c + 2 ≤ (e + 2 ^ 32 - s - c) % 2 ^ 32 ∨
      (e + 2 ^ 32 - s - c) % 2 ^ 32 + 2 ≤ storedLimb s e c) ∧
    1 ≤ storedLimb s e c ∧ 1 ≤ (e + 2 ^ 32 - s - c) % 2 ^ 32 := by
  unfold KeptLimb at h
  unfold storedLimb
  split <;> omega

private theorem bounded_storedLimbs {ss es : List Nat} (he : Limbs.Bounded (2 ^ 32) es) :
    Limbs.Bounded (2 ^ 32) (storedLimbs ss es) := by
  induction ss generalizing es with
  | nil => simp [storedLimbs]
  | cons s ss ih =>
    cases es with
    | nil => simp [storedLimbs]
    | cons e es =>
      obtain ⟨hb, hes⟩ := Limbs.bounded_cons.mp he
      refine Limbs.bounded_cons.mpr ⟨?_, ih hes⟩
      unfold storedLimb
      split <;> omega

private theorem length_storedLimbs {ss es : List Nat} (hl : ss.length = es.length) :
    (storedLimbs ss es).length = ss.length := by
  induction ss generalizing es with
  | nil => rfl
  | cons s ss ih =>
    cases es with
    | nil => simp at hl
    | cons e es => rw [storedLimbs, List.length_cons, ih (by simpa using hl), List.length_cons]

/-- Two numbers more than `2 ^ 32` apart, neither of them below `2 ^ 32`. -/
private def Apart (m n : Nat) : Prop :=
  (m + 2 ^ 32 < n ∨ n + 2 ^ 32 < m) ∧ 2 ^ 32 ≤ m ∧ 2 ^ 32 ≤ n

/-- No divisor below `2 ^ 32` takes such numbers to one quotient. -/
private theorem quotients_ne {d m n : Nat} (hpos : 0 < d) (hd : d < 2 ^ 32) (h : Apart m n) :
    max 1 (m / d) ≠ max 1 (n / d) := by
  have hquotient {a c : Nat} (ha : 2 ^ 32 ≤ a) (hc : a + 2 ^ 32 < c) :
      1 ≤ a / d ∧ a / d + 1 ≤ c / d := by
    refine ⟨(Nat.one_le_div_iff hpos).mpr (by omega), ?_⟩
    rw [← Nat.add_div_right a hpos]
    exact Nat.div_le_div_right (by omega)
  obtain ⟨hgap | hgap, hm, hn⟩ := h
  · have hq := hquotient hm hgap
    omega
  · have hq := hquotient hn hgap
    omega

/-- A limb above the last one that is not stored as it is moves the number by more than any
count below `2 ^ 32`. -/
private theorem apart_of_not_keepsUpperLimbs {ss es : List Nat} (hl : ss.length = es.length)
    (hs : Limbs.Bounded (2 ^ 32) ss) (he : Limbs.Bounded (2 ^ 32) es)
    (h : ¬ KeepsUpperLimbs ss es) :
    Apart (Limbs.value (2 ^ 32) (storedLimbs ss es))
      (Limbs.value (2 ^ 32) (Limbs.subtract (2 ^ 32) es ss)) := by
  induction ss generalizing es with
  | nil => exact absurd trivial h
  | cons s ss ih =>
    cases es with
    | nil => exact absurd trivial h
    | cons e es =>
      have hl' : ss.length = es.length := by simpa using hl
      obtain ⟨hsb, hss⟩ := Limbs.bounded_cons.mp hs
      obtain ⟨heb, hes⟩ := Limbs.bounded_cons.mp he
      have hbounded : Limbs.Bounded (2 ^ 32) (storedLimbs ss es) := bounded_storedLimbs hes
      have hstored := Limbs.value_lt hbounded
      have hexact := Limbs.value_lt (Limbs.bounded_subtract (b := 2 ^ 32) (by decide) es ss)
      have ih := ih hl' hss hes
      rw [length_storedLimbs hl'] at hstored
      rw [Limbs.length_subtract hl'.symm, ← hl'] at hexact
      rw [storedLimbs, Limbs.subtract, Limbs.value_cons, Limbs.value_cons, length_storedLimbs hl',
        Limbs.length_subtract hl'.symm, ← hl']
      have hlower : ss = [] ∨ 2 ^ 32 ≤ (2 ^ 32) ^ ss.length := by
        cases ss with
        | nil => exact Or.inl rfl
        | cons t ss => exact Or.inr (Nat.le_self_pow (by simp) _)
      generalize (2 ^ 32) ^ ss.length = B at *
      by_cases hkept : ss = [] ∨ KeptLimb s e (Limbs.borrow (2 ^ 32) es ss)
      · have htail : ¬ KeepsUpperLimbs ss es := fun ht ↦ h ⟨hkept, ht⟩
        have hne : ss ≠ [] := by
          rintro rfl
          exact htail trivial
        rw [storedLimb_of_kept hsb heb (hkept.resolve_left hne)]
        obtain ⟨hgap, hm, hn⟩ := ih htail
        unfold Apart
        omega
      · rw [not_or] at hkept
        obtain ⟨hgap, hm, hn⟩ := storedLimb_of_not_kept hsb heb (Limbs.borrow_le es ss) hkept.2
        have hB := hlower.resolve_left hkept.1
        generalize storedLimb s e (Limbs.borrow (2 ^ 32) es ss) = c at *
        generalize (e + 2 ^ 32 - s - Limbs.borrow (2 ^ 32) es ss) % 2 ^ 32 = t at *
        have hcB : 1 * B ≤ c * B := Nat.mul_le_mul_right B hm
        have htB : 1 * B ≤ t * B := Nat.mul_le_mul_right B hn
        unfold Apart
        rcases hgap with hgap | hgap
        · have hmul : (c + 2) * B ≤ t * B := Nat.mul_le_mul_right B hgap
          rw [Nat.add_mul] at hmul
          omega
        · have hmul : (t + 2) * B ≤ c * B := Nat.mul_le_mul_right B hgap
          rw [Nat.add_mul] at hmul
          omega

private theorem value_cons_mod {b : Nat} (x : Nat) {xs : List Nat} (h : xs ≠ []) :
    Limbs.value b (x :: xs) % b = Limbs.value b xs % b := by
  have hdvd : b ∣ b ^ xs.length := dvd_pow_self b (by simpa using h)
  rw [Limbs.value_cons, Nat.add_mod, Nat.mod_eq_zero_of_dvd (hdvd.mul_left x), Nat.zero_add,
    Nat.mod_mod]

private theorem value_single (b x : Nat) : Limbs.value b [x] = x := by
  simp [Limbs.value_cons]

/-- With the upper limbs stored as they are, the number is that of the difference, or that
with its last limb negated where that limb borrows. -/
private theorem value_storedLimbs {ss es : List Nat} (hl : ss.length = es.length)
    (hs : Limbs.Bounded (2 ^ 32) ss) (he : Limbs.Bounded (2 ^ 32) es)
    (h : KeepsUpperLimbs ss es) :
    Limbs.value (2 ^ 32) (storedLimbs ss es) =
      if Limbs.value (2 ^ 32) es % 2 ^ 32 < Limbs.value (2 ^ 32) ss % 2 ^ 32 then
        Limbs.value (2 ^ 32) (Limbs.subtract (2 ^ 32) es ss) + 2 ^ 32 -
          2 * (Limbs.value (2 ^ 32) (Limbs.subtract (2 ^ 32) es ss) % 2 ^ 32)
      else Limbs.value (2 ^ 32) (Limbs.subtract (2 ^ 32) es ss) := by
  induction ss generalizing es with
  | nil => simp [List.length_eq_zero_iff.mp hl.symm, storedLimbs, Limbs.subtract]
  | cons s ss ih =>
    cases es with
    | nil => simp at hl
    | cons e es =>
      have hl' : ss.length = es.length := by simpa using hl
      obtain ⟨hsb, hss⟩ := Limbs.bounded_cons.mp hs
      obtain ⟨heb, hes⟩ := Limbs.bounded_cons.mp he
      obtain ⟨hkept, htail⟩ := h
      by_cases hlast : ss = []
      · subst hlast
        have hnil : es = [] := List.length_eq_zero_iff.mp hl'.symm
        subst hnil
        have hnone : Limbs.borrow (2 ^ 32) [] [] = 0 := if_neg (Nat.lt_irrefl _)
        have hstored : storedLimbs [s] [e] = [storedLimb s e 0] :=
          congrArg (fun c ↦ [storedLimb s e c]) hnone
        have hexact : Limbs.subtract (2 ^ 32) [e] [s] = [(e + 2 ^ 32 - s - 0) % 2 ^ 32] :=
          congrArg (fun c ↦ [(e + 2 ^ 32 - s - c) % 2 ^ 32]) hnone
        rw [hstored, hexact, value_single, value_single, value_single, value_single, storedLimb]
        split <;> split <;> omega
      · have hne : es ≠ [] := fun hnil ↦ hlast (List.length_eq_zero_iff.mp (by rw [hl', hnil]; rfl))
        have hsub : Limbs.subtract (2 ^ 32) es ss ≠ [] := by
          intro hnil
          have hlen := Limbs.length_subtract (b := 2 ^ 32) hl'.symm
          rw [hnil] at hlen
          exact hne (List.length_eq_zero_iff.mp hlen.symm)
        have hdigits := storedLimb_of_kept hsb heb (hkept.resolve_left hlast)
        rw [value_cons_mod s hlast, value_cons_mod e hne, storedLimbs, Limbs.subtract,
          value_cons_mod _ hsub, Limbs.value_cons, Limbs.value_cons, length_storedLimbs hl',
          Limbs.length_subtract hl'.symm, hdigits, ih hl' hss hes htail, hl']
        have hmod := Nat.mod_le (Limbs.value (2 ^ 32) (Limbs.subtract (2 ^ 32) es ss)) (2 ^ 32)
        split <;> omega

/-! ### The increment -/

/-- The distance from the start to the end. -/
def span (g : Settings) : Nat := g.flowDstIpaddrE.toNat - g.flowDstIpaddrS.toNat

/-- `end - start` has its limbs above the last one stored as they are; where the last one
borrows, negating it does not change the quotient. -/
structure KeepsIncrement (g : Settings) : Prop where
  upper : KeepsUpperLimbs (hostLimbs g.flowDstIpaddrS.s6Addr32)
    (hostLimbs g.flowDstIpaddrE.s6Addr32)
  last : g.flowDstIpaddrE.toNat % 2 ^ 32 < g.flowDstIpaddrS.toNat % 2 ^ 32 →
    max 1 ((span g + 2 ^ 32 - 2 * (span g % 2 ^ 32)) / g.loopCount.toNat) =
      max 1 (span g / g.loopCount.toNat)

private theorem value_span {g : Settings} (h : g.flowDstIpaddrS.toNat < g.flowDstIpaddrE.toNat) :
    Limbs.value (2 ^ 32) (Limbs.subtract (2 ^ 32) (hostLimbs g.flowDstIpaddrE.s6Addr32)
      (hostLimbs g.flowDstIpaddrS.s6Addr32)) = span g := by
  have hl : (hostLimbs g.flowDstIpaddrE.s6Addr32).length =
      (hostLimbs g.flowDstIpaddrS.s6Addr32).length := by simp [In6Addr.length_eq]
  have hvalue := Limbs.value_subtract hl (bounded_hostLimbs _) (bounded_hostLimbs _)
  have hnone : Limbs.borrow (2 ^ 32) (hostLimbs g.flowDstIpaddrE.s6Addr32)
      (hostLimbs g.flowDstIpaddrS.s6Addr32) = 0 := if_neg (Nat.not_lt.mpr (Nat.le_of_lt h))
  rw [hnone, Nat.zero_mul, Nat.add_zero] at hvalue
  exact Nat.eq_sub_of_add_eq hvalue

/-- The number that the subtraction loop stores for the two addresses. -/
private def stored (g : Settings) : Nat :=
  Limbs.value (2 ^ 32) (storedLimbs (hostLimbs g.flowDstIpaddrS.s6Addr32)
    (hostLimbs g.flowDstIpaddrE.s6Addr32))

/-- With the upper limbs kept, the stored number is the difference, or the difference with its
last limb negated. Otherwise it is further off than any count. -/
private theorem stored_cases {g : Settings}
    (h : g.flowDstIpaddrS.toNat < g.flowDstIpaddrE.toNat) :
    (KeepsUpperLimbs (hostLimbs g.flowDstIpaddrS.s6Addr32)
        (hostLimbs g.flowDstIpaddrE.s6Addr32) ∧
      stored g = if g.flowDstIpaddrE.toNat % 2 ^ 32 < g.flowDstIpaddrS.toNat % 2 ^ 32 then
        span g + 2 ^ 32 - 2 * (span g % 2 ^ 32) else span g) ∨
    (¬ KeepsUpperLimbs (hostLimbs g.flowDstIpaddrS.s6Addr32)
        (hostLimbs g.flowDstIpaddrE.s6Addr32) ∧ Apart (stored g) (span g)) := by
  have hl : (hostLimbs g.flowDstIpaddrS.s6Addr32).length =
      (hostLimbs g.flowDstIpaddrE.s6Addr32).length := by simp [In6Addr.length_eq]
  have hspan := value_span h
  by_cases hkept : KeepsUpperLimbs (hostLimbs g.flowDstIpaddrS.s6Addr32)
      (hostLimbs g.flowDstIpaddrE.s6Addr32)
  · have hvalue := value_storedLimbs hl (bounded_hostLimbs _) (bounded_hostLimbs _) hkept
    rw [hspan] at hvalue
    exact Or.inl ⟨hkept, hvalue⟩
  · have hapart := apart_of_not_keepsUpperLimbs hl (bounded_hostLimbs _) (bounded_hostLimbs _)
      hkept
    rw [hspan] at hapart
    exact Or.inr ⟨hkept, hapart⟩

private theorem stored_pos {g : Settings}
    (h : g.flowDstIpaddrS.toNat < g.flowDstIpaddrE.toNat) : 0 < stored g := by
  have hpos : 0 < span g := Nat.sub_pos_of_lt h
  rcases stored_cases h with ⟨_, hs⟩ | ⟨_, _, hs, _⟩
  · rw [hs]
    split <;> omega
  · omega

private theorem stored_eq (g : Settings) :
    stored g = Limbs.value (2 ^ 32) (limbNats
      (subtractLimbs g.flowDstIpaddrS.s6Addr32 g.flowDstIpaddrE.s6Addr32).1) := by
  rw [stored, limbNats_subtractLimbs (by simp [In6Addr.length_eq])]

/-- From a start below the end, the set-up divides the stored number exactly. -/
theorem setUpScan_ascending (g : Settings) (scan0 : Bool) (hlc : g.loopCount.toNat < 2 ^ 32)
    (h : g.flowDstIpaddrS.toNat < g.flowDstIpaddrE.toNat) :
    (setUpScan g scan0).scan = true ∧
      (setUpScan g scan0).delta.toNat = max 1 (stored g / g.loopCount.toNat) := by
  have hcarry : (subtractLimbs g.flowDstIpaddrS.s6Addr32 g.flowDstIpaddrE.s6Addr32).2 = 0 := by
    rw [subtractLimbs_carry (by simp [In6Addr.length_eq])]
    exact if_neg (Nat.not_lt.mpr (Nat.le_of_lt h))
  have hany : (subtractLimbs g.flowDstIpaddrS.s6Addr32 g.flowDstIpaddrE.s6Addr32).1.any
      (· != 0) = true := by
    have hpos := stored_pos h
    rw [stored_eq] at hpos
    by_contra hnone
    have hzero := (value_limbNats_eq_zero_iff
      (subtractLimbs g.flowDstIpaddrS.s6Addr32 g.flowDstIpaddrE.s6Addr32).1).mpr (by
        simpa using hnone)
    omega
  have hzero : (0 : UInt64).toNat < g.loopCount.val.toNat := g.loopCount.toNat_pos
  obtain ⟨hdiv, -⟩ := divideLimbs_eq_shortDiv hlc hzero
    (subtractLimbs g.flowDstIpaddrS.s6Addr32 g.flowDstIpaddrE.s6Addr32).1
  unfold setUpScan
  dsimp only
  rw [if_pos ⟨hcarry, hany⟩]
  refine ⟨rfl, ?_⟩
  rw [In6Addr.toNat, hostLimbs_map_htonl, atLeastOne_value (by simp [In6Addr.length_eq])]
  rw [hdiv, stored_eq]
  exact congrArg (max 1) (Limbs.value_shortDiv_zero g.loopCount.toNat_pos _)

/-- The last carry tells whether the start is at most the end. From a start below the end, the
scan is on; its increment is the quotient of the distance and the count, or one, exactly when
no limb that was stored negated shows in it. -/
theorem setUpScan_increment_iff (g : Settings) (scan0 : Bool)
    (hlc : g.loopCount.toNat < 2 ^ 32) :
    (((subtractLimbs g.flowDstIpaddrS.s6Addr32 g.flowDstIpaddrE.s6Addr32).2 = 0 ↔
        g.flowDstIpaddrS.toNat ≤ g.flowDstIpaddrE.toNat) ∧
      (g.flowDstIpaddrS.toNat < g.flowDstIpaddrE.toNat →
        (setUpScan g scan0).delta.toNat = max 1 (span g / g.loopCount.toNat) ∧
        (setUpScan g scan0).scan = true)) ↔
    (g.flowDstIpaddrS.toNat < g.flowDstIpaddrE.toNat → KeepsIncrement g) := by
  have hcarry : (subtractLimbs g.flowDstIpaddrS.s6Addr32 g.flowDstIpaddrE.s6Addr32).2 = 0 ↔
      g.flowDstIpaddrS.toNat ≤ g.flowDstIpaddrE.toNat := by
    rw [subtractLimbs_carry (by simp [In6Addr.length_eq]), ← Nat.not_lt]
    change (if g.flowDstIpaddrE.toNat < g.flowDstIpaddrS.toNat then (1 : UInt64) else 0) = 0 ↔ _
    split
    · next h => simp [h]
    · next h => simp [h]
  have hiff (h : g.flowDstIpaddrS.toNat < g.flowDstIpaddrE.toNat) :
      max 1 (stored g / g.loopCount.toNat) = max 1 (span g / g.loopCount.toNat) ↔
        KeepsIncrement g := by
    rcases stored_cases h with ⟨hupper, hvalue⟩ | ⟨hupper, hapart⟩
    · rw [hvalue]
      split
      · next hlast =>
        constructor
        · intro heq
          exact ⟨hupper, fun _ ↦ heq⟩
        · intro hkeeps
          exact hkeeps.last hlast
      · next hlast =>
        constructor
        · intro _
          exact ⟨hupper, fun hborrows ↦ absurd hborrows hlast⟩
        · intro _
          rfl
    · constructor
      · intro heq
        exact absurd heq (quotients_ne g.loopCount.toNat_pos hlc hapart)
      · intro hkeeps
        exact absurd hkeeps.upper hupper
  constructor
  · rintro ⟨_, hincrement⟩ h
    rw [← hiff h, ← (setUpScan_ascending g scan0 hlc h).2]
    exact (hincrement h).1
  · intro hkeeps
    refine ⟨hcarry, fun h ↦ ?_⟩
    obtain ⟨hscan, hdelta⟩ := setUpScan_ascending g scan0 hlc h
    refine ⟨?_, hscan⟩
    rw [hdelta]
    exact (hiff h).mpr (hkeeps h)

/-- The increment from `2001:db8::` to `2001:db8::1` in two steps. -/
theorem carryFree_increment :
    (((subtractLimbs carryFree.flowDstIpaddrS.s6Addr32 carryFree.flowDstIpaddrE.s6Addr32).2 = 0 ↔
        carryFree.flowDstIpaddrS.toNat ≤ carryFree.flowDstIpaddrE.toNat) ∧
      (carryFree.flowDstIpaddrS.toNat < carryFree.flowDstIpaddrE.toNat →
        (setUpScan carryFree false).delta.toNat =
          max 1 (span carryFree / carryFree.loopCount.toNat) ∧
        (setUpScan carryFree false).scan = true)) ↔
    (carryFree.flowDstIpaddrS.toNat < carryFree.flowDstIpaddrE.toNat → KeepsIncrement carryFree) :=
  setUpScan_increment_iff carryFree false (by decide)

/-- The range `::ffff:ffff` to `::1:0:0` in one step. -/
def negatedLimb : Settings :=
  { carryFree with
    loopCount := .one
    flowDstIpaddrS := .ofHost 0 0 0 0xffffffff
    flowDstIpaddrE := .ofHost 0 0 1 0 }

/-- Two addresses that follow each other come out `::ffff:ffff` apart. -/
theorem negatedLimb_increment :
    negatedLimb.flowDstIpaddrS.toNat < negatedLimb.flowDstIpaddrE.toNat ∧
      (setUpScan negatedLimb false).delta.toNat = 2 ^ 32 - 1 ∧
      max 1 (span negatedLimb / negatedLimb.loopCount.toNat) = 1 := by
  refine ⟨by decide, by decide, by decide⟩

end NetworkLab.Kbench.Ipv6
