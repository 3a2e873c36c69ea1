import NetworkLab.Exabgp.Fsm
import Mathlib.Tactic.Ring

/-!
# Announcements of the health checker

`exabgp` in `lab-exabgp/healthcheck.py:268–282` over the runs of `loop`, with the addresses
rotated as in `:374–378`. The last MED announced for an address depends on its place in
the list as given, not on the rotation, and on the last state that announces.
-/

namespace NetworkLab.Exabgp

open Lib

/-- The line an effect prints. -/
def Effect.line? : Effect → Option Announce
  | .announce line => some line
  | _ => none

/-- The lines printed by some effects. -/
def lines (effects : List Effect) : List Announce := effects.filterMap Effect.line?

/-- The MEDs announced for an address, oldest first. -/
def meds (ip : IpAddress) (effects : List Effect) : List Int :=
  ((lines effects).filter (·.ip = ip)).map Announce.med

/-- The MED last announced for an address. -/
def lastMed (ip : IpAddress) (effects : List Effect) : Option Int := (meds ip effects).getLast?

/-- The last announcing state that the machine has been in, after some iterations. -/
def lastAnnounced (o : Options) : List Check → Option State
  | [] => none
  | i :: hist =>
    match main o (i :: hist) with
    | .error _ => none
    | .ok (s, _) =>
      if s.state = .up ∨ s.state = .down ∨ s.state = .disabled then some s.state
      else lastAnnounced o hist

@[simp] theorem lines_append (xs ys : List Effect) : lines (xs ++ ys) = lines xs ++ lines ys :=
  List.filterMap_append

@[simp] theorem meds_append (ip : IpAddress) (xs ys : List Effect) :
    meds ip (xs ++ ys) = meds ip xs ++ meds ip ys := by
  simp [meds]

/-! ### One iteration -/

private theorem lines_announces (o : Options) (metric : Int) (ips : List IpAddress) :
    (lines (announces o metric ips)).map Announce.ip = ips := by
  induction ips generalizing metric with
  | nil => rfl
  | cons ip ips ih => exact congrArg (ip :: ·) (ih (metric + o.increase))

private theorem meds_cons (ip : IpAddress) (line : Announce) (effects : List Effect) :
    meds ip (.announce line :: effects) =
      if line.ip = ip then line.med :: meds ip effects else meds ip effects := by
  by_cases h : line.ip = ip
  · simp [meds, lines, Effect.line?, h]
  · simp [meds, lines, Effect.line?, h]

private theorem meds_announces_of_not_mem (o : Options) (metric : Int) (ips : List IpAddress)
    (ip : IpAddress) (h : ip ∉ ips) : meds ip (announces o metric ips) = [] := by
  induction ips generalizing metric with
  | nil => rfl
  | cons a ips ih =>
    rw [List.mem_cons, not_or] at h
    rw [announces, meds_cons, if_neg (Ne.symm h.1), ih _ h.2]

/-- The accumulated metric reaches `k` increases at position `k`. -/
theorem meds_announces (o : Options) (metric : Int) (ips : List IpAddress)
    (hnodup : ips.Nodup) (k : Nat) (ip : IpAddress) (hk : ips[k]? = some ip) :
    meds ip (announces o metric ips) = [metric + k * o.increase] := by
  induction ips generalizing metric k with
  | nil => simp at hk
  | cons a ips ih =>
    obtain ⟨ha, hips⟩ := List.nodup_cons.mp hnodup
    rw [announces, meds_cons]
    cases k with
    | zero =>
      obtain rfl : a = ip := by simpa using hk
      rw [if_pos rfl, meds_announces_of_not_mem o _ ips a ha]
      simp
    | succ k =>
      rw [List.getElem?_cons_succ] at hk
      have hne : a ≠ ip := by
        rintro rfl
        exact ha (List.mem_of_getElem? hk)
      rw [if_neg hne, ih _ hips k hk]
      have hsum : metric + o.increase + k * o.increase = metric + ((k : Int) + 1) * o.increase := by
        ring
      rw [hsum]
      rfl

/-- The machine of one iteration prints nothing itself. -/
private theorem lines_change (o : Options) (s s' : Loop) (effects : List Effect)
    (h : ChangeHooks o s s' effects) : lines effects = [] := by
  unfold ChangeHooks at h
  rw [h]
  split
  · rfl
  · unfold hookCommands lines
    rw [List.filterMap_map]
    exact List.filterMap_eq_nil_iff.mpr fun _ _ ↦ rfl

/-- An iteration prints the lines of its new state. -/
theorem iterate_lines (o : Options) (s : Loop) (i : Check) :
    ∃ s' effects, iterate o s i = .ok (s', effects) ∧
      lines effects = lines (exabgp o s'.state) := by
  have hfsm : ∃ s' effects, fsm o s (isDisabled o i) (isDisabled o i || i.passed) =
      .ok (s', effects) ∧ ChangeHooks o s s' effects := by
    cases isDisabled o i with
    | true =>
      obtain ⟨s', effects, hfsm, -, hhooks⟩ := fsm_disabled o s (true || i.passed)
      exact ⟨s', effects, hfsm, hhooks⟩
    | false =>
      obtain ⟨s', effects, hfsm, -, hhooks⟩ := fsm_enabled o s i.passed
      exact ⟨s', effects, hfsm, hhooks⟩
  obtain ⟨s', effects, hrun, hhooks⟩ := hfsm
  unfold iterate
  dsimp only
  rw [hrun]
  refine ⟨s', _, rfl, ?_⟩
  rw [lines_append, lines_append, lines_change o s s' effects hhooks]
  split <;> simp [lines, Effect.line?]

/-! ### Rotation -/

/-- A rotation fails exactly outside of `Py_ssize_t`. -/
theorem dequeRotate_eq_none {α : Type} (start : Int) (xs : List α) :
    dequeRotate (-start) xs = none ↔ ¬ (-2 ^ 63 < start ∧ start ≤ 2 ^ 63) := by
  unfold dequeRotate
  split
  · simp only [reduceCtorEq, false_iff, not_not]
    omega
  · simp only [true_iff]
    omega

private theorem dequeRotate_some {α : Type} {k : Int} {xs ys : List α}
    (h : dequeRotate k xs = some ys) : ys = xs.rotate (-k % xs.length).toNat := by
  unfold dequeRotate at h
  split at h
  · exact (Option.some.inj h).symm
  · cases h

/-- Rotated left by `start`, element `j` is at position `j - start` modulo the length. -/
theorem dequeRotate_getElem? {α : Type} {start : Int} {xs ys : List α}
    (h : dequeRotate (-start) xs = some ys) (j : Nat) (hj : j < xs.length) :
    ys[((j - start) % xs.length).toNat]? = xs[j]? := by
  have hlen : (0 : Int) < xs.length := by omega
  have hk := Int.emod_nonneg (j - start) (Int.ne_of_gt hlen)
  have hk' := Int.emod_lt_of_pos (j - start) hlen
  have hs := Int.emod_nonneg start (Int.ne_of_gt hlen)
  have hback : (((j - start) % xs.length).toNat + (start % xs.length).toNat) % xs.length = j := by
    apply Int.ofNat_inj.mp
    rw [Int.natCast_emod, Int.natCast_add, Int.toNat_of_nonneg hk, Int.toNat_of_nonneg hs,
      ← Int.add_emod, Int.sub_add_cancel]
    exact Int.emod_eq_of_lt (Int.natCast_nonneg j) (by omega)
  rw [dequeRotate_some h, Int.neg_neg, List.getElem?_rotate (by omega), hback]

/-! ### Runs -/

/-- The MED that `ips[j]` has from the first metric `metric`. -/
def medFrom (o : Options) (j : Nat) (metric : Int) : Int :=
  metric + (j - o.startIp) % o.ips.length * o.increase

/-- The MED that `ips[j]` has while a state is the last announced one. -/
def medAt (o : Options) (j : Nat) : State → Option Int
  | .up => some (medFrom o j o.upMetric)
  | .down => some (medFrom o j o.downMetric)
  | .disabled => some (medFrom o j o.disabledMetric)
  | .init | .rising | .falling => none

/-- What every run announces: an iteration that ends in UP, DOWN or DISABLED prints one line
per address, and at every point the MED last announced for an address is that of the last such
state, by its place in the list before rotation. While the lines of an iteration are being
printed, an address has the MED from before or from after it. -/
def Announces (o : Options) : Prop :=
  ∀ hist i, ∃ s outs s' effects,
    main o hist = .ok (s, outs) ∧ main o (i :: hist) = .ok (s', outs ++ effects) ∧
    (s'.state = .up ∨ s'.state = .down ∨ s'.state = .disabled →
      ((lines effects).map Announce.ip).Perm o.ips) ∧
    ∀ j ip, o.ips[j]? = some ip →
      lastMed ip outs = (lastAnnounced o hist).bind (medAt o j) ∧
      lastMed ip (outs ++ effects) = (lastAnnounced o (i :: hist)).bind (medAt o j) ∧
      ∀ k, lastMed ip (outs ++ effects.take k) = lastMed ip outs ∨
        lastMed ip (outs ++ effects.take k) = lastMed ip (outs ++ effects)

private theorem metric_isSome (o : Options) (state : State) :
    (o.metric state).isSome ↔ state = .up ∨ state = .down ∨ state = .disabled := by
  cases state <;> simp [Options.metric]

private theorem medAt_eq (o : Options) (j : Nat) (state : State) :
    medAt o j state = (o.metric state).map (medFrom o j) := by
  cases state <;> rfl

/-- After an iteration the last MED is that of its new state, if this one announces. -/
private theorem lastMed_append (ip : IpAddress) (outs effects : List Effect) (med : Option Int)
    (h : meds ip effects = med.toList) :
    lastMed ip (outs ++ effects) = med.or (lastMed ip outs) := by
  unfold lastMed
  rw [meds_append, h]
  cases med with
  | none => simp
  | some med => simp

/-- In the middle of an iteration, an address still has its old MED or already the new. -/
private theorem lastMed_take (ip : IpAddress) (outs effects : List Effect) (med : Option Int)
    (h : meds ip effects = med.toList) (k : Nat) :
    lastMed ip (outs ++ effects.take k) = lastMed ip outs ∨
      lastMed ip (outs ++ effects.take k) = lastMed ip (outs ++ effects) := by
  have hsplit : meds ip (effects.take k) ++ meds ip (effects.drop k) = med.toList := by
    rw [← meds_append, List.take_append_drop, h]
  unfold lastMed
  rw [meds_append, meds_append, h]
  cases hcase : meds ip (effects.take k) with
  | nil => exact Or.inl (by rw [List.append_nil])
  | cons m ms =>
    right
    rw [hcase] at hsplit
    cases med with
    | none => simp at hsplit
    | some med =>
      obtain ⟨rfl, hrest⟩ := List.cons.inj hsplit
      rw [(List.append_eq_nil_iff.mp hrest).1]
      rfl

section

-- `ips` are the addresses once rotated, so `{ o with ips }` are the options of `loop`.
variable {o : Options} {ips : List IpAddress}

private theorem main_of_loop (hrot : dequeRotate (-o.startIp) o.ips = some ips)
    {hist : List Check} {s : Loop} {outs : List Effect}
    (hrun : loop { o with ips } hist = .ok (s, outs)) : main o hist = .ok (s, outs) := by
  unfold main
  rw [hrot]
  dsimp only
  rw [hrun]
  rfl

/-- An iteration announces, for the address at place `j`, the MED of its new state. -/
private theorem meds_exabgp (hrot : dequeRotate (-o.startIp) o.ips = some ips)
    (hnodup : o.ips.Nodup) (state : State) (j : Nat) (ip : IpAddress)
    (hj : o.ips[j]? = some ip) :
    meds ip (exabgp { o with ips } state) = (medAt o j state).toList := by
  have hlt : j < o.ips.length := (List.getElem?_eq_some_iff.mp hj).1
  have hk := dequeRotate_getElem? hrot j hlt
  rw [hj] at hk
  have hips : ips.Nodup := by
    rw [dequeRotate_some hrot]
    exact List.nodup_rotate.mpr hnodup
  have hmetric : ({ o with ips } : Options).metric state = o.metric state := by
    cases state <;> rfl
  unfold exabgp
  rw [hmetric, medAt_eq]
  cases o.metric state with
  | none => rfl
  | some metric =>
    have hpos := Int.emod_nonneg (j - o.startIp) (by omega : (o.ips.length : Int) ≠ 0)
    dsimp only
    rw [meds_append, meds_announces _ metric _ hips _ ip hk, Int.toNat_of_nonneg hpos]
    rfl

/-- One more iteration: what it prints, and the last state that announces. -/
private theorem main_step (hrot : dequeRotate (-o.startIp) o.ips = some ips)
    {hist : List Check} {s : Loop} {outs : List Effect}
    (hrun : loop { o with ips } hist = .ok (s, outs)) (i : Check) :
    ∃ s' effects, iterate { o with ips } s i = .ok (s', effects) ∧
      lines effects = lines (exabgp { o with ips } s'.state) ∧
      lastAnnounced o (i :: hist) =
        if (o.metric s'.state).isSome then some s'.state else lastAnnounced o hist := by
  obtain ⟨s', effects, hiter, hlines⟩ := iterate_lines { o with ips } s i
  refine ⟨s', effects, hiter, hlines, ?_⟩
  have hnext := main_of_loop hrot (Machine.run_cons hrun hiter)
  rw [lastAnnounced, hnext]
  simp only [metric_isSome]

variable {state : State} {outs effects : List Effect} {j : Nat} {ip : IpAddress}

private theorem meds_iterate (hrot : dequeRotate (-o.startIp) o.ips = some ips)
    (hnodup : o.ips.Nodup) (hlines : lines effects = lines (exabgp { o with ips } state))
    (hj : o.ips[j]? = some ip) : meds ip effects = (medAt o j state).toList := by
  rw [← meds_exabgp hrot hnodup state j ip hj, meds, meds, hlines]

private theorem lastMed_iterate {last : Option State}
    (hrot : dequeRotate (-o.startIp) o.ips = some ips) (hnodup : o.ips.Nodup)
    (hold : lastMed ip outs = last.bind (medAt o j))
    (hlines : lines effects = lines (exabgp { o with ips } state)) (hj : o.ips[j]? = some ip) :
    lastMed ip (outs ++ effects) =
      (if (o.metric state).isSome then some state else last).bind (medAt o j) := by
  have hmeds := meds_iterate hrot hnodup hlines hj
  rw [lastMed_append ip outs effects _ hmeds, hold, medAt_eq]
  cases hmetric : o.metric state with
  | none => simp
  | some metric => simp [medAt_eq, hmetric]

/-- After any run the MED last announced for an address is that of the last state that
announces. -/
theorem loop_lastMed (hrot : dequeRotate (-o.startIp) o.ips = some ips)
    (hnodup : o.ips.Nodup) (hist : List Check) :
    ∃ s outs, loop { o with ips } hist = .ok (s, outs) ∧ ∀ j ip, o.ips[j]? = some ip →
      lastMed ip outs = (lastAnnounced o hist).bind (medAt o j) := by
  apply Machine.run_rule (fun hist _ outs ↦ ∀ j ip, o.ips[j]? = some ip →
    lastMed ip outs = (lastAnnounced o hist).bind (medAt o j))
  · exact fun j ip _ ↦ rfl
  · intro hist s outs i hrun hp
    obtain ⟨s', effects, hiter, hlines, hstate⟩ := main_step hrot hrun i
    refine ⟨s', effects, hiter, ?_⟩
    intro j ip hj
    rw [hstate]
    exact lastMed_iterate hrot hnodup (hp j ip hj) hlines hj

/-- A state with a metric has a line for each address. -/
private theorem lines_exabgp_perm (hrot : dequeRotate (-o.startIp) o.ips = some ips)
    (hstate : state = .up ∨ state = .down ∨ state = .disabled) :
    ((lines (exabgp { o with ips } state)).map Announce.ip).Perm o.ips := by
  have hexabgp : ∃ metric, exabgp { o with ips } state =
      announces { o with ips } metric ips ++ [.flush] := by
    rcases hstate with h | h | h <;> rw [h] <;> exact ⟨_, rfl⟩
  obtain ⟨metric, hexabgp⟩ := hexabgp
  have hflush : (lines [.flush]).map Announce.ip = [] := rfl
  rw [hexabgp, lines_append, List.map_append, lines_announces, hflush, List.append_nil,
    dequeRotate_some hrot]
  exact List.rotate_perm o.ips _

/-- Addresses that can be rotated are announced as they are to be. -/
theorem announces_of_dequeRotate (hrot : dequeRotate (-o.startIp) o.ips = some ips)
    (hnodup : o.ips.Nodup) : Announces o := by
  intro hist i
  obtain ⟨s, outs, hrun, hp⟩ := loop_lastMed hrot hnodup hist
  obtain ⟨s', effects, hiter, hlines, hstate⟩ := main_step hrot hrun i
  refine ⟨s, outs, s', effects, main_of_loop hrot hrun,
    main_of_loop hrot (Machine.run_cons hrun hiter), ?_, ?_⟩
  · intro hs'
    rw [hlines]
    exact lines_exabgp_perm hrot hs'
  · intro j ip hj
    have hmeds := meds_iterate hrot hnodup hlines hj
    refine ⟨hp j ip hj, ?_, lastMed_take ip outs effects _ hmeds⟩
    rw [hstate]
    exact lastMed_iterate hrot hnodup (hp j ip hj) hlines hj

end

/-- A program that cannot rotate its addresses announces nothing. -/
theorem not_announces_of_dequeRotate (o : Options)
    (hrot : dequeRotate (-o.startIp) o.ips = none) : ¬ Announces o := by
  intro h
  obtain ⟨s, outs, s', effects, hrun, -⟩ := h [] ⟨false, true⟩
  unfold main at hrun
  rw [hrot] at hrun
  cases hrun

/-- Distinct addresses are announced as they are to be exactly if the offset fits into a
`Py_ssize_t` once negated: `rotate` raises OverflowError on any other. -/
theorem main_announces_iff (o : Options) (hnodup : o.ips.Nodup) :
    Announces o ↔ -2 ^ 63 < o.startIp ∧ o.startIp ≤ 2 ^ 63 := by
  have hnone := dequeRotate_eq_none o.startIp o.ips
  cases hrot : dequeRotate (-o.startIp) o.ips with
  | none =>
    rw [hrot] at hnone
    exact iff_of_false (not_announces_of_dequeRotate o hrot) (hnone.mp rfl)
  | some ips =>
    rw [hrot] at hnone
    have hfits : -2 ^ 63 < o.startIp ∧ o.startIp ≤ 2 ^ 63 := by
      by_contra hout
      cases hnone.mpr hout
    exact iff_of_true (announces_of_dequeRotate hrot hnodup) hfits

/-- Two addresses, the first one of which is at an offset. -/
def twoIps (startIp : Int) : Options where
  rise := 1
  fall := 1
  disable := none
  nextHop := none
  ips := [.v4 1, .v4 2]
  startIp := startIp
  upMetric := 100
  downMetric := 1000
  disabledMetric := 500
  increase := 10
  execute := []
  upExecute := []
  downExecute := []
  disabledExecute := []

/-- Two addresses are announced from the second one on. -/
theorem twoIps_announces : Announces (twoIps (-1)) :=
  (main_announces_iff (twoIps (-1)) (by decide)).mpr (by decide)

/-- With `--start-ip 9223372036854775809` the program ends before its first check. -/
theorem far_startIp_overflows :
    ¬ Announces (twoIps 9223372036854775809) ∧
      main (twoIps 9223372036854775809) [] = .error .overflowError := by
  have hrot : dequeRotate (-(twoIps 9223372036854775809).startIp)
      (twoIps 9223372036854775809).ips = none :=
    (dequeRotate_eq_none _ _).mpr (by decide)
  refine ⟨not_announces_of_dequeRotate _ hrot, ?_⟩
  unfold main
  rw [hrot]

end NetworkLab.Exabgp
