import NetworkLab.Exabgp.Healthcheck

/-!
# The health check state machine

`trigger` and the machine in `loop`, `lab-exabgp/healthcheck.py:284–351`. Rising and
falling mirror each other, so the lemmas take the direction `b`: `true` is towards UP on
successful checks, `false` towards DOWN on failed ones.
-/

namespace NetworkLab.Exabgp

open Lib

/-- The option that bounds the checks in a direction. -/
def threshold (o : Options) : Bool → Int
  | true => o.rise
  | false => o.fall

/-- The state in which the checks in a direction are counted. -/
def pending : Bool → State
  | true => .rising
  | false => .falling

/-- The state a direction leads to. -/
def settled : Bool → State
  | true => .up
  | false => .down

/-- An iteration without a disable file and whose check has the result `b`. -/
def Enabled (o : Options) (b : Bool) (i : Check) : Prop :=
  (o.disable.isSome = true → i.fileExists = false) ∧ i.passed = b

/-- The commands for a change into a state: those of its own option, then the common ones. -/
def commandsFor (o : Options) : State → List String
  | .up => o.upExecute ++ o.execute
  | .down => o.downExecute ++ o.execute
  | .disabled => o.disabledExecute ++ o.execute
  | .init | .rising | .falling => o.execute

/-- How many checks in a row a direction takes. -/
def needed (o : Options) (b : Bool) : Nat := (max 1 (threshold o b)).toNat

/-- All that an enabled iteration with result `b` can do. -/
inductive Moves (o : Options) (b : Bool) (s s' : Loop) : Prop
  | enable (h : s.state = .disabled) (h' : s'.state = .init)
  | settle (h : s.state = .init ∨ s.state = pending (!b) ∨ s.state = settled (!b))
      (ht : threshold o b ≤ 1) (h' : s'.state = settled b)
  | start (h : s.state = .init ∨ s.state = pending (!b) ∨ s.state = settled (!b))
      (ht : 1 < threshold o b) (h' : s' = ⟨pending b, 1⟩)
  | reach (h : s.state = pending b) (ht : threshold o b ≤ s.checks + 1)
      (h' : s'.state = settled b)
  | count (h : s.state = pending b) (ht : s.checks + 1 < threshold o b)
      (h' : s' = ⟨pending b, s.checks + 1⟩)
  | stay (h : s.state = settled b) (h' : s' = s)

/-- The hook commands of a step: those of the new state if it is another one. -/
def ChangeHooks (o : Options) (s s' : Loop) (effects : List Effect) : Prop :=
  effects = if s'.state = s.state then [] else hookCommands o s'.state

private theorem isDisabled_eq_false {o : Options} {i : Check} :
    isDisabled o i = false ↔ (o.disable.isSome = true → i.fileExists = false) := by
  unfold isDisabled
  cases o.disable.isSome <;> simp

private theorem commandsFor_eq (o : Options) (state : State) :
    o.stateExecute state ++ o.execute = commandsFor o state := by
  cases state <;> rfl

private theorem transition_eq (o : Options) (target : State) (checks : Int) :
    transition o target checks =
      (⟨shortcut o target, checks⟩, hookCommands o (shortcut o target)) := rfl

private theorem shortcut_pending (o : Options) (b : Bool) :
    shortcut o (pending b) = if threshold o b ≤ 1 then settled b else pending b := by
  cases b with
  | true => by_cases h : o.rise ≤ 1 <;> simp [shortcut, pending, settled, threshold, h]
  | false => by_cases h : o.fall ≤ 1 <;> simp [shortcut, pending, settled, threshold, h]

private theorem shortcut_settled (o : Options) (b : Bool) :
    shortcut o (settled b) = settled b := by
  cases b <;> simp [shortcut, settled]

/-- A disabled iteration leads to DISABLED and runs hooks only when it changes the state. -/
theorem fsm_disabled (o : Options) (s : Loop) (successful : Bool) :
    ∃ s' effects, fsm o s true successful = .ok (s', effects) ∧ s'.state = .disabled ∧
      ChangeHooks o s s' effects := by
  unfold fsm
  by_cases h : s.state = .disabled
  · refine ⟨s, [], by simp [h], h, ?_⟩
    simp [ChangeHooks]
  · refine ⟨⟨.disabled, s.checks⟩, hookCommands o .disabled, ?_, rfl, ?_⟩
    · simp [h, transition_eq, shortcut]
    · simp [ChangeHooks, Ne.symm h]

private theorem changeHooks_transition (o : Options) (s : Loop) (target : State) (checks : Int)
    (h : shortcut o target ≠ s.state) :
    ChangeHooks o s (transition o target checks).1 (transition o target checks).2 := by
  rw [transition_eq, ChangeHooks, if_neg h]

private theorem changeHooks_stay (o : Options) (s : Loop) (checks : Int) :
    ChangeHooks o s ⟨s.state, checks⟩ [] := by
  rw [ChangeHooks, if_pos rfl]

-- The state that a direction starts its checks in, from where they do not count.
private theorem moves_transition (o : Options) (b : Bool) (s : Loop)
    (h : s.state = .init ∨ s.state = pending (!b) ∨ s.state = settled (!b)) :
    Moves o b s (transition o (pending b) 1).1 ∧
      ChangeHooks o s (transition o (pending b) 1).1 (transition o (pending b) 1).2 := by
  have hne : pending b ≠ s.state ∧ settled b ≠ s.state := by
    rcases h with h | h | h <;> rw [h] <;> cases b <;> decide
  by_cases ht : threshold o b ≤ 1
  · have hs : shortcut o (pending b) = settled b := by rw [shortcut_pending, if_pos ht]
    refine ⟨.settle h ht ?_, ?_⟩
    · rw [transition_eq, hs]
    · apply changeHooks_transition
      rw [hs]
      exact hne.2
  · have hs : shortcut o (pending b) = pending b := by rw [shortcut_pending, if_neg ht]
    refine ⟨.start h (Int.not_le.mp ht) ?_, ?_⟩
    · rw [transition_eq, hs]
    · apply changeHooks_transition
      rw [hs]
      exact hne.1

private theorem moves_reach (o : Options) (b : Bool) (s : Loop) (checks : Int)
    (h : s.state = pending b) (ht : threshold o b ≤ s.checks + 1) :
    Moves o b s (transition o (settled b) checks).1 ∧
      ChangeHooks o s (transition o (settled b) checks).1
        (transition o (settled b) checks).2 := by
  have hs := shortcut_settled o b
  refine ⟨.reach h ht ?_, ?_⟩
  · rw [transition_eq, hs]
  · apply changeHooks_transition
    rw [hs, h]
    cases b <;> decide

/-- An enabled iteration makes one of the six moves. -/
theorem fsm_enabled (o : Options) (s : Loop) (b : Bool) :
    ∃ s' effects, fsm o s false b = .ok (s', effects) ∧ Moves o b s s' ∧
      ChangeHooks o s s' effects := by
  obtain ⟨state, checks⟩ := s
  unfold fsm
  cases state with
  | init =>
    cases b with
    | true =>
      by_cases ht : o.rise ≤ 1
      · refine ⟨_, _, by simp [ht]; rfl, .settle (.inl rfl) ht ?_, ?_⟩
        · rfl
        · exact changeHooks_transition o _ .up checks State.noConfusion
      · exact ⟨_, _, by simp [ht]; rfl, moves_transition o true _ (.inl rfl)⟩
    | false => exact ⟨_, _, by simp; rfl, moves_transition o false _ (.inl rfl)⟩
  | disabled =>
    refine ⟨_, _, by simp; rfl, .enable rfl rfl, ?_⟩
    exact changeHooks_transition o _ .init checks State.noConfusion
  | rising =>
    cases b with
    | true =>
      by_cases ht : checks + 1 ≥ o.rise
      · exact ⟨_, _, by simp [ht]; rfl, moves_reach o true _ _ rfl ht⟩
      · exact ⟨_, _, by simp [ht]; rfl, .count rfl (Int.not_le.mp ht) rfl,
          changeHooks_stay o ⟨.rising, checks⟩ _⟩
    | false => exact ⟨_, _, by simp; rfl, moves_transition o false _ (.inr (.inl rfl))⟩
  | falling =>
    cases b with
    | true => exact ⟨_, _, by simp; rfl, moves_transition o true _ (.inr (.inl rfl))⟩
    | false =>
      by_cases ht : checks + 1 ≥ o.fall
      · exact ⟨_, _, by simp [ht]; rfl, moves_reach o false _ _ rfl ht⟩
      · exact ⟨_, _, by simp [ht]; rfl, .count rfl (Int.not_le.mp ht) rfl,
          changeHooks_stay o ⟨.falling, checks⟩ _⟩
  | up =>
    cases b with
    | true => exact ⟨_, _, by simp, .stay rfl rfl, changeHooks_stay o ⟨.up, checks⟩ _⟩
    | false => exact ⟨_, _, by simp; rfl, moves_transition o false _ (.inr (.inr rfl))⟩
  | down =>
    cases b with
    | true => exact ⟨_, _, by simp; rfl, moves_transition o true _ (.inr (.inr rfl))⟩
    | false => exact ⟨_, _, by simp, .stay rfl rfl, changeHooks_stay o ⟨.down, checks⟩ _⟩

/-! ### Counting checks -/

/-- While checks are counted, `checks` is the length of a streak that is still too short. -/
def Counted (o : Options) (hist : List Check) (s : Loop) : Prop :=
  ∀ b, s.state = pending b → 1 ≤ s.checks ∧ s.checks < threshold o b ∧
    Machine.Streak (Enabled o b) s.checks.toNat hist

private theorem pending_inj {b c : Bool} (h : pending b = pending c) : b = c := by
  cases b <;> cases c <;> first | rfl | cases h

private theorem settled_inj {b c : Bool} (h : settled b = settled c) : b = c := by
  cases b <;> cases c <;> first | rfl | cases h

private theorem pending_ne_settled (b c : Bool) : pending b ≠ settled c := by
  cases b <;> cases c <;> decide

private theorem disabled_ne_pending (b : Bool) : State.disabled ≠ pending b := by
  cases b <;> decide

private theorem init_ne_pending (b : Bool) : State.init ≠ pending b := by
  cases b <;> decide

private theorem init_ne_settled (b : Bool) : State.init ≠ settled b := by
  cases b <;> decide

private theorem counted_of_not_pending (o : Options) (hist : List Check) (s : Loop)
    (h : ∀ b, s.state ≠ pending b) : Counted o hist s :=
  fun b hb ↦ absurd hb (h b)

private theorem counted_pending (o : Options) (hist : List Check) (b : Bool) (checks : Int)
    (hpos : 1 ≤ checks) (hlt : checks < threshold o b)
    (hstreak : Machine.Streak (Enabled o b) checks.toNat hist) :
    Counted o hist ⟨pending b, checks⟩ := by
  intro c hc
  obtain rfl := pending_inj hc
  exact ⟨hpos, hlt, hstreak⟩

/-- An enabled move keeps the count. -/
theorem Moves.counted {o : Options} {b : Bool} {s s' : Loop} {hist : List Check} {i : Check}
    (h : Moves o b s s') (hi : Enabled o b i) (hc : Counted o hist s) :
    Counted o (i :: hist) s' := by
  cases h with
  | enable h h' =>
    apply counted_of_not_pending
    intro c
    rw [h']
    exact init_ne_pending c
  | settle h ht h' =>
    apply counted_of_not_pending
    intro c
    rw [h']
    exact (pending_ne_settled c b).symm
  | start h ht h' =>
    rw [h']
    exact counted_pending o _ b 1 (Int.le_refl 1) ht ((Machine.streak_zero _ _).cons hi)
  | reach h ht h' =>
    apply counted_of_not_pending
    intro c
    rw [h']
    exact (pending_ne_settled c b).symm
  | count h ht h' =>
    obtain ⟨hpos, hlt, hstreak⟩ := hc b h
    rw [h']
    apply counted_pending o _ b _ (by omega) ht
    have hnext : (s.checks + 1).toNat = s.checks.toNat + 1 := by omega
    rw [hnext]
    exact hstreak.cons hi
  | stay h h' =>
    apply counted_of_not_pending
    intro c
    rw [h', h]
    exact (pending_ne_settled c b).symm

/-- A move into UP or DOWN ends a streak of the length that this takes. -/
theorem Moves.streak {o : Options} {b c : Bool} {s s' : Loop} {hist : List Check} {i : Check}
    (h : Moves o b s s') (hi : Enabled o b i) (hc : Counted o hist s)
    (hs' : s'.state = settled c) (hs : s.state ≠ settled c) :
    Machine.Streak (Enabled o c) (needed o c) (i :: hist) := by
  cases h with
  | enable h h' => exact absurd (h'.symm.trans hs') (init_ne_settled c)
  | settle h ht h' =>
    obtain rfl := settled_inj (h'.symm.trans hs')
    have hone : needed o b = 0 + 1 := by
      rw [needed, Int.max_eq_left ht]
      rfl
    rw [hone]
    exact (Machine.streak_zero _ _).cons hi
  | start h ht h' =>
    rw [h'] at hs'
    exact absurd hs' (pending_ne_settled b c)
  | reach h ht h' =>
    obtain rfl := settled_inj (h'.symm.trans hs')
    obtain ⟨hpos, hlt, hstreak⟩ := hc b h
    have hlen : needed o b = s.checks.toNat + 1 := by
      unfold needed
      omega
    rw [hlen]
    exact hstreak.cons hi
  | count h ht h' =>
    rw [h'] at hs'
    exact absurd hs' (pending_ne_settled b c)
  | stay h h' =>
    rw [h'] at hs'
    exact absurd hs' hs

/-- How many more checks in a row lead to UP or DOWN. -/
def remaining (o : Options) (b : Bool) (s : Loop) : Nat :=
  if s.state = settled b then 0
  else if s.state = pending b then (threshold o b - s.checks).toNat
  else if s.state = .disabled then needed o b + 1
  else needed o b

private theorem one_le_needed (o : Options) (b : Bool) : 1 ≤ needed o b := by
  unfold needed
  omega

private theorem remaining_settled {o : Options} {b : Bool} {s : Loop}
    (h : s.state = settled b) : remaining o b s = 0 := if_pos h

private theorem remaining_pending {o : Options} {b : Bool} {s : Loop}
    (h : s.state = pending b) : remaining o b s = (threshold o b - s.checks).toNat := by
  have hne : s.state ≠ settled b := by
    rw [h]
    exact pending_ne_settled b b
  rw [remaining, if_neg hne, if_pos h]

private theorem remaining_other {o : Options} {b : Bool} {s : Loop}
    (h : s.state = .init ∨ s.state = pending (!b) ∨ s.state = settled (!b)) :
    remaining o b s = needed o b := by
  unfold remaining
  rcases h with h | h | h <;> rw [h] <;> cases b <;> rfl

private theorem remaining_disabled {o : Options} {b : Bool} {s : Loop}
    (h : s.state = .disabled) : remaining o b s = needed o b + 1 := by
  unfold remaining
  rw [h]
  cases b <;> rfl

/-- Only UP, or DOWN, is reached already. -/
theorem state_of_remaining {o : Options} {b : Bool} {s : Loop} {hist : List Check}
    (hc : Counted o hist s) (h : remaining o b s = 0) : s.state = settled b := by
  have hneeded := one_le_needed o b
  unfold remaining at h
  split at h
  · next hs => exact hs
  · split at h
    · next hs =>
      have hlt := (hc b hs).2.1
      omega
    · split at h <;> omega

/-- An enabled iteration brings UP, or DOWN, one check nearer. -/
theorem Moves.remaining_le {o : Options} {b : Bool} {s s' : Loop} (h : Moves o b s s') :
    remaining o b s' ≤ remaining o b s - 1 := by
  cases h with
  | enable h h' =>
    rw [remaining_disabled h, remaining_other (.inl h')]
    exact Nat.le_refl _
  | settle h ht h' =>
    rw [remaining_settled h']
    exact Nat.zero_le _
  | start h ht h' =>
    have hpending : s'.state = pending b := by rw [h']
    rw [remaining_other h, remaining_pending hpending, h', needed]
    dsimp only
    omega
  | reach h ht h' =>
    rw [remaining_settled h']
    exact Nat.zero_le _
  | count h ht h' =>
    have hpending : s'.state = pending b := by rw [h']
    rw [remaining_pending h, remaining_pending hpending, h']
    dsimp only
    omega
  | stay h h' =>
    rw [h', remaining_settled h]

/-! ### Iterations and runs -/

/-- The command that an effect runs, with its `STATE`. -/
def Effect.hook? : Effect → Option (String × State)
  | .execute cmd state => some (cmd, state)
  | _ => none

/-- The hook commands among some effects. -/
def hooks (effects : List Effect) : List (String × State) := effects.filterMap Effect.hook?

private theorem hooks_append (xs ys : List Effect) : hooks (xs ++ ys) = hooks xs ++ hooks ys :=
  List.filterMap_append

private theorem hooks_announces (o : Options) (metric : Int) (ips : List IpAddress) :
    hooks (announces o metric ips) = [] := by
  induction ips generalizing metric with
  | nil => rfl
  | cons ip ips ih => exact ih (metric + o.increase)

private theorem hooks_exabgp (o : Options) (target : State) : hooks (exabgp o target) = [] := by
  unfold exabgp
  split
  · rfl
  · rw [hooks_append, hooks_announces]
    rfl

private theorem hooks_hookCommands (o : Options) (target : State) :
    hooks (hookCommands o target) = (commandsFor o target).map (·, target) := by
  unfold hooks hookCommands
  rw [commandsFor_eq, List.filterMap_map]
  exact congrFun List.filterMap_eq_map' _

/-- All that one iteration does to the state and the hooks: it never fails. -/
theorem iterate_spec (o : Options) (s : Loop) (i : Check) :
    ∃ s' effects, iterate o s i = .ok (s', effects) ∧
      (if isDisabled o i then s'.state = .disabled else Moves o i.passed s s') ∧
      hooks effects = if s'.state = s.state then []
        else (commandsFor o s'.state).map (·, s'.state) := by
  have hall {s' : Loop} {effects : List Effect} (h : ChangeHooks o s s' effects) (e : Effect)
      (he : e = .sleepFast ∨ e = .sleepInterval) :
      hooks (effects ++ exabgp o s'.state ++ [e]) = if s'.state = s.state then []
        else (commandsFor o s'.state).map (·, s'.state) := by
    have hsleep : hooks [e] = [] := by
      rcases he with rfl | rfl <;> rfl
    rw [hooks_append, hooks_append, hooks_exabgp, hsleep, List.append_nil, List.append_nil, h]
    split
    · rfl
    · exact hooks_hookCommands o s'.state
  unfold iterate
  dsimp only
  cases hd : isDisabled o i with
  | true =>
    obtain ⟨s', effects, hfsm, hstate, hhooks⟩ := fsm_disabled o s (true || i.passed)
    rw [hfsm]
    refine ⟨s', _, rfl, hstate, hall hhooks _ ?_⟩
    split
    · exact Or.inl rfl
    · exact Or.inr rfl
  | false =>
    obtain ⟨s', effects, hfsm, hmoves, hhooks⟩ := fsm_enabled o s i.passed
    rw [Bool.false_or, hfsm]
    refine ⟨s', _, rfl, hmoves, hall hhooks _ ?_⟩
    split
    · exact Or.inl rfl
    · exact Or.inr rfl

private theorem counted_disabled (o : Options) (hist : List Check) (s : Loop)
    (h : s.state = .disabled) : Counted o hist s := by
  apply counted_of_not_pending
  intro b
  rw [h]
  exact disabled_ne_pending b

/-- An iteration keeps the count, whatever it finds. -/
theorem iterate_counted (o : Options) (hist : List Check) (s : Loop) (i : Check)
    (hc : Counted o hist s) :
    ∃ s' effects, iterate o s i = .ok (s', effects) ∧ Counted o (i :: hist) s' := by
  obtain ⟨s', effects, hiter, hcase, -⟩ := iterate_spec o s i
  refine ⟨s', effects, hiter, ?_⟩
  split at hcase
  · exact counted_disabled o _ s' hcase
  · next hd =>
    exact hcase.counted ⟨isDisabled_eq_false.mp ((Bool.not_eq_true _).mp hd), rfl⟩ hc

/-- No run fails, and every state reached has its checks counted. -/
theorem loop_counted (o : Options) (hist : List Check) :
    ∃ s outs, loop o hist = .ok (s, outs) ∧ Counted o hist s := by
  apply Machine.run_rule (fun hist s _ ↦ Counted o hist s)
  · exact counted_of_not_pending o [] _ init_ne_pending
  · intro hist s outs i _ hc
    exact iterate_counted o hist s i hc

/-- Checks in a row, all enabled and with the same result, lead to UP or DOWN. -/
theorem loop_progress (o : Options) (b : Bool) (hist js : List Check) (s : Loop)
    (outs : List Effect) (hrun : loop o hist = .ok (s, outs)) (hc : Counted o hist s)
    (hjs : ∀ j ∈ js, Enabled o b j) :
    ∃ t outs', loop o (js ++ hist) = .ok (t, outs') ∧ Counted o (js ++ hist) t ∧
      remaining o b t ≤ remaining o b s - js.length := by
  induction js with
  | nil => exact ⟨s, outs, hrun, hc, Nat.le_refl _⟩
  | cons j js ih =>
    obtain ⟨t, outs', ht, hct, hle⟩ := ih fun x hx ↦ hjs x (List.mem_cons_of_mem j hx)
    obtain ⟨hd, hb⟩ := hjs j List.mem_cons_self
    obtain ⟨t', effects, hiter, hcase, -⟩ := iterate_spec o t j
    rw [isDisabled_eq_false.mpr hd, if_neg Bool.false_ne_true, hb] at hcase
    refine ⟨t', outs' ++ effects, Machine.run_cons ht hiter, hcase.counted ⟨hd, hb⟩ hct, ?_⟩
    have hnear := hcase.remaining_le
    rw [List.length_cons]
    omega

private theorem remaining_le_needed (o : Options) (b : Bool) (hist : List Check) (s : Loop)
    (hc : Counted o hist s) : remaining o b s ≤ 1 + needed o b := by
  unfold remaining
  split
  · exact Nat.zero_le _
  · split
    · next hs =>
      have hpos := (hc b hs).1
      unfold needed
      omega
    · split <;> omega

/-- The state machine over any run: it never fails; the disable file leads to DISABLED; UP and
DOWN are entered after enough checks in a row, and always after one more; hooks run when the
state changes, with the new state, and at no other time. -/
theorem loop_fsm (o : Options) (hist : List Check) (i : Check) :
    ∃ s outs s' effects,
      loop o hist = .ok (s, outs) ∧ iterate o s i = .ok (s', effects) ∧
      loop o (i :: hist) = .ok (s', outs ++ effects) ∧
      (o.disable.isSome = true → i.fileExists = true → s'.state = .disabled) ∧
      (s'.state = .up → s.state ≠ .up →
        Machine.Streak (Enabled o true) (max 1 o.rise).toNat (i :: hist)) ∧
      (s'.state = .down → s.state ≠ .down →
        Machine.Streak (Enabled o false) (max 1 o.fall).toNat (i :: hist)) ∧
      (∀ js, js.length = 1 + (max 1 o.rise).toNat → (∀ j ∈ js, Enabled o true j) →
        ∃ t outs', loop o (js ++ hist) = .ok (t, outs') ∧ t.state = .up) ∧
      (∀ js, js.length = 1 + (max 1 o.fall).toNat → (∀ j ∈ js, Enabled o false j) →
        ∃ t outs', loop o (js ++ hist) = .ok (t, outs') ∧ t.state = .down) ∧
      hooks effects = if s'.state = s.state then []
        else (commandsFor o s'.state).map (·, s'.state) := by
  obtain ⟨s, outs, hrun, hc⟩ := loop_counted o hist
  obtain ⟨s', effects, hiter, hcase, hhooks⟩ := iterate_spec o s i
  have hentered (b : Bool) (hs' : s'.state = settled b) (hs : s.state ≠ settled b) :
      Machine.Streak (Enabled o b) (needed o b) (i :: hist) := by
    split at hcase
    · rw [hcase] at hs'
      cases b <;> cases hs'
    · next hd =>
      exact hcase.streak ⟨isDisabled_eq_false.mp ((Bool.not_eq_true _).mp hd), rfl⟩ hc hs' hs
  have hleads (b : Bool) (js : List Check) (hlen : js.length = 1 + needed o b)
      (hjs : ∀ j ∈ js, Enabled o b j) :
      ∃ t outs', loop o (js ++ hist) = .ok (t, outs') ∧ t.state = settled b := by
    obtain ⟨t, outs', ht, hct, hle⟩ := loop_progress o b hist js s outs hrun hc hjs
    have hmost := remaining_le_needed o b hist s hc
    exact ⟨t, outs', ht, state_of_remaining hct (by omega)⟩
  refine ⟨s, outs, s', effects, hrun, hiter, Machine.run_cons hrun hiter, ?_, hentered true,
    hentered false, hleads true, hleads false, hhooks⟩
  intro hgiven hexists
  have hd : isDisabled o i = true := Bool.and_eq_true_iff.mpr ⟨hgiven, hexists⟩
  rw [if_pos hd] at hcase
  exact hcase

end NetworkLab.Exabgp
