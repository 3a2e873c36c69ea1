import NetworkLab.Gnmi.Launch

/-!
# The handshake of the launcher

Whether the ids are mapped only after the child has unshared, and the namespaces entered
only once they are ready, `clab-gnmi/setup.py:345–401`. Both sides ignore what their read
returns, and a process that raises closes its end, which lets the other one go on.
-/

namespace NetworkLab.Gnmi

open Lib

/-- The child's namespaces are ready: both id ranges are mapped and pasta has run. -/
def Launch.Ready (s : Launch) : Prop :=
  s.uidMapped = true ∧ s.gidMapped = true ∧ s.networked = true

/-- What the two pipes are for: the grandchild enters ready namespaces only, and the
parent maps the ids of an unshared child only. -/
def Handshake (s : Launch) : Prop :=
  (s.grand = .enterNamespace → s.Ready) ∧ (s.mapIdsCalled = true → s.unshared = true)

instance (s : Launch) : Decidable s.Ready :=
  inferInstanceAs (Decidable (s.uidMapped = true ∧ s.gidMapped = true ∧ s.networked = true))

instance (s : Launch) : Decidable (Handshake s) :=
  inferInstanceAs (Decidable ((s.grand = .enterNamespace → s.Ready) ∧
    (s.mapIdsCalled = true → s.unshared = true)))

/-- No step fails. -/
def noFailure : Failures := ⟨false, false, false, false⟩

/-- The parent has read from the ready pipe. -/
def ParentPc.pastReady : ParentPc → Bool
  | .closeReadyW | .closeGoR | .readReady => false
  | _ => true

/-- The uid range is mapped, as far as the parent got. -/
def ParentPc.pastUid : ParentPc → Bool
  | .closeReadyW | .closeGoR | .readReady | .mapUid | .mapUidReturns => false
  | _ => true

/-- The gid range is mapped, as far as the parent got. -/
def ParentPc.pastGid : ParentPc → Bool
  | .pasta | .pastaReturns | .writeGo | .closeGoW | .waitChild | .exited => true
  | _ => false

/-- Pasta has run, as far as the parent got. -/
def ParentPc.pastPasta : ParentPc → Bool
  | .writeGo | .closeGoW | .waitChild | .exited => true
  | _ => false

/-- The parent still has its write end of the go pipe. -/
def ParentPc.holdsGo : ParentPc → Bool
  | .waitChild | .exited => false
  | _ => true

/-- The child has unshared. -/
def ChildPc.pastUnshare : ChildPc → Bool
  | .closeReadyR | .closeGoW | .unshare => false
  | _ => true

/-- The child still has its write end of the ready pipe. -/
def ChildPc.holdsReady : ChildPc → Bool
  | .closeReadyR | .closeGoW | .unshare | .writeReady | .closeReadyW => true
  | _ => false

/-- The child has read from the go pipe and goes on. -/
def ChildPc.pastGo : ChildPc → Bool
  | .closeGoR | .fork | .waitGrand => true
  | _ => false

/-- What the launch without failures keeps. An end of a pipe is held until its owner has
done what the reader waits for, so neither read returns too early. -/
structure Synchronised (s : Launch) : Prop where
  pastReady : s.parent.pastReady = true → s.unshared = true
  pastUnshare : s.child.pastUnshare = true → s.unshared = true
  readyByte : 0 < s.ready.bytes → s.unshared = true
  holdsReady : s.child.holdsReady = true → .child ∈ s.ready.writers
  called : s.mapIdsCalled = true → s.unshared = true
  pastUid : s.parent.pastUid = true → s.uidMapped = true
  pastGid : s.parent.pastGid = true → s.gidMapped = true
  pastPasta : s.parent.pastPasta = true → s.networked = true
  goByte : 0 < s.go.bytes → s.Ready
  holdsGo : s.parent.holdsGo = true → .parent ∈ s.go.writers
  pastGo : s.child.pastGo = true → s.Ready
  born : s.grand ≠ .unborn → s.Ready

private theorem synchronised_init : Synchronised .init where
  pastReady := nofun
  pastUnshare := nofun
  readyByte := nofun
  holdsReady := fun _ ↦ List.mem_cons_of_mem _ List.mem_cons_self
  called := nofun
  pastUid := nofun
  pastGid := nofun
  pastPasta := nofun
  goByte := nofun
  holdsGo := fun _ ↦ List.mem_cons_self
  pastGo := nofun
  born := fun h ↦ absurd rfl h

-- A child without its write end is past the unsharing.
private theorem pastUnshare_of_not_holdsReady (c : ChildPc) (h : c.holdsReady ≠ true) :
    c.pastUnshare = true := by
  cases c <;> first | rfl | exact absurd rfl h

-- A parent without its write end has run pasta.
private theorem pastPasta_of_not_holdsGo (c : ParentPc) (h : c.holdsGo ≠ true) :
    c.pastUid = true ∧ c.pastGid = true ∧ c.pastPasta = true := by
  cases c <;> first | exact ⟨rfl, rfl, rfl⟩ | exact absurd rfl h

/-- A read of the ready pipe returns only after the child has unshared. -/
theorem Synchronised.unshared_of_read {s : Launch} {p : Pipe Process} (h : Synchronised s)
    (hread : s.ready.read = some p) : s.unshared = true := by
  obtain ⟨hbyte | hnil, -, -⟩ := Pipe.read_eq_some hread
  · exact h.readyByte hbyte
  · apply h.pastUnshare
    apply pastUnshare_of_not_holdsReady
    intro hholds
    have hmem := h.holdsReady hholds
    rw [hnil] at hmem
    cases hmem

/-- A read of the go pipe returns only once the namespaces are ready. -/
theorem Synchronised.ready_of_read {s : Launch} {p : Pipe Process} (h : Synchronised s)
    (hread : s.go.read = some p) : s.Ready := by
  obtain ⟨hbyte | hnil, -, -⟩ := Pipe.read_eq_some hread
  · exact h.goByte hbyte
  · have hnot : s.parent.holdsGo ≠ true := by
      intro hholds
      have hmem := h.holdsGo hholds
      rw [hnil] at hmem
      cases hmem
    obtain ⟨huid, hgid, hpasta⟩ := pastPasta_of_not_holdsGo s.parent hnot
    exact ⟨h.pastUid huid, h.pastGid hgid, h.pastPasta hpasta⟩

-- Only a parent that is done exits: it holds no write end, and everything is ready.
private theorem Synchronised.exitParent {s : Launch} (h : Synchronised s)
    (hunshared : s.unshared = true) (hready : s.Ready) : Synchronised s.exitParent :=
  { h with
    pastReady := fun _ ↦ hunshared
    pastUid := fun _ ↦ hready.1
    pastGid := fun _ ↦ hready.2.1
    pastPasta := fun _ ↦ hready.2.2
    holdsReady := fun hc ↦ Pipe.mem_writers_exit (h.holdsReady hc) Process.noConfusion
    holdsGo := nofun }

-- Only a child that has unshared exits.
private theorem Synchronised.exitChild {s : Launch} (h : Synchronised s)
    (hunshared : s.unshared = true) : Synchronised s.exitChild :=
  { h with
    pastUnshare := fun _ ↦ hunshared
    holdsReady := nofun
    holdsGo := fun hc ↦ Pipe.mem_writers_exit (h.holdsGo hc) Process.noConfusion
    pastGo := nofun }

/-- A step of the parent keeps the launch synchronised. -/
theorem Synchronised.stepParent {s s' : Launch} (h : Synchronised s)
    (hstep : s.stepParent noFailure = some s') : Synchronised s' := by
  obtain ⟨parent, child, grand, ready, go, unshared, called, uid, gid, networked⟩ := s
  cases parent with
  | closeReadyW =>
    obtain rfl := Option.some.inj hstep
    exact { h with
      pastReady := nofun, pastUid := nofun, pastGid := nofun, pastPasta := nofun
      holdsReady := fun hc ↦ Pipe.mem_writers_closeWrite (h.holdsReady hc) Process.noConfusion
      holdsGo := fun _ ↦ h.holdsGo rfl }
  | closeGoR =>
    obtain rfl := Option.some.inj hstep
    exact { h with
      pastReady := nofun, pastUid := nofun, pastGid := nofun, pastPasta := nofun
      holdsGo := fun _ ↦ h.holdsGo rfl }
  | readReady =>
    obtain ⟨p, hread, rfl⟩ := Option.map_eq_some_iff.mp hstep
    obtain ⟨-, hbytes, hwriters⟩ := Pipe.read_eq_some hread
    exact { h with
      pastReady := fun _ ↦ h.unshared_of_read hread
      readyByte := fun hb ↦ h.readyByte (Nat.lt_of_lt_of_le hb hbytes)
      holdsReady := fun hc ↦ hwriters ▸ h.holdsReady hc
      pastUid := nofun, pastGid := nofun, pastPasta := nofun
      holdsGo := fun _ ↦ h.holdsGo rfl }
  | mapUid =>
    obtain rfl := Option.some.inj hstep
    exact { h with
      pastReady := fun _ ↦ h.pastReady rfl, called := fun _ ↦ h.pastReady rfl
      pastUid := nofun, pastGid := nofun, pastPasta := nofun
      holdsGo := fun _ ↦ h.holdsGo rfl }
  | mapUidReturns =>
    obtain rfl := Option.some.inj hstep
    exact { h with
      pastReady := fun _ ↦ h.pastReady rfl
      pastUid := fun _ ↦ rfl, pastGid := nofun, pastPasta := nofun
      goByte := fun hb ↦ ⟨rfl, (h.goByte hb).2⟩
      pastGo := fun hc ↦ ⟨rfl, (h.pastGo hc).2⟩
      born := fun hg ↦ ⟨rfl, (h.born hg).2⟩
      holdsGo := fun _ ↦ h.holdsGo rfl }
  | mapGid =>
    obtain rfl := Option.some.inj hstep
    exact { h with
      pastReady := fun _ ↦ h.pastReady rfl, called := fun _ ↦ h.pastReady rfl
      pastUid := fun _ ↦ h.pastUid rfl, pastGid := nofun, pastPasta := nofun
      holdsGo := fun _ ↦ h.holdsGo rfl }
  | mapGidReturns =>
    obtain rfl := Option.some.inj hstep
    exact { h with
      pastReady := fun _ ↦ h.pastReady rfl
      pastUid := fun _ ↦ h.pastUid rfl, pastGid := fun _ ↦ rfl, pastPasta := nofun
      goByte := fun hb ↦ ⟨(h.goByte hb).1, rfl, (h.goByte hb).2.2⟩
      pastGo := fun hc ↦ ⟨(h.pastGo hc).1, rfl, (h.pastGo hc).2.2⟩
      born := fun hg ↦ ⟨(h.born hg).1, rfl, (h.born hg).2.2⟩
      holdsGo := fun _ ↦ h.holdsGo rfl }
  | pasta =>
    obtain rfl := Option.some.inj hstep
    exact { h with
      pastReady := fun _ ↦ h.pastReady rfl
      pastUid := fun _ ↦ h.pastUid rfl, pastGid := fun _ ↦ h.pastGid rfl, pastPasta := nofun
      holdsGo := fun _ ↦ h.holdsGo rfl }
  | pastaReturns =>
    obtain rfl := Option.some.inj hstep
    exact { h with
      pastReady := fun _ ↦ h.pastReady rfl
      pastUid := fun _ ↦ h.pastUid rfl, pastGid := fun _ ↦ h.pastGid rfl
      pastPasta := fun _ ↦ rfl
      goByte := fun hb ↦ ⟨(h.goByte hb).1, (h.goByte hb).2.1, rfl⟩
      pastGo := fun hc ↦ ⟨(h.pastGo hc).1, (h.pastGo hc).2.1, rfl⟩
      born := fun hg ↦ ⟨(h.born hg).1, (h.born hg).2.1, rfl⟩
      holdsGo := fun _ ↦ h.holdsGo rfl }
  | writeGo =>
    -- The write may fail if the child is gone, but by now everything is ready.
    have hready : uid = true ∧ gid = true ∧ networked = true :=
      ⟨h.pastUid rfl, h.pastGid rfl, h.pastPasta rfl⟩
    dsimp only [Launch.stepParent] at hstep
    split at hstep
    · obtain rfl := Option.some.inj hstep
      exact h.exitParent (h.pastReady rfl) hready
    · next p hwrite =>
      obtain rfl := Option.some.inj hstep
      exact { h with
        pastReady := fun _ ↦ h.pastReady rfl
        pastUid := fun _ ↦ hready.1, pastGid := fun _ ↦ hready.2.1
        pastPasta := fun _ ↦ hready.2.2
        goByte := fun _ ↦ hready
        holdsGo := fun _ ↦ Pipe.writers_write hwrite ▸ h.holdsGo rfl }
  | closeGoW =>
    obtain rfl := Option.some.inj hstep
    exact { h with
      pastReady := fun _ ↦ h.pastReady rfl
      pastUid := fun _ ↦ h.pastUid rfl, pastGid := fun _ ↦ h.pastGid rfl
      pastPasta := fun _ ↦ h.pastPasta rfl
      holdsGo := nofun }
  | waitChild =>
    dsimp only [Launch.stepParent] at hstep
    split at hstep
    · obtain rfl := Option.some.inj hstep
      exact h.exitParent (h.pastReady rfl) ⟨h.pastUid rfl, h.pastGid rfl, h.pastPasta rfl⟩
    · cases hstep
  | exited => cases hstep

/-- A step of the child keeps the launch synchronised. -/
theorem Synchronised.stepChild {s s' : Launch} (h : Synchronised s)
    (hstep : s.stepChild noFailure = some s') : Synchronised s' := by
  obtain ⟨parent, child, grand, ready, go, unshared, called, uid, gid, networked⟩ := s
  cases child with
  | closeReadyR =>
    obtain rfl := Option.some.inj hstep
    exact { h with
      pastUnshare := nofun, pastGo := nofun
      holdsReady := fun _ ↦ h.holdsReady rfl }
  | closeGoW =>
    obtain rfl := Option.some.inj hstep
    exact { h with
      pastUnshare := nofun, pastGo := nofun
      holdsReady := fun _ ↦ h.holdsReady rfl
      holdsGo := fun hc ↦ Pipe.mem_writers_closeWrite (h.holdsGo hc) Process.noConfusion }
  | unshare =>
    obtain rfl := Option.some.inj hstep
    exact { h with
      pastReady := fun _ ↦ rfl, pastUnshare := fun _ ↦ rfl
      readyByte := fun _ ↦ rfl, called := fun _ ↦ rfl, pastGo := nofun
      holdsReady := fun _ ↦ h.holdsReady rfl }
  | writeReady =>
    dsimp only [Launch.stepChild] at hstep
    split at hstep
    · obtain rfl := Option.some.inj hstep
      exact h.exitChild (h.pastUnshare rfl)
    · next p hwrite =>
      obtain rfl := Option.some.inj hstep
      exact { h with
        pastUnshare := fun _ ↦ h.pastUnshare rfl
        readyByte := fun _ ↦ h.pastUnshare rfl
        holdsReady := fun _ ↦ Pipe.writers_write hwrite ▸ h.holdsReady rfl
        pastGo := nofun }
  | closeReadyW =>
    obtain rfl := Option.some.inj hstep
    exact { h with
      pastUnshare := fun _ ↦ h.pastUnshare rfl
      holdsReady := nofun, pastGo := nofun }
  | readGo =>
    obtain ⟨p, hread, rfl⟩ := Option.map_eq_some_iff.mp hstep
    obtain ⟨-, hbytes, hwriters⟩ := Pipe.read_eq_some hread
    exact { h with
      pastUnshare := fun _ ↦ h.pastUnshare rfl
      holdsReady := nofun
      goByte := fun hb ↦ h.goByte (Nat.lt_of_lt_of_le hb hbytes)
      holdsGo := fun hc ↦ hwriters ▸ h.holdsGo hc
      pastGo := fun _ ↦ h.ready_of_read hread }
  | closeGoR =>
    obtain rfl := Option.some.inj hstep
    exact { h with
      pastUnshare := fun _ ↦ h.pastUnshare rfl
      holdsReady := nofun
      pastGo := fun _ ↦ h.pastGo rfl }
  | fork =>
    obtain rfl := Option.some.inj hstep
    exact { h with
      pastUnshare := fun _ ↦ h.pastUnshare rfl
      holdsReady := nofun
      holdsGo := fun hc ↦ Pipe.mem_writers_fork (h.holdsGo hc)
      pastGo := fun _ ↦ h.pastGo rfl
      born := fun _ ↦ h.pastGo rfl }
  | waitGrand =>
    dsimp only [Launch.stepChild] at hstep
    split at hstep
    · obtain rfl := Option.some.inj hstep
      exact h.exitChild (h.pastUnshare rfl)
    · cases hstep
  | exited => cases hstep

/-- A step of the grandchild keeps the launch synchronised. -/
theorem Synchronised.stepGrand {s s' : Launch} (h : Synchronised s)
    (hstep : s.stepGrand = some s') : Synchronised s' := by
  obtain ⟨parent, child, grand, ready, go, unshared, called, uid, gid, networked⟩ := s
  cases grand with
  | unborn => cases hstep
  | forked =>
    obtain rfl := Option.some.inj hstep
    exact { h with born := fun _ ↦ h.born GrandPc.noConfusion }
  | enterNamespace =>
    obtain rfl := Option.some.inj hstep
    exact { h with
      holdsReady := fun hc ↦ Pipe.mem_writers_exit (h.holdsReady hc) Process.noConfusion
      holdsGo := fun hc ↦ Pipe.mem_writers_exit (h.holdsGo hc) Process.noConfusion
      born := fun _ ↦ h.born GrandPc.noConfusion }
  | exited => cases hstep

/-- A launch in which nothing fails stays synchronised under every schedule. -/
theorem launch_synchronised (ps : List Process) : Synchronised (launch noFailure ps) := by
  apply schedule_invariant
  · intro s p s' hstep h
    cases p with
    | parent => exact h.stepParent hstep
    | child => exact h.stepChild hstep
    | grandchild => exact h.stepGrand hstep
  · exact synchronised_init

/-- The child runs to its read, then the parent to its end, then the child goes on. -/
def failingSchedule : List Process :=
  List.replicate 5 .child ++ List.replicate 12 .parent ++ List.replicate 3 .child ++ [.grandchild]

/-- The handshake holds under every schedule exactly when no step fails. -/
theorem launch_handshake_iff (F : Failures) :
    (∀ ps, Handshake (launch F ps)) ↔ F = noFailure := by
  constructor
  · intro hall
    have h := hall failingSchedule
    revert h
    obtain ⟨unshare, mapUid, mapGid, pasta⟩ := F
    cases unshare <;> cases mapUid <;> cases mapGid <;> cases pasta <;> decide
  · rintro rfl ps
    have h := launch_synchronised ps
    refine ⟨?_, h.called⟩
    intro hentered
    apply h.born
    rw [hentered]
    exact GrandPc.noConfusion

/-- If mapping the gids fails, the parent exits and the end of file on the go pipe lets the
grandchild enter namespaces that are not ready; if the unsharing fails, the parent maps the
ids all the same. -/
theorem launch_handshake_broken :
    (launch ⟨false, false, true, false⟩ failingSchedule).grand = .enterNamespace ∧
      ¬ Handshake (launch ⟨false, false, true, false⟩ failingSchedule) ∧
      (launch ⟨true, false, false, false⟩ failingSchedule).mapIdsCalled = true ∧
      ¬ Handshake (launch ⟨true, false, false, false⟩ failingSchedule) := by
  decide

end NetworkLab.Gnmi
