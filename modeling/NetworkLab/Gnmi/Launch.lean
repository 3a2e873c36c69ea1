import NetworkLab.Lib.Pipe

/-!
# The launcher

`launch` of `clab-gnmi/setup.py:345–401` from the fork on. The parent maps the ids and runs
pasta, the child unshares its namespaces, and the grandchild enters them. A step that
raises ends its process. What the mapping tools do is left out but for their success.
-/

namespace NetworkLab.Gnmi

open Lib

/-- The processes of a launch. -/
inductive Process where
  | parent
  | child
  | grandchild
  deriving DecidableEq, Repr

/-- The next statement of the parent, `:353–382`. A call is started and then returns. -/
inductive ParentPc where
  | closeReadyW
  | closeGoR
  | readReady
  | mapUid
  | mapUidReturns
  | mapGid
  | mapGidReturns
  | pasta
  | pastaReturns
  | writeGo
  | closeGoW
  | waitChild
  | exited
  deriving DecidableEq, Repr

/-- The next statement of the child, `:386–399`. -/
inductive ChildPc where
  | closeReadyR
  | closeGoW
  | unshare
  | writeReady
  | closeReadyW
  | readGo
  | closeGoR
  | fork
  | waitGrand
  | exited
  deriving DecidableEq, Repr

/-- The grandchild, `:396–401`. -/
inductive GrandPc where
  | unborn
  | forked
  | enterNamespace
  | exited
  deriving DecidableEq, Repr

/-- Which of the steps that may raise do so when they are executed. -/
structure Failures where
  unshare : Bool
  mapUid : Bool
  mapGid : Bool
  pasta : Bool
  deriving DecidableEq, Repr

/-- The processes, the two pipes and what has been achieved. -/
structure Launch where
  parent : ParentPc
  child : ChildPc
  grand : GrandPc
  ready : Pipe Process
  go : Pipe Process
  unshared : Bool
  mapIdsCalled : Bool
  uidMapped : Bool
  gidMapped : Bool
  networked : Bool
  deriving DecidableEq

/-- A pipe after the first fork: both processes hold both ends. -/
def forkedPipe : Pipe Process :=
  { bytes := 0, readers := [.parent, .child], writers := [.parent, .child] }

/-- The state after the first fork, `:345–348`. -/
def Launch.init : Launch where
  parent := .closeReadyW
  child := .closeReadyR
  grand := .unborn
  ready := forkedPipe
  go := forkedPipe
  unshared := false
  mapIdsCalled := false
  uidMapped := false
  gidMapped := false
  networked := false

/-- The parent raises or ends, which closes its ends of the pipes. -/
def Launch.exitParent (s : Launch) : Launch :=
  { s with parent := .exited, ready := s.ready.exit .parent, go := s.go.exit .parent }

/-- The child raises or ends. -/
def Launch.exitChild (s : Launch) : Launch :=
  { s with child := .exited, ready := s.ready.exit .child, go := s.go.exit .child }

/-- One step of the parent. It looks at no result of a read. -/
def Launch.stepParent (F : Failures) (s : Launch) : Option Launch :=
  match s.parent with
  | .closeReadyW => some { s with parent := .closeGoR, ready := s.ready.closeWrite .parent }
  | .closeGoR => some { s with parent := .readReady, go := s.go.closeRead .parent }
  | .readReady => s.ready.read.map fun p ↦ { s with parent := .mapUid, ready := p }
  | .mapUid => some { s with parent := .mapUidReturns, mapIdsCalled := true }
  | .mapUidReturns =>
    if F.mapUid then some s.exitParent
    else some { s with parent := .mapGid, uidMapped := true }
  | .mapGid => some { s with parent := .mapGidReturns, mapIdsCalled := true }
  | .mapGidReturns =>
    if F.mapGid then some s.exitParent
    else some { s with parent := .pasta, gidMapped := true }
  | .pasta => some { s with parent := .pastaReturns }
  | .pastaReturns =>
    if F.pasta then some s.exitParent
    else some { s with parent := .writeGo, networked := true }
  | .writeGo =>
    match s.go.write with
    | none => some s.exitParent
    | some p => some { s with parent := .closeGoW, go := p }
  | .closeGoW => some { s with parent := .waitChild, go := s.go.closeWrite .parent }
  | .waitChild => if s.child = .exited then some s.exitParent else none
  | .exited => none

/-- One step of the child. It looks at no result of a read either. -/
def Launch.stepChild (F : Failures) (s : Launch) : Option Launch :=
  match s.child with
  | .closeReadyR => some { s with child := .closeGoW, ready := s.ready.closeRead .child }
  | .closeGoW => some { s with child := .unshare, go := s.go.closeWrite .child }
  | .unshare =>
    if F.unshare then some s.exitChild
    else some { s with child := .writeReady, unshared := true }
  | .writeReady =>
    match s.ready.write with
    | none => some s.exitChild
    | some p => some { s with child := .closeReadyW, ready := p }
  | .closeReadyW => some { s with child := .readGo, ready := s.ready.closeWrite .child }
  | .readGo => s.go.read.map fun p ↦ { s with child := .closeGoR, go := p }
  | .closeGoR => some { s with child := .fork, go := s.go.closeRead .child }
  | .fork =>
    some { s with
      child := .waitGrand, grand := .forked
      ready := s.ready.fork .child .grandchild, go := s.go.fork .child .grandchild }
  | .waitGrand => if s.grand = .exited then some s.exitChild else none
  | .exited => none

/-- One step of the grandchild, which enters the namespaces and ends at some time. -/
def Launch.stepGrand (s : Launch) : Option Launch :=
  match s.grand with
  | .unborn => none
  | .forked => some { s with grand := .enterNamespace }
  | .enterNamespace =>
    some { s with
      grand := .exited
      ready := s.ready.exit .grandchild, go := s.go.exit .grandchild }
  | .exited => none

/-- One step of a process, `none` while it blocks or when it has ended. -/
def Launch.step (F : Failures) (s : Launch) : Process → Option Launch
  | .parent => s.stepParent F
  | .child => s.stepChild F
  | .grandchild => s.stepGrand

/-- The state after a schedule of the processes. -/
def launch (F : Failures) (ps : List Process) : Launch := schedule (Launch.step F) .init ps

end NetworkLab.Gnmi
