import NetworkLab.Lib.Loop
import Mathlib.Data.UInt

/-!
# The walk of the IPv6 routing tree

`collect_depth` of `lab-routes-ipv6/2026/kbench_mod.c:129–207`, the same as
`lab-routes-ipv6/kbench_mod.c:126–204`, over a memory of `fib6_node` structures. A label
that falls through assigns the state of the next label first, so one step is one label. The
moves of the walk and the nodes that it counts are logged with the depth, newest first. The
warning about a subtree without `RTN_ROOT` is left out.
-/

namespace NetworkLab.Kbench.Ipv6.Fib6

open Lib

/-- A pointer; zero is null. -/
abbrev Addr := UInt64

/-- `struct fib6_node`, as far as the walk looks at it. -/
structure Node where
  parent : Addr
  left : Addr
  right : Addr
  subtree : Addr
  leaf : Addr
  fnFlags : UInt16

/-- What the kernel build fixes: `CONFIG_IPV6_SUBTREES` and the flag `RTN_RTINFO`. -/
structure Build where
  subtrees : Bool
  rtnRtinfo : UInt16

/-- The nodes in memory. Reading anywhere else is a fault. -/
abbrev Memory := Addr → Option Node

/-- `enum fib6_walk_state`. -/
inductive State where
  | s
  | l
  | r
  | c
  | u
  deriving DecidableEq, Repr

/-- `FWS_INIT`, `:123–127`. -/
def Build.fwsInit (b : Build) : State := if b.subtrees then .s else .l

/-- `FIB6_SUBTREE`, null without the option. -/
def Build.subtree (b : Build) (fn : Node) : Addr := if b.subtrees then fn.subtree else 0

/-- A node that the walk counts: one with a leaf and `RTN_RTINFO`. -/
def Build.Carries (b : Build) (fn : Node) : Prop := fn.leaf ≠ 0 ∧ fn.fnFlags &&& b.rtnRtinfo ≠ 0

instance (b : Build) (fn : Node) : Decidable (b.Carries fn) := inferInstanceAs (Decidable (_ ∧ _))

/-- What the walk does: it goes down to a node, counts it, or goes back up to it, where
`depth` is what `depth--` was applied to. -/
inductive Event where
  | enter (node : Addr) (depth : UInt64)
  | counted (node : Addr) (depth : UInt64)
  | back (node : Addr) (before depth : UInt64)
  deriving DecidableEq

/-- The counters of the walk. -/
structure Totals where
  depth : UInt64
  totdepth : UInt64
  count : UInt32
  maxdepth : UInt64
  log : List Event

/-- The locals of the walk. -/
structure Walk where
  node : Addr
  state : State
  leaf : Addr
  totals : Totals

/-- `node = child`, with the depth of the child. -/
def Totals.enter (t : Totals) (child : Addr) (depth : UInt64) : Totals :=
  { t with depth, log := .enter child depth :: t.log }

/-- `node = pn; depth--`. -/
def Totals.back (t : Totals) (pn : Addr) : Totals :=
  { t with depth := t.depth - 1, log := .back pn t.depth (t.depth - 1) :: t.log }

/-- The counting of a node, `:177–180`. -/
def Totals.counted (t : Totals) (fn : Addr) : Totals :=
  { t with
    totdepth := t.totdepth + t.depth
    count := t.count + 1
    maxdepth := if t.maxdepth < t.depth then t.depth else t.maxdepth
    log := .counted fn t.depth :: t.log }

variable (b : Build) (mem : Memory) (root : Addr)

/-- The labels of the switch for a node, `:146–203`. -/
def Walk.switch (fn : Node) (w : Walk) : Loop.Outcome Walk :=
  match w.state with
  | .s =>
    if b.subtrees then
      if fn.subtree ≠ 0 then
        .goOn { w with node := fn.subtree, totals := w.totals.enter fn.subtree w.totals.depth }
      else .goOn { w with state := .l }
    else .goOn w
  | .l =>
    if fn.left ≠ 0 then
      .goOn { w with
        node := fn.left, state := b.fwsInit
        totals := w.totals.enter fn.left (w.totals.depth + 1) }
    else .goOn { w with state := .r }
  | .r =>
    if fn.right ≠ 0 then
      .goOn { w with
        node := fn.right, state := b.fwsInit
        totals := w.totals.enter fn.right (w.totals.depth + 1) }
    else .goOn { w with state := .c, leaf := fn.leaf }
  | .c =>
    if w.leaf ≠ 0 ∧ fn.fnFlags &&& b.rtnRtinfo ≠ 0 then
      .goOn { w with leaf := 0, totals := w.totals.counted w.node }
    else .goOn { w with state := .u }
  | .u =>
    if w.node = root then .leave w
    else
      match mem fn.parent with
      | none => .fault
      | some pn =>
        let up := { w with node := fn.parent, totals := w.totals.back fn.parent }
        if b.subtrees ∧ pn.subtree = w.node then .goOn { up with state := .l }
        else if pn.left = w.node then .goOn { up with state := .r }
        else if pn.right = w.node then .goOn { up with state := .c, leaf := pn.leaf }
        else .goOn up

/-- One pass of the loop, `:143–204`. -/
def Walk.step (w : Walk) : Loop.Outcome Walk :=
  if w.node = 0 then .leave w
  else
    match mem w.node with
    | none => .fault
    | some fn => w.switch b mem root fn

/-- The start of the walk, `:140–142`. -/
def Walk.start : Walk where
  node := root
  state := b.fwsInit
  leaf := 0
  totals := { depth := 0, totdepth := 0, count := 0, maxdepth := 0, log := [.enter root 0] }

/-- The walk, for at most `fuel` steps. -/
def collectDepth (fuel : Nat) : Option Walk := Loop.run (Walk.step b mem root) fuel (.start b root)

/-- `*avgdepth`, `:206`. -/
def Walk.avgdepth (w : Walk) : UInt64 :=
  if 0 < w.totals.count then w.totals.totdepth * 10 / w.totals.count.toUInt64 else 0

/-! ### Trees in memory -/

/-- The pointers that the configuration looks at. -/
def children (fn : Node) : List Addr := [b.subtree fn, fn.left, fn.right]

/-- The nodes below a pointer. -/
inductive Reachable (p : Addr) : Addr → Prop where
  | here (h : p ≠ 0) : Reachable p p
  | child {n c : Addr} {fn : Node} (h : Reachable p n) (hn : mem n = some fn)
    (hc : c ∈ children b fn) (h0 : c ≠ 0) : Reachable p c

/-- The shape of a tree with the addresses of its nodes. -/
inductive Tree where
  | empty
  | node (addr : Addr) (sub left right : Tree)

/-- The addresses of a tree, a node before its children. -/
def Tree.nodes : Tree → List Addr
  | .empty => []
  | .node a s l r => a :: (s.nodes ++ l.nodes ++ r.nodes)

/-- A tree lies in memory at a pointer. -/
def Tree.At : Tree → Addr → Prop
  | .empty, p => p = 0
  | .node a s l r, p =>
    p = a ∧ a ≠ 0 ∧ ∃ fn, mem a = some fn ∧
      s.At (b.subtree fn) ∧ l.At fn.left ∧ r.At fn.right

/-- A finite tree of nodes at `root`, each in one place, whose children point back. -/
structure WellFormed : Prop where
  tree : ∃ t : Tree, t.At b mem root ∧ t.nodes.Nodup
  root_ne : root ≠ 0
  parents : ∀ n fn c fc, Reachable b mem root n → mem n = some fn → c ∈ children b fn →
    mem c = some fc → c ≠ 0 → fc.parent = n

/-- The address of the topmost node; null without one. -/
def Tree.addr : Tree → Addr
  | .empty => 0
  | .node a _ _ _ => a

/-- Every child of the tree points back to its parent. -/
def Tree.PointsBack : Tree → Prop
  | .empty => True
  | .node a s l r =>
    (∀ c ∈ [s, l, r], ∀ fc, mem c.addr = some fc → c.addr ≠ 0 → fc.parent = a) ∧
      s.PointsBack ∧ l.PointsBack ∧ r.PointsBack

variable {b mem root}

/-- A tree lies at its address. -/
theorem Tree.At.eq_addr {t : Tree} {p : Addr} (h : t.At b mem p) : p = t.addr := by
  cases t with
  | empty => exact h
  | node a s l r => exact h.1

/-- A memory holds one tree at a pointer. -/
theorem Tree.At.unique {t t' : Tree} {p : Addr} (h : t.At b mem p) (h' : t'.At b mem p) :
    t = t' := by
  induction t generalizing t' p with
  | empty =>
    cases t' with
    | empty => rfl
    | node a' s' l' r' => exact absurd (h'.1.symm.trans h) h'.2.1
  | node a s l r ihs ihl ihr =>
    cases t' with
    | empty => exact absurd (h.1.symm.trans h') h.2.1
    | node a' s' l' r' =>
      obtain ⟨rfl, _, fn, hfn, hs, hl, hr⟩ := h
      obtain ⟨rfl, _, fn', hfn', hs', hl', hr'⟩ := h'
      cases hfn.symm.trans hfn'
      rw [ihs hs hs', ihl hl hl', ihr hr hr']

/-- The topmost node is one of the nodes. -/
theorem Tree.addr_mem_nodes {t : Tree} (h : t.addr ≠ 0) : t.addr ∈ t.nodes := by
  cases t with
  | empty => exact absurd rfl h
  | node a s l r => exact List.mem_cons_self

/-- The children that a node of a tree points to are in the tree, and they point back if the
children of the tree do. -/
theorem Tree.At.child {t : Tree} {p : Addr} (h : t.At b mem p) {n c : Addr} {fn : Node}
    (hn : n ∈ t.nodes) (hfn : mem n = some fn) (hc : c ∈ children b fn) (h0 : c ≠ 0) :
    c ∈ t.nodes ∧ (t.PointsBack mem → ∀ fc, mem c = some fc → fc.parent = n) := by
  induction t generalizing p with
  | empty => simp [nodes] at hn
  | node a s l r ihs ihl ihr =>
    obtain ⟨_, _, fa, hfa, hs, hl, hr⟩ := h
    simp only [nodes, List.mem_cons, List.mem_append] at hn ⊢
    rcases hn with rfl | (hn | hn) | hn
    · cases hfa.symm.trans hfn
      simp only [children, List.mem_cons, List.not_mem_nil, or_false] at hc
      rw [hs.eq_addr, hl.eq_addr, hr.eq_addr] at hc
      have hback (d : Tree) (hd : d ∈ [s, l, r]) (hcd : c = d.addr) :
          (Tree.node n s l r).PointsBack mem → ∀ fc, mem c = some fc → fc.parent = n := by
        rintro ⟨hpoints, _⟩ fc hfc
        rw [hcd] at hfc h0
        exact hpoints d hd fc hfc h0
      rcases hc with hc | hc | hc
      · exact ⟨Or.inr (Or.inl (Or.inl (hc ▸ addr_mem_nodes (hc ▸ h0)))), hback s (by simp) hc⟩
      · exact ⟨Or.inr (Or.inl (Or.inr (hc ▸ addr_mem_nodes (hc ▸ h0)))), hback l (by simp) hc⟩
      · exact ⟨Or.inr (Or.inr (hc ▸ addr_mem_nodes (hc ▸ h0))), hback r (by simp) hc⟩
    · obtain ⟨hmem, hback⟩ := ihs hs hn
      exact ⟨Or.inr (Or.inl (Or.inl hmem)), fun hpoints ↦ hback hpoints.2.1⟩
    · obtain ⟨hmem, hback⟩ := ihl hl hn
      exact ⟨Or.inr (Or.inl (Or.inr hmem)), fun hpoints ↦ hback hpoints.2.2.1⟩
    · obtain ⟨hmem, hback⟩ := ihr hr hn
      exact ⟨Or.inr (Or.inr hmem), fun hpoints ↦ hback hpoints.2.2.2⟩

theorem Reachable.ne_zero {p n : Addr} (h : Reachable b mem p n) : p ≠ 0 := by
  induction h with
  | here h0 => exact h0
  | child _ _ _ _ ih => exact ih

theorem Reachable.trans {p q n : Addr} (hpq : Reachable b mem p q) (hqn : Reachable b mem q n) :
    Reachable b mem p n := by
  induction hqn with
  | here _ => exact hpq
  | child _ hn hc h0 ih => exact ih.child hn hc h0

/-- The nodes of a tree are those reachable from where it lies. -/
theorem Tree.At.mem_nodes_iff {t : Tree} {p : Addr} (h : t.At b mem p) (n : Addr) :
    n ∈ t.nodes ↔ Reachable b mem p n := by
  constructor
  · intro hn
    induction t generalizing p with
    | empty => simp [nodes] at hn
    | node a s l r ihs ihl ihr =>
      obtain ⟨rfl, ha, fn, hfn, hs, hl, hr⟩ := h
      have hchild {c : Addr} (hc : c ∈ children b fn) (hn : Reachable b mem c n) :
          Reachable b mem p n :=
        ((Reachable.here ha).child hfn hc hn.ne_zero).trans hn
      simp only [nodes, List.mem_cons, List.mem_append] at hn
      rcases hn with rfl | (hn | hn) | hn
      · exact .here ha
      · exact hchild (by simp [children]) (ihs hs hn)
      · exact hchild (by simp [children]) (ihl hl hn)
      · exact hchild (by simp [children]) (ihr hr hn)
  · intro hreach
    induction hreach with
    | here h0 =>
      rw [h.eq_addr] at h0 ⊢
      exact addr_mem_nodes h0
    | child _ hn hc h0 ih => exact (h.child ih hn hc h0).1

/-- Where every reachable child points back, the children of the tree do. -/
theorem Tree.At.pointsBack {t : Tree} {p : Addr} (h : t.At b mem p)
    (hback : ∀ n fn c fc, Reachable b mem p n → mem n = some fn → c ∈ children b fn →
      mem c = some fc → c ≠ 0 → fc.parent = n) : t.PointsBack mem := by
  induction t generalizing p with
  | empty => trivial
  | node a s l r ihs ihl ihr =>
    obtain ⟨rfl, ha, fn, hfn, hs, hl, hr⟩ := h
    have hbelow {q : Addr} (hq : q ∈ children b fn) : ∀ n fn' c fc, Reachable b mem q n →
        mem n = some fn' → c ∈ children b fn' → mem c = some fc → c ≠ 0 → fc.parent = n :=
      fun n fn' c fc hn ↦
        hback n fn' c fc (((Reachable.here ha).child hfn hq hn.ne_zero).trans hn)
    refine ⟨?_, ihs hs (hbelow (by simp [children])), ihl hl (hbelow (by simp [children])),
      ihr hr (hbelow (by simp [children]))⟩
    intro c hc fc hfc h0
    apply hback p fn c.addr fc (.here ha) hfn _ hfc h0
    simp only [List.mem_cons, List.not_mem_nil, or_false] at hc
    rcases hc with rfl | rfl | rfl
    · simp [children, hs.eq_addr]
    · simp [children, hl.eq_addr]
    · simp [children, hr.eq_addr]

/-- A well-formed memory holds a tree whose children point back. -/
theorem WellFormed.exists_tree (h : WellFormed b mem root) :
    ∃ t : Tree, t.At b mem root ∧ t.nodes.Nodup ∧ t.PointsBack mem := by
  obtain ⟨t, hat, hnodup⟩ := h.tree
  exact ⟨t, hat, hnodup, hat.pointsBack h.parents⟩

/-- A tree whose children point back makes a memory well formed. -/
theorem WellFormed.of_tree {t : Tree} (hat : t.At b mem root) (hnodup : t.nodes.Nodup)
    (hback : t.PointsBack mem) (h0 : root ≠ 0) : WellFormed b mem root where
  tree := ⟨t, hat, hnodup⟩
  root_ne := h0
  parents n _ _ fc hreach hn hc hfc hne :=
    (hat.child ((hat.mem_nodes_iff n).mpr hreach) hn hc hne).2 hback fc hfc

end NetworkLab.Kbench.Ipv6.Fib6
