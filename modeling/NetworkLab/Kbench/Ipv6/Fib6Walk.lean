import NetworkLab.Kbench.Ipv6.Fib6

/-!
# The walk as a traversal

The walk has no stack. It finds its way by comparing the pointers of the parent with the node
that it comes from, so it does what a recursive traversal does: the source-specific subtree,
the left and the right child, and then the node itself.
-/

namespace NetworkLab.Kbench.Ipv6.Fib6

open Lib

variable (b : Build) (mem : Memory)

/-- The node at an address is counted. -/
def carriesAt (a : Addr) : Bool :=
  match mem a with
  | some fn => b.Carries fn
  | none => false

/-- Down to a child, through what lies there and back up to `a`. -/
def Totals.around (inside : Totals → Totals) (child a : Addr) (down : UInt64) (t : Totals) :
    Totals :=
  if child = 0 then t else (inside (t.enter child (t.depth + down))).back a

/-- The counting of a node that carries a route. -/
def Totals.tally (a : Addr) (t : Totals) : Totals :=
  if carriesAt b mem a then t.counted a else t

/-- The recursive traversal of a tree, from its topmost node back to it. -/
def Tree.visit : Tree → Totals → Totals
  | .empty, t => t
  | .node a s l r, t =>
    Totals.tally b mem a
      (Totals.around r.visit r.addr a 1
        (Totals.around l.visit l.addr a 1 (Totals.around s.visit s.addr a 0 t)))

variable {b mem} {root : Addr}

/-! ### Steps -/

private theorem step_of_node {w : Walk} {fn : Node} (h0 : w.node ≠ 0) (hfn : mem w.node = some fn) :
    w.step b mem root = w.switch b mem root fn := by
  rw [Walk.step, if_neg h0, hfn]

private theorem pass {w w' : Walk} (h : w.step b mem root = .goOn w') :
    Loop.Reaches (Walk.step b mem root) w w' := Relation.ReflTransGen.single h

/-- Going up to the parent of a node that is not the root. -/
private theorem step_up {a c leaf : Addr} {fn fc : Node} (t : Totals) (h0 : c ≠ 0)
    (hroot : c ≠ root) (hfc : mem c = some fc) (hparent : fc.parent = a) (hfn : mem a = some fn) :
    (Walk.mk c .u leaf t).step b mem root =
      if b.subtrees ∧ fn.subtree = c then .goOn ⟨a, .l, leaf, t.back a⟩
      else if fn.left = c then .goOn ⟨a, .r, leaf, t.back a⟩
      else if fn.right = c then .goOn ⟨a, .c, fn.leaf, t.back a⟩
      else .goOn ⟨a, .u, leaf, t.back a⟩ := by
  rw [step_of_node h0 hfc]
  simp only [Walk.switch, if_neg hroot, hparent, hfn]

/-- Down to a child that is there, through it and back up to the next label, or straight on
to that label. -/
private theorem reaches_around {a child leaf : Addr} {down : UInt64} {st next : State} {t : Totals}
    {inside : Totals → Totals} (leafNext : Addr → Prop)
    (hskip : child = 0 → ∃ leaf', leafNext leaf' ∧
      (Walk.mk a st leaf t).step b mem root = .goOn ⟨a, next, leaf', t⟩)
    (hdown : child ≠ 0 → (Walk.mk a st leaf t).step b mem root =
      .goOn ⟨child, b.fwsInit, leaf, t.enter child (t.depth + down)⟩)
    (hinside : child ≠ 0 → ∀ t', ∃ leaf', Loop.Reaches (Walk.step b mem root)
      ⟨child, b.fwsInit, leaf, t'⟩ ⟨child, .u, leaf', inside t'⟩)
    (hup : child ≠ 0 → ∀ leaf₁ t', ∃ leaf', leafNext leaf' ∧
      (Walk.mk child .u leaf₁ t').step b mem root = .goOn ⟨a, next, leaf', t'.back a⟩) :
    ∃ leaf', leafNext leaf' ∧ Loop.Reaches (Walk.step b mem root)
      ⟨a, st, leaf, t⟩ ⟨a, next, leaf', t.around inside child a down⟩ := by
  by_cases h0 : child = 0
  · obtain ⟨leaf', hleaf, hstep⟩ := hskip h0
    refine ⟨leaf', hleaf, ?_⟩
    rw [Totals.around, if_pos h0]
    exact pass hstep
  · obtain ⟨leaf₁, hreach⟩ := hinside h0 (t.enter child (t.depth + down))
    obtain ⟨leaf', hleaf, hstep⟩ := hup h0 leaf₁ (inside (t.enter child (t.depth + down)))
    refine ⟨leaf', hleaf, ?_⟩
    rw [Totals.around, if_neg h0]
    exact (pass (hdown h0)).trans (hreach.trans (pass hstep))

/-- The counting label, and on to the way up. -/
private theorem reaches_tally {a : Addr} {fn : Node} (t : Totals) (h0 : a ≠ 0)
    (hfn : mem a = some fn) :
    ∃ leaf', Loop.Reaches (Walk.step b mem root) ⟨a, .c, fn.leaf, t⟩
      ⟨a, .u, leaf', t.tally b mem a⟩ := by
  have hcarries : carriesAt b mem a = true ↔ b.Carries fn := by
    rw [carriesAt, hfn]
    exact decide_eq_true_iff
  by_cases hc : b.Carries fn
  · refine ⟨0, ?_⟩
    rw [Totals.tally, if_pos (hcarries.mpr hc)]
    apply Relation.ReflTransGen.trans (b := ⟨a, .c, 0, t.counted a⟩) (pass ?_) (pass ?_)
    · rw [step_of_node h0 hfn]
      exact if_pos hc
    · rw [step_of_node h0 hfn]
      simp [Walk.switch]
  · refine ⟨fn.leaf, ?_⟩
    rw [Totals.tally, if_neg (mt hcarries.mp hc)]
    apply pass
    rw [step_of_node h0 hfn]
    exact if_neg hc

/-! ### The traversal -/

private theorem Tree.At.exists_node {t : Tree} {p : Addr} (h : t.At b mem p) (hne : t.addr ≠ 0) :
    ∃ fn, mem t.addr = some fn := by
  cases t with
  | empty => exact absurd rfl hne
  | node a s l r =>
    obtain ⟨_, _, fn, hfn, _⟩ := h
    exact ⟨fn, hfn⟩

/-- Two children of a node that are both there are different nodes. -/
private theorem addr_ne {t t' : Tree} (h : List.Disjoint t.nodes t'.nodes) (h0 : t'.addr ≠ 0) :
    t.addr ≠ t'.addr := by
  intro heq
  exact h (Tree.addr_mem_nodes (heq ▸ h0)) (heq ▸ Tree.addr_mem_nodes h0)

/-- The walk goes through a tree, from the first label of its topmost node to its way up. -/
private def GoesThrough (b : Build) (mem : Memory) (root : Addr) (c : Tree) : Prop :=
  c.addr ≠ 0 → ∀ leaf t, ∃ leaf', Loop.Reaches (Walk.step b mem root)
    ⟨c.addr, b.fwsInit, leaf, t⟩ ⟨c.addr, .u, leaf', c.visit b mem t⟩

/-- A node of the walk with what hangs below it: different nodes that point back to it, none
of them the root. -/
private structure Family (b : Build) (mem : Memory) (root p : Addr) (fn : Node) (s l r : Tree) :
    Prop where
  ne_zero : p ≠ 0
  node : mem p = some fn
  subtree : s.At b mem (b.subtree fn)
  left : l.At b mem fn.left
  right : r.At b mem fn.right
  points : ∀ c ∈ [s, l, r], ∀ fc, mem c.addr = some fc → c.addr ≠ 0 → fc.parent = p
  inner : ∀ c ∈ [s, l, r], c.addr ≠ 0 → c.addr ≠ root
  subtree_left : l.addr ≠ 0 → s.addr ≠ l.addr
  subtree_right : r.addr ≠ 0 → s.addr ≠ r.addr
  left_right : r.addr ≠ 0 → l.addr ≠ r.addr

namespace Family

variable {p : Addr} {fn : Node} {s l r : Tree}

private theorem step_eq (h : Family b mem root p fn s l r) (st : State) (leaf : Addr)
    (t : Totals) :
    (Walk.mk p st leaf t).step b mem root = (Walk.mk p st leaf t).switch b mem root fn :=
  step_of_node h.ne_zero h.node

/-- The way up from a child, whichever it is. -/
private theorem up (h : Family b mem root p fn s l r) {c : Tree} (hc : c ∈ [s, l, r])
    (h0 : c.addr ≠ 0) (leaf : Addr) (t : Totals) :
    (Walk.mk c.addr .u leaf t).step b mem root =
      if b.subtrees ∧ fn.subtree = c.addr then .goOn ⟨p, .l, leaf, t.back p⟩
      else if fn.left = c.addr then .goOn ⟨p, .r, leaf, t.back p⟩
      else if fn.right = c.addr then .goOn ⟨p, .c, fn.leaf, t.back p⟩
      else .goOn ⟨p, .u, leaf, t.back p⟩ := by
  have hat : ∃ q, c.At b mem q := by
    simp only [List.mem_cons, List.not_mem_nil, or_false] at hc
    rcases hc with rfl | rfl | rfl
    · exact ⟨_, h.subtree⟩
    · exact ⟨_, h.left⟩
    · exact ⟨_, h.right⟩
  obtain ⟨q, hq⟩ := hat
  obtain ⟨fc, hfc⟩ := hq.exists_node h0
  exact step_up t h0 (h.inner c hc h0) hfc (h.points c hc fc hfc h0) h.node

private theorem subtree_eq (h : Family b mem root p fn s l r) (hb : b.subtrees = true) :
    fn.subtree = s.addr := by
  rw [← h.subtree.eq_addr, Build.subtree, if_pos hb]

private theorem not_subtree (h : Family b mem root p fn s l r) {a : Addr} (hne : s.addr ≠ a) :
    ¬ (b.subtrees ∧ fn.subtree = a) := by
  rintro ⟨hb, heq⟩
  exact hne ((h.subtree_eq hb).symm.trans heq)

/-- The source-specific subtree, if the configuration has any. -/
private theorem reaches_left (h : Family b mem root p fn s l r)
    (hs : GoesThrough b mem root s) (leaf : Addr) (t : Totals) :
    ∃ leaf', Loop.Reaches (Walk.step b mem root) ⟨p, b.fwsInit, leaf, t⟩
      ⟨p, .l, leaf', t.around (s.visit b mem) s.addr p 0⟩ := by
  by_cases hb : b.subtrees = true
  · have hsub := h.subtree_eq hb
    have hinit : b.fwsInit = .s := by rw [Build.fwsInit, if_pos hb]
    have haround : ∃ leaf', True ∧ Loop.Reaches (Walk.step b mem root) ⟨p, .s, leaf, t⟩
        ⟨p, .l, leaf', t.around (s.visit b mem) s.addr p 0⟩ := by
      apply reaches_around fun _ ↦ True
      · intro h0
        exact ⟨leaf, trivial, by simp [h.step_eq, Walk.switch, hb, hsub, h0]⟩
      · intro h0
        simp [h.step_eq, Walk.switch, hb, hsub, h0, hinit]
      · intro h0 t'
        exact hs h0 leaf t'
      · intro h0 leaf₁ t'
        refine ⟨leaf₁, trivial, ?_⟩
        rw [h.up (by simp) h0, if_pos ⟨hb, hsub⟩]
    obtain ⟨leaf', -, hreach⟩ := haround
    rw [hinit]
    exact ⟨leaf', hreach⟩
  · have hempty : s.addr = 0 := by
      rw [← h.subtree.eq_addr, Build.subtree, if_neg hb]
    refine ⟨leaf, ?_⟩
    rw [Totals.around, if_pos hempty, Build.fwsInit, if_neg hb]
    exact .refl

/-- The left child. -/
private theorem reaches_right (h : Family b mem root p fn s l r)
    (hl : GoesThrough b mem root l) (leaf : Addr) (t : Totals) :
    ∃ leaf', Loop.Reaches (Walk.step b mem root) ⟨p, .l, leaf, t⟩
      ⟨p, .r, leaf', t.around (l.visit b mem) l.addr p 1⟩ := by
  have haround : ∃ leaf', True ∧ Loop.Reaches (Walk.step b mem root) ⟨p, .l, leaf, t⟩
      ⟨p, .r, leaf', t.around (l.visit b mem) l.addr p 1⟩ := by
    apply reaches_around fun _ ↦ True
    · intro h0
      exact ⟨leaf, trivial, by simp [h.step_eq, Walk.switch, h.left.eq_addr, h0]⟩
    · intro h0
      simp [h.step_eq, Walk.switch, h.left.eq_addr, h0]
    · intro h0 t'
      exact hl h0 leaf t'
    · intro h0 leaf₁ t'
      refine ⟨leaf₁, trivial, ?_⟩
      rw [h.up (by simp) h0, if_neg (h.not_subtree (h.subtree_left h0)), if_pos h.left.eq_addr]
  obtain ⟨leaf', -, hreach⟩ := haround
  exact ⟨leaf', hreach⟩

/-- The right child, behind which the walk looks at the leaf of the node. -/
private theorem reaches_count (h : Family b mem root p fn s l r)
    (hr : GoesThrough b mem root r) (leaf : Addr) (t : Totals) :
    Loop.Reaches (Walk.step b mem root) ⟨p, .r, leaf, t⟩
      ⟨p, .c, fn.leaf, t.around (r.visit b mem) r.addr p 1⟩ := by
  have haround : ∃ leaf', leaf' = fn.leaf ∧ Loop.Reaches (Walk.step b mem root)
      ⟨p, .r, leaf, t⟩ ⟨p, .c, leaf', t.around (r.visit b mem) r.addr p 1⟩ := by
    apply reaches_around (· = fn.leaf)
    · intro h0
      exact ⟨fn.leaf, rfl, by simp [h.step_eq, Walk.switch, h.right.eq_addr, h0]⟩
    · intro h0
      simp [h.step_eq, Walk.switch, h.right.eq_addr, h0]
    · intro h0 t'
      exact hr h0 leaf t'
    · intro h0 leaf₁ t'
      refine ⟨fn.leaf, rfl, ?_⟩
      rw [h.up (by simp) h0, if_neg (h.not_subtree (h.subtree_right h0)),
        if_neg (h.left.eq_addr ▸ h.left_right h0), if_pos h.right.eq_addr]
  obtain ⟨leaf', rfl, hreach⟩ := haround
  exact hreach

end Family

/-- From the first label of a node, the walk comes to its way up having done what the
recursive traversal does. The induction is on the tree; each child that is there returns to
the label after the one that went down to it. -/
theorem reaches_visit {t : Tree} {p leaf : Addr} (totals : Totals) (hat : t.At b mem p)
    (hne : t.addr ≠ 0) (hnodup : t.nodes.Nodup) (hback : t.PointsBack mem)
    (hroot : ∀ c ∈ t.nodes.tail, c ≠ root) :
    ∃ leaf', Loop.Reaches (Walk.step b mem root) ⟨p, b.fwsInit, leaf, totals⟩
      ⟨p, .u, leaf', t.visit b mem totals⟩ := by
  induction t generalizing p leaf totals with
  | empty => exact absurd rfl hne
  | node a s l r ihs ihl ihr =>
    obtain ⟨rfl, ha, fn, hfn, hs, hl, hr⟩ := hat
    obtain ⟨hpoints, hbs, hbl, hbr⟩ := hback
    simp only [Tree.nodes, List.nodup_cons, List.nodup_append', List.tail_cons,
      List.mem_append] at hnodup hroot
    obtain ⟨_, ⟨hns, hnl, hsl⟩, hnr, hslr⟩ := hnodup
    have hsr : List.Disjoint s.nodes r.nodes :=
      fun c hcs hcr ↦ hslr (List.mem_append_left _ hcs) hcr
    have hlr : List.Disjoint l.nodes r.nodes :=
      fun c hcl hcr ↦ hslr (List.mem_append_right _ hcl) hcr
    have hfamily : Family b mem root p fn s l r :=
      { ne_zero := ha
        node := hfn
        subtree := hs
        left := hl
        right := hr
        points := hpoints
        inner := by
          intro c hc h0
          simp only [List.mem_cons, List.not_mem_nil, or_false] at hc
          rcases hc with rfl | rfl | rfl
          · exact hroot _ (Or.inl (Or.inl (Tree.addr_mem_nodes h0)))
          · exact hroot _ (Or.inl (Or.inr (Tree.addr_mem_nodes h0)))
          · exact hroot _ (Or.inr (Tree.addr_mem_nodes h0))
        subtree_left := addr_ne hsl
        subtree_right := addr_ne hsr
        left_right := addr_ne hlr }
    have hthroughS : GoesThrough b mem root s := by
      intro h0 leaf t'
      exact ihs t' (hs.eq_addr ▸ hs) h0 hns hbs
        fun c hc ↦ hroot c (Or.inl (Or.inl (List.mem_of_mem_tail hc)))
    have hthroughL : GoesThrough b mem root l := by
      intro h0 leaf t'
      exact ihl t' (hl.eq_addr ▸ hl) h0 hnl hbl
        fun c hc ↦ hroot c (Or.inl (Or.inr (List.mem_of_mem_tail hc)))
    have hthroughR : GoesThrough b mem root r := by
      intro h0 leaf t'
      exact ihr t' (hr.eq_addr ▸ hr) h0 hnr hbr
        fun c hc ↦ hroot c (Or.inr (List.mem_of_mem_tail hc))
    let totals₁ := totals.around (s.visit b mem) s.addr p 0
    let totals₂ := totals₁.around (l.visit b mem) l.addr p 1
    obtain ⟨leaf₁, hsub⟩ := hfamily.reaches_left hthroughS leaf totals
    obtain ⟨leaf₂, hleft⟩ := hfamily.reaches_right hthroughL leaf₁ totals₁
    have hright := hfamily.reaches_count hthroughR leaf₂ totals₂
    obtain ⟨leaf₃, htally⟩ := reaches_tally (totals₂.around (r.visit b mem) r.addr p 1) ha hfn
    exact ⟨leaf₃, hsub.trans (hleft.trans (hright.trans htally))⟩

/-- The walk of a tree ends at the root, with the totals of the recursive traversal. -/
theorem collectDepth_eq_visit {t : Tree} (hat : t.At b mem root) (h0 : root ≠ 0)
    (hnodup : t.nodes.Nodup) (hback : t.PointsBack mem) :
    ∃ fuel w, collectDepth b mem root fuel = some w ∧ w.node = root ∧ w.state = .u ∧
      w.totals = t.visit b mem (Walk.start b root).totals := by
  have hne : t.addr ≠ 0 := hat.eq_addr ▸ h0
  have hroot : ∀ c ∈ t.nodes.tail, c ≠ root := by
    cases t with
    | empty => exact absurd rfl hne
    | node a s l r =>
      rintro c hc rfl
      rw [hat.1] at hc
      exact (List.nodup_cons.mp hnodup).1 hc
  have hwalk : ∃ leaf', Loop.Reaches (Walk.step b mem root) (Walk.start b root)
      ⟨root, .u, leaf', t.visit b mem (Walk.start b root).totals⟩ :=
    reaches_visit _ hat hne hnodup hback hroot
  obtain ⟨leaf, hreach⟩ := hwalk
  obtain ⟨fn, hfn⟩ := hat.exists_node hne
  rw [← hat.eq_addr] at hfn
  have hleave : (Walk.mk root .u leaf (t.visit b mem (Walk.start b root).totals)).step b mem
      root = .leave ⟨root, .u, leaf, t.visit b mem (Walk.start b root).totals⟩ := by
    rw [step_of_node h0 hfn]
    exact if_pos rfl
  obtain ⟨fuel, hrun⟩ := Loop.run_of_reaches hreach hleave
  exact ⟨fuel, _, hrun, rfl, rfl, rfl⟩

/-! ### Counted nodes -/

/-- The event counts a node. -/
def Event.counts (n : Addr) : Event → Bool
  | .counted m _ => m == n
  | _ => false

/-- How often the walk counted a node. -/
def Totals.times (t : Totals) (n : Addr) : Nat := t.log.countP (Event.counts n)

private theorem times_around {inside : Totals → Totals} {child a n : Addr} {down : UInt64} {k : Nat}
    (t : Totals) (hinside : child ≠ 0 → ∀ t', (inside t').times n = t'.times n + k)
    (hnone : child = 0 → k = 0) : (t.around inside child a down).times n = t.times n + k := by
  unfold Totals.around
  split
  · next h0 => rw [hnone h0, Nat.add_zero]
  · next h0 => exact hinside h0 (t.enter child (t.depth + down))

private theorem nodes_eq_nil {t : Tree} {p : Addr} (h : t.At b mem p) (h0 : t.addr = 0) :
    t.nodes = [] := by
  cases t with
  | empty => rfl
  | node a s l r => exact absurd h0 h.2.1

/-- The traversal counts a node once for each time that the tree holds it, if it carries a
route. -/
theorem times_visit {t : Tree} {p : Addr} (hat : t.At b mem p) (totals : Totals) (n : Addr) :
    (t.visit b mem totals).times n =
      totals.times n + (t.nodes.filter (carriesAt b mem)).count n := by
  induction t generalizing p totals with
  | empty => simp [Tree.visit, Tree.nodes]
  | node a s l r ihs ihl ihr =>
    obtain ⟨_, _, fn, _, hs, hl, hr⟩ := hat
    have htally (t : Totals) : (t.tally b mem a).times n =
        t.times n + ([a].filter (carriesAt b mem)).count n := by
      unfold Totals.tally
      by_cases hc : carriesAt b mem a = true
      · simp [hc, Totals.times, Totals.counted, List.countP_cons, Event.counts, List.count_cons]
      · simp [hc]
    have hnone {c : Tree} {q : Addr} (hc : c.At b mem q) (h0 : c.addr = 0) :
        (c.nodes.filter (carriesAt b mem)).count n = 0 := by
      rw [nodes_eq_nil hc h0]
      rfl
    rw [Tree.visit, htally, times_around _ (fun _ ↦ ihr hr) (hnone hr),
      times_around _ (fun _ ↦ ihl hl) (hnone hl), times_around _ (fun _ ↦ ihs hs) (hnone hs),
      Tree.nodes, ← List.singleton_append (x := a) (l := s.nodes ++ l.nodes ++ r.nodes),
      List.filter_append, List.filter_append, List.filter_append, List.count_append,
      List.count_append, List.count_append]
    omega

private theorem count_around {inside : Totals → Totals} {child a : Addr} {down : UInt64}
    {k : UInt32} (t : Totals) (hinside : child ≠ 0 → ∀ t', (inside t').count = t'.count + k)
    (hnone : child = 0 → k = 0) : (t.around inside child a down).count = t.count + k := by
  unfold Totals.around
  split
  · next h0 => rw [hnone h0, UInt32.add_zero]
  · next h0 => exact hinside h0 (t.enter child (t.depth + down))

/-- The counter of the traversal goes up by one for each node that carries a route. -/
theorem count_visit {t : Tree} {p : Addr} (hat : t.At b mem p) (totals : Totals) :
    (t.visit b mem totals).count =
      totals.count + UInt32.ofNat (t.nodes.filter (carriesAt b mem)).length := by
  induction t generalizing p totals with
  | empty => exact (UInt32.add_zero _).symm
  | node a s l r ihs ihl ihr =>
    obtain ⟨_, _, fn, _, hs, hl, hr⟩ := hat
    have htally (t : Totals) : (t.tally b mem a).count =
        t.count + UInt32.ofNat ([a].filter (carriesAt b mem)).length := by
      unfold Totals.tally
      by_cases hc : carriesAt b mem a = true
      · simp [hc, Totals.counted]
      · simp [hc]
    have hnone {c : Tree} {q : Addr} (hc : c.At b mem q) (h0 : c.addr = 0) :
        UInt32.ofNat (c.nodes.filter (carriesAt b mem)).length = 0 := by
      rw [nodes_eq_nil hc h0]
      rfl
    rw [Tree.visit, htally, count_around _ (fun _ ↦ ihr hr) (hnone hr),
      count_around _ (fun _ ↦ ihl hl) (hnone hl), count_around _ (fun _ ↦ ihs hs) (hnone hs),
      Tree.nodes, ← List.singleton_append (x := a) (l := s.nodes ++ l.nodes ++ r.nodes),
      List.filter_append, List.filter_append, List.filter_append, List.length_append,
      List.length_append, List.length_append, UInt32.ofNat_add, UInt32.ofNat_add,
      UInt32.ofNat_add]
    ac_rfl

/-- For every finite tree whose children point back to their parents, with or without
source-specific subtrees, the walk ends at the root. Every node that it can reach and that
carries a route is counted once, and no other node is; `count` is their number in 32 bits. -/
theorem collectDepth_counts_once (b : Build) (mem : Memory) (root : Addr)
    (h : WellFormed b mem root) :
    ∃ fuel w, collectDepth b mem root fuel = some w ∧ w.node = root ∧ w.state = .u ∧
      (∃ counted : List Addr, counted.Nodup ∧
        (∀ n, n ∈ counted ↔ Reachable b mem root n ∧ ∃ fn, mem n = some fn ∧ b.Carries fn) ∧
        w.totals.count.toNat = counted.length % 2 ^ 32) ∧
      ∀ n, (Reachable b mem root n ∧ (∃ fn, mem n = some fn ∧ b.Carries fn) →
          w.totals.times n = 1) ∧
        (¬ (Reachable b mem root n ∧ ∃ fn, mem n = some fn ∧ b.Carries fn) →
          w.totals.times n = 0) := by
  obtain ⟨t, hat, hnodup, hback⟩ := h.exists_tree
  obtain ⟨fuel, w, hrun, hnode, hstate, htotals⟩ :=
    collectDepth_eq_visit hat h.root_ne hnodup hback
  have hcarries (n : Addr) : carriesAt b mem n = true ↔ ∃ fn, mem n = some fn ∧ b.Carries fn := by
    unfold carriesAt
    cases mem n with
    | none => simp
    | some fn => simp
  have hmem (n : Addr) : n ∈ t.nodes.filter (carriesAt b mem) ↔
      Reachable b mem root n ∧ ∃ fn, mem n = some fn ∧ b.Carries fn := by
    rw [List.mem_filter, hat.mem_nodes_iff, hcarries]
  have htimes (n : Addr) : w.totals.times n = (t.nodes.filter (carriesAt b mem)).count n := by
    rw [htotals, times_visit hat, Walk.start]
    exact Nat.zero_add _
  have hcount : w.totals.count = UInt32.ofNat (t.nodes.filter (carriesAt b mem)).length := by
    rw [htotals, count_visit hat, Walk.start]
    exact UInt32.zero_add _
  refine ⟨fuel, w, hrun, hnode, hstate, ⟨_, hnodup.filter _, hmem, ?_⟩, fun n ↦ ?_⟩
  · rw [hcount]
    exact UInt32.toNat_ofNat'
  · rw [htimes, ← hmem]
    constructor
    · intro hn
      exact List.count_eq_one_of_mem (hnodup.filter _) hn
    · intro hn
      exact List.count_eq_zero.mpr hn

/-- The build with source-specific subtrees, and `RTN_RTINFO` as `4`. -/
def benchKernel : Build := ⟨true, 4⟩

/-- A root with a source-specific subtree and a left child, which both carry a route. -/
def sourceMemory (a : Addr) : Option Node :=
  if a = 8 then some ⟨0, 16, 0, 24, 0, 0⟩
  else if a = 16 then some ⟨8, 0, 0, 0, 32, 4⟩
  else if a = 24 then some ⟨8, 0, 0, 0, 40, 4⟩
  else none

/-- The tree of the root with a subtree. -/
def sourceTree : Tree :=
  .node 8 (.node 24 .empty .empty .empty) (.node 16 .empty .empty .empty) .empty

/-- The tree of the root with a subtree lies in its memory. -/
theorem sourceTree_at : sourceTree.At benchKernel sourceMemory 8 :=
  ⟨rfl, by decide, _, rfl, ⟨rfl, by decide, _, rfl, rfl, rfl, rfl⟩,
    ⟨rfl, by decide, _, rfl, rfl, rfl, rfl⟩, rfl⟩

/-- The memory of the root with a subtree is well formed. -/
theorem sourceMemory_wellFormed : WellFormed benchKernel sourceMemory 8 := by
  refine WellFormed.of_tree sourceTree_at (by decide) ?_ (by decide)
  simp only [sourceTree, Tree.PointsBack, List.mem_cons, List.not_mem_nil, or_false,
    forall_eq_or_imp, forall_eq, Tree.addr, ne_eq, not_true_eq_false, false_imp_iff,
    implies_true, and_true, and_self]
  constructor
  · rintro fc ⟨⟩ _
    rfl
  · rintro fc ⟨⟩ _
    rfl

/-- The walk of the root with a subtree counts both nodes with a route once. -/
theorem sourceMemory_counts_once :
    ∃ fuel w, collectDepth benchKernel sourceMemory 8 fuel = some w ∧ w.node = 8 ∧ w.state = .u ∧
      (∃ counted : List Addr, counted.Nodup ∧
        (∀ n, n ∈ counted ↔ Reachable benchKernel sourceMemory 8 n ∧
          ∃ fn, sourceMemory n = some fn ∧ benchKernel.Carries fn) ∧
        w.totals.count.toNat = counted.length % 2 ^ 32) ∧
      ∀ n, (Reachable benchKernel sourceMemory 8 n ∧
          (∃ fn, sourceMemory n = some fn ∧ benchKernel.Carries fn) → w.totals.times n = 1) ∧
        (¬ (Reachable benchKernel sourceMemory 8 n ∧
          ∃ fn, sourceMemory n = some fn ∧ benchKernel.Carries fn) → w.totals.times n = 0) :=
  collectDepth_counts_once benchKernel sourceMemory 8 sourceMemory_wellFormed

end NetworkLab.Kbench.Ipv6.Fib6
