import NetworkLab.Kbench.Ipv6.Fib6Walk

/-!
# Depths of the walk

The counter of `collect_depth` goes up where the walk goes down to a left or right child and
goes down on every way back, also from a source-specific subtree, which the walk goes down to
without counting. The depths are right exactly in trees without such a subtree.
-/

namespace NetworkLab.Kbench.Ipv6.Fib6

open Lib

/-! ### Depths of a tree -/

/-- The nodes of a tree with their depths, in the order of the walk. A source-specific subtree
starts at the depth of its node. -/
def Tree.depths : Tree → Nat → List (Addr × Nat)
  | .empty, _ => []
  | .node a s l r, k => s.depths k ++ l.depths (k + 1) ++ r.depths (k + 1) ++ [(a, k)]

/-- No node of a tree has a source-specific subtree. -/
def Tree.NoSubtree : Tree → Prop
  | .empty => True
  | .node _ s l r => s = .empty ∧ l.NoSubtree ∧ r.NoSubtree

variable (b : Build) (mem : Memory)

/-- The depths of the nodes that carry a route. -/
def Tree.countedDepths (t : Tree) (k : Nat) : List Nat :=
  ((t.depths k).filter fun x ↦ carriesAt b mem x.1).map Prod.snd

variable {b mem} {root : Addr}

/-- The depths are those of the nodes. -/
theorem depths_keys_perm (t : Tree) (k : Nat) : ((t.depths k).map Prod.fst).Perm t.nodes := by
  induction t generalizing k with
  | empty => exact .refl _
  | node a s l r ihs ihl ihr =>
    simp only [Tree.depths, Tree.nodes, List.map_append, List.map_cons, List.map_nil]
    exact (List.perm_append_singleton a _).trans
      ((((ihs k).append (ihl (k + 1))).append (ihr (k + 1))).cons a)

/-- A node has one depth. -/
theorem depths_unique {t : Tree} {k : Nat} (hnodup : t.nodes.Nodup) {n : Addr} {d e : Nat}
    (hd : (n, d) ∈ t.depths k) (he : (n, e) ∈ t.depths k) : d = e := by
  have hkeys := (depths_keys_perm t k).nodup_iff.mpr hnodup
  exact congrArg Prod.snd (List.inj_on_of_nodup_map hkeys hd he rfl)

/-- A tree of 64-bit addresses has at most `2 ^ 64` nodes. -/
theorem length_nodes_le {t : Tree} (hnodup : t.nodes.Nodup) : t.nodes.length ≤ 2 ^ 64 := by
  have hmap : (t.nodes.map UInt64.toNat).Nodup := hnodup.map fun _ _ ↦ UInt64.toNat_inj.mp
  have hsub : t.nodes.map UInt64.toNat ⊆ List.range (2 ^ 64) := by
    intro x hx
    obtain ⟨a, _, rfl⟩ := List.mem_map.mp hx
    exact List.mem_range.mpr a.toNat_lt
  have hle := (hmap.subperm hsub).length_le
  rwa [List.length_map, List.length_range] at hle

/-! ### The traversal of a tree without subtrees -/

private theorem depth_around {inside : Totals → Totals} {child a : Addr} {t : Totals}
    (hinside : ∀ t', (inside t').depth = t'.depth) :
    (t.around inside child a 1).depth = t.depth := by
  unfold Totals.around
  split
  · rfl
  · change (inside (t.enter child (t.depth + 1))).depth - 1 = t.depth
    rw [hinside]
    exact UInt64.add_sub_cancel _ _

/-- Without source-specific subtrees, the traversal returns at the depth of its start. -/
theorem visit_depth {t : Tree} (hsub : t.NoSubtree) (totals : Totals) :
    (t.visit b mem totals).depth = totals.depth := by
  induction t generalizing totals with
  | empty => rfl
  | node a s l r ihs ihl ihr =>
    obtain ⟨rfl, hsl, hsr⟩ := hsub
    have htally (t : Totals) : (t.tally b mem a).depth = t.depth := by
      unfold Totals.tally
      split <;> rfl
    rw [Tree.visit, htally, depth_around (ihr hsr), depth_around (ihl hsl)]
    exact congrArg Totals.depth (if_pos rfl)

/-- A move of the walk is at the depth of its node, and a way back comes from one deeper. -/
def Fits (depths : List (Addr × Nat)) : Event → Prop
  | .enter n d => (n, d.toNat) ∈ depths
  | .counted _ _ => True
  | .back n before d => (n, d.toNat) ∈ depths ∧ before.toNat = d.toNat + 1

/-- A traversal adds the depths of the nodes that it counts and moves at the depths of the
nodes. -/
structure Adds (depths : List (Addr × Nat)) (t t' : Totals) (ds : List Nat) : Prop where
  totdepth : t'.totdepth.toNat = (t.totdepth.toNat + ds.sum) % 2 ^ 64
  count : t'.count.toNat = (t.count.toNat + ds.length) % 2 ^ 32
  maxdepth : t'.maxdepth.toNat = max t.maxdepth.toNat (ds.foldr max 0)
  log : ∀ e ∈ t'.log, e ∈ t.log ∨ Fits depths e

variable {xs : List (Addr × Nat)}

theorem Adds.refl (t : Totals) : Adds xs t t [] where
  totdepth := (Nat.mod_eq_of_lt t.totdepth.toNat_lt).symm
  count := (Nat.mod_eq_of_lt t.count.toNat_lt).symm
  maxdepth := (Nat.max_zero _).symm
  log _ he := Or.inl he

theorem foldr_max_append (ds es : List Nat) :
    (ds ++ es).foldr max 0 = max (ds.foldr max 0) (es.foldr max 0) := by
  induction ds with
  | nil => simp
  | cons d ds ih => rw [List.cons_append, List.foldr_cons, ih, List.foldr_cons, Nat.max_assoc]

theorem Adds.trans {t t' t'' : Totals} {ds es : List Nat} (h : Adds xs t t' ds)
    (h' : Adds xs t' t'' es) : Adds xs t t'' (ds ++ es) where
  totdepth := by
    rw [h'.totdepth, h.totdepth, Nat.mod_add_mod, List.sum_append, Nat.add_assoc]
  count := by
    rw [h'.count, h.count, Nat.mod_add_mod, List.length_append, Nat.add_assoc]
  maxdepth := by
    rw [h'.maxdepth, h.maxdepth, foldr_max_append, Nat.max_assoc]
  log e he := (h'.log e he).elim (h.log e) Or.inr

theorem Fits.mono {ys : List (Addr × Nat)} (h : ∀ x ∈ xs, x ∈ ys) {e : Event}
    (he : Fits xs e) : Fits ys e := by
  cases e with
  | enter n d => exact h _ he
  | counted n d => trivial
  | back n before d => exact ⟨h _ he.1, he.2⟩

theorem Adds.mono {ys : List (Addr × Nat)} {t t' : Totals} {ds : List Nat} (h : Adds xs t t' ds)
    (hsub : ∀ x ∈ xs, x ∈ ys) : Adds ys t t' ds :=
  { h with log := fun e he ↦ (h.log e he).imp_right (Fits.mono hsub) }

/-- Counting a node adds the depth of the counter. -/
theorem adds_counted (t : Totals) (a : Addr) : Adds xs t (t.counted a) [t.depth.toNat] where
  totdepth := by
    simp only [Totals.counted, UInt64.toNat_add, List.sum_cons, List.sum_nil, Nat.add_zero]
  count := by
    simp only [Totals.counted, UInt32.toNat_add, List.length_singleton]
    rfl
  maxdepth := by
    simp only [Totals.counted, List.foldr_cons, List.foldr_nil, Nat.max_zero,
      UInt64.lt_iff_toNat_lt]
    split <;> omega
  log e he := (List.mem_cons.mp he).elim (fun heq ↦ Or.inr (heq ▸ trivial)) Or.inl

/-- A left or right child is entered one deeper and left again. -/
theorem adds_around {inside : Totals → Totals} {child a : Addr} {t : Totals} {k : Nat}
    {ds : List Nat} (hk : t.depth.toNat = k) (ha : (a, k) ∈ xs)
    (hdepth : ∀ t', (inside t').depth = t'.depth)
    (hinside : child ≠ 0 → (child, k + 1) ∈ xs ∧ k + 1 < 2 ^ 64 ∧
      ((t.enter child (t.depth + 1)).depth.toNat = k + 1 →
        Adds xs (t.enter child (t.depth + 1)) (inside (t.enter child (t.depth + 1))) ds))
    (hnone : child = 0 → ds = []) : Adds xs t (t.around inside child a 1) ds := by
  unfold Totals.around
  split
  · next h0 =>
    rw [hnone h0]
    exact .refl t
  · next h0 =>
    obtain ⟨hchild, hfit, hadds⟩ := hinside h0
    have hone : (t.depth + 1).toNat = k + 1 := by
      rw [UInt64.toNat_add, hk]
      exact Nat.mod_eq_of_lt hfit
    have h := hadds hone
    have hback : (inside (t.enter child (t.depth + 1))).depth = t.depth + 1 := hdepth _
    refine ⟨h.totdepth, h.count, h.maxdepth, ?_⟩
    intro e he
    rcases List.mem_cons.mp he with rfl | he
    · refine Or.inr ⟨?_, ?_⟩
      · rw [hback, UInt64.add_sub_cancel, hk]
        exact ha
      · rw [hback, UInt64.add_sub_cancel, hk, hone]
    · rcases h.log e he with he | he
      · rcases List.mem_cons.mp he with rfl | he
        · refine Or.inr ?_
          change (child, (t.depth + 1).toNat) ∈ xs
          rw [hone]
          exact hchild
        · exact Or.inl he
      · exact Or.inr he

private theorem addr_mem_depths {t : Tree} (h0 : t.addr ≠ 0) (k : Nat) :
    (t.addr, k) ∈ t.depths k := by
  cases t with
  | empty => exact absurd rfl h0
  | node a s l r => exact List.mem_append_right _ List.mem_cons_self

private theorem countedDepths_eq_nil {t : Tree} {p : Addr} (hat : t.At b mem p) (h0 : t.addr = 0)
    (k : Nat) : t.countedDepths b mem k = [] := by
  cases t with
  | empty => rfl
  | node a s l r => exact absurd h0 hat.2.1

/-- Without source-specific subtrees, the traversal adds the depths of the tree. -/
theorem visit_adds {t : Tree} {p : Addr} {k : Nat} {totals : Totals} (hat : t.At b mem p)
    (hsub : t.NoSubtree) (hk : totals.depth.toNat = k) (hfit : k + t.nodes.length ≤ 2 ^ 64) :
    Adds (t.depths k) totals (t.visit b mem totals) (t.countedDepths b mem k) := by
  induction t generalizing p k totals with
  | empty => exact .refl totals
  | node a s l r ihs ihl ihr =>
    obtain ⟨_, _, fn, _, _, hl, hr⟩ := hat
    obtain ⟨rfl, hsl, hsr⟩ := hsub
    simp only [Tree.nodes, List.nil_append, List.length_cons, List.length_append] at hfit
    have hself : (a, k) ∈ (Tree.node a .empty l r).depths k :=
      List.mem_append_right _ List.mem_cons_self
    have hinLeft : ∀ x ∈ l.depths (k + 1), x ∈ (Tree.node a .empty l r).depths k :=
      fun x hx ↦ List.mem_append_left _ (List.mem_append_left _ (List.mem_append_right _ hx))
    have hinRight : ∀ x ∈ r.depths (k + 1), x ∈ (Tree.node a .empty l r).depths k :=
      fun x hx ↦ List.mem_append_left _ (List.mem_append_right _ hx)
    have hleft : Adds ((Tree.node a .empty l r).depths k) totals
        (totals.around (l.visit b mem) l.addr a 1) (l.countedDepths b mem (k + 1)) := by
      apply adds_around hk hself (visit_depth hsl)
      · intro h0
        have hpos := List.length_pos_of_mem (Tree.addr_mem_nodes h0)
        refine ⟨hinLeft _ (addr_mem_depths h0 _), by omega, fun hone ↦ ?_⟩
        exact (ihl hl hsl hone (by omega)).mono hinLeft
      · intro h0
        exact countedDepths_eq_nil hl h0 (k + 1)
    have hk' : (totals.around (l.visit b mem) l.addr a 1).depth = totals.depth :=
      depth_around (visit_depth hsl)
    have hright : Adds ((Tree.node a .empty l r).depths k)
        (totals.around (l.visit b mem) l.addr a 1)
        ((totals.around (l.visit b mem) l.addr a 1).around (r.visit b mem) r.addr a 1)
        (r.countedDepths b mem (k + 1)) := by
      apply adds_around (hk' ▸ hk) hself (visit_depth hsr)
      · intro h0
        have hpos := List.length_pos_of_mem (Tree.addr_mem_nodes h0)
        refine ⟨hinRight _ (addr_mem_depths h0 _), by omega, fun hone ↦ ?_⟩
        exact (ihr hr hsr hone (by omega)).mono hinRight
      · intro h0
        exact countedDepths_eq_nil hr h0 (k + 1)
    have htally : Adds ((Tree.node a .empty l r).depths k)
        ((totals.around (l.visit b mem) l.addr a 1).around (r.visit b mem) r.addr a 1)
        (((totals.around (l.visit b mem) l.addr a 1).around (r.visit b mem) r.addr a 1).tally
          b mem a) (if carriesAt b mem a then [k] else []) := by
      unfold Totals.tally
      split
      · next hc =>
        have hadd : Adds ((Tree.node a .empty l r).depths k) _ _ _ := adds_counted
          ((totals.around (l.visit b mem) l.addr a 1).around (r.visit b mem) r.addr a 1) a
        rwa [depth_around (visit_depth hsr), hk', hk] at hadd
      · next hc => exact .refl _
    have hds : (Tree.node a .empty l r).countedDepths b mem k =
        l.countedDepths b mem (k + 1) ++ r.countedDepths b mem (k + 1) ++
          (if carriesAt b mem a then [k] else []) := by
      simp only [Tree.countedDepths, Tree.depths, List.nil_append, List.filter_append,
        List.map_append, List.filter_singleton]
      cases carriesAt b mem a <;> rfl
    rw [hds]
    exact (hleft.trans hright).trans htally

/-! ### Trees with a subtree -/

private theorem log_around {inside : Totals → Totals} {child a : Addr} {down : UInt64} {t : Totals}
    {e : Event} (hinside : ∀ t', e ∈ t'.log → e ∈ (inside t').log) (he : e ∈ t.log) :
    e ∈ (t.around inside child a down).log := by
  unfold Totals.around
  split
  · exact he
  · exact List.mem_cons_of_mem _ (hinside _ (List.mem_cons_of_mem _ he))

private theorem log_tally {t : Totals} {a : Addr} {e : Event} (he : e ∈ t.log) :
    e ∈ (t.tally b mem a).log := by
  unfold Totals.tally
  split
  · exact List.mem_cons_of_mem _ he
  · exact he

/-- What a traversal logs stays in the log. -/
theorem visit_log (t : Tree) (totals : Totals) (e : Event) (he : e ∈ totals.log) :
    e ∈ (t.visit b mem totals).log := by
  induction t generalizing totals with
  | empty => exact he
  | node a s l r ihs ihl ihr =>
    exact log_tally (log_around ihr (log_around ihl (log_around ihs he)))

/-- The walk comes back to a node at another depth than it was entered at. -/
def Misreturns (t : Totals) : Prop :=
  ∃ n before d e, .back n before d ∈ t.log ∧ .enter n e ∈ t.log ∧ d ≠ e

private theorem Misreturns.mono {t t' : Totals} (h : Misreturns t)
    (hlog : ∀ e ∈ t.log, e ∈ t'.log) : Misreturns t' := by
  obtain ⟨n, before, d, e, hback, henter, hne⟩ := h
  exact ⟨n, before, d, e, hlog _ hback, hlog _ henter, hne⟩

private theorem misreturns_around {inside : Totals → Totals} {child a : Addr} {down : UInt64}
    {t : Totals} (h0 : child ≠ 0)
    (h : Misreturns (inside (t.enter child (t.depth + down)))) :
    Misreturns (t.around inside child a down) := by
  unfold Totals.around
  rw [if_neg h0]
  exact h.mono fun e he ↦ List.mem_cons_of_mem _ he

/-- A tree with a source-specific subtree has the walk come back to a node at another depth:
the node of a subtree that has none within. -/
theorem visit_misreturns {t : Tree} {p : Addr} {totals : Totals} (hat : t.At b mem p)
    (hsub : ¬ t.NoSubtree) (henter : .enter t.addr totals.depth ∈ totals.log) :
    Misreturns (t.visit b mem totals) := by
  induction t generalizing p totals with
  | empty => exact absurd trivial hsub
  | node a s l r ihs ihl ihr =>
    obtain ⟨_, _, fn, _, hs, hl, hr⟩ := hat
    have hne {c : Tree} {q : Addr} (hc : c.At b mem q) (hcs : ¬ c.NoSubtree) : c.addr ≠ 0 := by
      cases c with
      | empty => exact absurd trivial hcs
      | node a' s' l' r' => exact hc.2.1
    by_cases hsub' : s.NoSubtree
    · by_cases hempty : s = .empty
      · rw [Tree.NoSubtree, not_and_or, not_and_or] at hsub
        rcases hsub with h | h | h
        · exact absurd hempty h
        · exact (misreturns_around (hne hl h) (ihl hl h List.mem_cons_self)).mono
            fun e he ↦ log_tally (log_around (fun t' ↦ visit_log r t' e) he)
        · exact (misreturns_around (hne hr h) (ihr hr h List.mem_cons_self)).mono
            fun e he ↦ log_tally he
      · -- The walk enters the subtree at the depth of the node and comes back one lower.
        have h0 : s.addr ≠ 0 := by
          cases s with
          | empty => exact absurd rfl hempty
          | node a' s' l' r' => exact hs.2.1
        have hdepth : (s.visit b mem (totals.enter s.addr (totals.depth + 0))).depth =
            totals.depth := by
          rw [visit_depth hsub']
          exact UInt64.add_zero _
        have hmis : Misreturns (totals.around (s.visit b mem) s.addr a 0) := by
          refine ⟨a, totals.depth, totals.depth - 1, totals.depth, ?_, ?_, ?_⟩
          · rw [Totals.around, if_neg h0, Totals.back, hdepth]
            exact List.mem_cons_self
          · exact log_around (fun t' ↦ visit_log s t' _) henter
          · intro heq
            have hnat := congrArg UInt64.toNat heq
            rw [UInt64.toNat_sub] at hnat
            change (2 ^ 64 - 1 + totals.depth.toNat) % 2 ^ 64 = totals.depth.toNat at hnat
            omega
        exact hmis.mono fun e he ↦ log_tally
          (log_around (fun t' ↦ visit_log r t' e) (log_around (fun t' ↦ visit_log l t' e) he))
    · exact (misreturns_around (hne hs hsub') (ihs hs hsub' List.mem_cons_self)).mono
        fun e he ↦ log_tally
          (log_around (fun t' ↦ visit_log r t' e) (log_around (fun t' ↦ visit_log l t' e) he))

/-! ### Depth accounting -/

/-- The walk comes back to each node at the depth that it was entered at and never goes up
from depth zero; the results are the maximum and ten times the mean of the counted depths. -/
structure DepthAccounted (b : Build) (mem : Memory) (t : Tree) (w : Walk) : Prop where
  returns : ∀ n before depth entered, .back n before depth ∈ w.totals.log →
    .enter n entered ∈ w.totals.log → depth = entered
  aboveZero : ∀ n before depth, .back n before depth ∈ w.totals.log → before ≠ 0
  maxdepth : w.totals.maxdepth.toNat = (t.countedDepths b mem 0).foldr max 0
  avgdepth : w.avgdepth.toNat =
    10 * (t.countedDepths b mem 0).sum / (t.countedDepths b mem 0).length

/-- What is printed as ten times the mean, after the additions of a walk. -/
theorem Adds.avgdepth {w : Walk} {ds : List Nat}
    (h : Adds xs (Walk.start b root).totals w.totals ds) :
    w.avgdepth.toNat = 10 * ds.sum % 2 ^ 64 / (ds.length % 2 ^ 32) := by
  have htot : w.totals.totdepth.toNat = ds.sum % 2 ^ 64 := by
    rw [h.totdepth, Walk.start]
    exact congrArg (· % 2 ^ 64) (Nat.zero_add _)
  have hcount : w.totals.count.toNat = ds.length % 2 ^ 32 := by
    rw [h.count, Walk.start]
    exact congrArg (· % 2 ^ 32) (Nat.zero_add _)
  unfold Walk.avgdepth
  split
  · next hpos =>
    rw [UInt64.toNat_div, UInt64.toNat_mul, UInt32.toNat_toUInt64, htot, hcount]
    change ds.sum % 2 ^ 64 * 10 % 2 ^ 64 / _ = _
    rw [Nat.mod_mul_mod, Nat.mul_comm]
  · next hzero =>
    have hz : ds.length % 2 ^ 32 = 0 := by
      rw [← hcount]
      simpa [UInt32.lt_iff_toNat_lt] using hzero
    rw [hz, Nat.div_zero]
    rfl

/-- No node of a tree has a subtree exactly when no node reachable from where it lies has. -/
theorem noSubtree_iff {t : Tree} {p : Addr} (hat : t.At b mem p) :
    t.NoSubtree ↔ ∀ n fn, Reachable b mem p n → mem n = some fn → b.subtree fn = 0 := by
  simp only [← hat.mem_nodes_iff]
  induction t generalizing p with
  | empty => simp [Tree.NoSubtree, Tree.nodes]
  | node a s l r ihs ihl ihr =>
    obtain ⟨_, _, fn, hfn, hs, hl, hr⟩ := hat
    rw [Tree.NoSubtree, ihl hl, ihr hr]
    simp only [Tree.nodes, List.mem_cons, List.mem_append]
    constructor
    · rintro ⟨rfl, hsl, hsr⟩ n fn' (rfl | (hn | hn) | hn) hfn'
      · rw [hfn] at hfn'
        cases hfn'
        exact hs
      · exact absurd hn (by simp [Tree.nodes])
      · exact hsl n fn' hn hfn'
      · exact hsr n fn' hn hfn'
    · intro hall
      refine ⟨?_, fun n fn' hn ↦ hall n fn' (Or.inr (Or.inl (Or.inr hn))),
        fun n fn' hn ↦ hall n fn' (Or.inr (Or.inr hn))⟩
      have hzero := hall a fn (Or.inl rfl) hfn
      cases s with
      | empty => rfl
      | node a' s' l' r' => exact absurd (hs.1.symm.trans hzero) hs.2.1

/-- Over every well-formed tree, the depths are accounted for exactly when no node has a
source-specific subtree and the machine words do not change the mean. -/
theorem collectDepth_accounts_iff (b : Build) (mem : Memory) (root : Addr) (t : Tree)
    (h : WellFormed b mem root) (hat : t.At b mem root) :
    (∃ fuel w, collectDepth b mem root fuel = some w ∧ DepthAccounted b mem t w) ↔
      (∀ n fn, Reachable b mem root n → mem n = some fn → b.subtree fn = 0) ∧
      10 * (t.countedDepths b mem 0).sum % 2 ^ 64 / ((t.countedDepths b mem 0).length % 2 ^ 32) =
        10 * (t.countedDepths b mem 0).sum / (t.countedDepths b mem 0).length := by
  obtain ⟨t', hat', hnodup, hback⟩ := h.exists_tree
  obtain rfl := hat.unique hat'
  obtain ⟨fuel, w, hrun, _, _, htotals⟩ := collectDepth_eq_visit hat h.root_ne hnodup hback
  have hadds (hsub : t.NoSubtree) :
      Adds (t.depths 0) (Walk.start b root).totals w.totals (t.countedDepths b mem 0) := by
    rw [htotals]
    exact visit_adds hat hsub rfl (by simpa using length_nodes_le hnodup)
  rw [← noSubtree_iff hat]
  have henter : .enter t.addr (Walk.start b root).totals.depth ∈
      (Walk.start b root).totals.log := by
    rw [← hat.eq_addr]
    exact List.mem_cons_self
  constructor
  · rintro ⟨fuel', w', hrun', hacc⟩
    obtain rfl := Loop.run_unique hrun hrun'
    have hsub : t.NoSubtree := by
      by_contra hsub
      obtain ⟨n, before, d, e, hback, henter, hne⟩ := visit_misreturns hat hsub henter
      rw [← htotals] at hback henter
      exact hne (hacc.returns n before d e hback henter)
    rw [← (hadds hsub).avgdepth, ← hacc.avgdepth]
    exact ⟨hsub, rfl⟩
  · rintro ⟨hsub, havg⟩
    have hfits : ∀ e ∈ w.totals.log, Fits (t.depths 0) e := by
      intro e he
      rcases (hadds hsub).log e he with he | he
      · rw [List.mem_singleton.mp he]
        exact hat.eq_addr ▸ addr_mem_depths (hat.eq_addr ▸ h.root_ne) 0
      · exact he
    refine ⟨fuel, w, hrun, ?_, ?_, ?_, ?_⟩
    · intro n before depth entered hback henter
      exact UInt64.toNat_inj.mp (depths_unique hnodup (hfits _ hback).1 (hfits _ henter))
    · rintro n before depth hback rfl
      have hone := (hfits _ hback).2
      exact absurd hone (by simp)
    · rw [(hadds hsub).maxdepth]
      exact Nat.zero_max _
    · rw [(hadds hsub).avgdepth, havg]

/-- The accounting of the root with a source-specific subtree. -/
theorem sourceMemory_accounts_iff :
    (∃ fuel w, collectDepth benchKernel sourceMemory 8 fuel = some w ∧
        DepthAccounted benchKernel sourceMemory sourceTree w) ↔
      (∀ n fn, Reachable benchKernel sourceMemory 8 n → sourceMemory n = some fn →
        benchKernel.subtree fn = 0) ∧
      10 * (sourceTree.countedDepths benchKernel sourceMemory 0).sum % 2 ^ 64 /
          ((sourceTree.countedDepths benchKernel sourceMemory 0).length % 2 ^ 32) =
        10 * (sourceTree.countedDepths benchKernel sourceMemory 0).sum /
          (sourceTree.countedDepths benchKernel sourceMemory 0).length :=
  collectDepth_accounts_iff benchKernel sourceMemory 8 sourceTree sourceMemory_wellFormed
    sourceTree_at

/-- The walk enters the root at depth zero and comes back to it from the subtree at the largest
`unsigned long`. -/
theorem sourceMemory_misreturns :
    WellFormed benchKernel sourceMemory 8 ∧
      ∃ w, collectDepth benchKernel sourceMemory 8 20 = some w ∧
        .enter 8 0 ∈ w.totals.log ∧ .back 8 0 0xffffffffffffffff ∈ w.totals.log :=
  ⟨sourceMemory_wellFormed, _, rfl, by decide, by decide⟩

end NetworkLab.Kbench.Ipv6.Fib6
