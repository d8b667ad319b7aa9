import JsxUsage.Proofs.TreeWalks

/-!
# The states of the tree loop

Between two rounds the loop holds nodes that are placed and uses that wait.  A use
may wait for many rounds, while the tree grows, and it knows its parent by position
only.  This module proves what holds in every state: nodes come after their parents,
one level below them, and every use waits below a node that is already placed.  So
the way to a use can be found from parent to parent, and this ends at the root.
-/

namespace JsxUsage
namespace TreeBuilder

open ComponentTree

/-!
# One round
-/

/-- A round leaves a use out if its component is on the way.  Any other use becomes a
node, and the uses in its component may be put on the stack. -/
theorem step_cases (a : Adjacency) (maxDepth : Nat) (b : TreeBuilder) (use : PendingUse)
    (rest : List PendingUse) :
    ((b.wayTo use.parent).any (· == use.component) = true ∧
      b.step a maxDepth use rest =
        ⟨report b.tree (closing (b.wayTo use.parent) use.component), rest⟩) ∨
    ((b.wayTo use.parent).any (· == use.component) = false ∧
      exists reported waiting,
        b.step a maxDepth use rest =
          ⟨{ place b.tree use.component use.parent use.depth with diagnostics := reported },
            waiting ++ rest⟩ ∧
        (waiting = [] ∨
          waiting = pending (some b.tree.nodes.size) (use.depth + 1)
            (a.children use.component))) := by
  by_cases hon : (b.wayTo use.parent).any (· == use.component) = true
  · exact Or.inl ⟨hon, if_pos hon⟩
  · refine Or.inr ⟨Bool.eq_false_iff.mpr hon, ?_⟩
    by_cases hempty : (a.children use.component).isEmpty = true
    · refine ⟨b.tree.diagnostics, [], ?_, Or.inl rfl⟩
      simp only [step, if_neg hon, if_pos hempty]
      rfl
    · by_cases hdepth : maxDepth ≤ use.depth
      · refine ⟨b.tree.diagnostics.push (.depthLimit use.component.name use.depth), [], ?_,
          Or.inl rfl⟩
        simp only [step, if_neg hon, if_neg hempty, if_pos hdepth]
        rfl
      · refine ⟨b.tree.diagnostics, _, ?_, Or.inr rfl⟩
        simp only [step, if_neg hon, if_neg hempty, if_neg hdepth]
        rfl

/-- What every round keeps, the loop keeps. -/
theorem loop_invariant {a : Adjacency} {maxDepth : Nat} {holds : TreeBuilder -> Prop}
    (hstep : forall (t : ComponentTree) (use : PendingUse) (rest : List PendingUse),
      holds ⟨t, use :: rest⟩ -> holds (step a maxDepth ⟨t, use :: rest⟩ use rest))
    {b : TreeBuilder} (hb : holds b) (n : Nat) : holds (b.loop a maxDepth n) := by
  induction n generalizing b with
  | zero => exact hb
  | succ n ih =>
      rcases b with ⟨t, stack⟩
      cases stack with
      | nil => exact hb
      | cons use rest => exact ih (hstep t use rest hb)

/-!
# Uses below placed nodes
-/

/-- The list of the component at a parent uses `c`, and `depth` is one level below the
parent.  The parent is the root or a node of the tree. -/
inductive Hangs (a : Adjacency) (t : ComponentTree) : Option Nat -> ComponentId -> Nat -> Prop where
  | top {c : ComponentId} : c ∈ a.children t.root -> Hangs a t none c 1
  | below {c : ComponentId} {p : Nat} {m : TreeNode} :
      t.nodes[p]? = some m -> c ∈ a.children m.component -> Hangs a t (some p) c (m.depth + 1)

theorem depth_of_hangs_none {a : Adjacency} {t : ComponentTree} {c : ComponentId} {depth : Nat}
    (h : Hangs a t none c depth) : depth = 1 := by
  cases h
  rfl

theorem parent_of_hangs_some {a : Adjacency} {t : ComponentTree} {p : Nat} {c : ComponentId}
    {depth : Nat} (h : Hangs a t (some p) c depth) :
    exists m, t.nodes[p]? = some m ∧ depth = m.depth + 1 := by
  cases h with
  | below hm _ => exact ⟨_, hm, rfl⟩

theorem hangs_grow {a : Adjacency} {t u : ComponentTree} {parent : Option Nat} {c : ComponentId}
    {depth : Nat} (h : Hangs a t parent c depth) (hroot : u.root = t.root)
    (hnodes : exists added, u.nodes = t.nodes ++ added) : Hangs a u parent c depth := by
  rcases hnodes with ⟨added, hadded⟩
  cases h with
  | top hc =>
      rw [← hroot] at hc
      exact Hangs.top hc
  | below hm hc =>
      refine Hangs.below ?_ hc
      rw [hadded, Array.getElem?_append_left (Array.getElem?_eq_some_iff.mp hm).1]
      exact hm

/-- Nodes are numbered by their positions and come after their parents, and nodes and
waiting uses hang below the root or below placed nodes. -/
structure Orderly (a : Adjacency) (b : TreeBuilder) : Prop where
  id : forall (i : Nat) (n : TreeNode), b.tree.nodes[i]? = some n -> n.id = i
  earlier : forall (i : Nat) (n : TreeNode) (p : Nat),
    b.tree.nodes[i]? = some n -> n.parent = some p -> p < i
  node : forall (i : Nat) (n : TreeNode), b.tree.nodes[i]? = some n ->
    Hangs a b.tree n.parent n.component n.depth
  waiting : forall use, use ∈ b.stack -> Hangs a b.tree use.parent use.component use.depth

theorem orderly_start (a : Adjacency) (root : ComponentId) : Orderly a (start a root) := by
  constructor
  · intro i n hn
    simp [start] at hn
  · intro i n p hn
    simp [start] at hn
  · intro i n hn
    simp [start] at hn
  · intro use huse
    rcases List.mem_map.mp huse with ⟨c, hc, rfl⟩
    exact Hangs.top hc

section Step

variable {a : Adjacency} {b : TreeBuilder} {use : PendingUse} {rest : List PendingUse}

theorem orderly_report (h : Orderly a b) (hstack : b.stack = use :: rest) (d : Diagnostic) :
    Orderly a ⟨report b.tree d, rest⟩ := by
  have hnodes : exists added, (report b.tree d).nodes = b.tree.nodes ++ added :=
    ⟨#[], by simp [report]⟩
  constructor
  · exact h.id
  · exact h.earlier
  · intro i n hn
    exact hangs_grow (h.node i n hn) rfl hnodes
  · intro other hother
    refine hangs_grow (h.waiting other ?_) rfl hnodes
    rw [hstack]
    exact List.mem_cons_of_mem use hother

/-- The node that a use becomes hangs where the use waited, and the uses put on the
stack hang below this node. -/
theorem orderly_place (h : Orderly a b) (hstack : b.stack = use :: rest)
    (reported : Array Diagnostic) {waiting : List PendingUse}
    (hwaiting : waiting = [] ∨
      waiting = pending (some b.tree.nodes.size) (use.depth + 1) (a.children use.component)) :
    Orderly a ⟨{ place b.tree use.component use.parent use.depth with diagnostics := reported },
      waiting ++ rest⟩ := by
  have hnodes : exists added,
      (place b.tree use.component use.parent use.depth).nodes = b.tree.nodes ++ added :=
    ⟨_, Array.push_eq_append⟩
  have huse : Hangs a b.tree use.parent use.component use.depth := by
    apply h.waiting
    rw [hstack]
    exact List.mem_cons_self
  have hlast : (place b.tree use.component use.parent use.depth).nodes[b.tree.nodes.size]? =
      some ⟨b.tree.nodes.size, use.component, use.parent, use.depth⟩ := Array.getElem?_push_size
  -- A node of the grown tree is the new one or was there before.
  have hcases : forall (i : Nat) (n : TreeNode),
      (place b.tree use.component use.parent use.depth).nodes[i]? = some n ->
        (i = b.tree.nodes.size ∧ n = ⟨b.tree.nodes.size, use.component, use.parent, use.depth⟩) ∨
          b.tree.nodes[i]? = some n := by
    intro i n hn
    rw [place, Array.getElem?_push] at hn
    split_ifs at hn with hi
    · exact Or.inl ⟨hi, (Option.some.inj hn).symm⟩
    · exact Or.inr hn
  constructor
  · intro i n hn
    rcases hcases i n hn with ⟨rfl, rfl⟩ | hold
    · rfl
    · exact h.id i n hold
  · intro i n p hn hp
    rcases hcases i n hn with ⟨rfl, rfl⟩ | hold
    · rw [show use.parent = some p from hp] at huse
      rcases parent_of_hangs_some huse with ⟨m, hm, _⟩
      exact (Array.getElem?_eq_some_iff.mp hm).1
    · exact h.earlier i n p hold hp
  · intro i n hn
    rcases hcases i n hn with ⟨rfl, rfl⟩ | hold
    · exact hangs_grow huse rfl hnodes
    · exact hangs_grow (h.node i n hold) rfl hnodes
  · intro other hother
    rcases List.mem_append.mp hother with hnew | hold
    · rcases hwaiting with rfl | rfl
      · cases hnew
      · rcases List.mem_map.mp hnew with ⟨c, hc, rfl⟩
        exact Hangs.below (m := ⟨_, use.component, use.parent, use.depth⟩) hlast hc
    · refine hangs_grow (h.waiting other ?_) rfl hnodes
      rw [hstack]
      exact List.mem_cons_of_mem use hold

theorem orderly_step (maxDepth : Nat) (h : Orderly a b) (hstack : b.stack = use :: rest) :
    Orderly a (b.step a maxDepth use rest) := by
  rcases step_cases a maxDepth b use rest with
    ⟨_, hstep⟩ | ⟨_, reported, waiting, hstep, hwaiting⟩
  · rw [hstep]
    exact orderly_report h hstack _
  · rw [hstep]
    exact orderly_place h hstack reported hwaiting

end Step

theorem orderly_loop (a : Adjacency) (maxDepth : Nat) (root : ComponentId) (n : Nat) :
    Orderly a ((start a root).loop a maxDepth n) :=
  loop_invariant (fun _ _ _ h => orderly_step maxDepth h rfl) (orderly_start a root) n

theorem orderly_buildFrom (a : Adjacency) (maxDepth : Nat) (root : ComponentId) :
    Orderly a ⟨buildFrom a maxDepth root, []⟩ := by
  have hloop := orderly_loop a (max maxDepth 1) root (rounds (width a) a.size)
  rw [loop_start a (max maxDepth 1) root (Nat.le_refl _), ← buildFrom_eq_expand] at hloop
  exact hloop

/-!
# From parent to parent

The chain of nodes that is met on the way up is followed without any check: each
position must hold a node, and the chain must end.
-/

/-- From a parent one gets up to the root through the nodes of the chain. -/
inductive Ascends (nodes : Array TreeNode) : Option Nat -> List TreeNode -> Prop where
  | top : Ascends nodes none []
  | up {p : Nat} {n : TreeNode} {chain : List TreeNode} :
      nodes[p]? = some n -> Ascends nodes n.parent chain -> Ascends nodes (some p) (n :: chain)

section Orderly

variable {a : Adjacency} {b : TreeBuilder} (h : Orderly a b)
include h

theorem lineage_of_orderly {i : Nat} {n : TreeNode} (hn : b.tree.nodes[i]? = some n) :
    lineage b.tree.nodes i = lineageOf b.tree.nodes n.parent ++ [n.component] :=
  lineage_of_node hn fun p hp => h.earlier i n p hn hp

theorem ascends_of_node {i : Nat} {n : TreeNode} (hn : b.tree.nodes[i]? = some n) :
    exists chain, Ascends b.tree.nodes (some i) chain ∧
      lineage b.tree.nodes i = (chain.map TreeNode.component).reverse ∧
      chain.length = n.depth := by
  induction i using Nat.strongRecOn generalizing n with
  | ind i ih =>
      have hlineage := lineage_of_orderly h hn
      have hhangs := h.node i n hn
      cases hparent : n.parent with
      | none =>
          rw [hparent] at hlineage hhangs
          refine ⟨[n], Ascends.up hn (hparent ▸ Ascends.top), hlineage, ?_⟩
          rw [depth_of_hangs_none hhangs]
          rfl
      | some p =>
          rw [hparent] at hlineage hhangs
          rcases parent_of_hangs_some hhangs with ⟨m, hm, hdepth⟩
          rcases ih p (h.earlier i n p hn hparent) hm with ⟨chain, hchain, hway, hlength⟩
          refine ⟨n :: chain, Ascends.up hn (hparent ▸ hchain), ?_, ?_⟩
          · rw [hlineage, lineageOf, hway, List.map_cons, List.reverse_cons]
          · rw [List.length_cons, hlength, hdepth]

theorem ascends_of_hangs {parent : Option Nat} {c : ComponentId} {depth : Nat}
    (hhangs : Hangs a b.tree parent c depth) :
    exists chain, Ascends b.tree.nodes parent chain ∧
      lineageOf b.tree.nodes parent = (chain.map TreeNode.component).reverse := by
  cases hhangs with
  | top _ => exact ⟨[], Ascends.top, rfl⟩
  | below hm _ =>
      rcases ascends_of_node h hm with ⟨chain, hchain, hway, _⟩
      exact ⟨chain, hchain, hway⟩

end Orderly

/-- The way to each waiting use and the names to each node are found from parent to
parent, and the names to a node continue those to its parent. -/
structure Traceable (b : TreeBuilder) : Prop where
  waiting : forall use, use ∈ b.stack -> exists chain,
    Ascends b.tree.nodes use.parent chain ∧
      b.wayTo use.parent = b.tree.root :: (chain.map TreeNode.component).reverse
  node : forall (i : Nat) (n : TreeNode), b.tree.nodes[i]? = some n -> exists chain,
    Ascends b.tree.nodes (some i) chain ∧
      b.tree.namesTo i = b.tree.rootName :: (chain.map TreeNode.name).reverse
  length : forall (i : Nat) (n : TreeNode), b.tree.nodes[i]? = some n ->
    (b.tree.namesTo i).length = n.depth + 1
  first : forall (i : Nat) (n : TreeNode), b.tree.nodes[i]? = some n ->
    (b.tree.namesTo i).head? = some b.tree.rootName
  top : forall (i : Nat) (n : TreeNode), b.tree.nodes[i]? = some n -> n.parent = none ->
    b.tree.namesTo i = [b.tree.rootName] ++ [n.name]
  below : forall (i : Nat) (n : TreeNode) (p : Nat), b.tree.nodes[i]? = some n ->
    n.parent = some p -> b.tree.namesTo i = b.tree.namesTo p ++ [n.name]

theorem traceable_of_orderly {a : Adjacency} {b : TreeBuilder} (h : Orderly a b) :
    Traceable b := by
  constructor
  · intro use huse
    rcases ascends_of_hangs h (h.waiting use huse) with ⟨chain, hchain, hway⟩
    exact ⟨chain, hchain, congrArg (b.tree.root :: ·) hway⟩
  · intro i n hn
    rcases ascends_of_node h hn with ⟨chain, hchain, hway, _⟩
    refine ⟨chain, hchain, ?_⟩
    rw [namesTo, hway, List.map_reverse, List.map_map]
    rfl
  · intro i n hn
    rcases ascends_of_node h hn with ⟨chain, _, hway, hlength⟩
    rw [namesTo, hway, List.length_cons, List.length_map, List.length_reverse, List.length_map,
      hlength]
  · intro i n _
    rfl
  · intro i n hn hparent
    rw [namesTo, lineage_of_orderly h hn, hparent]
    rfl
  · intro i n p hn hparent
    rw [namesTo, namesTo, lineage_of_orderly h hn, hparent, lineageOf, List.map_append]
    rfl

/-- In every state of the loop, and in the tree that is built, nodes come after their
parents and one level below them, uses wait below placed nodes, and the ways to both
can be traced to the root. -/
theorem every_state_is_traceable (a : Adjacency) (maxDepth : Nat) (root : ComponentId) :
    (forall n, Orderly a ((start a root).loop a maxDepth n) ∧
        Traceable ((start a root).loop a maxDepth n)) ∧
      Orderly a ⟨buildFrom a maxDepth root, []⟩ ∧ Traceable ⟨buildFrom a maxDepth root, []⟩ := by
  constructor
  · intro n
    exact ⟨orderly_loop a maxDepth root n, traceable_of_orderly (orderly_loop a maxDepth root n)⟩
  · exact ⟨orderly_buildFrom a maxDepth root,
      traceable_of_orderly (orderly_buildFrom a maxDepth root)⟩

end TreeBuilder
end JsxUsage
