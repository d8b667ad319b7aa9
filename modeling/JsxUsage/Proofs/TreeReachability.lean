import JsxUsage.Proofs.TreeDiagnostics
import JsxUsage.Proofs.TreeWalks
import JsxUsage.Proofs.UsageReachability

/-!
# Trees and reachability

A tree unrolls the uses below a root, and the usage graph says what can be reached
from the root.  Every node of a tree stands for a component that can be reached.  If
the depth limit has cut nothing, every such component has a node, because a walk that
leads to it can be taken without repetition.
-/

namespace JsxUsage
namespace ComponentTree

open Adjacency TreeBuilder

section Nodes

variable {a : Adjacency} {maxDepth : Nat} (hdepth : 1 ≤ maxDepth) {root : ComponentId}

include hdepth

theorem leads_of_node {n : TreeNode} (hn : n ∈ (buildFrom a maxDepth root).nodes) :
    Relation.TransGen a.Uses root n.component := by
  rcases Array.mem_iff_getElem?.mp hn with ⟨i, hi⟩
  have hsize : i < (buildFrom a maxDepth root).size := (Array.getElem?_eq_some_iff.mp hi).1
  have hne := ((address_bijOn a hdepth root).mapsTo hsize).left
  have hleads := leads_of_walk (walk_address a hdepth root hsize) hne
  rw [getLastD_lineage hi] at hleads
  exact hleads

theorem node_of_reaches (hunlimited : Unlimited (buildFrom a maxDepth root)) {c : ComponentId}
    (hreaches : a.Reaches root c) (hother : (c == root) = false) :
    exists n, n ∈ (buildFrom a maxDepth root).nodes ∧ (n.component == c) = true := by
  rcases simplyReaches_of_reaches hreaches with ⟨positions, trail, hwalk, hfree, hlast⟩
  have hne : positions ≠ [] := by
    intro hnil
    subst hnil
    cases hwalk
    have hsame : (root == c) = true := hlast
    rw [BEq.comm, hother] at hsame
    cases hsame
  have hlength := length_le_of_unlimited hdepth hunlimited hwalk hfree
  have hmem : positions ∈ simpleWalksTo a maxDepth root c :=
    ⟨⟨hne, hlength, trail, hwalk, hfree⟩, trail, hwalk, hlast⟩
  rcases (address_bijOn_nodesOf a hdepth root c).surjOn hmem with ⟨i, ⟨n, hn, hc⟩, _⟩
  exact ⟨n, Array.mem_of_getElem? hn, hc⟩

theorem reaches_iff_of_unlimited (hunlimited : Unlimited (buildFrom a maxDepth root))
    {c : ComponentId} :
    a.Reaches root c <-> (c == root) = true ∨
      exists n, n ∈ (buildFrom a maxDepth root).nodes ∧ (n.component == c) = true := by
  constructor
  · intro hreaches
    cases hother : (c == root) with
    | true => exact Or.inl rfl
    | false => exact Or.inr (node_of_reaches hdepth hunlimited hreaches hother)
  · intro h
    rcases h with hsame | ⟨n, hn, hc⟩
    · exact Or.inl (BEq.symm hsame)
    · exact Or.inr (leads_congr BEq.rfl hc (leads_of_node hdepth hn))

end Nodes

/-- What the graph calls unreachable has no node in the tree and is not its root.
Where the depth limit has cut nothing, this is all that the registry holds besides
the root and the components of the nodes, in the order of the registry. -/
theorem unreachable_agrees_with_nodes (ds : List Definition) (a : Adjacency) (maxDepth : Nat)
    (root : ComponentId) (hdepth : 1 ≤ maxDepth) (hwithin : a.Within (Registry.ofDefinitions ds))
    (hroot : (Registry.ofDefinitions ds).Registered root) :
    (forall c, c ∈ (UsageGraph.build (Registry.ofDefinitions ds) a).unreachableFrom root ->
      (c == root) = false ∧
        forall n, n ∈ (buildFrom a maxDepth root).nodes -> (n.component == c) = false) ∧
      (Unlimited (buildFrom a maxDepth root) ->
        (UsageGraph.build (Registry.ofDefinitions ds) a).unreachableFrom root =
          (Registry.ofDefinitions ds).ids.filter fun c =>
            !(c == root) && !(buildFrom a maxDepth root).nodes.any (·.component == c)) := by
  constructor
  · intro c hc
    have hnot := ((UsageGraph.mem_unreachableFrom_build hwithin hroot).mp hc).right
    constructor
    · rw [Bool.eq_false_iff]
      intro hsame
      exact hnot (Or.inl (BEq.symm hsame))
    · intro n hn
      rw [Bool.eq_false_iff]
      intro hsame
      exact hnot (Or.inr (leads_congr BEq.rfl hsame (leads_of_node hdepth hn)))
  · intro hunlimited
    apply UsageGraph.unreachableFrom_build hwithin hroot
    intro c _
    have hany : (buildFrom a maxDepth root).nodes.any (·.component == c) = true <->
        exists n, n ∈ (buildFrom a maxDepth root).nodes ∧ (n.component == c) = true := by
      simp only [← Array.any_toList, List.any_eq_true, Array.mem_toList_iff]
    rw [reaches_iff_of_unlimited hdepth hunlimited, ← hany]
    simp only [Bool.and_eq_true, Bool.not_eq_true', not_or, Bool.not_eq_true]

/-- The components of `twoCards` and one that nothing uses. -/
def cardProject : List Definition :=
  [⟨page, .function, 1⟩, ⟨card, .function, 1⟩, ⟨button, .function, 1⟩,
    ⟨⟨⟨"badge.jsx"⟩, "Badge"⟩, .function, 1⟩]

theorem within_cardProject : twoCards.Within (Registry.ofDefinitions cardProject) := by
  unfold Within
  decide +kernel

theorem unreachable_agrees_with_nodes_cardProject :
    (Registry.ofDefinitions cardProject).Registered page ∧
      Unlimited (buildFrom twoCards 2 page) ∧
      ((UsageGraph.build (Registry.ofDefinitions cardProject) twoCards).unreachableFrom page).map
        ComponentId.name = ["Badge"] := by
  have hroot : (Registry.ofDefinitions cardProject).Registered page := by decide +kernel
  have hunlimited : Unlimited (buildFrom twoCards 2 page) := by decide +kernel
  have hagree := unreachable_agrees_with_nodes cardProject twoCards 2 page (by decide)
    within_cardProject hroot
  refine ⟨hroot, hunlimited, ?_⟩
  rw [hagree.right hunlimited]
  decide +kernel

end ComponentTree
end JsxUsage
