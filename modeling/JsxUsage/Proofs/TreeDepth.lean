import JsxUsage.Proofs.TreeDiagnostics
import JsxUsage.Proofs.TreeStates

/-!
# How deep a tree can be

The components from the root to a node are all different, and all but the last have
entries of their own, for their lists were followed.  So no node is deeper than the
number of entries, and the loop ends even where no depth limit would stop it.
-/

namespace JsxUsage

namespace Adjacency

/-!
# Entries on a walk
-/

theorem contains_of_children {a : Adjacency} {c : ComponentId}
    (h : (a.children c).isEmpty = false) : a.contains c = true := by
  unfold children at h
  unfold contains Index.contains
  cases hlist : a.lists.get? c with
  | none =>
      rw [hlist] at h
      cases h
  | some list => rfl

theorem key_of_contains {a : Adjacency} {c : ComponentId} (h : a.contains c = true) :
    c.key ∈ a.lists.pairs.map fun entry => entry.1.key := by
  rcases Option.isSome_iff_exists.mp h with ⟨list, hlist⟩
  rcases Index.mem_of_find hlist with ⟨id, hmem, hsame⟩
  exact List.mem_map.mpr ⟨(id, list), hmem, ComponentId.beq_iff_key.mp hsame⟩

/-- Different components with entries of their own are no more than the entries. -/
theorem length_le_size {a : Adjacency} {way : List ComponentId} (hfree : RepeatFree way)
    (hentries : forall c, c ∈ way -> a.contains c = true) : way.length ≤ a.size := by
  have hnodup : (way.map ComponentId.key).Nodup := by
    refine List.pairwise_map.mpr (hfree.imp ?_)
    intro c d hother hkey
    rw [ComponentId.beq_iff_key.mpr hkey] at hother
    cases hother
  have hsubset : way.map ComponentId.key ⊆ a.lists.pairs.map fun entry => entry.1.key := by
    intro key hkey
    rcases List.mem_map.mp hkey with ⟨c, hc, rfl⟩
    exact key_of_contains (hentries c hc)
  have hle := (hnodup.subperm hsubset).length_le
  rw [List.length_map, List.length_map] at hle
  exact hle

theorem contains_of_walk {a : Adjacency} {c d : ComponentId} {positions : List Nat}
    {trail : List ComponentId} (h : Walk a c positions trail) (hd : d ∈ (c :: trail).dropLast) :
    a.contains d = true := by
  induction h with
  | stay c => cases hd
  | use hstep _ ih =>
      rw [List.dropLast_cons_cons] at hd
      rcases List.mem_cons.mp hd with rfl | hd
      · exact contains_of_children (ComponentTree.children_of_mem (List.mem_of_getElem? hstep))
      · exact ih hd

theorem walk_length_le_size {a : Adjacency} {root : ComponentId} {positions : List Nat}
    {trail : List ComponentId} (h : Walk a root positions trail) (hfree : RepeatFree (root :: trail)) :
    trail.length ≤ a.size := by
  have hle := length_le_size (hfree.sublist (List.dropLast_sublist _))
    fun c hc => contains_of_walk h hc
  rw [List.length_dropLast] at hle
  exact hle

end Adjacency

namespace ComponentTree

open Adjacency TreeBuilder

/-!
# Nodes and the depth limit
-/

theorem buildFrom_max (a : Adjacency) (maxDepth : Nat) (root : ComponentId) :
    buildFrom a (max maxDepth 1) root = buildFrom a maxDepth root := by
  rw [buildFrom_eq_expand, buildFrom_eq_expand, Nat.max_assoc, Nat.max_self]

section Node

variable {a : Adjacency} {maxDepth : Nat} {root : ComponentId} {i : Nat} {n : TreeNode}
  (hn : (buildFrom a maxDepth root).nodes[i]? = some n)
include hn

theorem length_lineage_buildFrom : (lineage (buildFrom a maxDepth root).nodes i).length = n.depth := by
  rcases ascends_of_node (orderly_buildFrom a maxDepth root) hn with ⟨chain, _, hway, hlength⟩
  rw [hway, List.length_reverse, List.length_map, hlength]

/-- A walk without repetition leads to each node, no longer than the limit allows. -/
theorem walk_of_node :
    exists positions, Walk a root positions (lineage (buildFrom a maxDepth root).nodes i) ∧
      positions.length ≤ max maxDepth 1 ∧
      RepeatFree (root :: lineage (buildFrom a maxDepth root).nodes i) := by
  rw [← buildFrom_max] at hn ⊢
  have hlimit : 1 ≤ max maxDepth 1 := Nat.le_max_right maxDepth 1
  have hi : i < (buildFrom a (max maxDepth 1) root).size := (Array.getElem?_eq_some_iff.mp hn).1
  have hwalk := walk_address a hlimit root hi
  rcases (address_bijOn a hlimit root).mapsTo hi with ⟨_, hlength, trail, htrail, hfree⟩
  rw [walk_unique htrail hwalk] at hfree
  exact ⟨_, hwalk, hlength, hfree⟩

theorem depth_le_size : n.depth ≤ min (max maxDepth 1) a.size := by
  rcases walk_of_node hn with ⟨positions, hwalk, hlength, hfree⟩
  rw [← length_lineage_buildFrom hn]
  refine Nat.le_min.mpr ⟨?_, walk_length_le_size hwalk hfree⟩
  rw [walk_length hwalk]
  exact hlength

end Node

/-- A limit that is no less than the number of entries is never reported. -/
theorem unlimited_of_size_le {a : Adjacency} {maxDepth : Nat} (hsize : a.size ≤ max maxDepth 1)
    (root : ComponentId) : Unlimited (buildFrom a maxDepth root) := by
  intro name depth hreported
  rw [← buildFrom_max, mem_diagnostics_buildFrom (Nat.le_max_right maxDepth 1)] at hreported
  rcases hreported with ⟨_, _, _, _, _, _, _, _, ⟨⟩⟩ | ⟨steps, trail, hwalk, hfree, hlength, hend, _⟩
  -- The walk goes on, so the component at its end has an entry as well, one too many.
  cases huses : a.children (trail.getLastD root) with
  | nil =>
      rw [huses] at hend
      cases hend
  | cons d others =>
      have hlonger : Walk a root (steps ++ [0]) (trail ++ [d]) :=
        walk_snoc hwalk (by rw [huses, List.getElem?_cons_zero])
      have hle := length_le_size hfree fun c hc => contains_of_walk hlonger (by
        rw [← List.cons_append, List.dropLast_concat]
        exact hc)
      rw [List.singleton_append, List.length_cons, walk_length hwalk, hlength] at hle
      omega

/-- The loop ends after a number of rounds that depends on the entries alone, whatever the
depth limit is.  The components from the root to a node are different and all but the
last have entries, so a node is no deeper than there are entries, and no limit from
there on cuts anything.  A limit counts as at least one. -/
theorem loop_ends_at_any_limit (a : Adjacency) (root : ComponentId) :
    (exists enough, forall maxDepth n, enough ≤ n ->
        (start a root).loop a (max maxDepth 1) n = ⟨buildFrom a maxDepth root, []⟩) ∧
      (forall maxDepth i n, (buildFrom a maxDepth root).nodes[i]? = some n ->
        n.depth ≤ min (max maxDepth 1) a.size ∧
          (lineage (buildFrom a maxDepth root).nodes i).length = n.depth ∧
          RepeatFree (root :: lineage (buildFrom a maxDepth root).nodes i) ∧
          forall c, c ∈ (root :: lineage (buildFrom a maxDepth root).nodes i).dropLast ->
            a.contains c = true) ∧
      forall maxDepth, a.size ≤ max maxDepth 1 -> Unlimited (buildFrom a maxDepth root) := by
  refine ⟨⟨rounds (width a) a.size, ?_⟩, ?_, ?_⟩
  · intro maxDepth n hn
    rw [loop_start a (max maxDepth 1) root hn, buildFrom_eq_expand]
  · intro maxDepth i n hn
    rcases walk_of_node hn with ⟨positions, hwalk, _, hfree⟩
    exact ⟨depth_le_size hn, length_lineage_buildFrom hn, hfree, fun c hc => contains_of_walk hwalk hc⟩
  · intro maxDepth hsize
    exact unlimited_of_size_le hsize root

theorem loop_ends_at_any_limit_twoCards :
    (buildFrom twoCards 64 page).nodes[1]?.map TreeNode.depth = some 2 ∧
      2 ≤ min (max 64 1) twoCards.size ∧ twoCards.size ≤ max 64 1 ∧
      Unlimited (buildFrom twoCards 64 page) := by
  have hends := loop_ends_at_any_limit twoCards page
  have hdepth : (buildFrom twoCards 64 page).nodes[1]?.map TreeNode.depth = some 2 := by
    decide +kernel
  have hsize : twoCards.size ≤ max 64 1 := by decide +kernel
  refine ⟨hdepth, ?_, hsize, hends.right.right 64 hsize⟩
  rcases Option.map_eq_some_iff.mp hdepth with ⟨n, hn, hdepth⟩
  rw [← hdepth]
  exact (hends.right.left 64 1 n hn).left

end ComponentTree
end JsxUsage
