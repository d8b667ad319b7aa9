import JsxUsage.Proofs.PathOrder
import JsxUsage.Proofs.UsageCycles
import Mathlib.Data.List.ProdSigma

/-!
# The report on cycles

The usage graph reports its cyclic groups as sorted lists in a sorted list, and the
number of its edges.  This module proves for every registry and every adjacency that
the groups are the cyclic classes of the links between registered components, that no
component is in two of them, and that an edge is counted once, however often its target
is used and whatever else is used that is not registered.
-/

namespace JsxUsage

/-!
# The order of components
-/

namespace ComponentId

instance : Std.TransCmp ComponentId.compare :=
  inferInstanceAs (Std.TransCmp (compareLex (compareOn file) (compareOn name)))

theorem compare_eq_eq_iff {c d : ComponentId} : c.compare d = .eq <-> (c == d) = true := by
  unfold compare
  rw [Ordering.then_eq_eq, Path.compare_eq_eq_iff, Path.beq_iff_parts,
    Std.LawfulEqOrd.compare_eq_iff_eq, beq_iff_key]
  exact Prod.mk.injEq .. |>.to_iff.symm

theorem compareLists_eq_compareLex : compareLists = List.compareLex ComponentId.compare := by
  funext cs ds
  induction cs generalizing ds with
  | nil => cases ds <;> rfl
  | cons c cs ih =>
      cases ds with
      | nil => rfl
      | cons d ds => rw [compareLists, List.compareLex_cons_cons, ih]

instance : Std.TransCmp compareLists := by
  rw [compareLists_eq_compareLex]
  infer_instance

theorem compareLists_eq_eq_iff {cs ds : List ComponentId} :
    compareLists cs ds = .eq <-> cs.map key = ds.map key := by
  induction cs generalizing ds with
  | nil => cases ds <;> simp [compareLists]
  | cons c cs ih =>
      cases ds with
      | nil => simp [compareLists]
      | cons d ds =>
          rw [compareLists, Ordering.then_eq_eq, compare_eq_eq_iff, beq_iff_key, ih, List.map_cons,
            List.map_cons, List.cons.injEq]

end ComponentId

namespace UsageGraph

open Adjacency (RepeatFree)
open Registry (ofDefinitions)

/-!
# Sorted groups

No component is a node twice, so the members of a group are different, and two groups
with a member in common are one group.
-/

section Groups

variable {g : UsageGraph} (hclosed : g.Closed) (hdistinct : RepeatFree g.nodes)

include hdistinct in
theorem increasing_classOf (n : Nat) :
    (g.classOf n).Pairwise fun c d => c.compare d = .lt := by
  apply pairwise_lt_mergeSort ComponentId.compare
  rw [List.pairwise_filterMap]
  have horder : (g.members n).Pairwise (· < ·) := List.pairwise_lt_range.filter _
  refine horder.imp ?_
  intro k l hlt c hc d hd heq
  rcases List.getElem?_eq_some_iff.mp hc with ⟨hk, rfl⟩
  rcases List.getElem?_eq_some_iff.mp hd with ⟨hl, rfl⟩
  have hne := List.pairwise_iff_getElem.mp hdistinct k l hk hl hlt
  rw [ComponentId.compare_eq_eq_iff.mp heq] at hne
  cases hne

include hclosed

omit hdistinct in
theorem exists_mem_classOf {l : Nat} (hl : g.IsLeader l) : exists c, c ∈ g.classOf l := by
  rcases hl with ⟨hlt, hself, _⟩
  have hnode := List.getElem?_eq_getElem (show l < g.nodes.length from hlt)
  exact ⟨_, (mem_classOf hclosed hlt hself).mpr ⟨l, hnode, hself⟩⟩

include hdistinct

theorem leader_of_member {k l : Nat} (hk : g.IsLeader k) (hl : g.IsLeader l) {c d : ComponentId}
    (hc : c ∈ g.classOf k) (hd : d ∈ g.classOf l) (hsame : (c == d) = true) : k = l := by
  rcases (mem_classOf hclosed hk.left hk.right.left).mp hc with ⟨m, hm, hkm⟩
  rcases (mem_classOf hclosed hl.left hl.right.left).mp hd with ⟨n, hn, hln⟩
  have hposition : m = n := by
    have hfirst := (positionOf_eq_some_iff hdistinct).mpr ⟨c, hm, hsame⟩
    have hsecond := (positionOf_eq_some_iff hdistinct).mpr ⟨d, hn, BEq.rfl⟩
    exact Option.some.inj (hfirst.symm.trans hsecond)
  subst hposition
  exact leader_unique hk hl (mutual_trans hkm (mutual_symm hln))

theorem increasing_cycles :
    g.cycles.Pairwise fun x y => ComponentId.compareLists x y = .lt := by
  rw [cycles_eq]
  apply pairwise_lt_mergeSort ComponentId.compareLists
  rw [List.pairwise_map]
  have horder : g.leaders.Pairwise (· < ·) := (List.pairwise_lt_range.filter _).filter _
  refine horder.imp_of_mem ?_
  intro k l hk hl hlt heq
  rw [mem_leaders hclosed] at hk hl
  -- The leader of the first class has a counterpart in the second one.
  rcases exists_mem_classOf hclosed hk with ⟨c, hself⟩
  have hkey := List.mem_map_of_mem (f := ComponentId.key) hself
  rw [ComponentId.compareLists_eq_eq_iff.mp heq] at hkey
  rcases List.mem_map.mp hkey with ⟨d, hd, hsame⟩
  have hkl := leader_of_member hclosed hdistinct hk hl hself hd
    (ComponentId.beq_iff_key.mpr hsame.symm)
  omega

end Groups

/-!
# Counting edges

An edge is only added where it is not there yet, whichever entry it comes from.
-/

theorem nodup_addEdge {edges : List (Nat × Nat)} (h : edges.Nodup) (source target : Nat) :
    (addEdge edges source target).Nodup := by
  unfold addEdge
  by_cases hold : (source, target) ∈ edges
  · rw [if_pos (List.contains_iff_mem.mpr hold)]
    exact h
  · rw [if_neg (fun hmem => hold (List.contains_iff_mem.mp hmem))]
    exact List.nodup_append.mpr ⟨h, List.nodup_singleton _, by
      intro edge hedge other hother heq
      rw [List.mem_singleton.mp hother] at heq
      exact hold (heq ▸ hedge)⟩

theorem nodup_addEdges {nodes : List ComponentId} {edges : List (Nat × Nat)} (h : edges.Nodup)
    (entry : ComponentId × List ComponentId) : (addEdges nodes edges entry).Nodup := by
  unfold addEdges
  cases positionOf nodes entry.1 with
  | none => exact h
  | some source =>
      apply List.foldlRecOn (motive := List.Nodup) _ _ h
      intro edges hedges target _
      exact nodup_addEdge hedges source target

theorem nodup_edges_build (r : Registry) (a : Adjacency) : (build r a).edges.Nodup := by
  apply List.foldlRecOn (motive := List.Nodup) _ _ List.nodup_nil
  intro edges hedges entry _
  exact nodup_addEdges hedges entry

section Built

theorem nodup_ids (r : Registry) : r.ids.Nodup :=
  r.repeatFree_ids.imp ne_of_beq_false

variable {r : Registry} (a : Adjacency)

/-- Seen as pairs of components, the edges are the pairs the first of which uses the second. -/
theorem edges_perm_pairs :
    ((build r a).edges.map fun edge => (r.ids[edge.1]?, r.ids[edge.2]?)).Perm
      (((r.ids ×ˢ r.ids).filter fun pair => (a.children pair.1).any (· == pair.2)).map
        fun pair => (some pair.1, some pair.2)) := by
  have hedge : forall edge, edge ∈ (build r a).edges -> exists c d, r.ids[edge.1]? = some c ∧
      r.ids[edge.2]? = some d ∧ a.Uses c d := fun edge => (edge_build_iff a).mp
  have hids := nodup_ids r
  rw [List.perm_ext_iff_of_nodup]
  · intro ends
    rw [List.mem_map, List.mem_map]
    constructor
    · intro h
      rcases h with ⟨edge, hmem, rfl⟩
      rcases hedge edge hmem with ⟨c, d, hc, hd, huses⟩
      refine ⟨(c, d), List.mem_filter.mpr ⟨?_, List.any_eq_true.mpr huses⟩, ?_⟩
      · exact List.mem_product.mpr ⟨List.mem_of_getElem? hc, List.mem_of_getElem? hd⟩
      · rw [hc, hd]
    · intro h
      rcases h with ⟨⟨c, d⟩, hpair, rfl⟩
      rcases List.mem_filter.mp hpair with ⟨hmem, huses⟩
      rcases List.mem_product.mp hmem with ⟨hc, hd⟩
      rcases List.mem_iff_getElem?.mp hc with ⟨m, hm⟩
      rcases List.mem_iff_getElem?.mp hd with ⟨n, hn⟩
      refine ⟨(m, n), (edge_build_iff a).mpr ⟨c, d, hm, hn, List.any_eq_true.mp huses⟩, ?_⟩
      rw [hm, hn]
  · apply List.Nodup.map_on _ (nodup_edges_build r a)
    intro x hx y hy heq
    rcases hedge x hx with ⟨_, _, hc, hd, _⟩
    have hfirst : x.1 = y.1 :=
      (List.getElem?_inj (List.getElem?_eq_some_iff.mp hc).1 hids).mp (congrArg Prod.fst heq)
    have hsecond : x.2 = y.2 :=
      (List.getElem?_inj (List.getElem?_eq_some_iff.mp hd).1 hids).mp (congrArg Prod.snd heq)
    exact Prod.ext hfirst hsecond
  · apply List.Nodup.map _ ((hids.product hids).filter _)
    intro x y heq
    exact Prod.ext (Option.some.inj (congrArg Prod.fst heq))
      (Option.some.inj (congrArg Prod.snd heq))

theorem edgeCount_build : (build r a).edgeCount =
    ((r.ids ×ˢ r.ids).filter fun pair => (a.children pair.1).any (· == pair.2)).length := by
  simpa [edgeCount] using (edges_perm_pairs a).length_eq

/-!
# The whole report
-/

variable {a}

theorem exists_common_group_iff (c d : ComponentId) :
    (exists group, group ∈ (build r a).cycles ∧ group.any (· == c) = true ∧
      group.any (· == d) = true) <-> MutuallyLinked r a c d := by
  constructor
  · intro h
    rcases h with ⟨group, hgroup, hc, hd⟩
    rcases List.any_eq_true.mp hc with ⟨x, hx, hxc⟩
    rcases List.any_eq_true.mp hd with ⟨y, hy, hyd⟩
    have hxy := ((group_of_mem_linked hgroup hx).mp hy).right
    exact mutuallyLinked_congr hxc hyd hxy
  · intro h
    rcases Relation.TransGen.head'_iff.mp h.left with ⟨_, hc, _⟩
    rcases Relation.TransGen.head'_iff.mp h.right with ⟨_, hd, _⟩
    rcases position_of_registered hc.left with ⟨_, x, _, hx, hxc⟩
    rcases position_of_registered hd.left with ⟨_, y, _, hy, hyd⟩
    have hxy := mutuallyLinked_congr (BEq.symm hxc) (BEq.symm hyd) h
    have hround := hxy.left.trans hxy.right
    rcases exists_group_linked (List.mem_of_getElem? hx) hround with ⟨group, hgroup, hclass⟩
    refine ⟨group, hgroup, List.any_eq_true.mpr ⟨x, ?_, hxc⟩, List.any_eq_true.mpr ⟨y, ?_, hyd⟩⟩
    · exact (hclass x).mpr ⟨List.mem_of_getElem? hx, hround, hround⟩
    · exact (hclass y).mpr ⟨List.mem_of_getElem? hy, hxy⟩

theorem group_unique {group other : List ComponentId} (hgroup : group ∈ (build r a).cycles)
    (hother : other ∈ (build r a).cycles) {c : ComponentId} (hc : group.any (· == c) = true)
    (hc' : other.any (· == c) = true) : group = other := by
  have hclosed := closed_build r a
  rcases (mem_cycles hclosed).mp hgroup with ⟨k, hk, rfl⟩
  rcases (mem_cycles hclosed).mp hother with ⟨l, hl, rfl⟩
  rcases List.any_eq_true.mp hc with ⟨x, hx, hxc⟩
  rcases List.any_eq_true.mp hc' with ⟨y, hy, hyc⟩
  rw [leader_of_member hclosed r.repeatFree_ids hk hl hx hy (BEq.trans hxc (BEq.symm hyc))]

theorem sorted_group {group : List ComponentId} (hgroup : group ∈ (build r a).cycles) :
    group ≠ [] ∧ (forall c, c ∈ group -> c ∈ r.ids) ∧
      group.Pairwise fun c d => c.compare d = .lt := by
  have hclosed := closed_build r a
  rcases (mem_cycles hclosed).mp hgroup with ⟨l, hl, rfl⟩
  rcases exists_mem_classOf hclosed hl with ⟨c, hc⟩
  refine ⟨List.ne_nil_of_mem hc, ?_, increasing_classOf r.repeatFree_ids l⟩
  intro d hd
  exact ((group_of_mem_linked hgroup hc).mp hd).left

end Built

theorem cycles_are_cyclic_groups (ds : List Definition) (a : Adjacency) :
    (forall c, (exists group, group ∈ (build (ofDefinitions ds) a).cycles ∧
        group.any (· == c) = true) <->
      Relation.TransGen (Linked (ofDefinitions ds) a) c c) ∧
    (forall c d, (exists group, group ∈ (build (ofDefinitions ds) a).cycles ∧
        group.any (· == c) = true ∧ group.any (· == d) = true) <->
      Relation.TransGen (Linked (ofDefinitions ds) a) c d ∧
        Relation.TransGen (Linked (ofDefinitions ds) a) d c) ∧
    (forall group other c, group ∈ (build (ofDefinitions ds) a).cycles ->
      other ∈ (build (ofDefinitions ds) a).cycles -> group.any (· == c) = true ->
      other.any (· == c) = true -> group = other) ∧
    (forall group, group ∈ (build (ofDefinitions ds) a).cycles -> group ≠ [] ∧
      (forall c, c ∈ group -> c ∈ (ofDefinitions ds).ids) ∧
      group.Pairwise fun c d => c.compare d = .lt) ∧
    ((build (ofDefinitions ds) a).cycles.Pairwise fun x y =>
      ComponentId.compareLists x y = .lt) ∧
    (build (ofDefinitions ds) a).edgeCount =
      (((ofDefinitions ds).ids ×ˢ (ofDefinitions ds).ids).filter fun pair =>
        (a.children pair.1).any (· == pair.2)).length := by
  have hcommon := exists_common_group_iff (r := ofDefinitions ds) (a := a)
  refine ⟨?_, hcommon, ?_, ?_, ?_, edgeCount_build a⟩
  · intro c
    have hself := hcommon c c
    simp only [and_self] at hself
    rw [hself]
    exact and_self_iff
  · intro group other c hgroup hother hc hc'
    exact group_unique hgroup hother hc hc'
  · intro group hgroup
    exact sorted_group hgroup
  · exact increasing_cycles (closed_build _ a) (ofDefinitions ds).repeatFree_ids

end UsageGraph
end JsxUsage
