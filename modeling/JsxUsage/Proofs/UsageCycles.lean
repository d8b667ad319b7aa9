import JsxUsage.Proofs.UsageReachability

/-!
# Cycles of the usage graph

Two nodes are in one strongly connected class if they are one node or walks lead from each
of them to the other.  The reported groups are the classes that have several nodes or an
edge from their only node to itself.  This module proves that these are the classes of the
nodes on cycles: where a walk with at least one edge leads from a node back to it, the walk
comes to another node of the class or is made of such an edge, and in a class with several
nodes each one has a walk to another and back.
-/

namespace JsxUsage
namespace UsageGraph

/-- Edges lead from each of two nodes to the other. -/
def Mutual (g : UsageGraph) (m n : Nat) : Prop :=
  Relation.TransGen g.Edge m n ∧ Relation.TransGen g.Edge n m

theorem mutual_symm {g : UsageGraph} {m n : Nat} (h : g.Mutual m n) : g.Mutual n m :=
  ⟨h.right, h.left⟩

theorem mutual_trans {g : UsageGraph} {k m n : Nat} (hkm : g.Mutual k m) (hmn : g.Mutual m n) :
    g.Mutual k n :=
  ⟨hkm.left.trans hmn.left, hmn.right.trans hkm.right⟩

/-!
# Strongly connected classes
-/

def Connected (g : UsageGraph) (m n : Nat) : Prop :=
  Relation.ReflTransGen g.Edge m n ∧ Relation.ReflTransGen g.Edge n m

theorem connected_iff {g : UsageGraph} {m n : Nat} : g.Connected m n <-> m = n ∨ g.Mutual m n := by
  unfold Connected Mutual
  rw [Relation.reflTransGen_iff_eq_or_transGen, Relation.reflTransGen_iff_eq_or_transGen]
  constructor
  · intro h
    rcases h with ⟨heq | hto, heq' | hfro⟩
    · exact Or.inl heq.symm
    · exact Or.inl heq.symm
    · exact Or.inl heq'
    · exact Or.inr ⟨hto, hfro⟩
  · intro h
    rcases h with rfl | ⟨hto, hfro⟩
    · exact ⟨Or.inl rfl, Or.inl rfl⟩
    · exact ⟨Or.inr hto, Or.inr hfro⟩

/-- On a node that lies on a cycle the two relations agree. -/
theorem connected_iff_mutual {g : UsageGraph} {m n : Nat} (hm : g.Mutual m m) :
    g.Connected m n <-> g.Mutual m n := by
  rw [connected_iff]
  constructor
  · intro h
    rcases h with rfl | hmutual
    · exact hm
    · exact hmutual
  · exact Or.inr

/-- What can be reached from each of the nodes. -/
def reachTable (g : UsageGraph) : List (List Nat) :=
  (List.range g.nodeCount).map g.reachable

theorem length_reachTable (g : UsageGraph) : g.reachTable.length = g.nodeCount := by
  simp [reachTable]

theorem getD_reachTable {g : UsageGraph} {n : Nat} (hn : n < g.nodeCount) :
    g.reachTable.getD n [] = g.reachable n := by
  simp [reachTable, hn]

theorem sameClass_iff {g : UsageGraph} (hclosed : g.Closed) {m n : Nat} (hm : m < g.nodeCount)
    (hn : n < g.nodeCount) : sameClass g.reachTable m n = true <-> g.Connected m n := by
  rw [connected_iff, sameClass, getD_reachTable hm, getD_reachTable hn, Bool.or_eq_true,
    Bool.and_eq_true, beq_iff_eq, List.contains_iff_mem, List.contains_iff_mem,
    mem_reachable_iff hclosed, mem_reachable_iff hclosed]
  rfl

/-- The class of the node at `n`. -/
def members (g : UsageGraph) (n : Nat) : List Nat :=
  (List.range g.nodeCount).filter (sameClass g.reachTable n)

theorem mem_members_iff {g : UsageGraph} (hclosed : g.Closed) {m n : Nat} (hn : n < g.nodeCount) :
    m ∈ g.members n <-> m < g.nodeCount ∧ g.Connected n m := by
  rw [members, List.mem_filter, List.mem_range]
  apply and_congr_right
  intro hm
  exact sameClass_iff hclosed hn hm

theorem nodup_members (g : UsageGraph) (n : Nat) : (g.members n).Nodup :=
  List.nodup_range.filter _

theorem self_mem_members {g : UsageGraph} (hclosed : g.Closed) {n : Nat} (hn : n < g.nodeCount) :
    n ∈ g.members n :=
  (mem_members_iff hclosed hn).mpr ⟨hn, connected_iff.mpr (Or.inl rfl)⟩

/-!
# Cyclic classes
-/

theorem hasEdge_iff {g : UsageGraph} {m n : Nat} : g.hasEdge m n = true <-> g.Edge m n :=
  List.contains_iff_mem

/-- In a class with several nodes a walk leads from each of them to another and back. -/
theorem mutual_of_several {g : UsageGraph} (hclosed : g.Closed) {n : Nat} (hn : n < g.nodeCount)
    (hseveral : 1 < (g.members n).length) : g.Mutual n n := by
  have hother : exists m, m ∈ g.members n ∧ m ≠ n := by
    by_contra hnone
    have hsub : g.members n ⊆ [n] := by
      intro m hm
      by_contra hne
      exact hnone ⟨m, hm, fun heq => hne (List.mem_singleton.mpr heq)⟩
    have hlength := ((nodup_members g n).subperm hsub).length_le
    rw [List.length_singleton] at hlength
    omega
  rcases hother with ⟨m, hm, hne⟩
  rcases connected_iff.mp ((mem_members_iff hclosed hn).mp hm).right with heq | hmutual
  · exact absurd heq.symm hne
  · exact mutual_trans hmutual (mutual_symm hmutual)

/-- A walk from a node back to it comes to another node of its class, or is made of an edge
from the node to itself. -/
theorem several_or_edge_of_mutual {g : UsageGraph} (hclosed : g.Closed) {n : Nat}
    (hn : n < g.nodeCount) (h : g.Mutual n n) : 1 < (g.members n).length ∨ g.Edge n n := by
  rcases Relation.TransGen.head'_iff.mp h.left with ⟨m, hedge, hback⟩
  by_cases heq : m = n
  · rw [heq] at hedge
    exact Or.inr hedge
  · left
    have hm : m ∈ g.members n := (mem_members_iff hclosed hn).mpr
      ⟨hclosed n m hedge, Relation.ReflTransGen.single hedge, hback⟩
    have hpair : [n, m] ⊆ g.members n := by
      intro k hk
      rcases List.mem_cons.mp hk with rfl | hrest
      · exact self_mem_members hclosed hn
      · rw [List.mem_singleton.mp hrest]
        exact hm
    have hnodup : [n, m].Nodup := by simp [Ne.symm heq]
    exact (hnodup.subperm hpair).length_le

/-- The filter keeps the classes of the nodes on cycles and no others. -/
theorem isCyclic_members_iff {g : UsageGraph} (hclosed : g.Closed) {n : Nat}
    (hn : n < g.nodeCount) : g.isCyclic (g.members n) = true <-> g.Mutual n n := by
  rw [isCyclic, Bool.or_eq_true, decide_eq_true_eq]
  constructor
  · intro h
    rcases h with hseveral | hedge
    · exact mutual_of_several hclosed hn hseveral
    · -- The first node of the class has the edge, and leads to the node and back.
      cases hfirst : (g.members n).head? with
      | none =>
          rw [hfirst] at hedge
          cases hedge
      | some first =>
          rw [hfirst, Option.any_some] at hedge
          have hconnected := ((mem_members_iff hclosed hn).mp (List.mem_of_head? hfirst)).right
          have hround := Relation.TransGen.single (hasEdge_iff.mp hedge)
          have hwalk := (Relation.TransGen.trans_right hconnected.left hround).trans_left
            hconnected.right
          exact ⟨hwalk, hwalk⟩
  · intro h
    rcases several_or_edge_of_mutual hclosed hn h with hseveral | hedge
    · exact Or.inl hseveral
    · by_cases hseveral : 1 < (g.members n).length
      · exact Or.inl hseveral
      · right
        have hmem := self_mem_members hclosed hn
        cases hmembers : g.members n with
        | nil =>
            rw [hmembers] at hmem
            cases hmem
        | cons first rest =>
            rw [hmembers] at hmem hseveral
            have hrest : rest = [] := by
              rw [List.length_cons] at hseveral
              exact List.length_eq_zero_iff.mp (by omega)
            rw [hrest, List.mem_singleton] at hmem
            rw [List.head?_cons, Option.any_some, ← hmem]
            exact hasEdge_iff.mpr hedge

/-!
# The groups as classes

A group is listed at its first member.  Each node on a cycle has such a first member
in its class, so no class is missing.
-/

/-- The components of the class of the node at `n`. -/
def classOf (g : UsageGraph) (n : Nat) : List ComponentId :=
  ((g.members n).filterMap (g.nodes[·]?)).mergeSort ComponentId.le

/-- The node at `n` is on a cycle and is the first one of its class. -/
def IsLeader (g : UsageGraph) (n : Nat) : Prop :=
  n < g.nodeCount ∧ g.Mutual n n ∧ forall k, k < n -> ¬ g.Mutual n k

theorem mem_classOf {g : UsageGraph} (hclosed : g.Closed) {n : Nat} (hn : n < g.nodeCount)
    (hcyclic : g.Mutual n n) {c : ComponentId} :
    c ∈ g.classOf n <-> exists m, g.nodes[m]? = some c ∧ g.Mutual n m := by
  unfold classOf
  rw [List.mem_mergeSort, List.mem_filterMap]
  constructor
  · intro h
    rcases h with ⟨m, hm, hc⟩
    have hconnected := ((mem_members_iff hclosed hn).mp hm).right
    exact ⟨m, hc, (connected_iff_mutual hcyclic).mp hconnected⟩
  · intro h
    rcases h with ⟨m, hc, hmutual⟩
    have hm : m < g.nodeCount := (List.getElem?_eq_some_iff.mp hc).1
    exact ⟨m, (mem_members_iff hclosed hn).mpr ⟨hm, (connected_iff_mutual hcyclic).mpr hmutual⟩, hc⟩

theorem mem_classOf_of_mutual {g : UsageGraph} (hclosed : g.Closed) {l n : Nat}
    (hl : g.IsLeader l) (hln : g.Mutual l n) {c : ComponentId} :
    c ∈ g.classOf l <-> exists m, g.nodes[m]? = some c ∧ g.Mutual n m := by
  rw [mem_classOf hclosed hl.left hl.right.left]
  constructor
  · intro h
    rcases h with ⟨m, hc, hlm⟩
    exact ⟨m, hc, mutual_trans (mutual_symm hln) hlm⟩
  · intro h
    rcases h with ⟨m, hc, hnm⟩
    exact ⟨m, hc, mutual_trans hln hnm⟩

/-- The first nodes of the cyclic classes. -/
def leaders (g : UsageGraph) : List Nat :=
  ((List.range g.nodeCount).filter fun n =>
    !(List.range n).any (sameClass g.reachTable n)).filter fun n => g.isCyclic (g.members n)

theorem mem_leaders {g : UsageGraph} (hclosed : g.Closed) {n : Nat} :
    n ∈ g.leaders <-> g.IsLeader n := by
  unfold leaders IsLeader
  rw [List.mem_filter, List.mem_filter, List.mem_range, and_assoc]
  apply and_congr_right
  intro hn
  rw [isCyclic_members_iff hclosed hn, and_comm]
  apply and_congr_right
  intro hcyclic
  rw [Bool.not_eq_true', List.any_eq_false]
  constructor
  · intro hfirst k hk hmutual
    exact hfirst k (List.mem_range.mpr hk) ((sameClass_iff hclosed hn (Nat.lt_trans hk hn)).mpr
      ((connected_iff_mutual hcyclic).mpr hmutual))
  · intro hfirst k hk hsame
    have hlt : k < n := List.mem_range.mp hk
    exact hfirst k hlt ((connected_iff_mutual hcyclic).mp
      ((sameClass_iff hclosed hn (Nat.lt_trans hlt hn)).mp hsame))

/-- The groups are the classes of the leaders. -/
theorem cycles_eq (g : UsageGraph) :
    g.cycles = (g.leaders.map g.classOf).mergeSort fun x y =>
      (ComponentId.compareLists x y).isLE := by
  have hcycles : g.cycles = (((strongClasses g.reachTable).filter g.isCyclic).map fun members =>
      (members.filterMap (g.nodes[·]?)).mergeSort ComponentId.le).mergeSort fun x y =>
        (ComponentId.compareLists x y).isLE := rfl
  simp only [hcycles, strongClasses, length_reachTable, List.filter_map, List.map_map]
  rfl

theorem mem_cycles {g : UsageGraph} (hclosed : g.Closed) {group : List ComponentId} :
    group ∈ g.cycles <-> exists n, g.IsLeader n ∧ group = g.classOf n := by
  rw [cycles_eq, List.mem_mergeSort, List.mem_map]
  constructor
  · intro h
    rcases h with ⟨n, hn, rfl⟩
    exact ⟨n, (mem_leaders hclosed).mp hn, rfl⟩
  · intro h
    rcases h with ⟨n, hleader, rfl⟩
    exact ⟨n, (mem_leaders hclosed).mpr hleader, rfl⟩

theorem leader_unique {g : UsageGraph} {k l : Nat} (hk : g.IsLeader k) (hl : g.IsLeader l)
    (hkl : g.Mutual k l) : k = l := by
  rcases Nat.lt_trichotomy k l with hlt | heq | hgt
  · exact absurd (mutual_symm hkl) (hl.right.right k hlt)
  · exact heq
  · exact absurd hkl (hk.right.right l hgt)

theorem exists_leader {g : UsageGraph} (hclosed : g.Closed) {n : Nat} (h : g.Mutual n n) :
    exists l, g.IsLeader l ∧ g.Mutual l n := by
  induction n using Nat.strongRecOn with
  | ind n ih =>
      by_cases hearlier : exists k, k < n ∧ g.Mutual n k
      · rcases hearlier with ⟨k, hk, hnk⟩
        rcases ih k hk (mutual_trans (mutual_symm hnk) hnk) with ⟨l, hleader, hlk⟩
        exact ⟨l, hleader, mutual_trans hlk (mutual_symm hnk)⟩
      · refine ⟨n, ⟨?_, h, ?_⟩, h⟩
        · rcases Relation.TransGen.tail'_iff.mp h.left with ⟨m, _, hedge⟩
          exact hclosed m n hedge
        · intro k hk hnk
          exact hearlier ⟨k, hk, hnk⟩

/-- A group is the class of each of its members. -/
theorem group_of_mem {g : UsageGraph} (hclosed : g.Closed) {group : List ComponentId}
    (hgroup : group ∈ g.cycles) {c : ComponentId} (hc : c ∈ group) :
    exists n, g.nodes[n]? = some c ∧
      forall d, d ∈ group <-> exists m, g.nodes[m]? = some d ∧ g.Mutual n m := by
  rcases (mem_cycles hclosed).mp hgroup with ⟨l, hleader, rfl⟩
  rcases (mem_classOf hclosed hleader.left hleader.right.left).mp hc with ⟨n, hn, hln⟩
  refine ⟨n, hn, ?_⟩
  intro d
  exact mem_classOf_of_mutual hclosed hleader hln

/-- The class of each node on a cycle is a group. -/
theorem exists_group {g : UsageGraph} (hclosed : g.Closed) {n : Nat} (h : g.Mutual n n) :
    exists group, group ∈ g.cycles ∧
      forall c, c ∈ group <-> exists m, g.nodes[m]? = some c ∧ g.Mutual n m := by
  rcases exists_leader hclosed h with ⟨l, hleader, hln⟩
  refine ⟨g.classOf l, (mem_cycles hclosed).mpr ⟨l, hleader, rfl⟩, ?_⟩
  intro c
  exact mem_classOf_of_mutual hclosed hleader hln

/-!
# The groups of a built graph

In a built graph the groups are those of the links between registered components.
-/

/-- Links lead from each of two components to the other. -/
def MutuallyLinked (r : Registry) (a : Adjacency) (c d : ComponentId) : Prop :=
  Relation.TransGen (Linked r a) c d ∧ Relation.TransGen (Linked r a) d c

theorem mutuallyLinked_congr {r : Registry} {a : Adjacency} {c c' d d' : ComponentId}
    (hc : (c == c') = true) (hd : (d == d') = true) (h : MutuallyLinked r a c d) :
    MutuallyLinked r a c' d' :=
  ⟨ComponentId.transGen_congr linked_congr hc hd h.left,
    ComponentId.transGen_congr linked_congr hd hc h.right⟩

section Built

variable {r : Registry} {a : Adjacency}

theorem mem_class_linked {n : Nat} {c d : ComponentId} (hc : r.ids[n]? = some c) :
    (exists m, (build r a).nodes[m]? = some d ∧ (build r a).Mutual n m) <->
      d ∈ r.ids ∧ MutuallyLinked r a c d := by
  constructor
  · intro h
    rcases h with ⟨m, hd, hto, hfro⟩
    exact ⟨List.mem_of_getElem? hd, (edges_iff_linked hc hd).mp hto,
      (edges_iff_linked hd hc).mp hfro⟩
  · intro h
    rcases h with ⟨hmem, hto, hfro⟩
    rcases List.mem_iff_getElem?.mp hmem with ⟨m, hd⟩
    exact ⟨m, hd, (edges_iff_linked hc hd).mpr hto, (edges_iff_linked hd hc).mpr hfro⟩

theorem group_of_mem_linked {group : List ComponentId} (hgroup : group ∈ (build r a).cycles)
    {c d : ComponentId} (hc : c ∈ group) : d ∈ group <-> d ∈ r.ids ∧ MutuallyLinked r a c d := by
  rcases group_of_mem (closed_build _ a) hgroup hc with ⟨n, hn, hclass⟩
  rw [hclass d]
  exact mem_class_linked hn

theorem exists_group_linked {c : ComponentId} (hc : c ∈ r.ids)
    (hcyclic : Relation.TransGen (Linked r a) c c) :
    exists group, group ∈ (build r a).cycles ∧
      forall d, d ∈ group <-> d ∈ r.ids ∧ MutuallyLinked r a c d := by
  rcases List.mem_iff_getElem?.mp hc with ⟨n, hn⟩
  have hround := (edges_iff_linked hn hn).mpr hcyclic
  rcases exists_group (closed_build _ a) ⟨hround, hround⟩ with ⟨group, hgroup, hclass⟩
  refine ⟨group, hgroup, ?_⟩
  intro d
  rw [hclass d]
  exact mem_class_linked hn

variable (hwithin : a.Within r)

include hwithin

theorem mutuallyLinked_iff {c d : ComponentId} : MutuallyLinked r a c d <-> a.Mutual c d := by
  constructor
  · intro h
    rcases Relation.TransGen.head'_iff.mp h.left with ⟨_, hc, _⟩
    rcases Relation.TransGen.head'_iff.mp h.right with ⟨_, hd, _⟩
    exact ⟨(linked_iff_leads hwithin hc.left).mp h.left,
      (linked_iff_leads hwithin hd.left).mp h.right⟩
  · intro h
    exact ⟨(linked_iff_leads hwithin (registered_of_leads hwithin h.right)).mpr h.left,
      (linked_iff_leads hwithin (registered_of_leads hwithin h.left)).mpr h.right⟩

theorem group_of_mem_build {group : List ComponentId} (hgroup : group ∈ (build r a).cycles)
    {c d : ComponentId} (hc : c ∈ group) : d ∈ group <-> d ∈ r.ids ∧ a.Mutual c d := by
  rw [group_of_mem_linked hgroup hc, mutuallyLinked_iff hwithin]

theorem exists_group_build {c : ComponentId} (hc : c ∈ r.ids) (hcyclic : a.Mutual c c) :
    exists group, group ∈ (build r a).cycles ∧
      forall d, d ∈ group <-> d ∈ r.ids ∧ a.Mutual c d := by
  rcases exists_group_linked hc ((mutuallyLinked_iff hwithin).mpr hcyclic).left with
    ⟨group, hgroup, hclass⟩
  refine ⟨group, hgroup, ?_⟩
  intro d
  rw [hclass d, mutuallyLinked_iff hwithin]

theorem exists_member_of_mutual {group : List ComponentId}
    (hgroup : group ∈ (build r a).cycles) {c d : ComponentId} (hc : c ∈ group)
    (hcd : a.Mutual c d) : exists member, member ∈ group ∧ (member == d) = true := by
  rcases position_of_registered (registered_of_leads hwithin hcd.left) with
    ⟨_, member, _, hmember, hsame⟩
  refine ⟨member, (group_of_mem_build hwithin hgroup hc).mpr ?_, hsame⟩
  exact ⟨List.mem_of_getElem? hmember, Adjacency.mutual_congr BEq.rfl (BEq.symm hsame) hcd⟩

end Built

end UsageGraph
end JsxUsage
