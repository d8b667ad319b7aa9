import JsxUsage.Proofs.Registration
import JsxUsage.UsageGraph
import Mathlib.Data.Finset.Card
import Mathlib.Logic.Relation

/-!
# Reachability in the usage graph

The graph finds what can be reached by rounds of single edges.  This module proves
that the rounds are enough, so that what is found is what walks along edges lead to,
and it says what the edges of a built graph are.
-/

namespace JsxUsage

theorem Adjacency.mem_children_iff {a : Adjacency} {c child : ComponentId} :
    child ∈ a.children c <->
      exists key list, (key, list) ∈ a.lists.pairs ∧ (key == c) = true ∧ child ∈ list := by
  unfold children Index.get?
  constructor
  · intro hchild
    cases hfound : Index.find c a.lists.pairs with
    | none => simp [hfound] at hchild
    | some list =>
        rcases Index.mem_of_find hfound with ⟨key, hentry, hsame⟩
        rw [hfound] at hchild
        exact ⟨key, list, hentry, hsame, hchild⟩
  · intro h
    rcases h with ⟨key, list, hentry, hsame, hchild⟩
    rw [Index.find_of_mem a.lists.distinct hentry hsame]
    exact hchild

/-- The components that have an entry and all those that are used are registered. -/
def Adjacency.Within (a : Adjacency) (r : Registry) : Prop :=
  forall entry, entry ∈ a.lists.pairs ->
    r.Registered entry.1 ∧ forall child, child ∈ entry.2 -> r.Registered child

namespace UsageGraph

/-!
# Rounds of single edges
-/

/-- An edge leads from `m` to `n`. -/
def Edge (g : UsageGraph) (m n : Nat) : Prop := (m, n) ∈ g.edges

/-- Edges lead to nodes only. -/
def Closed (g : UsageGraph) : Prop := forall m n, g.Edge m n -> n < g.nodeCount

theorem mem_successors {g : UsageGraph} {m n : Nat} : n ∈ g.successors m <-> g.Edge m n := by
  unfold successors Edge
  rw [List.mem_filterMap]
  constructor
  · intro h
    rcases h with ⟨⟨source, target⟩, hmem, hsome⟩
    by_cases hsource : source = m
    · subst hsource
      simp only [beq_self_eq_true, if_true, Option.some.injEq] at hsome
      rw [← hsome]
      exact hmem
    · simp [hsource] at hsome
  · intro hmem
    exact ⟨(m, n), hmem, by simp⟩

/-- The nodes that one round adds. -/
def fresh (g : UsageGraph) (seen frontier : List Nat) : List Nat :=
  (frontier.flatMap g.successors).eraseDups.filter fun n => !seen.contains n

theorem mem_fresh {g : UsageGraph} {seen frontier : List Nat} {n : Nat} :
    n ∈ g.fresh seen frontier <-> (exists m, m ∈ frontier ∧ g.Edge m n) ∧ n ∉ seen := by
  unfold fresh
  rw [List.mem_filter, List.mem_eraseDups, List.mem_flatMap]
  simp [mem_successors]

theorem spread_succ_of_isEmpty {g : UsageGraph} {seen frontier : List Nat}
    (h : (g.fresh seen frontier).isEmpty = true) (rounds : Nat) :
    g.spread (rounds + 1) seen frontier = seen :=
  if_pos h

theorem spread_succ_of_fresh {g : UsageGraph} {seen frontier : List Nat}
    (h : (g.fresh seen frontier).isEmpty = false) (rounds : Nat) :
    g.spread (rounds + 1) seen frontier =
      g.spread rounds (seen ++ g.fresh seen frontier) (g.fresh seen frontier) :=
  if_neg (Bool.eq_false_iff.mp h)

theorem subset_spread {g : UsageGraph} {rounds : Nat} {seen frontier : List Nat} {n : Nat}
    (h : n ∈ seen) : n ∈ g.spread rounds seen frontier := by
  induction rounds generalizing seen frontier with
  | zero => exact h
  | succ rounds ih =>
      cases hfresh : (g.fresh seen frontier).isEmpty with
      | true =>
          rw [spread_succ_of_isEmpty hfresh]
          exact h
      | false =>
          rw [spread_succ_of_fresh hfresh]
          exact ih (List.mem_append_left _ h)

theorem spread_sound {g : UsageGraph} {rounds : Nat} {seen frontier : List Nat} {n : Nat}
    (h : n ∈ g.spread rounds seen frontier) :
    n ∈ seen ∨ exists m, m ∈ frontier ∧ Relation.TransGen g.Edge m n := by
  induction rounds generalizing seen frontier with
  | zero => exact Or.inl h
  | succ rounds ih =>
      cases hfresh : (g.fresh seen frontier).isEmpty with
      | true =>
          rw [spread_succ_of_isEmpty hfresh] at h
          exact Or.inl h
      | false =>
          rw [spread_succ_of_fresh hfresh] at h
          rcases ih h with hseen | ⟨k, hk, hreach⟩
          · rcases List.mem_append.mp hseen with hold | hnew
            · exact Or.inl hold
            · rcases (mem_fresh.mp hnew).left with ⟨m, hm, hedge⟩
              exact Or.inr ⟨m, hm, Relation.TransGen.single hedge⟩
          · rcases (mem_fresh.mp hk).left with ⟨m, hm, hedge⟩
            exact Or.inr ⟨m, hm, Relation.TransGen.head hedge hreach⟩

/-- Where a round adds a node, there is one more node. -/
theorem card_fresh {g : UsageGraph} {seen frontier : List Nat}
    (h : (g.fresh seen frontier).isEmpty = false) :
    seen.toFinset.card + 1 ≤ (seen ++ g.fresh seen frontier).toFinset.card := by
  cases hfresh : g.fresh seen frontier with
  | nil =>
      rw [hfresh] at h
      cases h
  | cons n rest =>
      have hn : n ∉ seen := (mem_fresh.mp (hfresh ▸ List.mem_cons_self)).right
      apply Finset.card_lt_card
      refine Finset.ssubset_iff.mpr ⟨n, by simpa using hn, ?_⟩
      intro m hm
      simp only [Finset.mem_insert, List.mem_toFinset] at hm
      rcases hm with rfl | hm
      · simp
      · simp [hm]

/-- The nodes that have been seen are closed under edges when the rounds are over.
Each round that goes on adds a node, so at the end there is no round missing. -/
theorem spread_closed {g : UsageGraph} (hclosed : g.Closed) {rounds : Nat}
    {seen frontier : List Nat} (hseen : forall m, m ∈ seen -> m < g.nodeCount)
    (hdone : forall m n, m ∈ seen -> g.Edge m n -> n ∈ seen ∨ m ∈ frontier)
    (hrounds : g.nodeCount ≤ rounds + seen.toFinset.card) {m n : Nat}
    (hm : m ∈ g.spread rounds seen frontier) (hedge : g.Edge m n) :
    n ∈ g.spread rounds seen frontier := by
  induction rounds generalizing seen frontier with
  | zero =>
      have hall : seen.toFinset = Finset.range g.nodeCount := by
        apply Finset.eq_of_subset_of_card_le
        · intro k hk
          exact Finset.mem_range.mpr (hseen k (List.mem_toFinset.mp hk))
        · simpa using hrounds
      have hn : n ∈ seen.toFinset := by
        rw [hall]
        exact Finset.mem_range.mpr (hclosed m n hedge)
      exact List.mem_toFinset.mp hn
  | succ rounds ih =>
      cases hfresh : (g.fresh seen frontier).isEmpty with
      | true =>
          rw [spread_succ_of_isEmpty hfresh] at hm ⊢
          rcases hdone m n hm hedge with hn | hfrontier
          · exact hn
          · by_contra hn
            have hnew : n ∈ g.fresh seen frontier := mem_fresh.mpr ⟨⟨m, hfrontier, hedge⟩, hn⟩
            rw [List.isEmpty_iff.mp hfresh] at hnew
            cases hnew
      | false =>
          rw [spread_succ_of_fresh hfresh] at hm ⊢
          refine ih ?_ ?_ ?_ hm
          · intro k hk
            rcases List.mem_append.mp hk with hold | hnew
            · exact hseen k hold
            · rcases (mem_fresh.mp hnew).left with ⟨j, _, hj⟩
              exact hclosed j k hj
          · intro j k hj hjk
            rcases List.mem_append.mp hj with hold | hnew
            · rcases hdone j k hold hjk with hk | hfrontier
              · exact Or.inl (List.mem_append_left _ hk)
              · by_cases hk : k ∈ seen
                · exact Or.inl (List.mem_append_left _ hk)
                · exact Or.inl (List.mem_append_right _ (mem_fresh.mpr ⟨⟨j, hfrontier, hjk⟩, hk⟩))
            · exact Or.inr hnew
          · have hmore := card_fresh hfresh
            omega

theorem mem_reachable_iff {g : UsageGraph} (hclosed : g.Closed) {m n : Nat} :
    n ∈ g.reachable m <-> Relation.TransGen g.Edge m n := by
  have hfirst : forall k, k ∈ (g.successors m).eraseDups <-> g.Edge m k := by
    intro k
    rw [List.mem_eraseDups, mem_successors]
  constructor
  · intro h
    rcases spread_sound h with hn | ⟨k, hk, hreach⟩
    · exact Relation.TransGen.single ((hfirst n).mp hn)
    · exact Relation.TransGen.head ((hfirst k).mp hk) hreach
  · intro h
    induction h with
    | single hedge => exact subset_spread ((hfirst _).mpr hedge)
    | tail _ hedge ih =>
        refine spread_closed hclosed ?_ ?_ (Nat.le_add_right _ _) ih hedge
        · intro k hk
          exact hclosed m k ((hfirst k).mp hk)
        · intro j k hj _
          exact Or.inr hj

/-!
# The edges of a built graph

Edges are collected over the entries of the adjacency and the children of each entry.
What is collected does not depend on the order or on how often a child comes.
-/

theorem mem_addEdge {edges : List (Nat × Nat)} {source target : Nat} {edge : Nat × Nat} :
    edge ∈ addEdge edges source target <-> edge ∈ edges ∨ edge = (source, target) := by
  unfold addEdge
  by_cases hold : (source, target) ∈ edges
  · rw [if_pos (List.contains_iff_mem.mpr hold)]
    constructor
    · exact Or.inl
    · intro h
      rcases h with hmem | rfl
      · exact hmem
      · exact hold
  · rw [if_neg (fun h => hold (List.contains_iff_mem.mp h)), List.mem_append, List.mem_singleton]

theorem mem_foldl_of_step {α : Type} {add : List (Nat × Nat) -> α -> List (Nat × Nat)}
    {adds : α -> Nat × Nat -> Prop}
    (hstep : forall edges x edge, edge ∈ add edges x <-> edge ∈ edges ∨ adds x edge)
    (xs : List α) (edges : List (Nat × Nat)) (edge : Nat × Nat) :
    edge ∈ xs.foldl add edges <-> edge ∈ edges ∨ exists x, x ∈ xs ∧ adds x edge := by
  induction xs generalizing edges with
  | nil => simp
  | cons x rest ih => simp [ih, hstep, or_assoc]

theorem mem_addEdges {nodes : List ComponentId} {edges : List (Nat × Nat)}
    {entry : ComponentId × List ComponentId} {edge : Nat × Nat} :
    edge ∈ addEdges nodes edges entry <->
      edge ∈ edges ∨ exists child, child ∈ entry.2 ∧
        positionOf nodes entry.1 = some edge.1 ∧ positionOf nodes child = some edge.2 := by
  unfold addEdges
  cases hsource : positionOf nodes entry.1 with
  | none => simp
  | some source =>
      have hstep : forall (edges : List (Nat × Nat)) (target : Nat) (edge : Nat × Nat),
          edge ∈ addEdge edges source target <-> edge ∈ edges ∨ edge = (source, target) := by
        intro edges target edge
        exact mem_addEdge
      simp only [mem_foldl_of_step hstep, List.mem_filterMap]
      constructor
      · intro h
        rcases h with hold | ⟨target, ⟨child, hchild, htarget⟩, rfl⟩
        · exact Or.inl hold
        · exact Or.inr ⟨child, hchild, rfl, htarget⟩
      · intro h
        rcases h with hold | ⟨child, hchild, hsource, htarget⟩
        · exact Or.inl hold
        · refine Or.inr ⟨edge.2, ⟨child, hchild, htarget⟩, ?_⟩
          rw [Option.some.inj hsource]

theorem positionOf_eq_some_iff {nodes : List ComponentId} (hdistinct : Adjacency.RepeatFree nodes)
    {id : ComponentId} {position : Nat} :
    positionOf nodes id = some position <->
      exists c, nodes[position]? = some c ∧ (c == id) = true :=
  Registry.findIdx?_eq_some_iff_of_repeatFree hdistinct

theorem edge_build_iff {r : Registry} (a : Adjacency) {m n : Nat} :
    (build r a).Edge m n <->
      exists c d, r.ids[m]? = some c ∧ r.ids[n]? = some d ∧ a.Uses c d := by
  have hmem : (build r a).Edge m n <-> exists entry, entry ∈ a.lists.pairs ∧
      exists child, child ∈ entry.2 ∧ positionOf r.ids entry.1 = some m ∧
        positionOf r.ids child = some n := by
    have hstep : forall edges entry (edge : Nat × Nat), edge ∈ addEdges r.ids edges entry <->
        edge ∈ edges ∨ exists child, child ∈ entry.2 ∧
          positionOf r.ids entry.1 = some edge.1 ∧ positionOf r.ids child = some edge.2 := by
      intro edges entry edge
      exact mem_addEdges
    have hedges : (build r a).Edge m n <-> (m, n) ∈ a.entries.foldl (addEdges r.ids) [] := Iff.rfl
    rw [hedges, mem_foldl_of_step hstep]
    simp [Adjacency.entries]
  rw [hmem]
  constructor
  · intro h
    rcases h with ⟨⟨k, list⟩, hentry, child, hchild, hm, hn⟩
    rcases (positionOf_eq_some_iff r.repeatFree_ids).mp hm with ⟨c, hc, hsame⟩
    rcases (positionOf_eq_some_iff r.repeatFree_ids).mp hn with ⟨d, hd, hdchild⟩
    refine ⟨c, d, hc, hd, child, ?_, BEq.symm hdchild⟩
    exact Adjacency.mem_children_iff.mpr ⟨k, list, hentry, BEq.symm hsame, hchild⟩
  · intro h
    rcases h with ⟨c, d, hc, hd, child, hchild, hsame⟩
    rcases Adjacency.mem_children_iff.mp hchild with ⟨k, list, hentry, hkc, hlist⟩
    exact ⟨(k, list), hentry, child, hlist,
      (positionOf_eq_some_iff r.repeatFree_ids).mpr ⟨c, hc, BEq.symm hkc⟩,
      (positionOf_eq_some_iff r.repeatFree_ids).mpr ⟨d, hd, BEq.symm hsame⟩⟩

theorem closed_build (r : Registry) (a : Adjacency) : (build r a).Closed := by
  intro m n hedge
  rcases (edge_build_iff a).mp hedge with ⟨_, d, _, hd, _⟩
  exact (List.getElem?_eq_some_iff.mp hd).1

/-!
# Reachability in a built graph

An edge of the graph is a link between two registered components.  If all that is used
is registered, then every use is a link, no walk along uses leaves the graph, and the
graph says of each of its nodes whether uses lead to it.
-/

/-- Both components are registered, and the first one uses the second. -/
def Linked (r : Registry) (a : Adjacency) (c d : ComponentId) : Prop :=
  r.Registered c ∧ r.Registered d ∧ a.Uses c d

theorem linked_congr {r : Registry} {a : Adjacency} {c c' d d' : ComponentId}
    (hc : (c == c') = true) (hd : (d == d') = true) (h : Linked r a c d) : Linked r a c' d' :=
  ⟨Registry.registered_congr hc h.left, Registry.registered_congr hd h.right.left,
    Adjacency.uses_congr hc hd h.right.right⟩

section Built

variable {r : Registry} {a : Adjacency}

theorem position_of_registered {c : ComponentId} (h : r.Registered c) :
    exists position d, positionOf r.ids c = some position ∧ r.ids[position]? = some d ∧
      (d == c) = true := by
  rcases (Registry.registered_iff c).mp h with ⟨position, hposition⟩
  rcases (positionOf_eq_some_iff r.repeatFree_ids).mp hposition with ⟨d, hd, hsame⟩
  exact ⟨position, d, hposition, hd, hsame⟩

theorem registered_of_position {n : Nat} {c : ComponentId} (hc : r.ids[n]? = some c) :
    r.Registered c :=
  (Registry.registered_iff c).mpr
    ⟨n, (positionOf_eq_some_iff r.repeatFree_ids).mpr ⟨c, hc, BEq.rfl⟩⟩

theorem linked_of_edges {m n : Nat} (h : Relation.TransGen (build r a).Edge m n)
    {c d : ComponentId} (hc : r.ids[m]? = some c) (hd : r.ids[n]? = some d) :
    Relation.TransGen (Linked r a) c d := by
  have hlinked : forall {m n : Nat} {c d : ComponentId}, (build r a).Edge m n ->
      r.ids[m]? = some c -> r.ids[n]? = some d -> Linked r a c d := by
    intro m n c d hedge hc hd
    rcases (edge_build_iff a).mp hedge with ⟨c', d', hc', hd', huses⟩
    rw [hc] at hc'
    rw [hd] at hd'
    cases hc'
    cases hd'
    exact ⟨registered_of_position hc, registered_of_position hd, huses⟩
  induction h generalizing d with
  | single hedge => exact Relation.TransGen.single (hlinked hedge hc hd)
  | tail _ hedge ih =>
      rcases (edge_build_iff a).mp hedge with ⟨b, _, hb, _, _⟩
      exact Relation.TransGen.tail (ih hb) (hlinked hedge hb hd)

theorem edges_of_linked {c d : ComponentId} (h : Relation.TransGen (Linked r a) c d) {m n : Nat}
    {d' : ComponentId} (hc : r.ids[m]? = some c) (hd : r.ids[n]? = some d')
    (hsame : (d == d') = true) : Relation.TransGen (build r a).Edge m n := by
  induction h generalizing n d' with
  | single hlinked =>
      have hedge := (edge_build_iff a).mpr
        ⟨c, d', hc, hd, (linked_congr BEq.rfl hsame hlinked).right.right⟩
      exact Relation.TransGen.single hedge
  | @tail b d _ hlinked ih =>
      rcases position_of_registered hlinked.left with ⟨k, b', _, hb, hb'⟩
      have hedge := (edge_build_iff a).mpr
        ⟨b', d', hb, hd, (linked_congr (BEq.symm hb') hsame hlinked).right.right⟩
      exact Relation.TransGen.tail (ih hb (BEq.symm hb')) hedge

theorem edges_iff_linked {m n : Nat} {c d : ComponentId} (hc : r.ids[m]? = some c)
    (hd : r.ids[n]? = some d) :
    Relation.TransGen (build r a).Edge m n <-> Relation.TransGen (Linked r a) c d := by
  constructor
  · intro h
    exact linked_of_edges h hc hd
  · intro h
    exact edges_of_linked h hc hd BEq.rfl

theorem registered_of_leads (hwithin : a.Within r) {c d : ComponentId}
    (h : Relation.TransGen a.Uses c d) : r.Registered d := by
  rcases Relation.TransGen.tail'_iff.mp h with ⟨_, _, child, hchild, hsame⟩
  rcases Adjacency.mem_children_iff.mp hchild with ⟨key, list, hentry, _, hlist⟩
  exact Registry.registered_congr hsame ((hwithin _ hentry).right child hlist)

theorem linked_iff_leads (hwithin : a.Within r) {c d : ComponentId} (hc : r.Registered c) :
    Relation.TransGen (Linked r a) c d <-> Relation.TransGen a.Uses c d := by
  constructor
  · intro h
    have huses : Linked r a ≤ a.Uses := fun _ _ hlinked => hlinked.right.right
    exact Relation.TransGen.mono huses c d h
  · intro h
    induction h with
    | single huses =>
        have hd := registered_of_leads hwithin (Relation.TransGen.single huses)
        exact Relation.TransGen.single ⟨hc, hd, huses⟩
    | tail hleads huses ih =>
        have hb := registered_of_leads hwithin hleads
        have hd := registered_of_leads hwithin (Relation.TransGen.single huses)
        exact Relation.TransGen.tail ih ⟨hb, hd, huses⟩

theorem edges_iff_leads (hwithin : a.Within r) {m n : Nat} {c d : ComponentId}
    (hc : r.ids[m]? = some c) (hd : r.ids[n]? = some d) :
    Relation.TransGen (build r a).Edge m n <-> Relation.TransGen a.Uses c d := by
  rw [edges_iff_linked hc hd, linked_iff_leads hwithin (registered_of_position hc)]

theorem mem_reached_build (hwithin : a.Within r) {root c : ComponentId} {start n : Nat}
    (hstart : positionOf r.ids root = some start) (hc : r.ids[n]? = some c) :
    n ∈ start :: (build r a).reachable start <-> a.Reaches root c := by
  rcases (positionOf_eq_some_iff r.repeatFree_ids).mp hstart with ⟨root', hroot', hsame⟩
  rw [List.mem_cons, mem_reachable_iff (closed_build _ a), edges_iff_leads hwithin hroot' hc]
  constructor
  · intro h
    rcases h with rfl | hleads
    · rw [hroot'] at hc
      cases hc
      exact Or.inl (BEq.symm hsame)
    · exact Or.inr (Adjacency.leads_congr hsame BEq.rfl hleads)
  · intro h
    rcases h with hroot | hleads
    · have hn := (positionOf_eq_some_iff r.repeatFree_ids).mpr ⟨c, hc, BEq.symm hroot⟩
      rw [hstart] at hn
      exact Or.inl (Option.some.inj hn).symm
    · exact Or.inr (Adjacency.leads_congr (BEq.symm hsame) BEq.rfl hleads)

/-- The list is the part of the registry that uses do not lead to, however that is
decided. -/
theorem unreachableFrom_build (hwithin : a.Within r) {root : ComponentId}
    (hroot : r.Registered root) {p : ComponentId -> Bool}
    (hp : forall c, c ∈ r.ids -> (p c = true <-> ¬ a.Reaches root c)) :
    (build r a).unreachableFrom root = r.ids.filter p := by
  rcases position_of_registered hroot with ⟨start, _, hstart, _, _⟩
  have hkept : forall x, x ∈ r.ids.zipIdx ->
      (!(start :: (build r a).reachable start).contains x.2) = p x.1 := by
    intro h hx
    rcases h with ⟨c, n⟩
    have hc : r.ids[n]? = some c := List.mem_zipIdx_iff_getElem?.mp hx
    rw [Bool.eq_iff_iff, hp c (List.mem_of_getElem? hc), ← mem_reached_build hwithin hstart hc]
    simp
  have hunreached : (build r a).unreachableFrom root =
      (r.ids.zipIdx.filter fun x => !(start :: (build r a).reachable start).contains x.2).map
        Prod.fst := by
    unfold unreachableFrom
    rw [show positionOf (build r a).nodes root = some start from hstart]
    rfl
  rw [hunreached, List.filter_congr hkept]
  conv_rhs => rw [← List.zipIdx_map_fst 0 r.ids, List.filter_map]
  rfl

theorem mem_unreachableFrom_build (hwithin : a.Within r) {root c : ComponentId}
    (hroot : r.Registered root) :
    c ∈ (build r a).unreachableFrom root <-> c ∈ r.ids ∧ ¬ a.Reaches root c := by
  classical
  rw [unreachableFrom_build hwithin hroot (p := fun d => decide (¬ a.Reaches root d)),
    List.mem_filter, decide_eq_true_iff]
  intro d _
  exact decide_eq_true_iff

end Built

end UsageGraph
end JsxUsage
