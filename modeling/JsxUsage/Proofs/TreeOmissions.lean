import JsxUsage.Proofs.TreeDiagnostics
import JsxUsage.Proofs.TreeWalks

/-!
# Every use of a tree is accounted for

Each use in the list of a placed component becomes a node or is left out, and what is
left out is reported.  This module proves that the nodes below a place and the
diagnostics for it make up the list of its component, use for use, and that nothing
else is reported.  A tree without diagnostics is therefore one whose uses all fit
under the greatest depth.
-/

namespace JsxUsage
namespace ComponentTree

open Adjacency TreeBuilder

/-!
# Places

Uses stand below the root and below each node.
-/

/-- A place below which uses stand. -/
structure Spot where
  /-- The components from the root to the place, with the one at the place last. -/
  way : List ComponentId
  component : ComponentId
  depth : Nat

namespace Spot

/-- The uses at a place of components that are not on the way to it. -/
def kept (a : Adjacency) (s : Spot) : List ComponentId :=
  (a.children s.component).filter fun c => !s.way.any (· == c)

/-- The uses at a place of components that are already on the way to it. -/
def repeated (a : Adjacency) (s : Spot) : List ComponentId :=
  (a.children s.component).filter fun c => s.way.any (· == c)

/-- What has to be reported of a place: each use that closes a cycle or, at the greatest
depth, that there are uses. -/
def omissions (a : Adjacency) (maxDepth : Nat) (s : Spot) : List Diagnostic :=
  if s.depth < maxDepth then (s.repeated a).map (closing s.way)
  else if (a.children s.component).isEmpty then []
  else [.depthLimit s.component.name s.depth]

end Spot

/-- The root and the positions of the nodes. -/
def places (t : ComponentTree) : List (Option Nat) :=
  none :: (List.range t.nodes.size).map some

def spotOf (t : ComponentTree) (p : Option Nat) : Spot :=
  match p.bind (t.nodes[·]?) with
  | none => ⟨[t.root], t.root, 0⟩
  | some n => ⟨t.root :: lineageOf t.nodes p, n.component, n.depth⟩

/-- The components of the nodes below a place, in the order of the nodes. -/
def childrenOf (t : ComponentTree) (p : Option Nat) : List ComponentId :=
  (t.nodes.toList.filter (·.parent == p)).map TreeNode.component

/-!
A place stays what it is while the tree grows.
-/

theorem spotOf_node {t : ComponentTree} {i : Nat} {n : TreeNode} (hn : t.nodes[i]? = some n) :
    t.spotOf (some i) = ⟨t.root :: lineage t.nodes i, n.component, n.depth⟩ := by
  simp only [spotOf, Option.bind_some, hn, lineageOf]

theorem spotOf_grow {t u : ComponentTree} (hroot : u.root = t.root)
    (hnodes : exists added, u.nodes = t.nodes ++ added) {i : Nat} (hi : i < t.nodes.size) :
    u.spotOf (some i) = t.spotOf (some i) := by
  rcases hnodes with ⟨added, hadded⟩
  have hn : t.nodes[i]? = some t.nodes[i] := Array.getElem?_eq_getElem hi
  have hsame : u.nodes[i]? = some t.nodes[i] := by
    rw [hadded, Array.getElem?_append_left hi, hn]
  rw [spotOf_node hn, spotOf_node hsame, hroot, hadded, lineage_append t.nodes added hi]

theorem spotOf_place {t : ComponentTree} {parent : Option Nat} {way : List ComponentId}
    (hleads : LeadsTo t parent way) (child : ComponentId) (depth : Nat) :
    (place t child parent depth).spotOf (some t.nodes.size) = ⟨way ++ [child], child, depth⟩ := by
  have hnode : (place t child parent depth).nodes[t.nodes.size]? =
      some ⟨t.nodes.size, child, parent, depth⟩ := Array.getElem?_push_size
  rw [spotOf_node hnode, lineage_place hleads.left, hleads.right]
  rfl

/-- The positions that were added from `t` to `u`. -/
def fresh (t u : ComponentTree) : List Nat :=
  List.range' t.nodes.size (u.nodes.size - t.nodes.size)

theorem mem_fresh {t u : ComponentTree} {i : Nat} :
    i ∈ fresh t u <-> t.nodes.size ≤ i ∧ i < u.nodes.size := by
  rw [fresh, List.mem_range'_1]
  omega

theorem fresh_append {t m u : ComponentTree} (htm : t.nodes.size ≤ m.nodes.size)
    (hmu : m.nodes.size ≤ u.nodes.size) : fresh t u = fresh t m ++ fresh m u := by
  have hstart : t.nodes.size + (m.nodes.size - t.nodes.size) = m.nodes.size := by omega
  have hlength : (m.nodes.size - t.nodes.size) + (u.nodes.size - m.nodes.size) =
      u.nodes.size - t.nodes.size := by omega
  have happend := List.range'_append_1 (s := t.nodes.size) (m := m.nodes.size - t.nodes.size)
    (n := u.nodes.size - m.nodes.size)
  rw [hstart, hlength] at happend
  exact happend.symm

theorem fresh_place {t u : ComponentTree} {child : ComponentId} {parent : Option Nat} {depth : Nat}
    (hle : (place t child parent depth).nodes.size ≤ u.nodes.size) :
    fresh t u = t.nodes.size :: fresh (place t child parent depth) u := by
  have hone : fresh t (place t child parent depth) = [t.nodes.size] := by
    simp [fresh, place]
  rw [fresh_append (m := place t child parent depth) (by simp [place]) hle, hone]
  rfl

/-!
# What an expansion reports

The omissions at the added places are collected place by place, while an expansion
reports the uses that it passes over between the levels below.  The order differs, and
so the two are compared up to order.
-/

def omissionsFrom (a : Adjacency) (maxDepth : Nat) (t u : ComponentTree) : List Diagnostic :=
  (fresh t u).flatMap fun i => (u.spotOf (some i)).omissions a maxDepth

theorem size_le_of_append {t u : ComponentTree} (hnodes : exists added, u.nodes = t.nodes ++ added) :
    t.nodes.size ≤ u.nodes.size := by
  rcases hnodes with ⟨added, hadded⟩
  rw [hadded, Array.size_append]
  exact Nat.le_add_right _ _

theorem omissionsFrom_append (a : Adjacency) (maxDepth : Nat) {t m u : ComponentTree}
    (htm : exists added, m.nodes = t.nodes ++ added) (hroot : u.root = m.root)
    (hmu : exists added, u.nodes = m.nodes ++ added) :
    omissionsFrom a maxDepth t u = omissionsFrom a maxDepth t m ++ omissionsFrom a maxDepth m u := by
  unfold omissionsFrom
  rw [fresh_append (size_le_of_append htm) (size_le_of_append hmu), List.flatMap_append]
  congr 1
  apply List.flatMap_congr
  intro i hi
  rw [spotOf_grow hroot hmu (mem_fresh.mp hi).right]

theorem omissionsFrom_place (a : Adjacency) (maxDepth : Nat) {t u : ComponentTree}
    {parent : Option Nat} {way : List ComponentId} {child : ComponentId} {depth : Nat}
    (hleads : LeadsTo t parent way) (hroot : u.root = (place t child parent depth).root)
    (hnodes : exists added, u.nodes = (place t child parent depth).nodes ++ added) :
    omissionsFrom a maxDepth t u =
      Spot.omissions a maxDepth ⟨way ++ [child], child, depth⟩ ++
        omissionsFrom a maxDepth (place t child parent depth) u := by
  have hhere : u.spotOf (some t.nodes.size) = ⟨way ++ [child], child, depth⟩ := by
    rw [spotOf_grow (t := place t child parent depth) hroot hnodes (by simp [place])]
    exact spotOf_place hleads child depth
  unfold omissionsFrom
  rw [fresh_place (size_le_of_append hnodes), List.flatMap_cons, hhere]

theorem expands_omissions {a : Adjacency} {maxDepth : Nat} {way : List ComponentId}
    {parent : Option Nat} {depth : Nat} {children : List ComponentId} {t u : ComponentTree}
    (h : Expands a maxDepth way parent depth children t u) (hleads : LeadsTo t parent way) :
    u.diagnostics.toList.Perm (t.diagnostics.toList ++
      ((children.filter fun c => way.any (· == c)).map (closing way) ++
        omissionsFrom a maxDepth t u)) := by
  induction h with
  | done => simp [omissionsFrom, fresh]
  | @cyclic way parent depth child later t u hon hrest ih =>
      have hafter := leadsTo_grow (u := report t (closing way child)) hleads rfl
        ⟨#[], by simp [report]⟩
      have hlater := ih hafter
      have hsame : omissionsFrom a maxDepth (report t (closing way child)) u =
          omissionsFrom a maxDepth t u := rfl
      rw [hsame] at hlater
      rw [List.filter_cons_of_pos (p := fun c => way.any (· == c)) hon]
      simpa [report] using hlater
  | @leaf way parent depth child later t u hnew hempty hrest ih =>
      have hlater := ih (leadsTo_place hleads child depth)
      have hnone : Spot.omissions a maxDepth ⟨way ++ [child], child, depth⟩ = [] := by
        simp [Spot.omissions, Spot.repeated, List.isEmpty_iff.mp hempty]
      rw [List.filter_cons_of_neg (by simp [hnew]),
        omissionsFrom_place a maxDepth hleads (expands_root hrest) (expands_nodes hrest), hnone]
      exact hlater
  | @limited way parent depth child later t u hnew hparental hlimit hrest ih =>
      have hafter := leadsTo_grow (u := report (place t child parent depth)
        (.depthLimit child.name depth)) (leadsTo_place hleads child depth) rfl
        ⟨#[], by simp [report]⟩
      have hlater := ih hafter
      have hone : Spot.omissions a maxDepth ⟨way ++ [child], child, depth⟩ =
          [.depthLimit child.name depth] := by
        rw [Spot.omissions, if_neg (Nat.not_lt_of_le hlimit), if_neg (by simp [hparental])]
      have hroot := expands_root hrest
      have hnodes := expands_nodes hrest
      rw [List.filter_cons_of_neg (by simp [hnew]),
        omissionsFrom_place a maxDepth hleads hroot hnodes, hone]
      refine hlater.trans ?_
      simp only [report, Array.toList_push, List.append_assoc]
      exact List.Perm.append_left _ (List.perm_append_comm_assoc _ _ _)
  | @inner way parent depth child later t below u hnew hparental hlimit hbelow hrest ihBelow ihRest =>
      have hafter := leadsTo_grow (leadsTo_place hleads child depth) (expands_root hbelow)
        (expands_nodes hbelow)
      have hinner := ihBelow (leadsTo_enter hleads child depth)
      have hlater := ihRest hafter
      have hrepeated : Spot.omissions a maxDepth ⟨way ++ [child], child, depth⟩ =
          ((a.children child).filter fun c => (way ++ [child]).any (· == c)).map
            (closing (way ++ [child])) := by
        rw [Spot.omissions, if_pos hlimit]
        rfl
      have hgrown : exists added, u.nodes = (place t child parent depth).nodes ++ added := by
        rcases expands_nodes hbelow with ⟨first, hfirst⟩
        rcases expands_nodes hrest with ⟨second, hsecond⟩
        exact ⟨first ++ second, by rw [hsecond, hfirst, Array.append_assoc]⟩
      have hroot := (expands_root hrest).trans (expands_root hbelow)
      rw [List.filter_cons_of_neg (by simp [hnew]),
        omissionsFrom_place a maxDepth hleads hroot hgrown, hrepeated,
        omissionsFrom_append a maxDepth (expands_nodes hbelow) (expands_root hrest)
          (expands_nodes hrest)]
      -- The uses that come later at this level are reported after all that is below the
      -- child, while its own omissions stand first in the list of the places.
      refine hlater.trans ((hinner.append_right _).trans ?_)
      rw [List.append_assoc]
      refine List.Perm.append_left _ ?_
      rw [← List.append_assoc _ (omissionsFrom a maxDepth _ below)]
      exact List.perm_append_comm_assoc _ _ _

theorem diagnostics_perm_omissions (a : Adjacency) {maxDepth : Nat} (hdepth : 1 ≤ maxDepth)
    (root : ComponentId) :
    (buildFrom a maxDepth root).diagnostics.toList.Perm
      ((buildFrom a maxDepth root).places.flatMap fun p =>
        ((buildFrom a maxDepth root).spotOf p).omissions a maxDepth) := by
  have hperm := expands_omissions
    (expands_expand a maxDepth [root] none 1 (a.children root) ⟨root, #[], #[]⟩) (leadsTo_root root)
  have hbuild := buildFrom_eq_expand a maxDepth root
  rw [Nat.max_eq_left hdepth] at hbuild
  rw [← hbuild] at hperm
  have hroot : ((buildFrom a maxDepth root).spotOf none).omissions a maxDepth =
      ((a.children root).filter fun c => [root].any (· == c)).map (closing [root]) := by
    show Spot.omissions a maxDepth ⟨[(buildFrom a maxDepth root).root],
      (buildFrom a maxDepth root).root, 0⟩ = _
    rw [root_buildFrom, Spot.omissions, if_pos (Nat.lt_of_lt_of_le Nat.zero_lt_one hdepth)]
    rfl
  have hnodes : fresh ⟨root, #[], #[]⟩ (buildFrom a maxDepth root) =
      List.range (buildFrom a maxDepth root).nodes.size := by
    rw [fresh, List.range_eq_range']
    rfl
  rw [omissionsFrom, hnodes] at hperm
  rw [places, List.flatMap_cons, List.flatMap_map, hroot]
  exact hperm

/-!
# The nodes below a place

A node that is added later stands below the place in hand or below a node that came
later still, so the nodes below any other place are complete.
-/

/-- Every parent is a node of the tree. -/
def Grounded (t : ComponentTree) : Prop :=
  forall n, n ∈ t.nodes -> forall p, n.parent = some p -> p < t.nodes.size

theorem grounded_place {t : ComponentTree} {parent : Option Nat} {way : List ComponentId}
    (h : Grounded t) (hleads : LeadsTo t parent way) (child : ComponentId) (depth : Nat) :
    Grounded (place t child parent depth) := by
  intro n hn p hp
  rw [place, Array.size_push]
  rcases Array.mem_push.mp hn with hold | rfl
  · exact Nat.lt_succ_of_lt (h n hold p hp)
  · exact Nat.lt_succ_of_lt (hleads.left p hp)

theorem expands_grounded {a : Adjacency} {maxDepth : Nat} {way : List ComponentId}
    {parent : Option Nat} {depth : Nat} {children : List ComponentId} {t u : ComponentTree}
    (h : Expands a maxDepth way parent depth children t u) (hleads : LeadsTo t parent way)
    (hgrounded : Grounded t) : Grounded u := by
  induction h with
  | done => exact hgrounded
  | cyclic _ _ ih => exact ih hleads hgrounded
  | leaf _ _ _ ih =>
      exact ih (leadsTo_place hleads _ _) (grounded_place hgrounded hleads _ _)
  | limited _ _ _ _ ih =>
      exact ih (leadsTo_place hleads _ _) (grounded_place hgrounded hleads _ _)
  | @inner _ _ depth child _ _ _ _ _ _ _ hbelow _ ihBelow ihRest =>
      have hplaced := leadsTo_place hleads child depth
      have hinner := ihBelow (leadsTo_enter hleads child depth)
        (grounded_place hgrounded hleads child depth)
      exact ihRest (leadsTo_grow hplaced (expands_root hbelow) (expands_nodes hbelow)) hinner

theorem childrenOf_grow {t u : ComponentTree} {next p : Option Nat} (hgrow : Appends next t u)
    (hnext : next ≠ p) (hplaced : forall i, p = some i -> i < t.nodes.size) :
    u.childrenOf p = t.childrenOf p := by
  rcases hgrow with ⟨added, hadded, hbelow⟩
  have hnone : added.toList.filter (·.parent == p) = [] := by
    rw [List.filter_eq_nil_iff]
    intro n hn hparent
    have hp : n.parent = p := by simpa using hparent
    rcases hbelow n (Array.mem_toList_iff.mp hn) with hself | ⟨q, hq, hle⟩
    · exact hnext (hself.symm.trans hp)
    · exact absurd (hplaced q (hp.symm.trans hq)) (Nat.not_lt_of_le hle)
  rw [childrenOf, hadded, Array.toList_append, List.filter_append, hnone, List.append_nil]
  rfl

theorem childrenOf_place (t : ComponentTree) (child : ComponentId) (parent : Option Nat)
    (depth : Nat) : (place t child parent depth).childrenOf parent = t.childrenOf parent ++ [child] := by
  simp [childrenOf, place]

theorem childrenOf_new {t : ComponentTree} {parent : Option Nat} {way : List ComponentId}
    (hgrounded : Grounded t) (hleads : LeadsTo t parent way) (child : ComponentId) (depth : Nat) :
    (place t child parent depth).childrenOf (some t.nodes.size) = [] := by
  rw [childrenOf, List.map_eq_nil_iff, List.filter_eq_nil_iff]
  intro n hn hparent
  have hp : n.parent = some t.nodes.size := by simpa using hparent
  rcases Array.mem_push.mp (Array.mem_toList_iff.mp hn) with hold | rfl
  · exact Nat.lt_irrefl _ (hgrounded n hold _ hp)
  · exact Nat.lt_irrefl _ (hleads.left _ hp)

/-- Below the node at a position stand the uses that are kept, unless the node is at the
greatest depth. -/
def Settled (a : Adjacency) (maxDepth : Nat) (t : ComponentTree) (i : Nat) : Prop :=
  t.childrenOf (some i) =
    if (t.spotOf (some i)).depth < maxDepth then (t.spotOf (some i)).kept a else []

section Settled

variable {a : Adjacency} {maxDepth : Nat} {t u : ComponentTree} {parent : Option Nat}
variable {way : List ComponentId} {child : ComponentId} {depth : Nat}

theorem settled_grow {i : Nat} (h : Settled a maxDepth t i) (hi : i < t.nodes.size)
    (hroot : u.root = t.root) (hgrow : Appends parent t u) (hother : parent ≠ some i) :
    Settled a maxDepth u i := by
  have hnodes : exists added, u.nodes = t.nodes ++ added := by
    rcases hgrow with ⟨added, hadded, _⟩
    exact ⟨added, hadded⟩
  have hplaced : forall j, some i = some j -> j < t.nodes.size := by
    intro j hj
    cases hj
    exact hi
  unfold Settled
  rw [childrenOf_grow hgrow hother hplaced, spotOf_grow hroot hnodes hi]
  exact h

/-- A node whose uses are not entered is settled at once. -/
theorem settled_place (hgrounded : Grounded t) (hleads : LeadsTo t parent way)
    (hstop : (a.children child).isEmpty = true ∨ maxDepth ≤ depth) :
    Settled a maxDepth (place t child parent depth) t.nodes.size := by
  unfold Settled
  rw [childrenOf_new hgrounded hleads, spotOf_place hleads]
  rcases hstop with hempty | hlimit
  · simp [Spot.kept, List.isEmpty_iff.mp hempty]
  · rw [if_neg (Nat.not_lt_of_le hlimit)]

theorem not_parent_of_le {i : Nat} (hleads : LeadsTo t parent way) (hi : t.nodes.size ≤ i) :
    parent ≠ some i := by
  intro hsame
  exact absurd (hleads.left i hsame) (Nat.not_lt_of_le hi)

/-- A node whose uses are entered is settled by the level below it. -/
theorem settled_enter (hgrounded : Grounded t) (hleads : LeadsTo t parent way)
    (hdeeper : depth < maxDepth) (hroot : u.root = (place t child parent depth).root)
    (hnodes : exists added, u.nodes = (place t child parent depth).nodes ++ added)
    (hbelow : u.childrenOf (some t.nodes.size) =
      (place t child parent depth).childrenOf (some t.nodes.size) ++
        (a.children child).filter (fun c => !(way ++ [child]).any (· == c))) :
    Settled a maxDepth u t.nodes.size := by
  unfold Settled
  rw [hbelow, childrenOf_new hgrounded hleads, spotOf_grow hroot hnodes (by simp [place]),
    spotOf_place hleads, if_pos hdeeper]
  rfl

end Settled

theorem expands_children {a : Adjacency} {maxDepth : Nat} {way : List ComponentId}
    {parent : Option Nat} {depth : Nat} {children : List ComponentId} {t u : ComponentTree}
    (h : Expands a maxDepth way parent depth children t u) (hleads : LeadsTo t parent way)
    (hgrounded : Grounded t) :
    u.childrenOf parent =
        t.childrenOf parent ++ children.filter (fun c => !way.any (· == c)) ∧
      forall i, i ∈ fresh t u -> Settled a maxDepth u i := by
  induction h with
  | done =>
      refine ⟨by simp, ?_⟩
      intro i hi
      simp [fresh] at hi
  | @cyclic way parent depth child later t u hon hrest ih =>
      rcases ih hleads hgrounded with ⟨hlater, hsettled⟩
      refine ⟨?_, hsettled⟩
      rw [hlater, List.filter_cons_of_neg (by simp [hon])]
      rfl
  | @leaf way parent depth child later t u hnew hempty hrest ih =>
      have hplaced := leadsTo_place hleads child depth
      rcases ih hplaced (grounded_place hgrounded hleads child depth) with ⟨hlater, hsettled⟩
      constructor
      · rw [hlater, childrenOf_place, List.filter_cons_of_pos (by simp [hnew]), List.append_assoc]
        rfl
      · intro i hi
        rw [fresh_place (size_le_of_append (expands_nodes hrest))] at hi
        rcases List.mem_cons.mp hi with rfl | hi
        · exact settled_grow (settled_place hgrounded hleads (Or.inl hempty)) (by simp [place])
            (expands_root hrest) (expands_appends hrest) (not_parent_of_le hleads (Nat.le_refl _))
        · exact hsettled i hi
  | @limited way parent depth child later t u hnew hparental hlimit hrest ih =>
      have hplaced := leadsTo_place hleads child depth
      rcases ih hplaced (grounded_place hgrounded hleads child depth) with ⟨hlater, hsettled⟩
      constructor
      · have hplace := childrenOf_place t child parent depth
        rw [hlater, List.filter_cons_of_pos (by simp [hnew]), List.append_cons, ← hplace]
        rfl
      · intro i hi
        have hnodes := expands_nodes hrest
        rw [fresh_place (size_le_of_append hnodes)] at hi
        rcases List.mem_cons.mp hi with rfl | hi
        · have hroot := expands_root hrest
          have hgrow := expands_appends hrest
          exact settled_grow (settled_place hgrounded hleads (Or.inr hlimit)) (by simp [place])
            hroot hgrow (not_parent_of_le hleads (Nat.le_refl _))
        · exact hsettled i hi
  | @inner way parent depth child later t below u hnew hparental hlimit hbelow hrest ihBelow ihRest =>
      have hplaced := leadsTo_place hleads child depth
      have hgrown := grounded_place hgrounded hleads child depth
      have henter := leadsTo_enter hleads child depth
      have hafter := leadsTo_grow hplaced (expands_root hbelow) (expands_nodes hbelow)
      rcases ihBelow henter hgrown with ⟨hinner, hsettledBelow⟩
      rcases ihRest hafter (expands_grounded hbelow henter hgrown) with ⟨hlater, hsettled⟩
      have hsize := size_le_of_append (expands_nodes hbelow)
      have hother := not_parent_of_le hleads (Nat.le_refl t.nodes.size)
      constructor
      · rw [hlater, childrenOf_grow (expands_appends hbelow) (Ne.symm hother) hplaced.left,
          childrenOf_place, List.filter_cons_of_pos (by simp [hnew]), List.append_assoc]
        rfl
      · -- The later uses leave alone what the level below has settled.
        have hchild := settled_enter hgrounded hleads hlimit (expands_root hbelow)
          (expands_nodes hbelow) hinner
        have hkept : forall i, t.nodes.size ≤ i -> i < below.nodes.size ->
            Settled a maxDepth below i -> Settled a maxDepth u i := by
          intro i hle hlt hsettledAt
          exact settled_grow hsettledAt hlt (expands_root hrest) (expands_appends hrest)
            (not_parent_of_le hleads hle)
        have hpush : t.nodes.size + 1 ≤ below.nodes.size := by simpa [place] using hsize
        intro i hi
        rcases mem_fresh.mp hi with ⟨hle, hlt⟩
        by_cases hnode : i = t.nodes.size
        · subst hnode
          exact hkept _ (Nat.le_refl _) (Nat.lt_of_succ_le hpush) hchild
        · by_cases hin : i < below.nodes.size
          · refine hkept i hle hin (hsettledBelow i (mem_fresh.mpr ⟨?_, hin⟩))
            rw [place, Array.size_push]
            omega
          · exact hsettled i (mem_fresh.mpr ⟨Nat.le_of_not_lt hin, hlt⟩)

theorem childrenOf_buildFrom (a : Adjacency) {maxDepth : Nat} (hdepth : 1 ≤ maxDepth)
    (root : ComponentId) {p : Option Nat} (hp : p ∈ (buildFrom a maxDepth root).places) :
    (buildFrom a maxDepth root).childrenOf p =
      if ((buildFrom a maxDepth root).spotOf p).depth < maxDepth then
        ((buildFrom a maxDepth root).spotOf p).kept a
      else [] := by
  have hgrounded : Grounded ⟨root, #[], #[]⟩ := by
    intro n hn
    simp at hn
  have hchildren := expands_children
    (expands_expand a maxDepth [root] none 1 (a.children root) ⟨root, #[], #[]⟩)
    (leadsTo_root root) hgrounded
  have hbuild := buildFrom_eq_expand a maxDepth root
  rw [Nat.max_eq_left hdepth] at hbuild
  rw [← hbuild] at hchildren
  rcases hchildren with ⟨hroot, hsettled⟩
  rcases List.mem_cons.mp hp with rfl | hnode
  · have hspot : (buildFrom a maxDepth root).spotOf none = ⟨[root], root, 0⟩ := by
      show Spot.mk [(buildFrom a maxDepth root).root] (buildFrom a maxDepth root).root 0 = _
      rw [root_buildFrom]
    rw [hroot, hspot, if_pos (Nat.lt_of_lt_of_le Nat.zero_lt_one hdepth)]
    rfl
  · rcases List.mem_map.mp hnode with ⟨i, hi, rfl⟩
    exact hsettled i (mem_fresh.mpr ⟨Nat.zero_le i, List.mem_range.mp hi⟩)

theorem depth_le (a : Adjacency) {maxDepth : Nat} (hdepth : 1 ≤ maxDepth) (root : ComponentId)
    (p : Option Nat) : ((buildFrom a maxDepth root).spotOf p).depth ≤ maxDepth := by
  unfold spotOf
  cases hn : p.bind ((buildFrom a maxDepth root).nodes[·]?) with
  | none => exact Nat.zero_le maxDepth
  | some n =>
      rcases Option.bind_eq_some_iff.mp hn with ⟨i, _, hi⟩
      rcases (labelled_buildFrom a hdepth root).node i n hi with ⟨before, k, hlabel, hfits⟩
      have hsimple := mem_walks_root.mp (List.mem_of_getElem? hlabel)
      have hlength := hsimple.right.left
      rw [List.length_append] at hlength
      show n.depth ≤ maxDepth
      rw [hfits.depth]
      exact hlength

/-!
# Trees without omissions

A walk that is longer than the greatest depth either comes to a component again or
comes to the greatest depth, and is cut there.  In the other direction each cut is on
a walk that can be made as long as one likes, or by one step longer than the greatest
depth.
-/

theorem exists_first_repetition {root : ComponentId} {trail : List ComponentId}
    (h : ¬ RepeatFree (root :: trail)) :
    exists front c back, trail = front ++ c :: back ∧ RepeatFree (root :: front) ∧
      (root :: front).any (· == c) = true := by
  induction trail using List.reverseRecOn with
  | nil => exact absurd (List.pairwise_singleton _ _) h
  | append_singleton trail c ih =>
      by_cases hfree : RepeatFree (root :: trail)
      · refine ⟨trail, c, [], rfl, hfree, ?_⟩
        cases hon : (root :: trail).any (· == c) with
        | true => rfl
        | false => exact absurd (repeatFree_snoc.mpr ⟨hfree, hon⟩) h
      · rcases ih hfree with ⟨front, d, back, rfl, hfront, hon⟩
        exact ⟨front, d, back ++ [c], by simp, hfront, hon⟩

theorem exists_diagnostic_of_walk {a : Adjacency} {maxDepth : Nat} (hdepth : 1 ≤ maxDepth)
    {root : ComponentId} {positions : List Nat} {trail : List ComponentId}
    (hwalk : Walk a root positions trail) (hlength : positions.length = maxDepth + 1) :
    exists d, d ∈ (buildFrom a maxDepth root).diagnostics := by
  have htrail : trail.length = maxDepth + 1 := (walk_length hwalk).trans hlength
  rw [← List.take_append_drop maxDepth trail] at hwalk
  rcases walk_split hwalk with ⟨front, back, _, hfront, hback⟩
  have htake : (trail.take maxDepth).length = maxDepth := by
    rw [List.length_take, htrail]
    omega
  by_cases hfree : RepeatFree (root :: trail.take maxDepth)
  · have hparental : (a.children ((trail.take maxDepth).getLastD root)).isEmpty = false := by
      cases hdrop : trail.drop maxDepth with
      | nil =>
          have hle := List.drop_eq_nil_iff.mp hdrop
          omega
      | cons c rest =>
          rw [hdrop] at hback
          cases hback with
          | use hstep _ => exact children_of_mem (List.mem_of_getElem? hstep)
    have hlimit : LimitCut a (maxDepth - 1) 1 [root] root _ :=
      ⟨front, _, hfront, hfree, by rw [← walk_length hfront, htake]; omega, hparental, rfl⟩
    exact ⟨_, (mem_diagnostics_buildFrom hdepth).mpr (Or.inr hlimit)⟩
  · rcases exists_first_repetition hfree with ⟨ahead, c, later, hsplit, hahead, hon⟩
    rw [hsplit] at hfront htake
    rcases walk_split hfront with ⟨steps, rest, _, hsteps, hrest⟩
    rw [List.length_append, List.length_cons] at htake
    cases hrest with
    | use hstep _ =>
        have hcut : CyclicCut a (maxDepth - 1) [root] root (closing (root :: ahead) c) :=
          ⟨steps, ahead, c, hsteps, hahead, by rw [← walk_length hsteps]; omega,
            List.mem_of_getElem? hstep, hon, rfl⟩
        exact ⟨_, (mem_diagnostics_buildFrom hdepth).mpr (Or.inl hcut)⟩

theorem exists_walk_of_mutual {a : Adjacency} {c d : ComponentId} (h : a.Mutual c d) (n : Nat) :
    exists positions trail, Walk a d positions trail ∧ positions.length = n := by
  induction n generalizing d with
  | zero => exact ⟨[], [], Walk.stay d, rfl⟩
  | succ n ih =>
      rcases mutual_next h with ⟨e, he, hmutual⟩
      rcases List.mem_iff_getElem?.mp he with ⟨k, hstep⟩
      rcases ih hmutual with ⟨positions, trail, hwalk, hlength⟩
      exact ⟨k :: positions, e :: trail, Walk.use hstep hwalk, congrArg (· + 1) hlength⟩

/-- A use that leads back to the way can be followed round and round. -/
theorem mutual_of_repetition {a : Adjacency} {root c : ComponentId} {positions : List Nat}
    {trail : List ComponentId} (hwalk : Walk a root positions trail)
    (hc : c ∈ a.children (trail.getLastD root)) (hon : (root :: trail).any (· == c) = true) :
    a.Mutual c c := by
  rcases List.any_eq_true.mp hon with ⟨x, hx, hsame⟩
  rcases List.append_of_mem hx with ⟨front, back, hway⟩
  rcases walk_from_member hwalk hway with ⟨_, hlast, later, hlater⟩
  rw [hlast] at hc
  have hround := mutual_of_walk hlater ⟨c, hc, BEq.symm hsame⟩ List.mem_cons_self
  exact mutual_congr hsame hsame hround

theorem exists_walk_of_diagnostic {a : Adjacency} {maxDepth : Nat} (hdepth : 1 ≤ maxDepth)
    {root : ComponentId} {d : Diagnostic} (hd : d ∈ (buildFrom a maxDepth root).diagnostics) :
    exists positions trail, Walk a root positions trail ∧ positions.length = maxDepth + 1 := by
  rcases (mem_diagnostics_buildFrom hdepth).mp hd with hcyclic | hlimit
  · rcases hcyclic with ⟨steps, trail, c, hwalk, _, hlength, hc, hon, _⟩
    rcases List.mem_iff_getElem?.mp hc with ⟨k, hstep⟩
    have hmutual := mutual_of_repetition hwalk hc hon
    rcases exists_walk_of_mutual hmutual (maxDepth - steps.length) with
      ⟨later, ahead, hlater, hrest⟩
    have hahead : Walk a ((trail ++ [c]).getLastD root) later ahead := by
      rw [List.getLastD_concat]
      exact hlater
    refine ⟨_, _, walk_append (walk_snoc hwalk hstep) hahead, ?_⟩
    rw [List.length_append, List.length_append, List.length_singleton, hrest]
    omega
  · rcases hlimit with ⟨steps, trail, hwalk, _, hlength, hparental, _⟩
    have hne : a.children (trail.getLastD root) ≠ [] := by
      intro hnil
      rw [hnil] at hparental
      cases hparental
    rcases List.exists_mem_of_ne_nil _ hne with ⟨c, hc⟩
    rcases List.mem_iff_getElem?.mp hc with ⟨k, hstep⟩
    refine ⟨_, _, walk_snoc hwalk hstep, ?_⟩
    rw [List.length_append, List.length_singleton, hlength]
    omega

/-- Below each place above the greatest depth stand its uses, except for those of
components on the way, and below a node at the greatest depth stands nothing.  The
diagnostics are exactly those of the places: one for each use that is left out, and one
for each node at the greatest depth that has uses.  So there are none just if no walk is
longer than the greatest depth. -/
theorem diagnostics_account_for_uses (a : Adjacency) (maxDepth : Nat) (root : ComponentId)
    (hdepth : 1 ≤ maxDepth) :
    (forall p, p ∈ (buildFrom a maxDepth root).places ->
      ((buildFrom a maxDepth root).spotOf p).depth ≤ maxDepth ∧
        (((buildFrom a maxDepth root).spotOf p).depth < maxDepth ->
          (buildFrom a maxDepth root).childrenOf p =
            ((buildFrom a maxDepth root).spotOf p).kept a) ∧
        (((buildFrom a maxDepth root).spotOf p).depth = maxDepth ->
          (buildFrom a maxDepth root).childrenOf p = [])) ∧
      (buildFrom a maxDepth root).diagnostics.toList.Perm
        ((buildFrom a maxDepth root).places.flatMap fun p =>
          ((buildFrom a maxDepth root).spotOf p).omissions a maxDepth) ∧
      ((buildFrom a maxDepth root).diagnostics = #[] <->
        ¬ exists positions trail, Walk a root positions trail ∧
          positions.length = maxDepth + 1) := by
  refine ⟨?_, diagnostics_perm_omissions a hdepth root, ?_⟩
  · intro p hp
    have hchildren := childrenOf_buildFrom a hdepth root hp
    refine ⟨depth_le a hdepth root p, ?_, ?_⟩
    · intro hlt
      rw [hchildren, if_pos hlt]
    · intro hlimit
      rw [hchildren, if_neg (Nat.not_lt_of_le (Nat.le_of_eq hlimit.symm))]
  · constructor
    · intro hnone hlong
      rcases hlong with ⟨positions, trail, hwalk, hlength⟩
      rcases exists_diagnostic_of_walk hdepth hwalk hlength with ⟨d, hd⟩
      rw [hnone] at hd
      simp at hd
    · intro hshort
      apply Array.eq_empty_iff_forall_not_mem.mpr
      intro d hd
      exact hshort (exists_walk_of_diagnostic hdepth hd)

theorem diagnostics_account_for_uses_twoCards :
    1 ≤ 2 ∧
      ((buildFrom twoCards 2 page).childrenOf (some 0)).map ComponentId.name = ["Button"] ∧
      ((buildFrom twoCards 2 page).diagnostics.toList.map Diagnostic.text).Perm
        ["cyclic usage truncated: Page -> Card -> Page",
          "cyclic usage truncated: Page -> Card -> Page"] ∧
      exists positions trail, Walk twoCards page positions trail ∧ positions.length = 3 := by
  rcases diagnostics_account_for_uses twoCards 2 page (by decide) with ⟨hplaces, hperm, hwalks⟩
  have hcard : some 0 ∈ (buildFrom twoCards 2 page).places := by decide +kernel
  have habove : ((buildFrom twoCards 2 page).spotOf (some 0)).depth < 2 := by decide +kernel
  refine ⟨by decide, ?_, ?_, ?_⟩
  · rw [(hplaces _ hcard).right.left habove]
    decide +kernel
  · have htexts : ((buildFrom twoCards 2 page).places.flatMap fun p =>
        ((buildFrom twoCards 2 page).spotOf p).omissions twoCards 2).map Diagnostic.text =
          ["cyclic usage truncated: Page -> Card -> Page",
            "cyclic usage truncated: Page -> Card -> Page"] := by decide +kernel
    rw [← htexts]
    exact hperm.map Diagnostic.text
  · have hsize : (buildFrom twoCards 2 page).diagnostics.size = 2 := by decide +kernel
    by_contra hnone
    rw [hwalks.mpr hnone] at hsize
    cases hsize

end ComponentTree
end JsxUsage
