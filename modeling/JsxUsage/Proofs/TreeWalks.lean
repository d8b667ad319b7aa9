import JsxUsage.Proofs.TreeExpansion
import JsxUsage.Proofs.Walks
import Mathlib.Data.Set.Card

/-!
# The nodes of a tree as walks

Each node of a component tree is the end of a walk from the root, told by the
positions of the uses that were followed.  The positions can be read off the finished
tree: where a list uses a component several times, the nodes for it stand in the
order of the uses.  This module proves that the nodes of a built tree, in their order,
are exactly the listed walks, each one once.
-/

namespace JsxUsage
namespace ComponentTree

open Adjacency TreeBuilder

/-!
# Reading positions off a tree
-/

/-- The number of nodes for a component below a parent. -/
def siblings (nodes : List TreeNode) (parent : Option Nat) (c : ComponentId) : Nat :=
  nodes.countP fun m => m.parent == parent && m.component == c

/-- The component in whose list the nodes below a parent are used. -/
def userOf (t : ComponentTree) (parent : Option Nat) : ComponentId :=
  (lineageOf t.nodes parent).getLastD t.root

/-- The position of the use that a node stands for, in the list of its user. -/
def occurrence (a : Adjacency) (t : ComponentTree) (position : Nat) (n : TreeNode) : Nat :=
  (a.children (t.userOf n.parent)).idxOfNth n.component
    (siblings (t.nodes.toList.take position) n.parent n.component)

/-- The positions of the uses that lead from the root to the node at a position. -/
def address (a : Adjacency) (t : ComponentTree) (position : Nat) : List Nat :=
  match t.nodes[position]? with
  | none => []
  | some n =>
      match n.parent with
      | none => [occurrence a t position n]
      | some parent =>
          if parent < position then address a t parent ++ [occurrence a t position n]
          else [occurrence a t position n]
termination_by position

/-- The positions of the nodes for a component. -/
def nodesOf (t : ComponentTree) (c : ComponentId) : Set Nat :=
  {i | exists n, t.nodes[i]? = some n ∧ (n.component == c) = true}

theorem siblings_append (nodes more : List TreeNode) (parent : Option Nat) (c : ComponentId) :
    siblings (nodes ++ more) parent c = siblings nodes parent c + siblings more parent c :=
  List.countP_append

theorem siblings_eq_zero {nodes : List TreeNode} {parent : Option Nat}
    (h : forall n, n ∈ nodes -> n.parent ≠ parent) (c : ComponentId) :
    siblings nodes parent c = 0 := by
  refine List.countP_eq_zero.mpr ?_
  intro n hn
  simp [h n hn]

theorem idxOfNth_countP {children done rest : List ComponentId} {child : ComponentId}
    (h : children = done ++ child :: rest) :
    children.idxOfNth child (done.countP (· == child)) = done.length := by
  subst h
  unfold List.idxOfNth
  induction done with
  | nil => simp
  | cons d done ih =>
      rw [List.cons_append, List.length_cons, List.countP_cons]
      cases hd : (d == child) with
      | true => rw [if_pos rfl, List.findIdxNth_cons_succ_of_pos (p := (· == child)) hd, ih]
      | false =>
          rw [if_neg Bool.false_ne_true, Nat.add_zero,
            List.findIdxNth_cons_of_neg (p := (· == child)) hd, ih]

theorem getLastD_lineage {nodes : Array TreeNode} {position : Nat} {n : TreeNode}
    (hn : nodes[position]? = some n) (c : ComponentId) :
    (lineage nodes position).getLastD c = n.component := by
  rw [lineage, hn]
  cases hparent : n.parent with
  | none => simp only [hparent, List.getLastD_cons, List.getLastD_nil]
  | some p =>
      by_cases hp : p < position
      · simp only [hparent, if_pos hp, List.getLastD_concat]
      · simp only [hparent, if_neg hp, List.getLastD_cons, List.getLastD_nil]

/-!
# Labelled trees

A labelling gives each node the positions that lead to it.  It says of every node all
that the positions determine: how deep the node is, below which node, through which
components, and which use of its component it is.
-/

/-- The positions `before` lead to the parent. -/
def ParentLabel (labels : List (List Nat)) (parent : Option Nat) (before : List Nat) : Prop :=
  match parent with
  | none => before = []
  | some p => labels[p]? = some before

structure LabelFits (a : Adjacency) (t : ComponentTree) (labels : List (List Nat))
    (position : Nat) (n : TreeNode) (before : List Nat) (k : Nat) : Prop where
  id : n.id = position
  depth : n.depth = before.length + 1
  earlier : forall p, n.parent = some p -> p < position
  parent : ParentLabel labels n.parent before
  walk : Walk a t.root before (lineageOf t.nodes n.parent)
  use : (a.children (t.userOf n.parent))[k]? = some n.component
  rank : siblings (t.nodes.toList.take position) n.parent n.component =
    ((a.children (t.userOf n.parent)).take k).countP (· == n.component)

structure Labelled (a : Adjacency) (t : ComponentTree) (labels : List (List Nat)) : Prop where
  length : labels.length = t.nodes.size
  node : forall position n, t.nodes[position]? = some n ->
    exists before k, labels[position]? = some (before ++ [k]) ∧
      LabelFits a t labels position n before k

theorem labelled_empty (a : Adjacency) (root : ComponentId) : Labelled a ⟨root, #[], #[]⟩ [] := by
  constructor
  · rfl
  · intro position n hn
    simp at hn

theorem parentLabel_append {labels : List (List Nat)} {parent : Option Nat} {before : List Nat}
    (h : ParentLabel labels parent before) (more : List (List Nat)) :
    ParentLabel (labels ++ more) parent before := by
  cases parent with
  | none => exact h
  | some p =>
      have hp : p < labels.length := (List.getElem?_eq_some_iff.mp h).1
      rw [ParentLabel, List.getElem?_append_left hp]
      exact h

theorem userOf_grow {t u : ComponentTree} {parent : Option Nat} {way : List ComponentId}
    (h : LeadsTo t parent way) (hroot : u.root = t.root)
    (hnodes : exists added, u.nodes = t.nodes ++ added) :
    lineageOf u.nodes parent = lineageOf t.nodes parent ∧ u.userOf parent = t.userOf parent := by
  have hway := (leadsTo_grow h hroot hnodes).right
  rw [h.right, hroot] at hway
  have hlineage := (List.cons.inj hway).right.symm
  exact ⟨hlineage, by rw [userOf, userOf, hlineage, hroot]⟩

theorem labelFits_grow {a : Adjacency} {t u : ComponentTree} {labels : List (List Nat)}
    {position : Nat} {n : TreeNode} {before : List Nat} {k : Nat}
    (h : LabelFits a t labels position n before k) (hposition : position < t.nodes.size)
    (hroot : u.root = t.root) (hnodes : exists added, u.nodes = t.nodes ++ added)
    (more : List (List Nat)) : LabelFits a u (labels ++ more) position n before k := by
  have hleads : LeadsTo t n.parent (t.root :: lineageOf t.nodes n.parent) :=
    ⟨fun p hp => Nat.lt_trans (h.earlier p hp) hposition, rfl⟩
  rcases userOf_grow hleads hroot hnodes with ⟨hlineage, huser⟩
  rcases hnodes with ⟨added, hadded⟩
  have htake : u.nodes.toList.take position = t.nodes.toList.take position := by
    rw [hadded, Array.toList_append, List.take_append_of_le_length]
    simpa using Nat.le_of_lt hposition
  constructor
  · exact h.id
  · exact h.depth
  · exact h.earlier
  · exact parentLabel_append h.parent more
  · rw [hroot, hlineage]
    exact h.walk
  · rw [huser]
    exact h.use
  · rw [htake, huser]
    exact h.rank

/-- The walk to a labelled parent goes through the components above it. -/
theorem walk_of_parentLabel {a : Adjacency} {t : ComponentTree} {labels : List (List Nat)}
    {parent : Option Nat} {before : List Nat} (h : Labelled a t labels)
    (hparent : ParentLabel labels parent before) :
    Walk a t.root before (lineageOf t.nodes parent) := by
  cases parent with
  | none =>
      rw [show before = [] from hparent]
      exact Walk.stay t.root
  | some p =>
      have hp : p < t.nodes.size := by
        rw [← h.length]
        exact (List.getElem?_eq_some_iff.mp hparent).1
      have hn : t.nodes[p]? = some t.nodes[p] := Array.getElem?_eq_getElem hp
      rcases h.node p _ hn with ⟨front, k, hlabel, hfits⟩
      have hbefore : before = front ++ [k] := Option.some.inj (hparent.symm.trans hlabel)
      rw [hbefore, lineageOf, lineage_of_node hn hfits.earlier]
      exact walk_snoc hfits.walk hfits.use

theorem labelled_report {a : Adjacency} {t : ComponentTree} {labels : List (List Nat)}
    (h : Labelled a t labels) (d : Diagnostic) : Labelled a (report t d) labels := by
  constructor
  · exact h.length
  · intro position n hn
    rcases h.node position n hn with ⟨before, k, hlabel, hfits⟩
    have hposition : position < t.nodes.size := (Array.getElem?_eq_some_iff.mp hn).1
    have hgrown := labelFits_grow (u := report t d) hfits hposition rfl ⟨#[], by simp [report]⟩ []
    rw [List.append_nil] at hgrown
    exact ⟨before, k, hlabel, hgrown⟩

theorem labelled_place {a : Adjacency} {t : ComponentTree} {labels : List (List Nat)}
    {parent : Option Nat} {way : List ComponentId} {before : List Nat} {k depth : Nat}
    {child : ComponentId} (h : Labelled a t labels) (hleads : LeadsTo t parent way)
    (hparent : ParentLabel labels parent before) (hdepth : depth = before.length + 1)
    (huse : (a.children (t.userOf parent))[k]? = some child)
    (hrank : siblings t.nodes.toList parent child =
      ((a.children (t.userOf parent)).take k).countP (· == child)) :
    Labelled a (place t child parent depth) (labels ++ [before ++ [k]]) := by
  have hnodes : exists added, (place t child parent depth).nodes = t.nodes ++ added :=
    ⟨_, Array.push_eq_append⟩
  constructor
  · simp [place, h.length]
  · intro position n hn
    rw [place, Array.getElem?_push] at hn
    by_cases hlast : position = t.nodes.size
    · rw [if_pos hlast] at hn
      cases hn
      subst hlast
      rcases userOf_grow (u := place t child parent depth) hleads rfl hnodes with ⟨hlineage, huser⟩
      refine ⟨before, k, ?_, ?_⟩
      · rw [← h.length, List.getElem?_concat_length]
      · constructor
        · rfl
        · exact hdepth
        · exact hleads.left
        · exact parentLabel_append hparent _
        · rw [hlineage]
          exact walk_of_parentLabel h hparent
        · rw [huser]
          exact huse
        · rw [huser]
          simpa [place] using hrank
    · rw [if_neg hlast] at hn
      rcases h.node position n hn with ⟨front, j, hlabel, hfits⟩
      have hposition : position < t.nodes.size := (Array.getElem?_eq_some_iff.mp hn).1
      have hgrown := labelFits_grow (u := place t child parent depth) hfits hposition rfl hnodes
      refine ⟨front, j, ?_, hgrown _⟩
      rw [List.getElem?_append_left (by rw [h.length]; exact hposition)]
      exact hlabel

/-!
The nodes below a parent are counted against the uses of its list that are done.
Uses that would close a cycle have no nodes, but these are the uses of components on
the way, and no others are asked for.
-/

/-- Below the parent stand the nodes for the uses `done`, up to components on the way. -/
def SiblingsDone (t : ComponentTree) (parent : Option Nat) (way done : List ComponentId) : Prop :=
  forall c, way.any (· == c) = false ->
    siblings t.nodes.toList parent c = done.countP (· == c)

theorem siblingsDone_cyclic {t : ComponentTree} {parent : Option Nat}
    {way done : List ComponentId} {child : ComponentId} (h : SiblingsDone t parent way done)
    (hon : way.any (· == child) = true) (d : Diagnostic) :
    SiblingsDone (report t d) parent way (done ++ [child]) := by
  intro c hc
  have hother : (child == c) = false := by
    cases hsame : (child == c) with
    | false => rfl
    | true =>
        rw [ComponentId.any_beq_congr hsame, hc] at hon
        cases hon
  rw [List.countP_append, List.countP_singleton, hother]
  exact h c hc

theorem siblingsDone_place {t : ComponentTree} {parent : Option Nat}
    {way done : List ComponentId} (h : SiblingsDone t parent way done) (child : ComponentId)
    (depth : Nat) : SiblingsDone (place t child parent depth) parent way (done ++ [child]) := by
  intro c hc
  rw [place, Array.toList_push, siblings_append, List.countP_append, h c hc]
  simp [siblings]

theorem siblingsDone_grow {t u : ComponentTree} {parent next : Option Nat}
    {way done : List ComponentId} (h : SiblingsDone t parent way done)
    (hgrow : Appends next t u) (hnext : next ≠ parent)
    (hplaced : forall p, parent = some p -> p < t.nodes.size) : SiblingsDone u parent way done := by
  intro c hc
  rcases hgrow with ⟨added, hadded, hbelow⟩
  have hnone : siblings added.toList parent c = 0 := by
    refine siblings_eq_zero ?_ c
    intro n hn hparent
    rcases hbelow n (Array.mem_toList_iff.mp hn) with hself | ⟨p, hp, hle⟩
    · exact hnext (hself.symm.trans hparent)
    · exact absurd (hplaced p (hparent.symm.trans hp)) (Nat.not_lt_of_le hle)
  rw [hadded, Array.toList_append, siblings_append, h c hc, hnone, Nat.add_zero]

theorem siblingsDone_enter {a : Adjacency} {t : ComponentTree} {labels : List (List Nat)}
    (h : Labelled a t labels) {p : Nat} (hp : t.nodes.size ≤ p + 1) (way : List ComponentId) :
    SiblingsDone t (some p) way [] := by
  intro c _
  refine siblings_eq_zero ?_ c
  intro n hn hparent
  rcases List.mem_iff_getElem?.mp hn with ⟨position, hposition⟩
  rw [Array.getElem?_toList] at hposition
  rcases h.node position n hposition with ⟨_, _, _, hfits⟩
  have hlt := hfits.earlier p hparent
  have hsize : position < t.nodes.size := (Array.getElem?_eq_some_iff.mp hposition).1
  omega

/-!
# Labels of an expansion

An expansion stands somewhere in the list of one component.  What it knows there is
kept when a use is passed over, when a use is placed, on the way down into the uses
of a placed component, and on the way back.
-/

structure Midway (a : Adjacency) (labels : List (List Nat)) (way : List ComponentId)
    (parent : Option Nat) (before : List Nat) (done children : List ComponentId)
    (t : ComponentTree) : Prop where
  labelled : Labelled a t labels
  leads : LeadsTo t parent way
  label : ParentLabel labels parent before
  uses : a.children (t.userOf parent) = done ++ children
  siblings : SiblingsDone t parent way done

section Midway

variable {a : Adjacency} {labels : List (List Nat)} {way : List ComponentId}
variable {parent : Option Nat} {before : List Nat} {done rest : List ComponentId}
variable {child : ComponentId} {t u : ComponentTree}

theorem midway_grow {next : Option Nat} {more : List (List Nat)}
    (h : Midway a labels way parent before done rest t)
    (hlabelled : Labelled a u (labels ++ more)) (hroot : u.root = t.root)
    (hgrow : Appends next t u) (hnext : next ≠ parent) :
    Midway a (labels ++ more) way parent before done rest u := by
  have hnodes : exists added, u.nodes = t.nodes ++ added := by
    rcases hgrow with ⟨added, hadded, _⟩
    exact ⟨added, hadded⟩
  constructor
  · exact hlabelled
  · exact leadsTo_grow h.leads hroot hnodes
  · exact parentLabel_append h.label more
  · rw [(userOf_grow h.leads hroot hnodes).right]
    exact h.uses
  · exact siblingsDone_grow h.siblings hgrow hnext h.leads.left

theorem midway_report (h : Midway a labels way parent before done rest t) (d : Diagnostic) :
    Midway a labels way parent before done rest (report t d) := by
  have hnodes : exists added, (report t d).nodes = t.nodes ++ added := ⟨#[], by simp [report]⟩
  constructor
  · exact labelled_report h.labelled d
  · exact leadsTo_grow h.leads rfl hnodes
  · exact h.label
  · exact h.uses
  · exact h.siblings

theorem midway_cyclic (h : Midway a labels way parent before done (child :: rest) t)
    (hon : way.any (· == child) = true) (d : Diagnostic) :
    Midway a labels way parent before (done ++ [child]) rest (report t d) := by
  have hreport := midway_report h d
  constructor
  · exact hreport.labelled
  · exact hreport.leads
  · exact hreport.label
  · rw [hreport.uses, List.append_assoc, List.singleton_append]
  · exact siblingsDone_cyclic h.siblings hon d

theorem labelled_of_midway (h : Midway a labels way parent before done (child :: rest) t)
    (hnew : way.any (· == child) = false) :
    Labelled a (place t child parent (before.length + 1)) (labels ++ [before ++ [done.length]]) := by
  refine labelled_place h.labelled h.leads h.label rfl ?_ ?_
  · rw [h.uses, List.getElem?_append_right (Nat.le_refl _), Nat.sub_self, List.getElem?_cons_zero]
  · rw [h.siblings child hnew, h.uses, List.take_left]

theorem midway_place (h : Midway a labels way parent before done (child :: rest) t)
    (hnew : way.any (· == child) = false) :
    Midway a (labels ++ [before ++ [done.length]]) way parent before (done ++ [child]) rest
      (place t child parent (before.length + 1)) := by
  constructor
  · exact labelled_of_midway h hnew
  · exact leadsTo_place h.leads _ _
  · exact parentLabel_append h.label _
  · have huser := (userOf_grow (u := place t child parent (before.length + 1)) h.leads rfl
      ⟨_, Array.push_eq_append⟩).right
    rw [huser, h.uses, List.append_assoc, List.singleton_append]
  · exact siblingsDone_place h.siblings _ _

theorem midway_enter (h : Midway a labels way parent before done (child :: rest) t)
    (hnew : way.any (· == child) = false) :
    Midway a (labels ++ [before ++ [done.length]]) (way ++ [child]) (some t.nodes.size)
      (before ++ [done.length]) [] (a.children child)
      (place t child parent (before.length + 1)) := by
  constructor
  · exact labelled_of_midway h hnew
  · exact leadsTo_enter h.leads _ _
  · rw [ParentLabel, ← h.labelled.length, List.getElem?_concat_length]
  · rw [userOf, lineageOf, lineage_place h.leads.left, List.getLastD_concat, List.nil_append]
  · exact siblingsDone_enter (labelled_of_midway h hnew) (by simp [place]) _

end Midway

/-- The labels that an expansion adds are the listed walks through the same uses, in
the same order. -/
theorem labelled_of_expands {a : Adjacency} {maxDepth : Nat} {way : List ComponentId}
    {parent : Option Nat} {depth : Nat} {children done : List ComponentId} {t u : ComponentTree}
    {labels : List (List Nat)} {before : List Nat}
    (h : Expands a maxDepth way parent depth children t u) (hdepth : depth = before.length + 1)
    (hmidway : Midway a labels way parent before done children t) :
    Labelled a u (labels ++
      (children.zipIdx done.length).flatMap (walksThrough a (maxDepth - depth) way before)) := by
  induction h generalizing labels before done with
  | done => simpa using hmidway.labelled
  | @cyclic way parent depth child later t u hon _ ih =>
      have hthrough : walksThrough a (maxDepth - depth) way before (child, done.length) = [] :=
        walksThrough_cyclic hon _ _ _
      have hlater := ih hdepth (midway_cyclic hmidway hon _)
      rw [List.length_append] at hlater
      rw [List.zipIdx_cons, List.flatMap_cons, hthrough]
      exact hlater
  | @leaf way parent depth child later t u hnew hempty _ ih =>
      have hthrough : walksThrough a (maxDepth - depth) way before (child, done.length) =
          [before ++ [done.length]] := by
        rw [walksThrough_new hnew, walks_of_isEmpty hempty]
      subst hdepth
      have hlater := ih rfl (midway_place hmidway hnew)
      rw [List.length_append, List.append_assoc] at hlater
      rw [List.zipIdx_cons, List.flatMap_cons, hthrough]
      exact hlater
  | @limited way parent depth child later t u hnew hparental hlimit _ ih =>
      have hthrough : walksThrough a (maxDepth - depth) way before (child, done.length) =
          [before ++ [done.length]] := by
        rw [Nat.sub_eq_zero_of_le hlimit, walksThrough_new hnew, walks]
      subst hdepth
      have hlater := ih rfl (midway_report (midway_place hmidway hnew) _)
      rw [List.length_append, List.append_assoc] at hlater
      rw [List.zipIdx_cons, List.flatMap_cons, hthrough]
      exact hlater
  | @inner way parent depth child later t below u hnew hparental hlimit hbelow _ ihBelow ihRest =>
      -- The walks through the child are its own label and those of the level below.
      have hlevel : maxDepth - depth = (maxDepth - (depth + 1)) + 1 := by omega
      have hthrough : walksThrough a (maxDepth - depth) way before (child, done.length) =
          [before ++ [done.length]] ++ (a.children child).zipIdx.flatMap
            (walksThrough a (maxDepth - (depth + 1)) (way ++ [child]) (before ++ [done.length])) := by
        rw [hlevel, walksThrough_new hnew, walks_succ]
        rfl
      subst hdepth
      have hinner := ihBelow (by simp) (midway_enter hmidway hnew)
      have hother : some t.nodes.size ≠ parent := by
        intro hsame
        exact Nat.lt_irrefl _ (hmidway.leads.left _ hsame.symm)
      have hback := midway_grow (midway_place hmidway hnew) hinner (expands_root hbelow)
        (expands_appends hbelow) hother
      have hlater := ihRest rfl hback
      rw [List.length_append] at hlater
      rw [List.zipIdx_cons, List.flatMap_cons, hthrough]
      simp only [List.append_assoc] at hlater ⊢
      exact hlater

/-- The nodes of a built tree are the walks without repetition up to the greatest depth. -/
theorem labelled_buildFrom (a : Adjacency) {maxDepth : Nat} (hdepth : 1 ≤ maxDepth)
    (root : ComponentId) :
    Labelled a (buildFrom a maxDepth root) (walks a maxDepth [root] [] root) := by
  have hmidway : Midway a [] [root] none [] [] (a.children root) ⟨root, #[], #[]⟩ := by
    constructor
    · exact labelled_empty a root
    · exact leadsTo_root root
    · rfl
    · rfl
    · intro c _
      rfl
  have hexpands := expands_expand a maxDepth [root] none 1 (a.children root) ⟨root, #[], #[]⟩
  have hlabelled := labelled_of_expands hexpands rfl hmidway
  have hwalks : walks a maxDepth [root] [] root =
      (a.children root).zipIdx.flatMap (walksThrough a (maxDepth - 1) [root] []) := by
    rw [← walks_succ, Nat.sub_add_cancel hdepth]
  rw [buildFrom_eq_expand, Nat.max_eq_left hdepth, hwalks]
  exact hlabelled

/-- Every node is numbered by its position, comes after its parent and stands one level
below it; the nodes without a parent stand on the first level. -/
structure Numbered (t : ComponentTree) : Prop where
  id : forall (i : Nat) (n : TreeNode), t.nodes[i]? = some n -> n.id = i
  top : forall (i : Nat) (n : TreeNode), t.nodes[i]? = some n -> n.parent = none -> n.depth = 1
  below : forall (i : Nat) (n : TreeNode) (p : Nat), t.nodes[i]? = some n -> n.parent = some p ->
    exists m : TreeNode, p < i ∧ t.nodes[p]? = some m ∧ n.depth = m.depth + 1

theorem numbered_of_labelled {a : Adjacency} {t : ComponentTree} {labels : List (List Nat)}
    (h : Labelled a t labels) : Numbered t := by
  constructor
  · intro i n hn
    rcases h.node i n hn with ⟨_, _, _, hfits⟩
    exact hfits.id
  · intro i n hn htop
    rcases h.node i n hn with ⟨before, _, _, hfits⟩
    have hbefore := hfits.parent
    rw [htop] at hbefore
    rw [hfits.depth, show before = [] from hbefore]
    rfl
  · intro i n p hn hparent
    rcases h.node i n hn with ⟨before, _, _, hfits⟩
    have hp : p < i := hfits.earlier p hparent
    have hplaced : p < t.nodes.size := Nat.lt_trans hp (Array.getElem?_eq_some_iff.mp hn).1
    have hm : t.nodes[p]? = some t.nodes[p] := Array.getElem?_eq_getElem hplaced
    rcases h.node p _ hm with ⟨front, k, hlabel, hfront⟩
    have hbefore := hfits.parent
    rw [hparent] at hbefore
    have hlonger : before = front ++ [k] := Option.some.inj (hbefore.symm.trans hlabel)
    refine ⟨t.nodes[p], hp, hm, ?_⟩
    rw [hfits.depth, hfront.depth, hlonger, List.length_append]
    rfl

theorem numbered_buildFrom (a : Adjacency) (maxDepth : Nat) (root : ComponentId) :
    Numbered (buildFrom a maxDepth root) := by
  have hsame : buildFrom a maxDepth root = buildFrom a (max maxDepth 1) root := by
    rw [buildFrom_eq_expand, buildFrom_eq_expand, Nat.max_assoc, Nat.max_self]
  rw [hsame]
  exact numbered_of_labelled (labelled_buildFrom a (Nat.le_max_right maxDepth 1) root)

theorem address_of_labelled {a : Adjacency} {t : ComponentTree} {labels : List (List Nat)}
    (h : Labelled a t labels) {position : Nat} (hposition : position < t.nodes.size) :
    labels[position]? = some (address a t position) := by
  induction position using Nat.strongRecOn with
  | ind position ih =>
      have hn : t.nodes[position]? = some t.nodes[position] := Array.getElem?_eq_getElem hposition
      rcases h.node position _ hn with ⟨before, k, hlabel, hfits⟩
      have hoccurrence : occurrence a t position t.nodes[position] = k := by
        have huse := hfits.use
        rcases List.getElem?_eq_some_iff.mp huse with ⟨hk, hchild⟩
        have hsplit := (List.take_append_drop k (a.children (t.userOf t.nodes[position].parent))).symm
        rw [List.drop_eq_getElem_cons hk, hchild] at hsplit
        rw [occurrence, hfits.rank, idxOfNth_countP hsplit, List.length_take]
        exact Nat.min_eq_left (Nat.le_of_lt hk)
      rw [hlabel, address, hn]
      have hparent := hfits.parent
      cases hcase : t.nodes[position].parent with
      | none =>
          rw [hcase] at hparent
          simp only [hcase, hoccurrence]
          rw [show before = [] from hparent, List.nil_append]
      | some p =>
          have hp : p < position := hfits.earlier p hcase
          rw [hcase] at hparent
          have hbefore := hparent.symm.trans (ih p hp (Nat.lt_trans hp hposition))
          simp only [hcase, if_pos hp, hoccurrence, Option.some.inj hbefore]

/-!
# Nodes and walks

The labelling of a built tree lists the walks without repetition, so a node is told
by its address, and every such walk is the address of a node.
-/

section Nodes

variable (a : Adjacency) {maxDepth : Nat} (hdepth : 1 ≤ maxDepth) (root : ComponentId)

include hdepth

theorem address_buildFrom {i : Nat} (hi : i < (buildFrom a maxDepth root).size) :
    (walks a maxDepth [root] [] root)[i]? = some (address a (buildFrom a maxDepth root) i) :=
  address_of_labelled (labelled_buildFrom a hdepth root) hi

theorem address_bijOn :
    Set.BijOn (address a (buildFrom a maxDepth root))
      {i | i < (buildFrom a maxDepth root).size} (simpleWalks a maxDepth root) := by
  have hlabelled := labelled_buildFrom a hdepth root
  refine ⟨?_, ?_, ?_⟩
  · intro i hi
    exact mem_walks_root.mp (List.mem_of_getElem? (address_buildFrom a hdepth root hi))
  · intro i hi j hj hsame
    have hlabel := address_buildFrom a hdepth root hi
    rw [hsame, ← address_buildFrom a hdepth root hj] at hlabel
    have hlength : i < (walks a maxDepth [root] [] root).length := by
      rw [hlabelled.length]
      exact hi
    exact (List.getElem?_inj hlength (walks_nodup a maxDepth [root] [] root)).mp hlabel
  · intro positions hpositions
    rcases List.mem_iff_getElem?.mp (mem_walks_root.mpr hpositions) with ⟨i, hi⟩
    have hsize : i < (buildFrom a maxDepth root).size := by
      have hlength := (List.getElem?_eq_some_iff.mp hi).1
      rw [hlabelled.length] at hlength
      exact hlength
    rw [address_buildFrom a hdepth root hsize] at hi
    exact ⟨i, hsize, Option.some.inj hi⟩

theorem size_eq_ncard_simpleWalks :
    (buildFrom a maxDepth root).size = (simpleWalks a maxDepth root).ncard := by
  have hrange : {i | i < (buildFrom a maxDepth root).size} =
      ↑(Finset.range (buildFrom a maxDepth root).size) := by
    ext i
    simp
  rw [← (address_bijOn a hdepth root).ncard_eq, hrange, Set.ncard_coe_finset, Finset.card_range]

theorem walk_address {i : Nat} (hi : i < (buildFrom a maxDepth root).size) :
    Walk a root (address a (buildFrom a maxDepth root) i)
      (lineage (buildFrom a maxDepth root).nodes i) := by
  have hlabelled := labelled_buildFrom a hdepth root
  have hlabel : ParentLabel (walks a maxDepth [root] [] root) (some i)
      (address a (buildFrom a maxDepth root) i) := address_buildFrom a hdepth root hi
  have hwalk := walk_of_parentLabel hlabelled hlabel
  rw [root_buildFrom] at hwalk
  exact hwalk

/-- The nodes for a component are the walks without repetition that lead to it. -/
theorem address_bijOn_nodesOf (c : ComponentId) :
    Set.BijOn (address a (buildFrom a maxDepth root)) ((buildFrom a maxDepth root).nodesOf c)
      (simpleWalksTo a maxDepth root c) := by
  have hbij := address_bijOn a hdepth root
  have hsize : forall i n, (buildFrom a maxDepth root).nodes[i]? = some n ->
      i < (buildFrom a maxDepth root).size := by
    intro i n hn
    exact (Array.getElem?_eq_some_iff.mp hn).1
  refine ⟨?_, ?_, ?_⟩
  · intro i h
    rcases h with ⟨n, hn, hc⟩
    refine ⟨hbij.mapsTo (hsize i n hn), _, walk_address a hdepth root (hsize i n hn), ?_⟩
    rw [getLastD_lineage hn]
    exact hc
  · intro i h j h' hsame
    rcases h with ⟨n, hn, _⟩
    rcases h' with ⟨m, hm, _⟩
    exact hbij.injOn (hsize i n hn) (hsize j m hm) hsame
  · intro positions h
    rcases h with ⟨hpositions, trail, hwalk, hc⟩
    rcases hbij.surjOn hpositions with ⟨i, hi, rfl⟩
    have hn : (buildFrom a maxDepth root).nodes[i]? = some (buildFrom a maxDepth root).nodes[i] :=
      Array.getElem?_eq_getElem hi
    refine ⟨i, ⟨_, hn, ?_⟩, rfl⟩
    rw [walk_unique hwalk (walk_address a hdepth root hi), getLastD_lineage hn] at hc
    exact hc

omit hdepth in
theorem traversals_bijOn (hacyclic : Acyclic a)
    (hfit : forall positions trail, Walk a root positions trail -> positions.length ≤ maxDepth) :
    Set.BijOn (fun step : List Nat × Nat => step.1 ++ [step.2]) (traversals a root)
      (simpleWalks a maxDepth root) := by
  refine ⟨?_, ?_, ?_⟩
  · intro step hstep
    rcases step with ⟨path, k⟩
    rcases hstep with ⟨trail, hwalk, hk⟩
    have hlonger := walk_snoc hwalk (List.getElem?_eq_getElem hk)
    exact ⟨by simp, hfit _ _ hlonger, _, hlonger, repeatFree_of_acyclic hacyclic hlonger⟩
  · intro step _ step' _ hsame
    rcases step with ⟨path, k⟩
    rcases step' with ⟨other, j⟩
    rcases List.append_inj' hsame rfl with ⟨hpath, hk⟩
    exact Prod.ext hpath (List.cons.inj hk).left
  · intro positions h
    rcases h with ⟨hne, _, trail, hwalk, _⟩
    have htrail : trail ≠ [] := by
      intro hnil
      subst hnil
      exact hne (List.length_eq_zero_iff.mp (walk_length hwalk).symm)
    rw [← List.dropLast_append_getLast htrail] at hwalk
    rcases walk_snoc_inv hwalk with ⟨path, k, rfl, hpath, hstep⟩
    exact ⟨(path, k), ⟨_, hpath, (List.getElem?_eq_some_iff.mp hstep).1⟩, rfl⟩

end Nodes

/-- The address of a node, which tells the use that was followed in the list of each
component above it, is a bijection from the nodes to the walks without repetition.
Hence a component has a node for each such walk to it, and without cycles there is a
node for each pair of a path and a use at its end. -/
theorem nodes_biject_simpleWalks (a : Adjacency) (maxDepth : Nat) (root : ComponentId)
    (hdepth : 1 ≤ maxDepth) :
    Set.BijOn (address a (buildFrom a maxDepth root))
        {i | i < (buildFrom a maxDepth root).size} (simpleWalks a maxDepth root) ∧
      (forall i, i < (buildFrom a maxDepth root).size ->
        Walk a root (address a (buildFrom a maxDepth root) i)
          (lineage (buildFrom a maxDepth root).nodes i)) ∧
      (forall c, ((buildFrom a maxDepth root).nodesOf c).ncard =
        (simpleWalksTo a maxDepth root c).ncard) ∧
      (Acyclic a ->
        (forall positions trail, Walk a root positions trail -> positions.length ≤ maxDepth) ->
        (buildFrom a maxDepth root).size = (traversals a root).ncard) := by
  refine ⟨address_bijOn a hdepth root, ?_, ?_, ?_⟩
  · intro i hi
    exact walk_address a hdepth root hi
  · intro c
    exact (address_bijOn_nodesOf a hdepth root c).ncard_eq
  · intro hacyclic hfit
    rw [size_eq_ncard_simpleWalks a hdepth root, (traversals_bijOn a root hacyclic hfit).ncard_eq]

/-- A page with two buttons. -/
def twoButtons : Adjacency :=
  Adjacency.ofLists [(page, [button, button])]

theorem walk_twoButtons {c : ComponentId} {positions : List Nat} {trail : List ComponentId}
    (h : Walk twoButtons c positions trail) :
    positions = [] ∨ positions.length = 1 ∧ trail = [button] ∧ (page == c) = true := by
  cases h with
  | stay => exact Or.inl rfl
  | @use _ d k positions trail hstep hwalk =>
      have hlist : twoButtons.children c = if page == c then [button, button] else [] := by
        unfold Adjacency.children
        rw [show twoButtons.lists.get? c = if page == c then some [button, button] else none from rfl]
        cases (page == c) with
        | true => rfl
        | false => rfl
      cases hpage : (page == c) with
      | false =>
          rw [hlist, hpage] at hstep
          cases hstep
      | true =>
          rw [hlist, hpage] at hstep
          have hd : d = button := by simpa using List.mem_of_getElem? hstep
          subst hd
          cases hwalk with
          | stay => exact Or.inr ⟨rfl, rfl, rfl⟩
          | use hnext _ => cases hnext

theorem acyclic_twoButtons : Acyclic twoButtons := by
  intro c positions trail hne hwalk
  rcases walk_twoButtons hwalk with hnil | ⟨_, htrail, hpage⟩
  · exact absurd hnil hne
  · rw [htrail, List.getLastD_cons, List.getLastD_nil, ← BEq.congr_right hpage]
    decide +kernel

theorem nodes_biject_simpleWalks_page :
    1 ≤ 2 ∧
      (List.range 4).map (address twoCards (buildFrom twoCards 2 page)) =
        [[0], [0, 1], [1], [1, 1]] ∧
      Set.BijOn (address twoCards (buildFrom twoCards 2 page))
        {i | i < (buildFrom twoCards 2 page).size} (simpleWalks twoCards 2 page) ∧
      (buildFrom twoButtons 1 page).size = (traversals twoButtons page).ncard := by
  refine ⟨by decide, by decide +kernel, ?_, ?_⟩
  · exact (nodes_biject_simpleWalks twoCards 2 page (by decide)).left
  · apply (nodes_biject_simpleWalks twoButtons 1 page (by decide)).right.right.right
    · exact acyclic_twoButtons
    · intro positions trail hwalk
      rcases walk_twoButtons hwalk with hnil | ⟨hlength, _⟩
      · rw [hnil]
        exact Nat.zero_le 1
      · exact Nat.le_of_eq hlength

end ComponentTree
end JsxUsage
