import JsxUsage.Proofs.MermaidEdges
import JsxUsage.Proofs.TreeWalks

/-!
# The shape of a tree in its flowchart

The lines of a flowchart refer to the root by its own name and to nodes by numbers, and
what is written of a name can stand for many names.  This module proves that the flowchart
still tells the shape of the tree: which node stands below which, how deep it is and under
which label, because no reference to a root reads like a reference to a node.
-/

namespace JsxUsage

/-!
# Names of nodes
-/

namespace TreeNode

theorem toList_label (i : Nat) : (label i).toList = 'c' :: Nat.toDigits 10 (i + 1) := by
  rw [label, String.toList_append, Nat.toString_eq_repr, Nat.toList_repr]
  rfl

theorem label_inj {i j : Nat} (h : label i = label j) : i = j := by
  have hlist := congrArg String.toList h
  rw [toList_label, toList_label] at hlist
  have hdigits := (List.cons.inj hlist).right
  have hnumber := congrArg (fun digits => Nat.ofDigitChars 10 digits 0) hdigits
  rw [Nat.ofDigitChars_ten_toDigits, Nat.ofDigitChars_ten_toDigits] at hnumber
  exact Nat.succ.inj hnumber

theorem looksLikeLabel_label (i : Nat) : ComponentTree.looksLikeLabel (label i) = true := by
  have hdigits : (Nat.toDigits 10 (i + 1)).all Char.isDigit = true := by
    rw [List.all_eq_true]
    intro c hc
    exact Nat.isDigit_of_mem_toDigits (by decide) (by decide) hc
  simp [ComponentTree.looksLikeLabel, toList_label, hdigits]

theorem underscore_not_mem_label (i : Nat) : '_' ∉ (label i).toList := by
  exact Text.not_mem_of_isAlphanumeric (fun c hc => Mermaid.isAlphanumeric_of_mem_node hc)
    (by decide)

end TreeNode

/-!
# References to the root

A root whose name reads like that of a node is given another one.  What is written of a
name differs from it only by underscores, and no name of a node holds any.
-/

namespace ComponentTree

theorem rootRef_ne_label (t : ComponentTree) (i : Nat) : t.rootRef ≠ TreeNode.label i := by
  intro hsame
  unfold rootRef at hsame
  by_cases hlabel : looksLikeLabel t.rootName = true
  · rw [if_pos hlabel] at hsame
    apply TreeNode.underscore_not_mem_label i
    rw [← hsame, String.toList_append]
    exact List.mem_append_right _ (by decide)
  · rw [if_neg hlabel] at hsame
    rw [hsame] at hlabel
    exact hlabel (TreeNode.looksLikeLabel_label i)

end ComponentTree

namespace Mermaid

open Text
open ComponentTree (buildFrom)

/-- A reference without underscores is the name that it was written for. -/
theorem reference_eq_self {s : String} (h : '_' ∉ reference s) : reference s = s.toList := by
  have hkept : forall c, c ∈ s.toList -> (if isAlphanumeric c || c == '_' then c else '_') = c := by
    intro c hc
    by_cases hplain : (isAlphanumeric c || c == '_') = true
    · rw [if_pos hplain]
    · have hmem := List.mem_map_of_mem (f := fun c => if isAlphanumeric c || c == '_' then c else '_') hc
      rw [if_neg hplain] at hmem
      exact absurd hmem h
  exact (List.map_congr_left hkept).trans (List.map_id' _)

theorem reference_rootRef_ne_label (t : ComponentTree) (i : Nat) :
    reference t.rootRef ≠ (TreeNode.label i).toList := by
  intro hsame
  have hplain : '_' ∉ reference t.rootRef := by
    rw [hsame]
    exact TreeNode.underscore_not_mem_label i
  rw [reference_eq_self hplain] at hsame
  exact t.rootRef_ne_label i (String.toList_inj.mp hsame)

/-!
# What a line tells

A line is cut at the arrow and at the bracket behind it.  Neither can stand any earlier,
so two equal lines are equal part by part.
-/

theorem edgeText_inj {e f : TreeEdge}
    (he : forall c, c ∈ e.child.toList -> isAlphanumeric c = true)
    (hf : forall c, c ∈ f.child.toList -> isAlphanumeric c = true) (h : edgeText e = edgeText f) :
    reference e.parent = reference f.parent ∧ e.child = f.child ∧ label e.name = label f.name := by
  have hcore : edgeCore e = edgeCore f :=
    List.append_cancel_right (List.append_cancel_left h)
  rw [edgeCore, edgeCore, arrow_eq] at hcore
  rcases splitOnce_inj ' ' ['=', '=', '>', ' '] (blank_not_mem_reference (by decide) e.parent)
    (blank_not_mem_reference (by decide) f.parent) hcore with ⟨hparent, hrest⟩
  rcases splitOnce_inj '[' [] (not_mem_of_isAlphanumeric he (by decide))
    (not_mem_of_isAlphanumeric hf (by decide)) hrest with ⟨hchild, hname⟩
  exact ⟨hparent, String.toList_inj.mp hchild, List.append_cancel_right hname⟩

theorem map_edgeText_of_write {t u : ComponentTree} {direction heading : String}
    (hdirection : '\n' ∉ direction.toList) (hheading : '\n' ∉ heading.toList)
    (ht : forall n, n ∈ t.nodes -> '\n' ∉ n.name.toList)
    (hu : forall n, n ∈ u.nodes -> '\n' ∉ n.name.toList)
    (h : write direction t = write heading u) :
    t.edges.map edgeText = u.edges.map edgeText := by
  have hedges : forall v : ComponentTree, (forall n, n ∈ v.nodes -> '\n' ∉ n.name.toList) ->
      forall e, e ∈ v.edges -> '\n' ∉ edgeText e := by
    intro v hv e he
    rcases List.mem_map.mp he with ⟨n, hn, rfl⟩
    exact newline_not_mem_edgeText (fun c hc => isAlphanumeric_of_mem_node hc)
      (hv n (Array.mem_toList_iff.mp hn))
  have hlines := congrArg (List.splitOn '\n') (String.ofList_inj.mp h)
  rw [splitOn_lines hdirection (hedges t ht), splitOn_lines hheading (hedges u hu)] at hlines
  exact List.append_cancel_right (List.cons.inj hlines).right

/-- The reference to the parent tells which node the parent is, or that it is the root. -/
theorem parent_eq_of_reference {t u : ComponentTree} {m n : TreeNode}
    (h : reference (t.parentRef m) = reference (u.parentRef n)) : m.parent = n.parent := by
  unfold ComponentTree.parentRef at h
  cases hm : m.parent with
  | none =>
      cases hn : n.parent with
      | none => rfl
      | some q =>
          simp only [hm, hn, reference_node] at h
          exact absurd h (reference_rootRef_ne_label t q)
  | some p =>
      cases hn : n.parent with
      | none =>
          simp only [hm, hn, reference_node] at h
          exact absurd h.symm (reference_rootRef_ne_label u p)
      | some q =>
          simp only [hm, hn, reference_node] at h
          rw [TreeNode.label_inj (String.toList_inj.mp h)]

/-!
# The whole tree
-/

/-- Node by node, two trees have the same parents and the same labels. -/
def SameLines (t u : ComponentTree) : Prop :=
  forall (i : Nat) (m n : TreeNode), t.nodes[i]? = some m -> u.nodes[i]? = some n ->
    m.parent = n.parent ∧ label m.name = label n.name

theorem sameLines_of_edgeText {t u : ComponentTree} (h : t.edges.map edgeText = u.edges.map edgeText) :
    t.size = u.size ∧ SameLines t u := by
  constructor
  · have hlength := congrArg List.length h
    simpa [ComponentTree.edges, ComponentTree.size] using hlength
  · intro i m n hm hn
    have hline := congrArg (fun lines => lines[i]?) h
    simp only [ComponentTree.edges, List.getElem?_map, Array.getElem?_toList, hm, hn,
      Option.map_some, Option.some.injEq] at hline
    rcases edgeText_inj (e := ⟨t.parentRef m, TreeNode.label m.id, m.name⟩)
      (f := ⟨u.parentRef n, TreeNode.label n.id, n.name⟩)
      (fun c hc => isAlphanumeric_of_mem_node hc) (fun c hc => isAlphanumeric_of_mem_node hc)
      hline with ⟨hparent, _, hname⟩
    exact ⟨parent_eq_of_reference hparent, hname⟩

/-- The depth of a node follows from the parents, up to the root. -/
theorem depth_eq_of_sameLines {t u : ComponentTree} (ht : t.Numbered) (hu : u.Numbered)
    (h : SameLines t u) {i : Nat} {m n : TreeNode} (hm : t.nodes[i]? = some m)
    (hn : u.nodes[i]? = some n) : m.depth = n.depth := by
  induction i using Nat.strongRecOn generalizing m n with
  | ind i ih =>
      have hparent := (h i m n hm hn).left
      cases hcase : n.parent with
      | none => rw [ht.top i m hm (hparent.trans hcase), hu.top i n hn hcase]
      | some p =>
          rcases ht.below i m p hm (hparent.trans hcase) with ⟨m', hp, hm', hdepth⟩
          rcases hu.below i n p hn hcase with ⟨n', _, hn', hdepth'⟩
          rw [hdepth, hdepth', ih p hp hm' hn']

/-- No reference to a root is that of a node, neither as it is given nor as it is written,
and two trees with the same flowchart have the same shape and the same labels. -/
theorem write_determines_shape :
    (forall (t : ComponentTree) (i : Nat), t.rootRef ≠ TreeNode.label i ∧
      String.ofList (reference t.rootRef) ≠ TreeNode.label i) ∧
    forall (a b : Adjacency) (maxDepth limit : Nat) (root top : ComponentId)
      (direction heading : String), '\n' ∉ direction.toList -> '\n' ∉ heading.toList ->
      (forall n, n ∈ (buildFrom a maxDepth root).nodes -> '\n' ∉ n.name.toList) ->
      (forall n, n ∈ (buildFrom b limit top).nodes -> '\n' ∉ n.name.toList) ->
      write direction (buildFrom a maxDepth root) = write heading (buildFrom b limit top) ->
      (buildFrom a maxDepth root).size = (buildFrom b limit top).size ∧
        forall (i : Nat) (m n : TreeNode), (buildFrom a maxDepth root).nodes[i]? = some m ->
          (buildFrom b limit top).nodes[i]? = some n ->
          m.parent = n.parent ∧ m.depth = n.depth ∧ label m.name = label n.name := by
  constructor
  · intro t i
    refine ⟨t.rootRef_ne_label i, ?_⟩
    intro hsame
    apply reference_rootRef_ne_label t i
    rw [← hsame, String.toList_ofList]
  · intro a b maxDepth limit root top direction heading hdirection hheading hnames hothers htext
    have hlines := map_edgeText_of_write hdirection hheading hnames hothers htext
    rcases sameLines_of_edgeText hlines with ⟨hsize, hsame⟩
    refine ⟨hsize, ?_⟩
    intro i m n hm hn
    have hdepth := depth_eq_of_sameLines (ComponentTree.numbered_buildFrom a maxDepth root)
      (ComponentTree.numbered_buildFrom b limit top) hsame hm hn
    rcases hsame i m n hm hn with ⟨hparent, hname⟩
    exact ⟨hparent, hdepth, hname⟩

/-- A project whose root reads like a node and whose names lose characters in a label. -/
def bracketed : Adjacency :=
  Adjacency.ofLists
    [(⟨⟨"a.jsx"⟩, "c1"⟩, [⟨⟨"b.jsx"⟩, "Nav[1]"⟩, ⟨⟨"c.jsx"⟩, "c1"⟩]),
      (⟨⟨"b.jsx"⟩, "Nav[1]"⟩, [⟨⟨"c.jsx"⟩, "c1"⟩])]

/-- Another project, with other names that are written in the same way. -/
def plain : Adjacency :=
  Adjacency.ofLists
    [(⟨⟨"x.jsx"⟩, "c1-root"⟩, [⟨⟨"y.jsx"⟩, "Nav1"⟩, ⟨⟨"z.jsx"⟩, "c1;"⟩]),
      (⟨⟨"y.jsx"⟩, "Nav1"⟩, [⟨⟨"z.jsx"⟩, "c1;"⟩])]

theorem write_determines_shape_bracketed :
    write "TD" (buildFrom bracketed 3 ⟨⟨"a.jsx"⟩, "c1"⟩) =
        write "TD" (buildFrom plain 2 ⟨⟨"x.jsx"⟩, "c1-root"⟩) ∧
      (buildFrom bracketed 3 ⟨⟨"a.jsx"⟩, "c1"⟩).size =
        (buildFrom plain 2 ⟨⟨"x.jsx"⟩, "c1-root"⟩).size ∧
      forall (i : Nat) (m n : TreeNode),
        (buildFrom bracketed 3 ⟨⟨"a.jsx"⟩, "c1"⟩).nodes[i]? = some m ->
        (buildFrom plain 2 ⟨⟨"x.jsx"⟩, "c1-root"⟩).nodes[i]? = some n ->
        m.parent = n.parent ∧ m.depth = n.depth ∧ label m.name = label n.name := by
  have htext : write "TD" (buildFrom bracketed 3 ⟨⟨"a.jsx"⟩, "c1"⟩) =
      write "TD" (buildFrom plain 2 ⟨⟨"x.jsx"⟩, "c1-root"⟩) := by decide +kernel
  refine ⟨htext, ?_⟩
  exact write_determines_shape.right bracketed plain 3 2 _ _ "TD" "TD" (by decide) (by decide)
    (by decide +kernel) (by decide +kernel) htext

end Mermaid
end JsxUsage
