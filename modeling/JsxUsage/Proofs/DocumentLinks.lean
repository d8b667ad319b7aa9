import JsxUsage.Proofs.MermaidShape
import JsxUsage.Proofs.TreeDocumentReading

/-!
# Parent links in tree documents

A document gives each node an id and the name of its parent, and it gives the root by its
name.  A reader who has only the text follows a parent to the root or to the one earlier
node of that id.  This module proves that what is followed in this way is the parent in the
tree, and that every parent can be followed unless the root itself is named like a node:
the nodes below such a root refer to it by another name than the document does.
-/

namespace JsxUsage

namespace Json

/-- The value of the first member with a key. -/
def member? (key : String) : Json -> Option Json
  | .object members => (members.find? fun m => m.1 == key).map Prod.snd
  | _ => none

def string? : Json -> Option String
  | .string s => some s
  | _ => none

def items? : Json -> Option (List Json)
  | .array items => some items
  | _ => none

end Json

namespace TreeDocument

open ComponentTree (buildFrom looksLikeLabel Numbered)

/-!
# Outlines
-/

/-- What an entry says of its place in the tree. -/
structure Link where
  id : String
  parent : String
deriving Repr, DecidableEq

/-- What a document says of the shape of its tree. -/
structure Outline where
  root : String
  links : List Link
deriving Repr, DecidableEq

def linkOf? (entry : Json) : Option Link := do
  let id ← (entry.member? "id").bind Json.string?
  let parent ← (entry.member? "parent").bind Json.string?
  return ⟨id, parent⟩

/-- Read the shape off the text of a document. -/
def outline? (text : String) : Option Outline := do
  let doc ← Json.ofText? text
  let root ← (doc.member? "root").bind Json.string?
  let entries ← (doc.member? "nodes").bind Json.items?
  let links ← entries.mapM linkOf?
  return ⟨root, links⟩

/-- The link of a node. -/
def linkOf (t : ComponentTree) (n : TreeNode) : Link :=
  ⟨TreeNode.label n.id, t.parentRef n⟩

def outlineOf (t : ComponentTree) : Outline :=
  ⟨t.rootName, t.nodes.toList.map (linkOf t)⟩

theorem mapM_linkOf? (t : ComponentTree) (base : Option Path) (nodes : List TreeNode) :
    (nodes.map (nodeJson t base)).mapM linkOf? = some (nodes.map (linkOf t)) := by
  induction nodes with
  | nil => rfl
  | cons n nodes ih =>
      have hlink : linkOf? (nodeJson t base n) = some (linkOf t n) := rfl
      rw [List.map_cons, List.mapM_cons, hlink, ih]
      rfl

theorem outline?_write (t : ComponentTree) (base : Option Path) :
    outline? (write t base) = some (outlineOf t) := by
  have hread : Json.ofText? (write t base) = some (ofTree t base) :=
    Json.ofText?_of_document (Json.document_pretty _)
  have hroot : ((ofTree t base).member? "root").bind Json.string? = some t.rootName := rfl
  have hnodes : ((ofTree t base).member? "nodes").bind Json.items? =
      some (t.nodes.toList.map (nodeJson t base)) := rfl
  rw [outline?, hread]
  simp only [Option.bind_eq_bind, Option.bind_some, hroot, hnodes, mapM_linkOf?]
  rfl

/-!
# Following parents
-/

/-- The parent of the entry at a position is the root, or the entry at an earlier position,
and it can be nothing else. -/
inductive Refers (o : Outline) (i : Nat) : Option Nat -> Prop where
  | root {link : Link} (hlink : o.links[i]? = some link) (hroot : link.parent = o.root)
      (hfree : forall (j : Nat) (other : Link), j < i -> o.links[j]? = some other ->
        other.id ≠ link.parent) : Refers o i none
  | node {link above : Link} {p : Nat} (hlink : o.links[i]? = some link)
      (hroot : link.parent ≠ o.root) (hearlier : p < i) (habove : o.links[p]? = some above)
      (hid : above.id = link.parent)
      (honly : forall (j : Nat) (other : Link), j < i -> o.links[j]? = some other ->
        other.id = link.parent -> j = p) : Refers o i (some p)

section Tree

variable {t : ComponentTree} (h : Numbered t) {i : Nat}
include h

theorem getElem?_links {link : Link} :
    (outlineOf t).links[i]? = some link <->
      exists n, t.nodes[i]? = some n ∧ link = ⟨TreeNode.label i, t.parentRef n⟩ := by
  simp only [outlineOf, List.getElem?_map, Array.getElem?_toList, Option.map_eq_some_iff, linkOf]
  constructor
  · intro hlink
    rcases hlink with ⟨n, hn, rfl⟩
    exact ⟨n, hn, by rw [h.id i n hn]⟩
  · intro hlink
    rcases hlink with ⟨n, hn, rfl⟩
    exact ⟨n, hn, by rw [h.id i n hn]⟩

theorem id_of_links {link : Link} (hlink : (outlineOf t).links[i]? = some link) :
    link.id = TreeNode.label i := by
  rcases (getElem?_links h).mp hlink with ⟨_, _, rfl⟩
  rfl

variable {n : TreeNode} (hn : t.nodes[i]? = some n)
include hn

theorem eq_parent_of_refers {q : Option Nat} (hrefers : Refers (outlineOf t) i q) :
    q = n.parent := by
  have hlink := (getElem?_links h).mpr ⟨n, hn, rfl⟩
  cases hparent : n.parent with
  | none =>
      have href : t.parentRef n = t.rootRef := by
        rw [ComponentTree.parentRef, hparent]
      cases hrefers with
      | root => rfl
      | @node link above p hown _ _ habove hid _ =>
          cases hlink.symm.trans hown
          rw [id_of_links h habove, href] at hid
          exact absurd hid.symm (t.rootRef_ne_label p)
  | some p =>
      have href : t.parentRef n = TreeNode.label p := by
        rw [ComponentTree.parentRef, hparent]
      rcases h.below i n p hn hparent with ⟨m, hearlier, hm, _⟩
      have habove := (getElem?_links h).mpr ⟨m, hm, rfl⟩
      cases hrefers with
      | root hown _ hfree =>
          cases hlink.symm.trans hown
          exact absurd href.symm (hfree p _ hearlier habove)
      | node hown _ _ _ _ honly =>
          cases hlink.symm.trans hown
          rw [honly p _ hearlier habove href.symm]

theorem refers_parent (hroot : looksLikeLabel t.rootName = false) :
    Refers (outlineOf t) i n.parent := by
  have hlink := (getElem?_links h).mpr ⟨n, hn, rfl⟩
  cases hparent : n.parent with
  | none =>
      have href : t.parentRef n = t.rootRef := by
        rw [ComponentTree.parentRef, hparent]
      refine .root hlink ?_ ?_
      · show t.parentRef n = t.rootName
        rw [href, ComponentTree.rootRef, hroot]
        rfl
      · intro j other _ hother
        rw [id_of_links h hother]
        exact fun hsame => t.rootRef_ne_label j (href.symm.trans hsame.symm)
  | some p =>
      have href : t.parentRef n = TreeNode.label p := by
        rw [ComponentTree.parentRef, hparent]
      rcases h.below i n p hn hparent with ⟨m, hearlier, hm, _⟩
      refine .node hlink ?_ hearlier ((getElem?_links h).mpr ⟨m, hm, rfl⟩) href.symm ?_
      · -- The parent reads like the name of a node, and the root does not.
        intro hsame
        have hlabel := TreeNode.looksLikeLabel_label p
        rw [← href, show t.parentRef n = t.rootName from hsame, hroot] at hlabel
        cases hlabel
      · intro j other _ hother hid
        rw [id_of_links h hother] at hid
        exact TreeNode.label_inj (hid.trans href)

end Tree

/-- Below a root that is named like a node, already the first node cannot be followed. -/
theorem not_refers_zero {t : ComponentTree} (h : Numbered t) (hnodes : 0 < t.nodes.size)
    (hroot : looksLikeLabel t.rootName = true) (q : Option Nat) : ¬ Refers (outlineOf t) 0 q := by
  intro hrefers
  have hn : t.nodes[0]? = some t.nodes[0] := Array.getElem?_eq_getElem hnodes
  have htop : t.nodes[0].parent = none := by
    rw [Option.eq_none_iff_forall_ne_some]
    intro p hp
    rcases h.below 0 _ p hn hp with ⟨_, hearlier, _⟩
    exact absurd hearlier (Nat.not_lt_zero p)
  have hq := eq_parent_of_refers h hn hrefers
  rw [htop] at hq
  subst hq
  cases hrefers with
  | root hown hsame _ =>
      cases ((getElem?_links h).mpr ⟨_, hn, rfl⟩).symm.trans hown
      have href : t.rootName ++ "_root" = t.rootName :=
        calc
          t.rootName ++ "_root" = t.rootRef := by rw [ComponentTree.rootRef, if_pos hroot]
          _ = t.parentRef t.nodes[0] := by rw [ComponentTree.parentRef, htop]
          _ = t.rootName := hsame
      have hlength := congrArg String.length href
      rw [String.length_append] at hlength
      have hpositive : "_root".length = 5 := rfl
      omega

theorem parent_links_resolve_iff (a : Adjacency) (maxDepth : Nat) (root : ComponentId)
    (base : Option Path) :
    exists o, outline? (write (buildFrom a maxDepth root) base) = some o ∧
      o.links.length = (buildFrom a maxDepth root).nodes.size ∧
      ((forall i, i < o.links.length -> exists q, Refers o i q) <->
        o.links = [] ∨ looksLikeLabel root.name = false) ∧
      forall (i : Nat) (n : TreeNode) (q : Option Nat),
        (buildFrom a maxDepth root).nodes[i]? = some n -> Refers o i q -> q = n.parent := by
  have hroot := ComponentTree.root_buildFrom a maxDepth root
  have hnumbered := ComponentTree.numbered_buildFrom a maxDepth root
  generalize buildFrom a maxDepth root = t at hroot hnumbered ⊢
  subst hroot
  have hlength : (outlineOf t).links.length = t.nodes.size := by
    simp [outlineOf]
  refine ⟨outlineOf t, outline?_write t base, hlength, ?_,
    fun i n q hn hrefers => eq_parent_of_refers hnumbered hn hrefers⟩
  rw [hlength, ← List.length_eq_zero_iff, hlength]
  constructor
  · intro hall
    by_cases hempty : t.nodes.size = 0
    · exact Or.inl hempty
    · right
      rw [← Bool.not_eq_true]
      intro hlabel
      rcases hall 0 (Nat.pos_of_ne_zero hempty) with ⟨q, hq⟩
      exact not_refers_zero hnumbered (Nat.pos_of_ne_zero hempty) hlabel q hq
  · intro h i hi
    rcases h with hempty | hlabel
    · omega
    · exact ⟨_, refers_parent hnumbered (Array.getElem?_eq_getElem hi) hlabel⟩

/-- A root that is named like the first node, with one node below it. -/
def namedLikeNode : ComponentTree :=
  buildFrom (Adjacency.ofLists
    [(⟨⟨"a.jsx"⟩, "c1"⟩, [⟨⟨"b.jsx"⟩, "Panel"⟩]), (⟨⟨"b.jsx"⟩, "Panel"⟩, [])]) 10 ⟨⟨"a.jsx"⟩, "c1"⟩

theorem parent_of_root_named_like_node :
    outline? (write namedLikeNode none) = some ⟨"c1", [⟨"c1", "c1_root"⟩]⟩ ∧
      forall q, ¬ Refers ⟨"c1", [⟨"c1", "c1_root"⟩]⟩ 0 q := by
  have houtline : outlineOf namedLikeNode = ⟨"c1", [⟨"c1", "c1_root"⟩]⟩ := by decide +kernel
  have hnumbered : Numbered namedLikeNode := ComponentTree.numbered_buildFrom _ _ _
  rw [outline?_write, ← houtline]
  exact ⟨rfl, not_refers_zero hnumbered (by decide +kernel) (by decide +kernel)⟩

end TreeDocument
end JsxUsage
