import JsxUsage.Proofs.CursorTours
import JsxUsage.Source.Tag

/-!
# The shape of syntax trees

Two properties that a syntax tree has by the way it is read.  Its markup follows the
grammar: opening tags stand only at the front of elements.  And its nodes are in the order
of the text: each one starts where its parent has started and the sibling before it has
ended, or later.
-/

namespace JsxUsage
namespace Syntax
namespace Node

/-!
# Nodes and their places
-/

theorem mem_preorder_iff {n m : Node} : m ∈ n.preorder <-> exists place, n.at? place = some m := by
  rw [← map_snd_spots, List.mem_map]
  constructor
  · intro h
    rcases h with ⟨⟨place, _⟩, hspot, rfl⟩
    exact ⟨place, (mem_spots_iff n).mp hspot⟩
  · intro h
    rcases h with ⟨place, hat⟩
    exact ⟨(place, m), (mem_spots_iff n).mpr hat, rfl⟩

theorem exists_mem_preorder_iff {n : Node} {p : Node -> Prop} :
    (exists m, m ∈ n.preorder ∧ p m) <-> exists place m, n.at? place = some m ∧ p m := by
  constructor
  · intro h
    rcases h with ⟨m, hm, hp⟩
    rcases mem_preorder_iff.mp hm with ⟨place, hplace⟩
    exact ⟨place, m, hplace, hp⟩
  · intro h
    rcases h with ⟨place, m, hplace, hp⟩
    exact ⟨m, mem_preorder_iff.mpr ⟨place, hplace⟩, hp⟩

theorem exists_at?_of_child {n m c : Node} {place : List Nat} (h : n.at? place = some m)
    (hc : c ∈ m.children) : exists k, n.at? (place ++ [k]) = some c := by
  rcases List.mem_iff_getElem?.mp hc with ⟨k, hk⟩
  refine ⟨k, ?_⟩
  rw [at?_append h]
  exact at?_cons_eq_some_iff.mpr ⟨c, hk, rfl⟩

/-- A node is the start of its tree or a child of another node. -/
theorem exists_parent_of_at? {n m : Node} {place : List Nat} (h : n.at? place = some m) :
    n = m ∨ exists above parent, n.at? above = some parent ∧ m ∈ parent.children := by
  induction place generalizing n with
  | nil => exact Or.inl (Option.some.inj h)
  | cons k rest ih =>
      rcases at?_cons_eq_some_iff.mp h with ⟨c, hc, hm⟩
      rcases ih hm with rfl | ⟨above, parent, hparent, hchild⟩
      · exact Or.inr ⟨[], n, rfl, List.mem_of_getElem? hc⟩
      · exact Or.inr ⟨k :: above, parent, at?_cons_eq_some_iff.mpr ⟨c, hc, hparent⟩, hchild⟩

/-!
# Markup
-/

/-- What the grammar says of the markup at a node: a tag that closes itself has a name, an
element is opened by an opening tag, and an opening tag does nothing but open an element. -/
structure FitsMarkup (n : Node) : Prop where
  closed_named : n.kind = .jsxSelfClosingElement -> exists name, n.child? .name = some name
  opened : n.kind = .jsxElement -> forall tag, n.openTag? = some tag ->
    tag.kind = .jsxOpeningElement
  opening : forall c, c ∈ n.children -> c.kind = .jsxOpeningElement ->
    n.kind = .jsxElement ∧ n.openTag? = some c

/-- The markup of a whole tree follows the grammar. -/
structure FollowsMarkup (tree : Node) : Prop where
  start : tree.kind ≠ .jsxOpeningElement
  fits : forall place n, tree.at? place = some n -> n.FitsMarkup

theorem followsMarkup_at {tree n : Node} {place : List Nat} (h : tree.FollowsMarkup)
    (hn : tree.at? place = some n) (hkind : n.kind ≠ .jsxOpeningElement) : n.FollowsMarkup := by
  refine ⟨hkind, ?_⟩
  intro rest m hm
  exact h.fits (place ++ rest) m (by rw [at?_append hn, hm])

theorem followsMarkup_iff {tree : Node} :
    tree.FollowsMarkup <->
      tree.kind ≠ .jsxOpeningElement ∧ forall n, n ∈ tree.preorder -> n.FitsMarkup := by
  constructor
  · intro h
    rcases h with ⟨hstart, hfits⟩
    refine ⟨hstart, ?_⟩
    intro n hn
    rcases mem_preorder_iff.mp hn with ⟨place, hplace⟩
    exact hfits place n hplace
  · intro h
    rcases h with ⟨hstart, hfits⟩
    exact ⟨hstart, fun place n hplace => hfits n (mem_preorder_iff.mpr ⟨place, hplace⟩)⟩

/-!
# The order of the text
-/

/-- The nodes stand one after the other from the line `first` on and end on the line `last`
or before it.  The children of each node stand in this way between the line on which the
node starts and the one on which it ends; there the next node may start. -/
inductive InOrder : Nat -> List Node -> Nat -> Prop where
  | none {first last : Nat} : first ≤ last -> InOrder first [] last
  | next {first stop last : Nat} {l : Label} {cs rest : List Node} :
      first ≤ l.line -> InOrder l.line cs stop -> InOrder stop rest last ->
        InOrder first (node l cs :: rest) last

/-- The nodes of the tree are in the order of the text. -/
def IsInOrder (tree : Node) : Prop :=
  exists first last, InOrder first [tree] last

theorem inOrder_le {first last : Nat} {ns : List Node} (h : InOrder first ns last) :
    first ≤ last := by
  induction h with
  | none hle => exact hle
  | next hline _ _ hcs hrest => omega

end Node
end Syntax
end JsxUsage
