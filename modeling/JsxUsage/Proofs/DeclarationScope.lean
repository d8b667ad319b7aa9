import JsxUsage.Analysis
import JsxUsage.Proofs.CursorVisits
import JsxUsage.Proofs.Registration
import Mathlib.Data.List.Forall2

/-!
# Declaration scope and file scope

The tags of a file are listed in document order, and a declaration lists those below its
own node.  The top-level declarations of a file stand side by side in its tree, so their
tags are blocks of the file's tags, one after the other.  A usage is resolved tag by tag
with the imports of the file, whatever the scope.  So the children of a component under
declaration scope are a block of its children under file scope.
-/

namespace JsxUsage

open Syntax

/-!
# Lists that hold blocks
-/

/-- The list holds the blocks one after the other, each in one piece, with anything
between them, before them and behind them. -/
inductive InBlocks {α : Type} : List (List α) -> List α -> Prop where
  | rest (tail : List α) : InBlocks [] tail
  | block (gap first : List α) {blocks : List (List α)} {tail : List α} :
      InBlocks blocks tail -> InBlocks (first :: blocks) (gap ++ (first ++ tail))

namespace InBlocks

variable {α β : Type}

theorem whole (xs : List α) : InBlocks [xs] xs := by
  have h := InBlocks.block [] xs (InBlocks.rest [])
  rwa [List.nil_append, List.append_nil] at h

theorem prepend {blocks : List (List α)} {xs : List α} (gap : List α) (h : InBlocks blocks xs) :
    InBlocks blocks (gap ++ xs) := by
  cases h with
  | rest => exact InBlocks.rest (gap ++ xs)
  | block inner first htail =>
      rw [← List.append_assoc]
      exact InBlocks.block (gap ++ inner) first htail

theorem append {blocks others : List (List α)} {xs ys : List α} (hxs : InBlocks blocks xs)
    (hys : InBlocks others ys) : InBlocks (blocks ++ others) (xs ++ ys) := by
  induction hxs with
  | rest tail => exact prepend tail hys
  | block gap first _ ih =>
      rw [List.cons_append, List.append_assoc, List.append_assoc]
      exact InBlocks.block gap first ih

theorem flatMap {items : List β} {blocks : β -> List (List α)} {list : β -> List α}
    (h : forall item, InBlocks (blocks item) (list item)) :
    InBlocks (items.flatMap blocks) (items.flatMap list) := by
  induction items with
  | nil => exact InBlocks.rest []
  | cons item items ih =>
      rw [List.flatMap_cons, List.flatMap_cons]
      exact append (h item) ih

theorem piece_of_mem {blocks : List (List α)} {xs piece : List α} (h : InBlocks blocks xs)
    (hpiece : piece ∈ blocks) : piece <:+: xs := by
  induction h with
  | rest tail => cases hpiece
  | block gap first _ ih =>
      apply List.infix_append_of_infix_right
      rcases List.mem_cons.mp hpiece with hfirst | hlater
      · rw [hfirst]
        exact (List.prefix_append _ _).isInfix
      · apply List.infix_append_of_infix_right
        exact ih hlater

theorem flatten_sublist {blocks : List (List α)} {xs : List α} (h : InBlocks blocks xs) :
    blocks.flatten.Sublist xs := by
  induction h with
  | rest tail => exact List.nil_sublist tail
  | block gap first _ ih =>
      apply List.sublist_append_of_sublist_right
      rw [List.flatten_cons]
      exact (List.Sublist.refl first).append ih

end InBlocks

/-!
# The tags of declarations
-/

theorem Syntax.Node.tags_eq (n : Node) :
    n.tags = (ownTag? n).toList ++ n.children.flatMap Node.tags := by
  have htags : Node.tags = fun c : Node => c.preorder.filterMap ownTag? := by
    funext c
    rw [tags, descendants_eq_preorder]
  rw [htags]
  show n.preorder.filterMap ownTag? = _
  rw [preorder_eq, List.filterMap_cons, List.filterMap_flatMap]
  cases n.ownTag? with
  | none => rfl
  | some tag => rfl

namespace Declaration

theorem inBlocks_ofFunction (n : Node) :
    InBlocks ((ofFunction n).map Declaration.tags) n.tags := by
  unfold ofFunction
  split
  · exact InBlocks.whole n.tags
  · exact InBlocks.rest n.tags

theorem inBlocks_ofDeclarator (n : Node) :
    InBlocks ((ofDeclarator n).map Declaration.tags) n.tags := by
  unfold ofDeclarator
  split
  · split
    · exact InBlocks.whole n.tags
    · exact InBlocks.rest n.tags
  · exact InBlocks.rest n.tags

theorem inBlocks_children {n : Node} {declared : Node -> List Declaration}
    (h : forall c, InBlocks ((declared c).map Declaration.tags) c.tags) :
    InBlocks ((n.children.flatMap declared).map Declaration.tags) n.tags := by
  rw [Node.tags_eq, List.map_flatMap]
  apply InBlocks.prepend
  exact InBlocks.flatMap h

-- The recursion is that of the declarations: from an export to its parts and back.
mutual

theorem inBlocks_ofStatement :
    (n : Node) -> InBlocks ((ofStatement n).map Declaration.tags) n.tags
  | .node l cs => by
      rw [ofStatement]
      split
      · exact inBlocks_ofFunction (.node l cs)
      · exact inBlocks_children (n := .node l cs) inBlocks_ofDeclarator
      · exact inBlocks_children (n := .node l cs) inBlocks_ofDeclarator
      · rw [Node.tags_eq]
        apply InBlocks.prepend
        exact inBlocks_ofExported cs
      · exact InBlocks.rest _

theorem inBlocks_ofExported :
    (cs : List Node) -> InBlocks ((ofExported cs).map Declaration.tags) (cs.flatMap Node.tags)
  | [] => InBlocks.rest []
  | c :: cs => by
      rw [ofExported, List.map_append, List.flatMap_cons]
      apply InBlocks.append
      · split
        · exact inBlocks_ofFunction c
        · exact inBlocks_ofStatement c
      · exact inBlocks_ofExported cs

end

theorem inBlocks_ofProgram (program : Node) :
    InBlocks ((ofProgram program).map Declaration.tags) program.tags :=
  inBlocks_children inBlocks_ofStatement

theorem tags_piece {program : Node} {d : Declaration} (hd : d ∈ ofProgram program) :
    d.tags <:+: program.tags :=
  (inBlocks_ofProgram program).piece_of_mem (List.mem_map_of_mem hd)

end Declaration

/-!
# Children under the two scopes
-/

namespace Adjacency

/-- Each component's children in the one adjacency are a block of its children in the
other. -/
def Refines (a b : Adjacency) : Prop :=
  forall id, a.children id <:+: b.children id

/-- Two entries of one component, the children of the first a block of those of the
second. -/
def EntryRefines (first second : ComponentId × List ComponentId) : Prop :=
  first.1 = second.1 ∧ first.2 <:+: second.2

theorem children_insert (a : Adjacency) (id other : ComponentId) (children : List ComponentId) :
    (a.insert id children).children other = if id == other then children else a.children other := by
  rw [Adjacency.children, insert, Index.get?_put, Adjacency.children]
  split
  · rfl
  · rfl

theorem refines_insert {a b : Adjacency} (h : Refines a b)
    {first second : ComponentId × List ComponentId} (hentry : EntryRefines first second) :
    Refines (a.insert first.1 first.2) (b.insert second.1 second.2) := by
  intro id
  rw [children_insert, children_insert, hentry.1]
  split
  · exact hentry.2
  · exact h id

theorem refines_ofLists {first second : List (ComponentId × List ComponentId)}
    (h : List.Forall₂ EntryRefines first second) : Refines (ofLists first) (ofLists second) := by
  have hstart : Refines empty empty := fun _ => List.infix_rfl
  apply List.rel_foldl (P := Refines) (R := EntryRefines) _ hstart h
  intro a b hab entry other hentry
  exact refines_insert hab hentry

end Adjacency

namespace Resolver

open Adjacency (Refines EntryRefines refines_ofLists)

def withScope (r : Resolver) (scope : UsageScope) : Resolver :=
  { r with scope }

theorem tagsOf_piece (source : SourceFile) (name : String) :
    tagsOf .declaration source.tags source.declarations name <:+:
      tagsOf .file source.tags source.declarations name := by
  unfold tagsOf
  cases hfound : source.declarations.reverse.find? fun d => d.name == name with
  | none => exact List.nil_infix
  | some d =>
      have hd : d ∈ source.declarations := List.mem_reverse.mp (List.mem_of_find?_eq_some hfound)
      exact Declaration.tags_piece hd

theorem entryRefines_resolveFile (r : Resolver) (sources : Path -> Option SourceFile)
    (group : Path × List Definition) :
    List.Forall₂ EntryRefines ((r.withScope .declaration).resolveFile sources group)
      ((r.withScope .file).resolveFile sources group) := by
  unfold resolveFile
  cases sources group.1 with
  | none =>
      apply List.forall₂_same.mpr
      intro entry _
      exact ⟨rfl, List.infix_rfl⟩
  | some source =>
      apply List.forall₂_map_left_iff.mpr
      apply List.forall₂_map_right_iff.mpr
      apply List.forall₂_same.mpr
      intro d _
      exact ⟨rfl, (tagsOf_piece source d.name).filterMap _⟩

theorem refines_resolve (r : Resolver) (sources : Path -> Option SourceFile) :
    Refines ((r.withScope .declaration).resolve sources) ((r.withScope .file).resolve sources) := by
  apply refines_ofLists
  have hgroups : List.Forall₂ Eq r.registry.byFile r.registry.byFile := List.forall₂_refl _
  apply List.rel_flatMap hgroups
  intro group other hsame
  rw [hsame]
  exact entryRefines_resolveFile r sources other

end Resolver

def Settings.withScope (s : Settings) (scope : UsageScope) : Settings :=
  { s with analysis := { s.analysis with usageScope := scope } }

namespace Analysis

/-- Under either scope the files and the imports are the same; only the tags differ. -/
theorem refines_ofCatalog (t : FileTree) (s : Settings) (root : Path) (catalog : Catalog) :
    (ofCatalog t (s.withScope .declaration).analysis root catalog).adjacency.Refines
      (ofCatalog t (s.withScope .file).analysis root catalog).adjacency :=
  Resolver.refines_resolve
    { registry := (ofCatalog t s.analysis root catalog).registry
      files := catalog.files
      extensions := s.analysis.extensions.map CatalogRule.withoutDots
      scope := s.analysis.usageScope }
    fun path => (((ParseCache.new s.analysis.strictParse).getAll t catalog.files).get t path).2

theorem ofProject_scopes (t : FileTree) (s : Settings) (path : Path) :
    (exists f, ofProject t (s.withScope .declaration) path = .error f ∧
        ofProject t (s.withScope .file) path = .error f) ∨
      exists narrow wide, ofProject t (s.withScope .declaration) path = .ok narrow ∧
        ofProject t (s.withScope .file) path = .ok wide ∧ narrow.registry = wide.registry ∧
        narrow.adjacency.Refines wide.adjacency := by
  have hvalidate : forall scope, (s.withScope scope).validate = s.validate := fun _ => rfl
  have hrule : forall scope,
      CatalogRule.ofTexts (s.withScope scope).analysis.extensions
        (s.withScope scope).analysis.exclude =
      CatalogRule.ofTexts s.analysis.extensions s.analysis.exclude := fun _ => rfl
  unfold ofProject
  simp only [hvalidate, hrule]
  cases s.validate with
  | error f => exact Or.inl ⟨f, rfl, rfl⟩
  | ok _ =>
      cases canonicalRoot t path with
      | error f => exact Or.inl ⟨f, rfl, rfl⟩
      | ok root =>
          cases CatalogRule.ofTexts s.analysis.extensions s.analysis.exclude with
          | error fault => exact Or.inl ⟨.globPattern fault, rfl, rfl⟩
          | ok rule =>
              have hrefines := refines_ofCatalog t s root (Catalog.scan t rule root)
              exact Or.inr ⟨_, _, rfl, rfl, rfl, hrefines⟩

theorem declaration_scope_refines_file_scope :
    (forall program : Node,
      InBlocks ((Declaration.ofProgram program).map Declaration.tags) program.tags ∧
      (forall d, d ∈ Declaration.ofProgram program -> d.tags <:+: program.tags) ∧
      ((Declaration.ofProgram program).flatMap Declaration.tags).Sublist program.tags) ∧
    (forall (r : Resolver) (sources : Path -> Option SourceFile) (id : ComponentId),
      ((r.withScope .declaration).resolve sources).children id <:+:
        ((r.withScope .file).resolve sources).children id) ∧
    forall (t : FileTree) (s : Settings) (path : Path),
      (exists f, ofProject t (s.withScope .declaration) path = .error f ∧
        ofProject t (s.withScope .file) path = .error f) ∨
      exists narrow wide, ofProject t (s.withScope .declaration) path = .ok narrow ∧
        ofProject t (s.withScope .file) path = .ok wide ∧ narrow.registry = wide.registry ∧
        forall id, narrow.adjacency.children id <:+: wide.adjacency.children id := by
  constructor
  · intro program
    have hblocks := Declaration.inBlocks_ofProgram program
    refine ⟨hblocks, fun d => Declaration.tags_piece, ?_⟩
    rw [List.flatMap_def]
    exact hblocks.flatten_sublist
  · constructor
    · intro r sources
      exact Resolver.refines_resolve r sources
    · exact ofProject_scopes

end Analysis
end JsxUsage
