import JsxUsage.Proofs.ProgramReadings
import JsxUsage.Resolution

/-!
# Component flags and tags

Whether a tree holds an element is decided on the elements, each by the name of its open
tag, while the tags are collected from the tags themselves, and only where the name is a
single word.  In a tree whose markup follows the grammar the two agree: there is an element
with a name exactly where there is a tag with a name, so what has no element has no tags.
The tree of every text is of this kind.
-/

namespace JsxUsage

open Syntax

namespace Syntax
namespace Node

/-!
# Named tags
-/

/-- An opening tag or a tag that closes itself, with a name of any kind. -/
def IsNamedTag (n : Node) : Prop :=
  (n.kind = .jsxOpeningElement ∨ n.kind = .jsxSelfClosingElement) ∧
    exists name, n.child? .name = some name

/-- A tag with a name stands at the node or somewhere below it. -/
def HoldsNamedTag (n : Node) : Prop :=
  exists place tag, n.at? place = some tag ∧ tag.IsNamedTag

theorem hasElement_iff {n : Node} :
    n.hasElement = true <-> exists place m, n.at? place = some m ∧ m.isNamedElement = true := by
  rw [hasElement, descendants_eq_preorder, List.any_eq_true]
  exact exists_mem_preorder_iff

theorem mem_tags_iff {n : Node} {tag : String} :
    tag ∈ n.tags <-> exists place m, n.at? place = some m ∧ m.ownTag? = some tag := by
  rw [tags, descendants_eq_preorder, List.mem_filterMap]
  exact exists_mem_preorder_iff

theorem isNamedElement_iff {n : Node} :
    n.isNamedElement = true <-> n.kind = .jsxSelfClosingElement ∨
      n.kind = .jsxElement ∧ exists tag name, n.openTag? = some tag ∧ tag.child? .name = some name := by
  unfold isNamedElement
  split
  · simp [*]
  · cases n.openTag? <;> simp [*, Option.isSome_iff_exists]
  · rename_i hclosed helement
    simp only [Bool.false_eq_true, false_iff, not_or, not_and]
    exact ⟨hclosed, fun h => (helement h).elim⟩

theorem isNamedTag_of_ownTag? {n : Node} {tag : String} (h : n.ownTag? = some tag) :
    n.IsNamedTag := by
  unfold ownTag? at h
  cases hname : n.child? .name with
  | none =>
      rw [hname] at h
      split at h <;> cases h
  | some name =>
      refine ⟨?_, name, hname⟩
      split at h
      · exact Or.inl ‹_›
      · exact Or.inr ‹_›
      · cases h

theorem openTag?_mem {n tag : Node} (h : n.openTag? = some tag) : tag ∈ n.children := by
  unfold openTag? at h
  split at h
  · rename_i found hfound
    cases h
    exact List.mem_of_find?_eq_some hfound
  · exact List.mem_of_head? h

/-!
# Agreement
-/

theorem holdsNamedTag_of_hasElement {n : Node} (hn : n.FollowsMarkup) (h : n.hasElement = true) :
    n.HoldsNamedTag := by
  rcases hasElement_iff.mp h with ⟨place, m, hplace, hnamed⟩
  have hfits := hn.fits place m hplace
  rcases isNamedElement_iff.mp hnamed with hclosed | ⟨helement, tag, name, htag, hname⟩
  · exact ⟨place, m, hplace, Or.inr hclosed, hfits.closed_named hclosed⟩
  · rcases exists_at?_of_child hplace (openTag?_mem htag) with ⟨k, hk⟩
    exact ⟨place ++ [k], tag, hk, Or.inl (hfits.opened helement tag htag), name, hname⟩

theorem hasElement_of_holdsNamedTag {n : Node} (hn : n.FollowsMarkup) (h : n.HoldsNamedTag) :
    n.hasElement = true := by
  rcases h with ⟨place, tag, hplace, hkind, name, hname⟩
  rw [hasElement_iff]
  rcases hkind with hopening | hclosed
  · -- The start of the tree opens nothing, so the tag is the child of an element.
    rcases exists_parent_of_at? hplace with rfl | ⟨above, parent, hparent, hchild⟩
    · exact absurd hopening hn.start
    · rcases (hn.fits above parent hparent).opening tag hchild hopening with ⟨helement, htag⟩
      exact ⟨above, parent, hparent,
        isNamedElement_iff.mpr (Or.inr ⟨helement, tag, name, htag, hname⟩)⟩
  · exact ⟨place, tag, hplace, isNamedElement_iff.mpr (Or.inl hclosed)⟩

theorem hasElement_of_mem_tags {n : Node} (hn : n.FollowsMarkup) {tag : String}
    (h : tag ∈ n.tags) : n.hasElement = true := by
  rcases mem_tags_iff.mp h with ⟨place, m, hplace, htag⟩
  exact hasElement_of_holdsNamedTag hn ⟨place, m, hplace, isNamedTag_of_ownTag? htag⟩

theorem tags_eq_nil_below {n m : Node} {place : List Nat} (hn : n.FollowsMarkup)
    (hnone : n.hasElement = false) (hm : n.at? place = some m) : m.tags = [] := by
  apply List.eq_nil_iff_forall_not_mem.mpr
  intro tag htag
  rcases mem_tags_iff.mp htag with ⟨rest, own, hown, hopen⟩
  have hplace : n.at? (place ++ rest) = some own := by rw [at?_append hm, hown]
  have hsome := hasElement_of_mem_tags hn (mem_tags_iff.mpr ⟨place ++ rest, own, hplace, hopen⟩)
  rw [hnone] at hsome
  cases hsome

/-- The flag of a node says whether a tag with a name stands at it or below it; where tags
are listed the flag is set, and where it is not set nothing below lists a tag. -/
structure FlagAgrees (n : Node) : Prop where
  iff_tag : n.hasElement = true <-> n.HoldsNamedTag
  of_tags : n.tags ≠ [] -> n.hasElement = true
  no_tags : n.hasElement = false -> forall place m, n.at? place = some m -> m.tags = []

theorem flagAgrees {n : Node} (hn : n.FollowsMarkup) : n.FlagAgrees := by
  constructor
  · exact ⟨holdsNamedTag_of_hasElement hn, hasElement_of_holdsNamedTag hn⟩
  · intro htags
    rcases List.exists_mem_of_ne_nil _ htags with ⟨tag, htag⟩
    exact hasElement_of_mem_tags hn htag
  · intro hnone place m hm
    exact tags_eq_nil_below hn hnone hm

end Node
end Syntax

/-!
# The nodes of declarations

A statement declares functions by its own node, by the declarators in it, or by what it
exports.  The declarations of a file are those that its statements make in this way.
-/

namespace Syntax
namespace Node

/-- The statement declares a function of the given name and form by the node `n`. -/
inductive Declares : (statement n : Node) -> String -> DeclarationKind -> Prop where
  | function {n name : Node} : n.kind = .functionDeclaration -> n.child? .name = some name ->
      Declares n n name.text .function
  | arrow {s n name value : Node} :
      s.kind = .lexicalDeclaration ∨ s.kind = .variableDeclaration -> n ∈ s.children ->
      n.kind = .variableDeclarator -> n.child? .name = some name ->
      n.child? .value = some value -> name.kind = .identifier -> value.kind = .arrowFunction ->
      Declares s n name.text .arrowFunction
  | exported {s c n : Node} {name : String} {kind : DeclarationKind} :
      s.kind = .exportStatement -> c ∈ s.children -> c.kind ≠ .functionExpression ->
      Declares c n name kind -> Declares s n name kind
  | exportedFunction {s n name : Node} : s.kind = .exportStatement -> n ∈ s.children ->
      n.kind = .functionExpression -> n.child? .name = some name ->
      Declares s n name.text .function

theorem exists_at?_singleton {n c : Node} (hc : c ∈ n.children) : exists k, n.at? [k] = some c := by
  have hself : n.at? [] = some n := rfl
  exact exists_at?_of_child hself hc

theorem at?_of_declares {s n : Node} {name : String} {kind : DeclarationKind}
    (h : s.Declares n name kind) :
    n.kind ≠ .jsxOpeningElement ∧ exists place, s.at? place = some n := by
  induction h with
  | function hkind _ => exact ⟨by simp [hkind], [], rfl⟩
  | arrow _ hn hkind _ _ _ _ =>
      rcases exists_at?_singleton hn with ⟨k, hk⟩
      exact ⟨by simp [hkind], [k], hk⟩
  | exported _ hc _ _ ih =>
      rcases ih with ⟨hkind, place, hplace⟩
      rcases exists_at?_singleton hc with ⟨k, hk⟩
      exact ⟨hkind, [k] ++ place, by rw [at?_append hk, hplace]⟩
  | exportedFunction _ hn hkind _ =>
      rcases exists_at?_singleton hn with ⟨k, hk⟩
      exact ⟨by simp [hkind], [k], hk⟩

end Node
end Syntax

namespace Declaration

theorem mem_ofFunction_iff {n : Node} {d : Declaration} :
    d ∈ ofFunction n <->
      exists name, n.child? .name = some name ∧ d = ofNode name.text .function n := by
  unfold ofFunction
  cases n.child? .name with
  | none => simp
  | some name => simp

theorem mem_ofDeclarator_iff {n : Node} {d : Declaration} :
    d ∈ ofDeclarator n <-> exists name value, n.kind = .variableDeclarator ∧
      n.child? .name = some name ∧ n.child? .value = some value ∧ name.kind = .identifier ∧
      value.kind = .arrowFunction ∧ d = ofNode name.text .arrowFunction n := by
  unfold ofDeclarator
  split
  · rename_i name value hkind hname hvalue
    simp only [hkind, hname, hvalue, Option.some.injEq, exists_and_left, exists_eq_left', true_and]
    split_ifs with hboth
    · rw [Bool.and_eq_true, beq_iff_eq, beq_iff_eq] at hboth
      simp [hboth]
    · rw [Bool.and_eq_true, beq_iff_eq, beq_iff_eq] at hboth
      simp only [List.not_mem_nil, false_iff, not_and]
      intro hname hvalue
      exact absurd ⟨hname, hvalue⟩ hboth
  · rename_i hother
    simp only [List.not_mem_nil, false_iff, not_exists]
    intro name value hmade
    exact hother name value hmade.left hmade.right.left hmade.right.right.left

theorem declares_of_mem_ofDeclarators {s : Node} {d : Declaration}
    (hkind : s.kind = .lexicalDeclaration ∨ s.kind = .variableDeclaration)
    (hd : d ∈ s.children.flatMap ofDeclarator) :
    exists n, s.Declares n d.name d.kind ∧ d = ofNode d.name d.kind n := by
  rcases List.mem_flatMap.mp hd with ⟨n, hn, hmade⟩
  rcases mem_ofDeclarator_iff.mp hmade with ⟨name, value, hnode, hname, hvalue, hword, harrow, rfl⟩
  exact ⟨n, .arrow hkind hn hnode hname hvalue hword harrow, rfl⟩

-- The recursion is that of the declarations: from an export to its parts and back.
mutual

theorem declares_of_mem_ofStatement : (s : Node) -> {d : Declaration} -> d ∈ ofStatement s ->
    exists n, s.Declares n d.name d.kind ∧ d = ofNode d.name d.kind n
  | .node l cs, d, hd => by
      rw [ofStatement] at hd
      split at hd
      · rename_i hkind
        rcases mem_ofFunction_iff.mp hd with ⟨name, hname, rfl⟩
        exact ⟨.node l cs, .function hkind hname, rfl⟩
      · rename_i hkind
        exact declares_of_mem_ofDeclarators (s := .node l cs) (Or.inl hkind) hd
      · rename_i hkind
        exact declares_of_mem_ofDeclarators (s := .node l cs) (Or.inr hkind) hd
      · rename_i hkind
        exact declares_of_mem_ofExported (.node l cs) hkind cs (fun c hc => hc) hd
      · cases hd

theorem declares_of_mem_ofExported (s : Node) (hkind : s.kind = .exportStatement) :
    (cs : List Node) -> (forall c, c ∈ cs -> c ∈ s.children) -> {d : Declaration} ->
      d ∈ ofExported cs -> exists n, s.Declares n d.name d.kind ∧ d = ofNode d.name d.kind n
  | [], _, d, hd => by
      rw [ofExported] at hd
      cases hd
  | c :: cs, hcs, d, hd => by
      have hc := hcs c List.mem_cons_self
      rw [ofExported, List.mem_append] at hd
      rcases hd with hfirst | hlater
      · by_cases hfunction : c.kind = .functionExpression
        · rw [if_pos (beq_iff_eq.mpr hfunction)] at hfirst
          rcases mem_ofFunction_iff.mp hfirst with ⟨name, hname, rfl⟩
          exact ⟨c, .exportedFunction hkind hc hfunction hname, rfl⟩
        · rw [if_neg (fun h => hfunction (beq_iff_eq.mp h))] at hfirst
          rcases declares_of_mem_ofStatement c hfirst with ⟨n, hmade, hd⟩
          exact ⟨n, .exported hkind hc hfunction hmade, hd⟩
      · exact declares_of_mem_ofExported s hkind cs
          (fun e he => hcs e (List.mem_cons_of_mem c he)) hlater

end

theorem mem_ofExported {cs : List Node} {c : Node} {d : Declaration} (hc : c ∈ cs)
    (hd : d ∈ if c.kind == .functionExpression then ofFunction c else ofStatement c) :
    d ∈ ofExported cs := by
  induction cs with
  | nil => cases hc
  | cons first rest ih =>
      rw [ofExported, List.mem_append]
      rcases List.mem_cons.mp hc with rfl | hlater
      · exact Or.inl hd
      · exact Or.inr (ih hlater)

theorem ofStatement_function {s : Node} (hkind : s.kind = .functionDeclaration) :
    ofStatement s = ofFunction s := by
  cases s
  simp only [Node.kind, Node.label] at hkind
  simp only [ofStatement, hkind]

theorem ofStatement_bindings {s : Node}
    (hkind : s.kind = .lexicalDeclaration ∨ s.kind = .variableDeclaration) :
    ofStatement s = s.children.flatMap ofDeclarator := by
  cases s
  simp only [Node.kind, Node.label] at hkind
  rcases hkind with hkind | hkind <;> simp only [ofStatement, hkind, Node.children]

theorem ofStatement_export {s : Node} (hkind : s.kind = .exportStatement) :
    ofStatement s = ofExported s.children := by
  cases s
  simp only [Node.kind, Node.label] at hkind
  simp only [ofStatement, hkind, Node.children]

theorem mem_ofStatement_of_declares {s n : Node} {name : String} {kind : DeclarationKind}
    (h : s.Declares n name kind) : ofNode name kind n ∈ ofStatement s := by
  induction h with
  | function hkind hname =>
      rw [ofStatement_function hkind]
      exact mem_ofFunction_iff.mpr ⟨_, hname, rfl⟩
  | arrow hkind hn hnode hname hvalue hword harrow =>
      rw [ofStatement_bindings hkind]
      exact List.mem_flatMap.mpr ⟨_, hn, mem_ofDeclarator_iff.mpr
        ⟨_, _, hnode, hname, hvalue, hword, harrow, rfl⟩⟩
  | exported hkind hc hother _ ih =>
      rw [ofStatement_export hkind]
      exact mem_ofExported hc (by rwa [if_neg (fun h => hother (beq_iff_eq.mp h))])
  | exportedFunction hkind hn hfunction hname =>
      rw [ofStatement_export hkind]
      refine mem_ofExported hn ?_
      rw [if_pos (beq_iff_eq.mpr hfunction)]
      exact mem_ofFunction_iff.mpr ⟨_, hname, rfl⟩

/-- The flag and the tags of a declaration are those of the node that makes it. -/
structure AgreesWith (d : Declaration) (n : Node) : Prop where
  line : d.line = n.line
  iff_tag : d.isComponent = true <-> n.HoldsNamedTag
  tags : d.tags = n.tags
  of_tags : d.tags ≠ [] -> d.isComponent = true
  no_tags : d.isComponent = false -> forall place m, n.at? place = some m -> m.tags = []

theorem agreesWith_ofNode {n : Node} (hn : n.FlagAgrees) (name : String) (kind : DeclarationKind) :
    (ofNode name kind n).AgreesWith n :=
  ⟨rfl, hn.iff_tag, rfl, hn.of_tags, hn.no_tags⟩

end Declaration

namespace SourceFile

/-- The flags of a file and of its declarations agree with the tags.  The declarations are
those that the statements of the file make, each with the flag and the tags of the node
that makes it.  One that is no component has no tags, and in a file without an element
nothing has any, whatever the scope. -/
structure FlagsAgree (f : SourceFile) : Prop where
  file : f.tree.FlagAgrees
  declaration : forall d, d ∈ f.declarations -> exists statement n,
    statement ∈ f.tree.children ∧ statement.Declares n d.name d.kind ∧ d.AgreesWith n
  declared : forall statement n name kind, statement ∈ f.tree.children ->
    statement.Declares n name kind -> exists d, d ∈ f.declarations ∧ d.name = name ∧
      d.kind = kind ∧ d.AgreesWith n
  no_component : forall d, d ∈ f.declarations -> d.isComponent = false -> d.tags = []
  no_element : f.hasElement = false -> forall scope name,
    Resolver.tagsOf scope f.tags f.declarations name = []

theorem flagAgrees_of_declares {f : SourceFile} (hf : f.tree.FollowsMarkup) {statement n : Node}
    {name : String} {kind : DeclarationKind} (hstatement : statement ∈ f.tree.children)
    (h : statement.Declares n name kind) :
    n.FlagAgrees ∧ exists place, f.tree.at? place = some n := by
  rcases Node.at?_of_declares h with ⟨hkind, rest, hrest⟩
  rcases Node.exists_at?_singleton hstatement with ⟨k, hk⟩
  have hplace : f.tree.at? ([k] ++ rest) = some n := by rw [Node.at?_append hk, hrest]
  exact ⟨Node.flagAgrees (Node.followsMarkup_at hf hplace hkind), _, hplace⟩

theorem exists_declares_of_mem {f : SourceFile} {d : Declaration} (hd : d ∈ f.declarations) :
    exists statement n, statement ∈ f.tree.children ∧ statement.Declares n d.name d.kind ∧
      d = .ofNode d.name d.kind n := by
  rcases List.mem_flatMap.mp hd with ⟨statement, hstatement, hmade⟩
  rcases Declaration.declares_of_mem_ofStatement statement hmade with ⟨n, hn, hnode⟩
  exact ⟨statement, n, hstatement, hn, hnode⟩

theorem tagsOf_eq_nil {f : SourceFile} (hf : f.tree.FollowsMarkup) (hnone : f.hasElement = false)
    (scope : UsageScope) (name : String) : Resolver.tagsOf scope f.tags f.declarations name = [] := by
  have hfile := (Node.flagAgrees hf).no_tags hnone
  unfold Resolver.tagsOf
  cases scope with
  | file => exact hfile [] f.tree rfl
  | declaration =>
      cases hfound : f.declarations.reverse.find? fun d => d.name == name with
      | none => rfl
      | some d =>
          have hd : d ∈ f.declarations := List.mem_reverse.mp (List.mem_of_find?_eq_some hfound)
          rcases exists_declares_of_mem hd with ⟨statement, n, hstatement, hn, hnode⟩
          rcases (flagAgrees_of_declares hf hstatement hn).right with ⟨place, hplace⟩
          exact (congrArg Declaration.tags hnode).trans (hfile place n hplace)

theorem flagsAgree {f : SourceFile} (hf : f.tree.FollowsMarkup) : f.FlagsAgree := by
  have hmade : forall d, d ∈ f.declarations -> exists statement n,
      statement ∈ f.tree.children ∧ statement.Declares n d.name d.kind ∧ d.AgreesWith n := by
    intro d hd
    rcases exists_declares_of_mem hd with ⟨statement, n, hstatement, hn, hnode⟩
    have hagrees := Declaration.agreesWith_ofNode
      (flagAgrees_of_declares hf hstatement hn).left d.name d.kind
    rw [← hnode] at hagrees
    exact ⟨statement, n, hstatement, hn, hagrees⟩
  constructor
  · exact Node.flagAgrees hf
  · exact hmade
  · intro statement n name kind hstatement hn
    refine ⟨.ofNode name kind n, ?_, rfl, rfl, ?_⟩
    · exact List.mem_flatMap.mpr ⟨statement, hstatement, Declaration.mem_ofStatement_of_declares hn⟩
    · exact Declaration.agreesWith_ofNode (flagAgrees_of_declares hf hstatement hn).left name kind
  · intro d hd hflag
    rcases hmade d hd with ⟨_, n, _, _, hagrees⟩
    rw [hagrees.tags]
    exact hagrees.no_tags hflag [] n rfl
  · exact tagsOf_eq_nil hf

theorem followsMarkup_ofText (path : Path) (dialect : Dialect) (text : String) :
    (ofText path dialect text).tree.FollowsMarkup :=
  followsMarkup_parse dialect text

/-- Flags and tags agree in every file whose markup follows the grammar, and that of every
file does which is made from a text. -/
theorem flags_agree_with_tags :
    (forall f : SourceFile, f.tree.FollowsMarkup -> f.FlagsAgree) ∧
      forall (path : Path) (dialect : Dialect) (text : String),
        (ofText path dialect text).tree.FollowsMarkup ∧ (ofText path dialect text).FlagsAgree := by
  refine ⟨fun f hf => flagsAgree hf, ?_⟩
  intro path dialect text
  have hmarkup := followsMarkup_ofText path dialect text
  exact ⟨hmarkup, flagsAgree hmarkup⟩

/-- A component that wraps a card in a member of a module and in a fragment, and a function
that builds nothing but a fragment. -/
def wrappedCard : SourceFile :=
  ofText ⟨"app.jsx"⟩ .jsx
    "export const Deck = () => <><ui.Box><Card /></ui.Box></>;\nfunction gap() \x7b return <></>; \x7d"

theorem flags_agree_with_tags_wrappedCard :
    wrappedCard.tree.FollowsMarkup ∧ wrappedCard.tags = ["Card"] ∧
      wrappedCard.hasElement = true ∧
      wrappedCard.declarations = [⟨"Deck", .arrowFunction, 1, true, ["Card"]⟩,
        ⟨"gap", .function, 2, false, []⟩] ∧
      (exists statement n, statement ∈ wrappedCard.tree.children ∧
        statement.Declares n "Deck" .arrowFunction ∧ n.HoldsNamedTag) ∧
      exists statement n, statement ∈ wrappedCard.tree.children ∧
        statement.Declares n "gap" .function ∧ ¬ n.HoldsNamedTag := by
  have hmarkup : wrappedCard.tree.FollowsMarkup := followsMarkup_ofText _ _ _
  have hagrees := flags_agree_with_tags.left wrappedCard hmarkup
  have htags : wrappedCard.tags = ["Card"] := by decide +kernel
  have hsome : wrappedCard.tree.tags ≠ [] := by
    rw [show wrappedCard.tree.tags = ["Card"] from htags]
    exact List.cons_ne_nil _ _
  have hdeclarations : wrappedCard.declarations = [⟨"Deck", .arrowFunction, 1, true, ["Card"]⟩,
      ⟨"gap", .function, 2, false, []⟩] := by decide +kernel
  refine ⟨hmarkup, htags, hagrees.file.of_tags hsome, hdeclarations, ?_, ?_⟩
  · rcases hagrees.declaration ⟨"Deck", .arrowFunction, 1, true, ["Card"]⟩
      (by simp [hdeclarations]) with ⟨statement, n, hstatement, hn, hd⟩
    exact ⟨statement, n, hstatement, hn, hd.iff_tag.mp rfl⟩
  · rcases hagrees.declaration ⟨"gap", .function, 2, false, []⟩ (by simp [hdeclarations]) with
      ⟨statement, n, hstatement, hn, hd⟩
    refine ⟨statement, n, hstatement, hn, ?_⟩
    intro htag
    cases hd.iff_tag.mpr htag

end SourceFile
end JsxUsage
