import JsxUsage.Mermaid
import JsxUsage.Proofs.TreeExpansion
import Mathlib.Data.List.Basic

/-!
# Reading a flowchart back

A flowchart is read line by line, and each step of the reader cuts a line at a place
that it finds by looking at the characters.  What the writer does to references and
labels keeps every such place apart from the text around it.  This module proves that
the edges of a written tree are read back as they were written, whatever the names of
its components hold.
-/

namespace JsxUsage

/-!
# Cutting texts

A text that was put together from parts is cut into these parts again, where the parts
hold no character at which the text is cut.
-/

namespace Text

theorem splitOn_append {mark : Char} {line : List Char} (hline : mark ∉ line)
    (rest : List Char) : (line ++ mark :: rest).splitOn mark = line :: rest.splitOn mark := by
  rw [List.splitOn_append_cons_self, List.splitOn_eq_singleton hline]
  rfl

theorem splitOn_flatMap {α : Type} {mark : Char} {text : α -> List Char} {items : List α}
    (hitems : forall x, x ∈ items -> mark ∉ text x) :
    (items.flatMap fun x => text x ++ [mark]).splitOn mark = items.map text ++ [[]] := by
  induction items with
  | nil => rfl
  | cons x items ih =>
      have hlater := ih (fun y hy => hitems y (List.mem_cons_of_mem x hy))
      rw [List.flatMap_cons, List.append_assoc, List.singleton_append,
        splitOn_append (hitems x List.mem_cons_self), hlater]
      rfl

theorem splitOnce_append {first : Char} {mark front : List Char} (hfront : first ∉ front)
    (rest : List Char) :
    splitOnce (first :: mark) (front ++ (first :: mark ++ rest)) = some (front, rest) := by
  induction front with
  | nil =>
      have hprefix : (first :: mark).isPrefixOf (first :: (mark ++ rest)) = true :=
        List.isPrefixOf_iff_prefix.mpr (List.prefix_append (first :: mark) rest)
      rw [List.nil_append, List.cons_append, splitOnce, if_pos hprefix]
      simp
  | cons c front ih =>
      rw [List.mem_cons, not_or] at hfront
      rcases hfront with ⟨hc, hfront⟩
      have hother : (first == c) = false := by
        rw [beq_eq_false_iff_ne]
        exact hc
      rw [List.cons_append, splitOnce]
      simp only [List.isPrefixOf, hother, Bool.false_and, Bool.false_eq_true, if_false, ih hfront,
        Option.map_some]

theorem splitOnce_inj (first : Char) (mark : List Char) {front front' rest rest' : List Char}
    (hfront : first ∉ front) (hfront' : first ∉ front')
    (h : front ++ (first :: mark ++ rest) = front' ++ (first :: mark ++ rest')) :
    front = front' ∧ rest = rest' := by
  have hsplit := congrArg (splitOnce (first :: mark)) h
  rw [splitOnce_append hfront, splitOnce_append hfront'] at hsplit
  exact Prod.mk.inj (Option.some.inj hsplit)

theorem trimFront_append {p : Char -> Bool} {front cs : List Char}
    (hfront : forall c, c ∈ front -> p c = true)
    (hcs : forall c, cs.head? = some c -> p c = false) : trimFront p (front ++ cs) = cs := by
  rw [trimFront, List.dropWhile_append_of_pos hfront]
  cases cs with
  | nil => rfl
  | cons c cs => simp [hcs c rfl]

theorem trimBack_append {p : Char -> Bool} {cs back : List Char}
    (hback : forall c, c ∈ back -> p c = true)
    (hcs : forall c, cs.getLast? = some c -> p c = false) : trimBack p (cs ++ back) = cs := by
  have hfront : trimFront p (back.reverse ++ cs.reverse) = cs.reverse := by
    apply trimFront_append
    · intro c hc
      exact hback c (List.mem_reverse.mp hc)
    · simpa using hcs
  rw [trimFront] at hfront
  rw [trimBack, List.reverse_append, hfront, List.reverse_reverse]

/-!
No letter and no number is blank.  There are few blank characters, so each of them is
looked up in the table of letters and numbers.
-/

/-- The code points of the blank characters. -/
def blanks : List Nat :=
  [9, 10, 11, 12, 13, 0x20, 0x85, 0xA0, 0x1680, 0x2000, 0x2001, 0x2002, 0x2003, 0x2004, 0x2005,
    0x2006, 0x2007, 0x2008, 0x2009, 0x200A, 0x2028, 0x2029, 0x202F, 0x205F, 0x3000]

theorem mem_blanks {c : Char} (h : isBlank c = true) : c.toNat ∈ blanks := by
  simp only [isBlank, Bool.or_eq_true, Bool.and_eq_true, decide_eq_true_eq, beq_iff_eq] at h
  simp only [blanks, List.mem_cons, List.not_mem_nil, or_false]
  omega

theorem not_isBlank_of_isAlphanumeric {c : Char} (h : isAlphanumeric c = true) :
    isBlank c = false := by
  rw [Bool.eq_false_iff]
  intro hblank
  have hnone : forall n, n ∈ blanks -> isAlphanumeric (Char.ofNat n) = false := by decide +kernel
  have hnot := hnone c.toNat (mem_blanks hblank)
  rw [Char.ofNat_toNat, h] at hnot
  cases hnot

theorem isAlphanumeric_of_isDigit {c : Char} (h : c.isDigit = true) : isAlphanumeric c = true := by
  simp only [Char.isDigit, Bool.and_eq_true, decide_eq_true_eq] at h
  have hsmall : c.toNat < 128 := Nat.lt_of_le_of_lt h.right (by decide)
  have hplain : isPlainAlphanumeric c = true := by
    simp only [isPlainAlphanumeric, Bool.or_eq_true, Bool.and_eq_true, decide_eq_true_eq]
    exact Or.inr h
  rw [isAlphanumeric, if_pos hsmall]
  exact hplain

theorem not_mem_of_isAlphanumeric {cs : List Char}
    (hcs : forall c, c ∈ cs -> isAlphanumeric c = true) {c : Char}
    (hc : isAlphanumeric c = false) : c ∉ cs := by
  intro hmem
  rw [hcs c hmem] at hc
  cases hc

end Text

namespace Mermaid

open Text
open ComponentTree (buildFrom)

/-!
# References and labels
-/

theorem not_isBlank_of_mem_reference {s : String} {c : Char} (h : c ∈ reference s) :
    isBlank c = false := by
  rcases List.mem_map.mp h with ⟨d, _, rfl⟩
  by_cases hd : (isAlphanumeric d || d == '_') = true
  · rw [if_pos hd]
    rcases Bool.or_eq_true_iff.mp hd with hletter | hunderscore
    · exact not_isBlank_of_isAlphanumeric hletter
    · rw [beq_iff_eq.mp hunderscore]
      decide
  · rw [if_neg hd]
    decide

theorem blank_not_mem_reference {c : Char} (hc : isBlank c = true) (s : String) :
    c ∉ reference s := by
  intro hmem
  rw [not_isBlank_of_mem_reference hmem] at hc
  cases hc

theorem reference_ne_nil {s : String} (h : s ≠ "") : reference s ≠ [] := by
  intro hnil
  apply h
  apply String.toList_inj.mp
  exact List.map_eq_nil_iff.mp hnil

theorem endsLabel_of_mem_label {s : String} {c : Char} (h : c ∈ label s) :
    endsLabel c = false := by
  have hkept := (List.mem_filter.mp h).right
  simpa using hkept

theorem label_eq_self {s : String} (h : forall c, c ∈ s.toList -> endsLabel c = false) :
    label s = s.toList := by
  apply List.filter_eq_self.mpr
  intro c hc
  simp [h c hc]

/-!
The name of a node is a letter followed by digits.
-/

theorem isAlphanumeric_of_mem_node {id : Nat} {c : Char} (h : c ∈ (TreeNode.label id).toList) :
    isAlphanumeric c = true := by
  rw [TreeNode.label, String.toList_append, Nat.toString_eq_repr, Nat.toList_repr] at h
  rcases List.mem_append.mp h with hletter | hdigit
  · have hc : c = 'c' := by simpa using hletter
    rw [hc]
    decide
  · exact isAlphanumeric_of_isDigit (Nat.isDigit_of_mem_toDigits (by decide) (by decide) hdigit)

theorem reference_node (id : Nat) : reference (TreeNode.label id) = (TreeNode.label id).toList := by
  have hkept : forall c, c ∈ (TreeNode.label id).toList ->
      (if isAlphanumeric c || c == '_' then c else '_') = c := by
    intro c hc
    rw [isAlphanumeric_of_mem_node hc]
    rfl
  exact (List.map_congr_left hkept).trans (List.map_id' _)

theorem node_ne_empty (id : Nat) : TreeNode.label id ≠ "" := by
  intro hempty
  have hlist := congrArg String.toList hempty
  rw [TreeNode.label, String.toList_append] at hlist
  simp at hlist

/-!
# One line

A line without its end is taken apart from the outside in: first the blanks and the
semicolon around it, then the arrow, then the two brackets.
-/

theorem arrow_eq : arrow = ' ' :: ['=', '=', '>', ' '] := by
  decide

/-- What is read of an edge that was written. -/
def written (e : TreeEdge) : TreeEdge :=
  ⟨String.ofList (reference e.parent), e.child, String.ofList (label e.name)⟩

/-- The part of a line that tells the edge. -/
def edgeCore (e : TreeEdge) : List Char :=
  reference e.parent ++ (arrow ++ (e.child.toList ++ ('[' :: label e.name ++ [']'])))

/-- The line of an edge without its end. -/
def edgeText (e : TreeEdge) : List Char :=
  "    ".toList ++ (edgeCore e ++ [';'])

theorem edgeLine_eq (e : TreeEdge) : edgeLine e = edgeText e ++ ['\n'] := by
  have hend : "];\n".toList = [']', ';', '\n'] := by decide
  show "    ".toList ++ reference e.parent ++ arrow ++ e.child.toList ++ '[' :: label e.name ++
    "];\n".toList = "    ".toList ++ (edgeCore e ++ [';']) ++ ['\n']
  simp only [edgeCore, hend, List.append_assoc, List.cons_append, List.nil_append]

/-- An edge that can be told from its line. -/
structure Legible (e : TreeEdge) : Prop where
  parent : e.parent ≠ ""
  child : forall c, c ∈ e.child.toList -> isAlphanumeric c = true
  name : '\n' ∉ e.name.toList

theorem head_edgeCore {e : TreeEdge} (hparent : e.parent ≠ "") {c : Char}
    (hc : (edgeCore e ++ [';']).head? = some c) : isBlank c = false := by
  rcases List.exists_cons_of_ne_nil (reference_ne_nil hparent) with ⟨d, rest, hreference⟩
  have hd : isBlank d = false := by
    apply not_isBlank_of_mem_reference (s := e.parent)
    rw [hreference]
    exact List.mem_cons_self
  rw [edgeCore, hreference] at hc
  simp only [List.cons_append, List.head?_cons, Option.some.injEq] at hc
  rw [← hc]
  exact hd

theorem trim_edgeText {e : TreeEdge} (hparent : e.parent ≠ "") :
    trimBack (· == ';') (trimBoth isBlank (edgeText e)) = edgeCore e := by
  have hfront : trimFront isBlank (edgeText e) = edgeCore e ++ [';'] := by
    have hindent : "    ".toList = List.replicate 4 ' ' := by decide
    apply trimFront_append
    · intro c hc
      rw [hindent] at hc
      rw [(List.mem_replicate.mp hc).right]
      rfl
    · intro c hc
      exact head_edgeCore hparent hc
  have hback : trimBack isBlank (edgeCore e ++ [';']) = edgeCore e ++ [';'] := by
    have hwhole : trimBack isBlank ((edgeCore e ++ [';']) ++ []) = edgeCore e ++ [';'] := by
      apply trimBack_append
      · intro c hc
        cases hc
      · intro c hc
        rw [List.getLast?_concat] at hc
        cases hc
        decide
    rw [List.append_nil] at hwhole
    exact hwhole
  rw [trimBoth, hfront, hback]
  apply trimBack_append
  · intro c hc
    rw [List.mem_singleton.mp hc]
    rfl
  · intro c hc
    have hcore : edgeCore e =
        (reference e.parent ++ arrow ++ e.child.toList ++ '[' :: label e.name) ++ [']'] := by
      simp [edgeCore]
    rw [hcore, List.getLast?_concat] at hc
    cases hc
    decide

theorem readEdge_edgeText {e : TreeEdge} (h : Legible e) :
    readEdge (edgeText e) = some (written e) := by
  have hspace : ' ' ∉ reference e.parent := blank_not_mem_reference (by decide) e.parent
  have hbracket : '[' ∉ e.child.toList := not_mem_of_isAlphanumeric h.child (by decide)
  have harrow : splitOnce arrow (edgeCore e) =
      some (reference e.parent, e.child.toList ++ ('[' :: label e.name ++ [']'])) := by
    rw [edgeCore, arrow_eq]
    exact splitOnce_append hspace _
  have hopen : splitOnce ['['] (e.child.toList ++ ('[' :: label e.name ++ [']'])) =
      some (e.child.toList, label e.name ++ [']']) :=
    splitOnce_append hbracket (label e.name ++ [']'])
  have hclose : trimBack (· == ']') (label e.name ++ [']']) = label e.name := by
    apply trimBack_append
    · intro c hc
      rw [List.mem_singleton.mp hc]
      rfl
    · intro c hc
      have hkept := endsLabel_of_mem_label (List.mem_of_getLast? hc)
      simp only [endsLabel, Bool.or_eq_false_iff] at hkept
      exact hkept.left.left.right
  simp only [readEdge, trim_edgeText h.parent, harrow, hopen, hclose, String.ofList_toList]
  rfl

/-!
# All lines
-/

theorem newline_not_mem_edgeText {e : TreeEdge}
    (hletters : forall c, c ∈ e.child.toList -> isAlphanumeric c = true)
    (hname : '\n' ∉ e.name.toList) : '\n' ∉ edgeText e := by
  have hparent : '\n' ∉ reference e.parent := blank_not_mem_reference (by decide) e.parent
  have hchild : '\n' ∉ e.child.toList := not_mem_of_isAlphanumeric hletters (by decide)
  have hlabel : '\n' ∉ label e.name := by
    intro hmem
    exact hname (List.mem_filter.mp hmem).left
  simp [edgeText, edgeCore, arrow, hparent, hchild, hlabel]

/-- The lines of a flowchart are those that were written, and an empty one at the end,
because each edge ends its own line. -/
theorem splitOn_lines {direction : String} (hdirection : '\n' ∉ direction.toList)
    {edges : List TreeEdge} (hedges : forall e, e ∈ edges -> '\n' ∉ edgeText e) :
    (headLine direction ++ edges.flatMap edgeLine).splitOn '\n' =
      ("graph ".toList ++ direction.toList ++ [';']) :: (edges.map edgeText ++ [[]]) := by
  have hhead : headLine direction ++ edges.flatMap edgeLine =
      ("graph ".toList ++ direction.toList ++ [';']) ++ '\n' :: edges.flatMap edgeLine := by
    have hend : ";\n".toList = [';', '\n'] := by decide
    show "graph ".toList ++ direction.toList ++ ";\n".toList ++ edges.flatMap edgeLine = _
    simp only [hend, List.append_assoc, List.cons_append, List.nil_append]
  have hhere : '\n' ∉ "graph ".toList ++ direction.toList ++ [';'] := by
    simp [hdirection]
  rw [hhead, splitOn_append hhere, show edgeLine = fun e => edgeText e ++ ['\n'] from
    funext edgeLine_eq, splitOn_flatMap hedges]

theorem readEdges_of_legible {direction : String} (hdirection : '\n' ∉ direction.toList)
    {edges : List TreeEdge} (hedges : forall e, e ∈ edges -> Legible e) :
    readEdges (String.ofList (headLine direction ++ edges.flatMap edgeLine)) =
      edges.map written := by
  have hlines := splitOn_lines hdirection fun e he =>
    newline_not_mem_edgeText (hedges e he).child (hedges e he).name
  have hnone : readEdge [] = none := rfl
  rw [readEdges, String.toList_ofList, hlines, List.drop_succ_cons, List.drop_zero,
    List.filterMap_append, List.filterMap_map]
  simp only [List.filterMap_cons, List.filterMap_nil, hnone, List.append_nil]
  apply List.filterMap_eq_map_iff_forall_eq_some.mpr
  intro e he
  rw [Function.comp_apply]
  exact readEdge_edgeText (hedges e he)

/-!
# The edges of a tree
-/

theorem parentRef_ne_empty {t : ComponentTree} (hroot : t.root.name ≠ "") (n : TreeNode) :
    t.parentRef n ≠ "" := by
  unfold ComponentTree.parentRef
  cases n.parent with
  | some p => exact node_ne_empty p
  | none =>
      show t.rootRef ≠ ""
      unfold ComponentTree.rootRef ComponentTree.rootName
      by_cases hlabel : ComponentTree.looksLikeLabel t.root.name = true
      · rw [if_pos hlabel]
        intro hempty
        have hlist := congrArg String.toList hempty
        rw [String.toList_append] at hlist
        simp at hlist
      · rw [if_neg hlabel]
        exact hroot

theorem legible_edges {t : ComponentTree} (hroot : t.root.name ≠ "")
    (hnames : forall n, n ∈ t.nodes -> '\n' ∉ n.name.toList) {e : TreeEdge} (he : e ∈ t.edges) :
    Legible e := by
  rcases List.mem_map.mp he with ⟨n, hn, rfl⟩
  constructor
  · exact parentRef_ne_empty hroot n
  · intro c hc
    exact isAlphanumeric_of_mem_node hc
  · exact hnames n (Array.mem_toList_iff.mp hn)

/-- Reading the flowchart of a tree gives the edges of its nodes in their order, each
with the reference to the parent and the label as they were written.  References to
nodes are read back unchanged, and so are names without characters that end a label. -/
theorem readEdges_write (a : Adjacency) (maxDepth : Nat) (root : ComponentId) (direction : String)
    (hroot : root.name ≠ "") (hdirection : '\n' ∉ direction.toList)
    (hnames : forall n, n ∈ (buildFrom a maxDepth root).nodes ->
      '\n' ∉ n.name.toList) :
    readEdges (write direction (buildFrom a maxDepth root)) =
        (buildFrom a maxDepth root).nodes.toList.map (fun n =>
          ⟨String.ofList (reference ((buildFrom a maxDepth root).parentRef n)),
            TreeNode.label n.id, String.ofList (label n.name)⟩) ∧
      (forall (i : Nat) (n : TreeNode) (e : TreeEdge),
        (buildFrom a maxDepth root).nodes[i]? = some n ->
        (readEdges (write direction (buildFrom a maxDepth root)))[i]? = some e ->
        (forall p, n.parent = some p -> e.parent = TreeNode.label p) ∧
          e.child = TreeNode.label n.id ∧
          ((forall c, c ∈ n.name.toList -> endsLabel c = false) -> e.name = n.name)) := by
  have hlegible : forall e, e ∈ (buildFrom a maxDepth root).edges -> Legible e := by
    intro e he
    apply legible_edges _ hnames he
    rw [ComponentTree.root_buildFrom]
    exact hroot
  have hedges := readEdges_of_legible hdirection hlegible
  rw [ComponentTree.edges, List.map_map] at hedges
  have hread : readEdges (write direction (buildFrom a maxDepth root)) = _ := hedges
  refine ⟨hread, ?_⟩
  intro i n e hn he
  rw [hread, List.getElem?_map, Array.getElem?_toList, hn, Option.map_some,
    Option.some.injEq] at he
  subst he
  refine ⟨?_, rfl, ?_⟩
  · intro p hp
    simp only [Function.comp_apply, written, ComponentTree.parentRef, hp, reference_node,
      String.ofList_toList]
  · intro hplain
    simp only [Function.comp_apply, written, label_eq_self hplain, String.ofList_toList]

/-- A root with blanks and an arrow in its name, which uses a component whose name holds
all that a line is cut at, and below it one whose name ends in blanks. -/
def oddNames : Adjacency :=
  Adjacency.ofLists
    [(⟨⟨"a.jsx"⟩, " é ==> "⟩, [⟨⟨"b.jsx"⟩, "x[y]; ==> \"z\"\r];"⟩]),
      (⟨⟨"b.jsx"⟩, "x[y]; ==> \"z\"\r];"⟩, [⟨⟨"c.jsx"⟩, "Tab\t "⟩])]

theorem readEdges_write_oddNames :
    (forall n, n ∈ (buildFrom oddNames 2 ⟨⟨"a.jsx"⟩, " é ==> "⟩).nodes ->
      '\n' ∉ n.name.toList) ∧
    readEdges (write "TD" (buildFrom oddNames 2 ⟨⟨"a.jsx"⟩, " é ==> "⟩)) =
      [⟨"_é_____", "c1", "xy ==> z\r"⟩, ⟨"c1", "c2", "Tab\t "⟩] := by
  have hnames : forall n, n ∈ (buildFrom oddNames 2 ⟨⟨"a.jsx"⟩, " é ==> "⟩).nodes ->
      '\n' ∉ n.name.toList := by decide +kernel
  refine ⟨hnames, ?_⟩
  have hread := readEdges_write oddNames 2 ⟨⟨"a.jsx"⟩, " é ==> "⟩ "TD" (by decide) (by decide) hnames
  rw [hread.left]
  decide +kernel

end Mermaid
end JsxUsage
