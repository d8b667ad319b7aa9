import JsxUsage.ParseCache
import JsxUsage.Proofs.ProgramReadings
import Mathlib.Order.Bounds.Basic

/-!
# Lines of errors

A message about a file that could not be read names one line: that of the first broken
node which a cursor meets.  In a tree whose nodes are in the order of the text a cursor
never goes back to an earlier line.  So no broken node starts before the one that is named,
and there is one whenever the tree is broken at all.  The tree of every text is in order, so
this holds of each file that is read.
-/

namespace JsxUsage

open Syntax

namespace Syntax
namespace Node

theorem inOrder_bounds {first last : Nat} {ns : List Node} (h : InOrder first ns last) :
    forall m, m ∈ preorderAll ns -> first ≤ m.line ∧ m.line ≤ last := by
  induction h with
  | none _ => simp [preorderAll]
  | next hline hcs hrest ihcs ihrest =>
      have hstop := inOrder_le hcs
      have hlast := inOrder_le hrest
      intro m hm
      rw [preorderAll, preorder, List.mem_append, List.mem_cons] at hm
      rcases hm with (rfl | hbelow) | hlater
      · exact ⟨hline, Nat.le_trans hstop hlast⟩
      · rcases ihcs m hbelow with ⟨hfrom, hto⟩
        exact ⟨Nat.le_trans hline hfrom, Nat.le_trans hto hlast⟩
      · rcases ihrest m hlater with ⟨hfrom, hto⟩
        exact ⟨Nat.le_trans (Nat.le_trans hline hstop) hfrom, hto⟩

/-- In document order the lines never go back. -/
theorem inOrder_pairwise {first last : Nat} {ns : List Node} (h : InOrder first ns last) :
    (preorderAll ns).Pairwise fun m m' => m.line ≤ m'.line := by
  induction h with
  | none _ => exact List.Pairwise.nil
  | next _ hcs hrest ihcs ihrest =>
      rw [preorderAll, preorder, List.cons_append]
      refine List.pairwise_cons.mpr ⟨?_, List.pairwise_append.mpr ⟨ihcs, ihrest, ?_⟩⟩
      · intro m hm
        rcases List.mem_append.mp hm with hbelow | hlater
        · exact (inOrder_bounds hcs m hbelow).left
        · exact Nat.le_trans (inOrder_le hcs) (inOrder_bounds hrest m hlater).left
      · intro m hm m' hm'
        exact Nat.le_trans (inOrder_bounds hcs m hm).right (inOrder_bounds hrest m' hm').left

theorem isInOrder_pairwise {tree : Node} (h : tree.IsInOrder) :
    tree.preorder.Pairwise fun m m' => m.line ≤ m'.line := by
  rcases h with ⟨first, last, horder⟩
  have hpairwise := inOrder_pairwise horder
  rwa [preorderAll, preorderAll, List.append_nil] at hpairwise

/-- The lines on which the broken nodes of a tree start. -/
def errorLines (tree : Node) : Set Nat :=
  fun line => exists place m, tree.at? place = some m ∧ m.isBroken = true ∧ m.line = line

theorem mem_errorLines_iff {tree : Node} {line : Nat} :
    line ∈ tree.errorLines <->
      exists m, m ∈ tree.preorder ∧ m.isBroken = true ∧ m.line = line :=
  exists_mem_preorder_iff.symm

end Node
end Syntax

namespace SourceFile

theorem hasSyntaxError_iff {f : SourceFile} :
    f.hasSyntaxError = true <-> f.tree.errorLines.Nonempty := by
  rw [hasSyntaxError, List.any_eq_true]
  constructor
  · intro h
    rcases h with ⟨m, hm, hbroken⟩
    exact ⟨m.line, Node.mem_errorLines_iff.mpr ⟨m, hm, hbroken, rfl⟩⟩
  · intro h
    rcases h with ⟨line, hline⟩
    rcases Node.mem_errorLines_iff.mp hline with ⟨m, hm, hbroken, _⟩
    exact ⟨m, hm, hbroken⟩

theorem isSome_firstErrorLine? (f : SourceFile) : f.firstErrorLine?.isSome = f.hasSyntaxError := by
  rw [firstErrorLine?, Option.isSome_map, Node.descendants_eq_preorder, List.isSome_find?]
  rfl

/-- The line of the first broken node is the least one. -/
theorem isLeast_firstErrorLine? {f : SourceFile} (hf : f.tree.IsInOrder) {line : Nat}
    (h : f.firstErrorLine? = some line) : IsLeast f.tree.errorLines line := by
  rw [firstErrorLine?, Node.descendants_eq_preorder] at h
  rcases Option.map_eq_some_iff.mp h with ⟨m, hfound, rfl⟩
  rcases List.find?_eq_some_iff_append.mp hfound with ⟨hbroken, before, after, hsplit, hbefore⟩
  have hlines := Node.isInOrder_pairwise hf
  rw [hsplit] at hlines
  constructor
  · exact Node.mem_errorLines_iff.mpr ⟨m, List.mem_of_find?_eq_some hfound, hbroken, rfl⟩
  · intro other hother
    rcases Node.mem_errorLines_iff.mp hother with ⟨m', hm', hbroken', rfl⟩
    rw [hsplit, List.mem_append, List.mem_cons] at hm'
    rcases hm' with hearly | rfl | hlate
    · have hnot := hbefore m' hearly
      rw [hbroken'] at hnot
      cases hnot
    · exact Nat.le_refl _
    · exact (List.pairwise_cons.mp (List.pairwise_append.mp hlines).right.left).left m' hlate

theorem firstErrorLine?_eq_some_iff {f : SourceFile} (hf : f.tree.IsInOrder) {line : Nat} :
    f.firstErrorLine? = some line <-> IsLeast f.tree.errorLines line := by
  constructor
  · exact isLeast_firstErrorLine? hf
  · intro hleast
    have hsome : f.firstErrorLine?.isSome = true := by
      rw [isSome_firstErrorLine?, hasSyntaxError_iff]
      exact ⟨line, hleast.left⟩
    rcases Option.isSome_iff_exists.mp hsome with ⟨other, hother⟩
    rw [hother, (isLeast_firstErrorLine? hf hother).unique hleast]

/-- What the first error line of a file says about the broken nodes of its tree. -/
structure ErrorLineAgrees (f : SourceFile) : Prop where
  broken : f.hasSyntaxError = true <-> f.tree.errorLines.Nonempty
  found : f.firstErrorLine?.isSome = true <-> f.hasSyntaxError = true
  least : forall line, f.firstErrorLine? = some line <-> IsLeast f.tree.errorLines line

theorem errorLineAgrees {f : SourceFile} (hf : f.tree.IsInOrder) : f.ErrorLineAgrees := by
  constructor
  · exact hasSyntaxError_iff
  · rw [isSome_firstErrorLine?]
  · intro line
    exact firstErrorLine?_eq_some_iff hf

/-- The outcome of a strict reading of the file `f`: the file itself if nothing in it is
broken, else a failure that names the least line of a broken node. -/
inductive StrictOutcome (f : SourceFile) : Except Failure SourceFile -> Prop where
  | whole : f.tree.errorLines = ∅ -> StrictOutcome f (.ok f)
  | broken {line : Nat} : IsLeast f.tree.errorLines line ->
      StrictOutcome f (.error (.parse f.path ("syntax error near line " ++ toString line)))

/-- A broken file has a first error line, so no other line ever stands in for it. -/
theorem strictOutcome_load {t : FileTree} {path : Path} {text : String} {dialect : Dialect}
    (hread : t.readText path = .ok text) (hdialect : dialectOf? path = some dialect) :
    StrictOutcome (ofText path dialect text) (ParseCache.load true t path) := by
  have hagrees := errorLineAgrees (f := ofText path dialect text) (isInOrder_parse dialect text)
  cases hbroken : (ofText path dialect text).hasSyntaxError with
  | false =>
      have hload : ParseCache.load true t path = .ok (ofText path dialect text) := by
        simp only [ParseCache.load, hread, hdialect, hbroken, Bool.and_false, Bool.false_eq_true,
          if_false]
      rw [hload]
      refine .whole (Set.not_nonempty_iff_eq_empty.mp fun hnonempty => ?_)
      rw [hagrees.broken.mpr hnonempty] at hbroken
      cases hbroken
  | true =>
      rcases Option.isSome_iff_exists.mp (hagrees.found.mpr hbroken) with ⟨line, hline⟩
      have hload : ParseCache.load true t path =
          .error (.parse path ("syntax error near line " ++ toString line)) := by
        simp only [ParseCache.load, hread, hdialect, hbroken, hline, Bool.and_self, if_true,
          Option.getD_some]
      rw [hload]
      exact .broken ((hagrees.least line).mp hline)

/-- In a file whose tree is in the order of the text the first error line is the earliest
one.  The trees of all texts are in order, so a strict reading of a broken file names the
line of its earliest error. -/
theorem first_error_line_is_earliest :
    (forall f : SourceFile, f.tree.IsInOrder -> f.ErrorLineAgrees) ∧
      (forall (path : Path) (dialect : Dialect) (text : String),
        (ofText path dialect text).tree.IsInOrder) ∧
      forall (t : FileTree) (path : Path) (text : String) (dialect : Dialect),
        t.readText path = .ok text -> dialectOf? path = some dialect ->
          StrictOutcome (ofText path dialect text) (ParseCache.load true t path) := by
  refine ⟨fun f hf => errorLineAgrees hf, ?_, ?_⟩
  · intro path dialect text
    exact isInOrder_parse dialect text
  · intro t path text dialect hread hdialect
    exact strictOutcome_load hread hdialect

/-- Two errors side by side, the second one within a statement. -/
def twoErrors : SourceFile :=
  ⟨⟨"app.jsx"⟩, "", .jsx, .branch .program 1 [.branch .error 2 [],
    .branch .statement 2 [.leaf .missing 3 ""]]⟩

/-- A project whose only file breaks off on its second line. -/
def brokenApp : FileTree :=
  ⟨.directory [("App.jsx", .file (.text "let a = 1;\nlet b = ;\n"))], []⟩

theorem first_error_line_is_earliest_broken :
    (twoErrors.tree.IsInOrder ∧ twoErrors.firstErrorLine? = some 2 ∧
      IsLeast twoErrors.tree.errorLines 2) ∧
      (ofText ⟨"/App.jsx"⟩ .jsx "let a = 1;\nlet b = ;\n").firstErrorLine? = some 2 ∧
      StrictOutcome (ofText ⟨"/App.jsx"⟩ .jsx "let a = 1;\nlet b = ;\n")
        (ParseCache.load true brokenApp ⟨"/App.jsx"⟩) := by
  have horder : twoErrors.tree.IsInOrder :=
    ⟨1, 3, .next (Nat.le_refl 1)
      (.next (by decide) (.none (Nat.le_refl 2))
        (.next (Nat.le_refl 2) (.next (by decide) (.none (Nat.le_refl 3)) (.none (Nat.le_refl 3)))
          (.none (Nat.le_refl 3)))) (.none (Nat.le_refl 3))⟩
  have hline : twoErrors.firstErrorLine? = some 2 := by decide
  have hleast := ((first_error_line_is_earliest.left twoErrors horder).least 2).mp hline
  have hread : brokenApp.readText ⟨"/App.jsx"⟩ = .ok "let a = 1;\nlet b = ;\n" := by cbv
  have hdialect : dialectOf? ⟨"/App.jsx"⟩ = some .jsx := by decide +kernel
  exact ⟨⟨horder, hline, hleast⟩, by decide +kernel,
    first_error_line_is_earliest.right.right brokenApp _ _ _ hread hdialect⟩

end SourceFile
end JsxUsage
