import JsxUsage.ComponentTree.Builder
import JsxUsage.Counting

/-!
# Expanding a component tree

The tree below a component, written as a recursion: the uses of a component are
placed in order, and all that is below a use comes before the next use.  The
recursion ends because each level puts a component on the way that was not on it
and that has an entry of its own.
-/

namespace JsxUsage
namespace ComponentTree

def unused (a : Adjacency) (way : List ComponentId) : Nat :=
  a.lists.pairs.countP fun entry => !way.any (· == entry.1)

theorem exists_entry_of_children {a : Adjacency} {id : ComponentId}
    (h : (a.children id).isEmpty = false) :
    exists entry, entry ∈ a.lists.pairs ∧ (entry.1 == id) = true := by
  unfold Adjacency.children Index.get? at h
  cases hfind : Index.find id a.lists.pairs with
  | none => simp [hfind] at h
  | some list =>
      rcases Index.mem_of_find hfind with ⟨key, hmem, hsame⟩
      exact ⟨(key, list), hmem, hsame⟩

/-- Going on to a component with children that is not on the way leaves fewer
entries unused. -/
theorem unused_append_lt {a : Adjacency} {way : List ComponentId} {id : ComponentId}
    (hnew : way.any (· == id) = false) (hchildren : (a.children id).isEmpty = false) :
    unused a (way ++ [id]) < unused a way := by
  rcases exists_entry_of_children hchildren with ⟨entry, hmem, hsame⟩
  refine Counting.countP_lt ?_ hmem ?_ ?_
  · intro other hother
    simp only [List.any_append, Bool.not_or, Bool.and_eq_true] at hother
    exact hother.1
  · simp [BEq.symm hsame]
  · rw [List.any_eq_false] at hnew
    simp only [Bool.not_eq_true', List.any_eq_false]
    intro c hc hentry
    exact hnew c hc (BEq.trans hentry hsame)

def chain (way : List ComponentId) (last : ComponentId) : List String :=
  way.map ComponentId.name ++ [last.name]

/-- Place the uses `children`, and all that is below them, in the tree `t`.  The
uses stand below `parent`, to which the components `way` lead from the root. -/
def expand (a : Adjacency) (maxDepth : Nat) (way : List ComponentId) (parent : Option Nat)
    (depth : Nat) : (children : List ComponentId) -> (t : ComponentTree) -> ComponentTree
  | [], t => t
  | child :: rest, t =>
      if _hon : way.any (· == child) = true then
        expand a maxDepth way parent depth rest
          { t with diagnostics := t.diagnostics.push (.cyclicUsage (chain way child)) }
      else
        let position := t.nodes.size
        let grown := { t with nodes := t.nodes.push ⟨position, child, parent, depth⟩ }
        let below :=
          if _hleaf : (a.children child).isEmpty = true then grown
          else if maxDepth ≤ depth then
            { grown with diagnostics := grown.diagnostics.push (.depthLimit child.name depth) }
          else
            expand a maxDepth (way ++ [child]) (some position) (depth + 1) (a.children child) grown
        expand a maxDepth way parent depth rest below
termination_by children => (unused a way, children.length)
decreasing_by
  · exact Prod.Lex.right _ (by simp)
  · apply Prod.Lex.left
    exact unused_append_lt (by simpa using _hon) (by simpa using _hleaf)
  · exact Prod.Lex.right _ (by simp)

def expandFrom (a : Adjacency) (maxDepth : Nat) (root : ComponentId) : ComponentTree :=
  expand a (max maxDepth 1) [root] none 1 (a.children root) ⟨root, #[], #[]⟩

end ComponentTree
end JsxUsage
