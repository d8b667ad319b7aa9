import JsxUsage.Syntax.Cursor

/-!
# What a cursor visits

A cursor that moves on from node to node only knows the node on which it stands and the
way back to its start.  What is still to come can be told from these two: the nodes below
the present one, and the later siblings at each step of the way, with all that is below
them.  Each move takes the first node off this list, so a cursor started on a node visits
the node and what is below it in preorder, and nothing beside it.
-/

namespace JsxUsage
namespace Syntax

namespace Node

mutual

theorem length_preorder : (n : Node) -> n.preorder.length = n.size
  | node l cs => by
      rw [preorder, size, List.length_cons, length_preorderAll cs]
      omega

theorem length_preorderAll : (cs : List Node) -> (preorderAll cs).length = sizeAll cs
  | [] => rfl
  | c :: cs => by
      rw [preorderAll, sizeAll, List.length_append, length_preorder c, length_preorderAll cs]

end

theorem preorderAll_eq_flatMap (cs : List Node) : preorderAll cs = cs.flatMap preorder := by
  induction cs with
  | nil => rfl
  | cons c cs ih => rw [preorderAll, List.flatMap_cons, ih]

theorem preorder_eq (n : Node) : n.preorder = n :: n.children.flatMap preorder := by
  cases n with
  | node l cs =>
      rw [preorder, preorderAll_eq_flatMap]
      rfl

end Node

namespace Cursor

/-- The nodes that lie ahead on the way back. -/
def ahead : List Crumb -> List Node
  | [] => []
  | crumb :: trail => Node.preorderAll crumb.after ++ ahead trail

/-- The nodes from the present one on. -/
def remaining (c : Cursor) : List Node :=
  c.focus.preorder ++ ahead c.trail

/-- Where no sibling is left at any step of the way, nothing lies ahead; else the nearest
next sibling comes first. -/
theorem ahead_eq_of_nextAbove? {steps : Nat} {c : Cursor} (hsteps : c.trail.length ≤ steps) :
    ahead c.trail = ((nextAbove? steps c).map remaining).getD [] := by
  induction steps generalizing c with
  | zero =>
      have htrail : c.trail = [] := List.length_eq_zero_iff.mp (Nat.le_zero.mp hsteps)
      simp [nextAbove?, nextSibling?, htrail, ahead]
  | succ steps ih =>
      rcases c with ⟨focus, trail⟩
      cases trail with
      | nil => rfl
      | cons crumb trail =>
          rcases crumb with ⟨label, before, after⟩
          cases after with
          | nil =>
              have hup := ih (c := ⟨.node label (before.reverse ++ focus :: []), trail⟩)
                (Nat.le_of_succ_le_succ hsteps)
              exact hup
          | cons sibling rest => simp [nextAbove?, nextSibling?, ahead, remaining, Node.preorderAll]

theorem remaining_eq (c : Cursor) :
    c.remaining = c.focus :: (c.next?.map remaining).getD [] := by
  rcases c with ⟨focus, trail⟩
  cases focus with
  | node l cs =>
      cases cs with
      | nil =>
          have habove := ahead_eq_of_nextAbove? (c := ⟨.node l [], trail⟩) (Nat.le_refl _)
          rw [remaining, Node.preorder, Node.preorderAll, habove]
          rfl
      | cons child rest =>
          simp [remaining, Node.preorder, Node.preorderAll, next?, firstChild?, ahead]

theorem visit_eq_remaining {budget : Nat} {c : Cursor} (hbudget : c.remaining.length ≤ budget + 1) :
    c.visit budget = c.remaining := by
  induction budget generalizing c with
  | zero =>
      rw [remaining_eq, List.length_cons] at hbudget
      rw [remaining_eq, List.length_eq_zero_iff.mp (Nat.le_zero.mp (Nat.le_of_succ_le_succ hbudget))]
      rfl
  | succ budget ih =>
      rw [remaining_eq, List.length_cons] at hbudget
      rw [remaining_eq, visit]
      cases hnext : c.next? with
      | none => rfl
      | some next =>
          rw [hnext] at hbudget
          have hrest := ih (c := next) (Nat.le_of_succ_le_succ hbudget)
          simp only [hrest, Option.map_some, Option.getD_some]

end Cursor

namespace Node

theorem descendants_eq_preorder (n : Node) : n.descendants = n.preorder := by
  have hremaining : (Cursor.start n).remaining = n.preorder := List.append_nil _
  rw [descendants, Cursor.visit_eq_remaining, hremaining]
  rw [hremaining, length_preorder]
  exact Nat.le_succ _

end Node
end Syntax
end JsxUsage
