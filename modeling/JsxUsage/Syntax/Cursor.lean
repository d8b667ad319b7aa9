import JsxUsage.Syntax.Node

/-!
# Cursors in a syntax tree

A cursor stands on one node of a tree and remembers the way back to the node
on which it was started: for each step down, the label of the node that was
left and the siblings on both sides.  It moves to the first child, to the next
sibling or to the parent, and never beyond the node of its start.

`Node.descendants` moves a cursor through a whole tree and lists the nodes in
the order of the visit.
-/

namespace JsxUsage
namespace Syntax

/-- One step down: the parent's label and the siblings of the child taken. -/
structure Crumb where
  label : Label
  /-- The siblings before the child, the nearest one first. -/
  before : List Node
  after : List Node

structure Cursor where
  focus : Node
  trail : List Crumb

namespace Cursor

def start (n : Node) : Cursor := ⟨n, []⟩

def firstChild? (c : Cursor) : Option Cursor :=
  match c.focus with
  | .node _ [] => none
  | .node l (child :: rest) => some ⟨child, ⟨l, [], rest⟩ :: c.trail⟩

def nextSibling? (c : Cursor) : Option Cursor :=
  match c.trail with
  | [] => none
  | ⟨_, _, []⟩ :: _ => none
  | ⟨l, before, sibling :: rest⟩ :: trail =>
      some ⟨sibling, ⟨l, c.focus :: before, rest⟩ :: trail⟩

def parent? (c : Cursor) : Option Cursor :=
  match c.trail with
  | [] => none
  | ⟨l, before, after⟩ :: trail =>
      some ⟨.node l (before.reverse ++ c.focus :: after), trail⟩

/-- Climb until a next sibling exists, and move there.  `steps` bounds the climb. -/
def nextAbove? : Nat -> Cursor -> Option Cursor
  | 0, c => c.nextSibling?
  | steps + 1, c =>
      match c.nextSibling? with
      | some next => some next
      | none =>
          match c.parent? with
          | some up => nextAbove? steps up
          | none => none

/-- The node visited after the present one: its first child, else the nearest
next sibling of the node or of one of its ancestors. -/
def next? (c : Cursor) : Option Cursor :=
  match c.firstChild? with
  | some child => some child
  | none => nextAbove? c.trail.length c

/-- The nodes that the cursor meets, at most `budget` after the present one. -/
def visit : Nat -> Cursor -> List Node
  | 0, c => [c.focus]
  | budget + 1, c =>
      match c.next? with
      | none => [c.focus]
      | some next => c.focus :: visit budget next

end Cursor

namespace Node

/-- The node and everything below it, in the order in which a cursor started
on the node meets them. -/
def descendants (n : Node) : List Node :=
  (Cursor.start n).visit n.size

end Node
end Syntax
end JsxUsage
