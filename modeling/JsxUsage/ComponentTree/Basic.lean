import JsxUsage.Component
import JsxUsage.Diagnostic

/-!
# Component trees

A component tree unrolls the usages below a root component.  Its nodes stand in
one array in the order of a walk that visits a node before its children, so that
a node comes after its parent.  A component that is used at several places has
several nodes.
-/

namespace JsxUsage

structure TreeNode where
  id : Nat
  component : ComponentId
  /-- The position of the parent; none below the root itself. -/
  parent : Option Nat
  depth : Nat
deriving Repr, Inhabited

namespace TreeNode

def name (n : TreeNode) : String := n.component.name

def label (id : Nat) : String := "c" ++ toString (id + 1)

end TreeNode

/-! ## Edges -/

structure TreeEdge where
  parent : String
  child : String
  name : String
deriving Repr, DecidableEq, Inhabited

structure ComponentTree where
  root : ComponentId
  nodes : Array TreeNode
  diagnostics : Array Diagnostic
deriving Repr, Inhabited

namespace ComponentTree

def rootName (t : ComponentTree) : String := t.root.name

def size (t : ComponentTree) : Nat := t.nodes.size

def looksLikeLabel (name : String) : Bool :=
  match name.toList with
  | 'c' :: digits => !digits.isEmpty && digits.all Char.isDigit
  | _ => false

/-- How edges refer to the root: by its name, which is made different from the
names of nodes where it looks like one. -/
def rootRef (t : ComponentTree) : String :=
  if looksLikeLabel t.rootName then t.rootName ++ "_root" else t.rootName

def parentRef (t : ComponentTree) (n : TreeNode) : String :=
  match n.parent with
  | some parent => TreeNode.label parent
  | none => t.rootRef

def edges (t : ComponentTree) : List TreeEdge :=
  t.nodes.toList.map fun n => ⟨t.parentRef n, TreeNode.label n.id, n.name⟩

/-! ## Ways from the root -/

/-- The components from below the root to the node at a position, in `nodes`.
A parent that does not come before its child ends the chain. -/
def lineage (nodes : Array TreeNode) (position : Nat) : List ComponentId :=
  match nodes[position]? with
  | none => []
  | some n =>
      match n.parent with
      | none => [n.component]
      | some parent =>
          if parent < position then lineage nodes parent ++ [n.component]
          else [n.component]
termination_by position

def lineageOf (nodes : Array TreeNode) (parent : Option Nat) : List ComponentId :=
  match parent with
  | some position => lineage nodes position
  | none => []

def namesTo (t : ComponentTree) (position : Nat) : List String :=
  t.rootName :: (lineage t.nodes position).map ComponentId.name

end ComponentTree
end JsxUsage
