import JsxUsage.Adjacency
import JsxUsage.ComponentTree.Basic
import JsxUsage.Registry

/-!
# Building a component tree

The tree is built by a loop over a stack of uses that are still to be placed.
Each round takes one use from the stack.  A use of a component that is already on
the way from the root is left out, any other one becomes a node, and the uses in
that component go on the stack, unless the node is at the greatest depth.

The components on a way are all different, and all but the last have entries of
their own, so ways are no longer than the number of entries and the loop ends.
-/

namespace JsxUsage

structure PendingUse where
  parent : Option Nat
  component : ComponentId
  depth : Nat
deriving Repr, Inhabited

structure TreeBuilder where
  tree : ComponentTree
  stack : List PendingUse
deriving Repr, Inhabited

namespace TreeBuilder

def wayTo (b : TreeBuilder) (parent : Option Nat) : List ComponentId :=
  b.tree.root :: ComponentTree.lineageOf b.tree.nodes parent

def report (t : ComponentTree) (d : Diagnostic) : ComponentTree :=
  { t with diagnostics := t.diagnostics.push d }

def place (t : ComponentTree) (component : ComponentId) (parent : Option Nat) (depth : Nat) :
    ComponentTree :=
  { t with nodes := t.nodes.push ⟨t.nodes.size, component, parent, depth⟩ }

/-- What is reported of a use that would close a cycle: the names on the way to it
and its own. -/
def closing (way : List ComponentId) (component : ComponentId) : Diagnostic :=
  .cyclicUsage (way.map ComponentId.name ++ [component.name])

def pending (parent : Option Nat) (depth : Nat) (components : List ComponentId) :
    List PendingUse :=
  components.map fun c => ⟨parent, c, depth⟩

def step (a : Adjacency) (maxDepth : Nat) (b : TreeBuilder) (use : PendingUse)
    (rest : List PendingUse) : TreeBuilder :=
  let way := b.wayTo use.parent
  if way.any (· == use.component) then ⟨report b.tree (closing way use.component), rest⟩
  else
    let position := b.tree.nodes.size
    let grown := place b.tree use.component use.parent use.depth
    let children := a.children use.component
    if children.isEmpty then ⟨grown, rest⟩
    else if maxDepth ≤ use.depth then
      ⟨report grown (.depthLimit use.component.name use.depth), rest⟩
    else ⟨grown, pending (some position) (use.depth + 1) children ++ rest⟩

/-- Place uses until the stack is empty, for at most `rounds` rounds. -/
def loop (a : Adjacency) (maxDepth : Nat) : Nat -> TreeBuilder -> TreeBuilder
  | 0, b => b
  | rounds + 1, b =>
      match b.stack with
      | [] => b
      | use :: rest => loop a maxDepth rounds (b.step a maxDepth use rest)

def width (a : Adjacency) : Nat :=
  (a.lists.pairs.map fun entry => entry.2.length).foldl max 0

/-- How many rounds one use takes at most, if `entries` entries are not yet on
its way: one for itself, and as many as its own uses take. -/
def rounds (width : Nat) : (entries : Nat) -> Nat
  | 0 => 1
  | entries + 1 => 1 + width * rounds width entries

def start (a : Adjacency) (root : ComponentId) : TreeBuilder :=
  ⟨⟨root, #[], #[]⟩, pending none 1 (a.children root)⟩

end TreeBuilder

namespace ComponentTree

/-- The tree below a component, with nodes of a depth up to `maxDepth`, which is
at least one. -/
def buildFrom (a : Adjacency) (maxDepth : Nat) (root : ComponentId) : ComponentTree :=
  let budget := TreeBuilder.rounds (TreeBuilder.width a) a.size
  ((TreeBuilder.start a root).loop a (max maxDepth 1) budget).tree

def build (r : Registry) (a : Adjacency) (maxDepth : Nat) (rootName : String) :
    Except Failure ComponentTree :=
  match r.lookup rootName with
  | none => .error (.rootNotFound rootName)
  | some d =>
      if a.contains d.id then .ok (buildFrom a maxDepth d.id)
      else .error (.rootNotFound rootName)

end ComponentTree
end JsxUsage
