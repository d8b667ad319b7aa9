import JsxUsage.Component
import JsxUsage.Index

/-!
# Adjacency

For each component the list of the components that it uses, in the order and as
often as it uses them.
-/

namespace JsxUsage

structure Adjacency where
  lists : Index ComponentId (List ComponentId)
deriving Repr, Inhabited

namespace Adjacency

def empty : Adjacency := ⟨Index.empty⟩

def insert (a : Adjacency) (id : ComponentId) (children : List ComponentId) : Adjacency :=
  ⟨a.lists.put id children⟩

def ofLists (lists : List (ComponentId × List ComponentId)) : Adjacency :=
  lists.foldl (fun a (id, children) => a.insert id children) empty

/-- The children of a component; none if it has no entry. -/
def children (a : Adjacency) (id : ComponentId) : List ComponentId :=
  (a.lists.get? id).getD []

def contains (a : Adjacency) (id : ComponentId) : Bool :=
  a.lists.contains id

def size (a : Adjacency) : Nat := a.lists.size

def entries (a : Adjacency) : List (ComponentId × List ComponentId) :=
  a.lists.pairs.mergeSort fun x y => ComponentId.le x.1 y.1

end Adjacency
end JsxUsage
