import JsxUsage.Adjacency
import JsxUsage.Registry

/-!
# The usage graph

The nodes are the registered components, in the order of the registry, and are
referred to by their positions.  There is one edge from a component to another if
the first uses the second, however often it does.
-/

namespace JsxUsage

structure UsageGraph where
  nodes : List ComponentId
  edges : List (Nat × Nat)
deriving Repr, Inhabited

namespace UsageGraph

def positionOf (nodes : List ComponentId) (id : ComponentId) : Option Nat :=
  nodes.findIdx? (· == id)

def addEdge (edges : List (Nat × Nat)) (source target : Nat) : List (Nat × Nat) :=
  if edges.contains (source, target) then edges else edges ++ [(source, target)]

def addEdges (nodes : List ComponentId) (edges : List (Nat × Nat))
    (entry : ComponentId × List ComponentId) : List (Nat × Nat) :=
  match positionOf nodes entry.1 with
  | none => edges
  | some source => (entry.2.filterMap (positionOf nodes)).foldl (addEdge · source) edges

def build (r : Registry) (a : Adjacency) : UsageGraph :=
  let nodes := r.definitions.map Definition.id
  ⟨nodes, a.entries.foldl (addEdges nodes) []⟩

def nodeCount (g : UsageGraph) : Nat := g.nodes.length

def edgeCount (g : UsageGraph) : Nat := g.edges.length

def hasEdge (g : UsageGraph) (source target : Nat) : Bool := g.edges.contains (source, target)

/-! ## Reachability -/

def successors (g : UsageGraph) (position : Nat) : List Nat :=
  g.edges.filterMap fun (source, target) => if source == position then some target else none

/-- Add to `seen` what can be reached from `frontier`, for at most `rounds`
rounds of single edges. -/
def spread (g : UsageGraph) : (rounds : Nat) -> (seen frontier : List Nat) -> List Nat
  | 0, seen, _ => seen
  | rounds + 1, seen, frontier =>
      let fresh := (frontier.flatMap g.successors).eraseDups.filter fun n => !seen.contains n
      if fresh.isEmpty then seen else g.spread rounds (seen ++ fresh) fresh

/-- The nodes that can be reached from a node by a walk with at least one edge.
Each round but the last adds a node, so as many rounds as nodes are enough. -/
def reachable (g : UsageGraph) (position : Nat) : List Nat :=
  let first := (g.successors position).eraseDups
  g.spread g.nodeCount first first

/-- Components that cannot be reached from `root`, in the order of the nodes; all
of them if the root is no node. -/
def unreachableFrom (g : UsageGraph) (root : ComponentId) : List ComponentId :=
  match positionOf g.nodes root with
  | none => g.nodes
  | some start =>
      let reached := start :: g.reachable start
      (g.nodes.zipIdx.filter fun (_, n) => !reached.contains n).map Prod.fst

/-! ## Cycles -/

/-- Whether two nodes are one node or walks lead from each of them to the other, where
`reach` lists what can be reached from each node. -/
def sameClass (reach : List (List Nat)) (m n : Nat) : Bool :=
  m == n || (reach.getD m []).contains n && (reach.getD n []).contains m

/-- The strongly connected classes of nodes, each one at its first member.  A node that
no walk leads back to is a class of its own. -/
def strongClasses (reach : List (List Nat)) : List (List Nat) :=
  let positions := List.range reach.length
  let leaders := positions.filter fun n => !(List.range n).any (sameClass reach n)
  leaders.map fun n => positions.filter (sameClass reach n)

/-- Whether a strongly connected class has several nodes, or an edge from its only node
to itself. -/
def isCyclic (g : UsageGraph) (members : List Nat) : Bool :=
  decide (1 < members.length) || members.head?.any fun n => g.hasEdge n n

/-- The groups of components that use each other, directly or through others,
and the components that use themselves.  Each group is in order, and so is the
list of groups. -/
def cycles (g : UsageGraph) : List (List ComponentId) :=
  let reach := (List.range g.nodeCount).map g.reachable
  let named := ((strongClasses reach).filter g.isCyclic).map fun members =>
    (members.filterMap (g.nodes[·]?)).mergeSort ComponentId.le
  named.mergeSort fun x y => (ComponentId.compareLists x y).isLE

end UsageGraph
end JsxUsage
