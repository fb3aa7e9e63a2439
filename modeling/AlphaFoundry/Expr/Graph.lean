/-
# AlphaFoundry.Expr.Graph -- formulas whose nodes may be shared

What is handed over as a formula need not be a tree: a node may be an argument in two places, or
below itself.  A graph names its nodes by numbers, so that this can be said.

`walk` visits every node that can be reached, once, in pre-order: it keeps a stack of what is still
to come and skips nodes that it has seen.  `encounters` follows every edge: it reports each node on
the first path that reaches it, and each further edge to it as a cycle if the node is on the current
path, otherwise as sharing.
-/
import AlphaFoundry.Expr.Visit

namespace AlphaFoundry

set_option autoImplicit false

/-- A node with its arguments among the nodes of a graph of a size. -/
structure GraphNode (size : Nat) where
  label : Label
  children : List (Fin size)

/-- A rooted graph of formula nodes. -/
structure Graph where
  size : Nat
  node : Fin size → GraphNode size
  root : Fin size

/-- What an edge leads to. -/
inductive Encounter where
  /-- A node that no earlier edge led to. -/
  | fresh (visit : Visit)
  /-- A node on the path from the root to here. -/
  | cycle (path : Path)
  /-- A node that was met elsewhere. -/
  | shared (path : Path)

namespace Graph

variable (g : Graph)

/-- The arguments that a node is applied to; fields and literals have none. -/
def childrenOf (i : Fin g.size) : List (Fin g.size) :=
  match (g.node i).label with
  | .apply .. => (g.node i).children
  | _ => []

def edgeCount : Nat :=
  (List.finRange g.size).foldl (fun n i => n + (g.childrenOf i).length) 0

def visitOf (i : Fin g.size) (path : Path) (parent : Option String) : Visit :=
  ⟨path, (g.node i).label, (g.childrenOf i).map fun k => (g.node k).label, parent⟩

/-! ## The walk -/

/-- A node that is visited or still to come, as the walk gets to it. -/
structure Stop (size : Nat) where
  node : Fin size
  /-- The path that led to the node. -/
  path : Path
  depth : Nat
  /-- The node that it is an argument of; nothing at the root. -/
  parent : Option (Fin size)

def start : Stop g.size :=
  ⟨g.root, [], 1, none⟩

/-- The arguments of a node as stops, the first on top. -/
def stopsBelow (s : Stop g.size) : List (Stop g.size) :=
  (g.childrenOf s.node).zipIdx.map fun (k, n) => ⟨k, s.path ++ [n], s.depth + 1, some s.node⟩

/-- Each step takes one stop off the stack; an edge puts at most one on it. -/
def stopsFrom : Nat → List (Stop g.size) → List (Fin g.size) → List (Stop g.size)
  | 0, _, _ => []
  | _ + 1, [], _ => []
  | fuel + 1, s :: stack, seen =>
    if seen.contains s.node then stopsFrom fuel stack seen
    else s :: stopsFrom fuel (g.stopsBelow s ++ stack) (s.node :: seen)

def stops : List (Stop g.size) :=
  g.stopsFrom (g.edgeCount + 1) [g.start] []

/-- What is told of a stop. -/
def visitAt (s : Stop g.size) : Visit :=
  g.visitOf s.node s.path (s.parent.bind fun i => (g.node i).label.operator?)

def walk : List Visit :=
  g.stops.map g.visitAt

/-! ## The encounters -/

/-- Follow one edge.  `above` holds the nodes on the current path, `seen` all nodes met so far; the
fuel bounds the length of the path. -/
def follow : Nat → Fin g.size → Path → Option String → List (Fin g.size) → List (Fin g.size) →
    List Encounter × List (Fin g.size)
  | 0, _, _, _, _, seen => ([], seen)
  | fuel + 1, i, path, parent, above, seen =>
    if above.contains i then ([.cycle path], seen)
    else if seen.contains i then ([.shared path], seen)
    else
      (g.childrenOf i).zipIdx.foldl
        (fun (found, seen) (k, n) =>
          let (more, seen) :=
            follow fuel k (path ++ [n]) (g.node i).label.operator? (i :: above) seen
          (found ++ more, seen))
        ([.fresh (g.visitOf i path parent)], i :: seen)

def encounters : List Encounter :=
  (g.follow (g.size + 1) g.root [] none [] []).1

end Graph

/-- A formula as rules see it: every edge, and every node once. -/
structure Survey where
  encounters : List Encounter
  visits : List Visit

def Graph.survey (g : Graph) : Survey :=
  ⟨g.encounters, g.walk⟩

/-- In a tree every edge leads to a fresh node. -/
def Expr.survey (e : Expr) : Survey :=
  ⟨e.visits.map .fresh, e.visits⟩

end AlphaFoundry
