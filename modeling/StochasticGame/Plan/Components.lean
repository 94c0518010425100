import StochasticGame.Plan.Digraph

/-!
# StochasticGame.Plan.Components

**Strongly connected components and the graph between them.** The components
are found by two traversals: a post-order along incoming edges first, and then,
starting from the vertex finished last, visits along outgoing edges that each
collect one component.

The condensation has one vertex per component, numbered in the order of
discovery, and an edge wherever an edge of the graph joins two components.
-/

namespace StochasticGame.Digraph

/-- Go through candidate vertices; each one not yet marked starts a component,
which takes every unmarked vertex it leads to. -/
def collect (d : Digraph) : List NodeId → List NodeId → List (List NodeId)
  | _, [] => []
  | marked, v :: rest =>
    if v ∈ marked then d.collect marked rest
    else
      let t := d.visit ⟨marked, []⟩ v
      t.finished :: d.collect t.marked rest

/-- The strongly connected components in order of discovery. -/
def components (d : Digraph) : List (List NodeId) :=
  d.collect [] (d.reversed.traverse d.vertices).finished

/-- The number of the first component that holds a vertex. -/
def componentOf (parts : List (List NodeId)) (v : NodeId) : Nat :=
  parts.findIdx fun part => v ∈ part

/-- The graph of the components: an edge of the graph between different
components is an edge between them. -/
def condensation (d : Digraph) (parts : List (List NodeId)) : Digraph :=
  let joins := d.edges.map fun e => (componentOf parts e.1, componentOf parts e.2)
  let links := joins.filter fun e => e.1 ≠ e.2
  { vertices := List.range parts.length
    next := fun a => (links.filter (·.1 = a)).map Prod.snd }

/-- Whether the graph has no cycle, given its components: each is a single
vertex without an edge to itself. -/
def isAcyclic (d : Digraph) (parts : List (List NodeId)) : Bool :=
  parts.all (·.length = 1) && d.vertices.all fun v => v ∉ d.next v

end StochasticGame.Digraph
