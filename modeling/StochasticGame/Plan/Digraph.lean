import StochasticGame.Node

/-!
# StochasticGame.Plan.Digraph

**Directed graphs and depth-first post-order.** A digraph is a list of vertices
and, for each, the list of its neighbours in edge order.

A depth-first visit of a vertex marks it, visits its neighbours in order, and
then finishes it; a marked vertex is not visited again. Several visits share
one set of marks, so a traversal from many starts finishes every vertex once.

Design points:

* `visit` carries a depth limit. Nested visits have different vertices, so a
  limit of the number of vertices is never reached with work left to do;
* `Traversal.finished` lists the vertex finished *last* first, so the post-order
  is its reverse.
-/

namespace StochasticGame

/-- A directed graph. -/
structure Digraph where
  /-- The vertices in number order. -/
  vertices : List NodeId
  /-- The neighbours of a vertex in edge order. -/
  next : NodeId → List NodeId

/-- The state of a depth-first traversal. -/
structure Traversal where
  /-- The vertices met so far. -/
  marked : List NodeId
  /-- The vertices whose visit has ended, last one first. -/
  finished : List NodeId
  deriving DecidableEq

/-- The traversal before any visit. -/
def Traversal.start : Traversal := ⟨[], []⟩

/-- Visit a vertex and, before finishing it, all that it leads to, no deeper
than the given limit. -/
def Traversal.visit (next : NodeId → List NodeId) : Nat → Traversal → NodeId → Traversal
  | 0, t, _ => t
  | depth + 1, t, v =>
    if v ∈ t.marked then t
    else
      let inner := (next v).foldl (visit next depth) { t with marked := v :: t.marked }
      { inner with finished := v :: inner.finished }

namespace Digraph

/-- The edges, vertex by vertex in edge order. -/
def edges (d : Digraph) : List (NodeId × NodeId) :=
  d.vertices.flatMap fun u => (d.next u).map (u, ·)

/-- The digraph with every edge turned round. -/
def reversed (d : Digraph) : Digraph where
  vertices := d.vertices
  next v := d.vertices.filter fun u => v ∈ d.next u

/-- The vertices without an incoming edge. -/
def sources (d : Digraph) : List NodeId :=
  let targets := d.edges.map Prod.snd
  d.vertices.filter (· ∉ targets)

/-- Visit a vertex, sharing the marks of an earlier traversal. -/
def visit (d : Digraph) (t : Traversal) (v : NodeId) : Traversal :=
  t.visit d.next d.vertices.length v

/-- Traverse from the given vertices in order. -/
def traverse (d : Digraph) (starts : List NodeId) : Traversal :=
  starts.foldl d.visit .start

/-- The depth-first post-order from the vertices without an incoming edge. -/
def postOrder (d : Digraph) : List NodeId := (d.traverse d.sources).finished.reverse

end Digraph

end StochasticGame
