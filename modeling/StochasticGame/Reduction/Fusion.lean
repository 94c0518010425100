import StochasticGame.Game.Contract

/-!
# StochasticGame.Reduction.Fusion

**Merging nodes that behave alike.** Two sinks are alike when they pay the
same. Two other nodes are alike when they have the same label and the same
weighted successors, in any order.

Design points:

* the merges of a round are planned from one look at the game (`mergePlan`):
  the first node with a key survives, and every later node with that key is
  merged into it;
* merging rewrites the successor lists of predecessors, which may make those
  alike in turn, so rounds are repeated until one plans nothing;
* a round that plans a merge removes a node, so there are at most as many
  rounds as nodes.
-/

namespace StochasticGame

/-- The merges that leave one holder of each key: pairs of the first holder and
a later one. The first argument lists the holders met so far. -/
def mergePlan {κ : Type} [DecidableEq κ] :
    List (κ × NodeId) → List (κ × NodeId) → List (NodeId × NodeId)
  | _, [] => []
  | holders, (key, id) :: rest =>
    match holders.lookup key with
    | some keep => (keep, id) :: mergePlan holders rest
    | none => mergePlan (holders ++ [(key, id)]) rest

/-- What nodes that may be merged have in common: the label and the weighted
successors sorted by id. Sinks have no such key. -/
def Node.fuseKey? (n : Node) : Option (Label × List (NodeId × Rat)) :=
  if n.isSink then none
  else some (n.label, n.succs.entries.mergeSort fun a b => a.1 ≤ b.1)

namespace Game

/-- Carry out planned merges in order. -/
def mergeAll (g : Game) (plan : List (NodeId × NodeId)) : Game :=
  plan.foldl (fun g m => g.contract m.1 m.2) g

/-- The merges of sinks that pay the same. -/
def sinkMerges (g : Game) : List (NodeId × NodeId) :=
  mergePlan [] ((g.nodes.filter (·.2.isSink)).filterMap fun e => e.2.known.map (·, e.1))

/-- Merge sinks that pay the same, counting the merges. -/
def fuseSinks (g : Game) : Nat × Game := (g.sinkMerges.length, g.mergeAll g.sinkMerges)

/-- The merges of nodes with the same label and the same weighted successors. -/
def nodeMerges (g : Game) : List (NodeId × NodeId) :=
  mergePlan [] (g.nodes.filterMap fun e => e.2.fuseKey?.map (·, e.1))

/-- At most the given number of rounds of merging, counting the merges. -/
def fuseRounds : Nat → Game → Nat × Game
  | 0, g => (0, g)
  | rounds + 1, g =>
    match g.nodeMerges with
    | [] => (0, g)
    | plan =>
      let (count, g') := fuseRounds rounds (g.mergeAll plan)
      (plan.length + count, g')

/-- Merge nodes that behave alike until no two of them do, counting the merges. -/
def fuseNodes (g : Game) : Nat × Game := fuseRounds g.nodeCount g

end Game

end StochasticGame
