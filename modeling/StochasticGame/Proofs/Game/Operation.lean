import StochasticGame.Proofs.Game.Contract
import StochasticGame.Reduction.Run

/-!
# StochasticGame.Proofs.Game.Operation

**Games as they come about.** An `Operation` is anything a user of the library can
do to a game: every edit, every reduction pass and a whole reduction run. A game is
`Reachable` if a finite sequence of operations makes it from the empty one.

Every operation keeps the two records of the edges in agreement, so every
reachable game is linked.
-/

namespace StochasticGame

/-- What can be done to a game. Ids may be arbitrary. -/
inductive Operation where
  /-- Add a node. -/
  | addNode (label : Label)
  /-- Add a sink that pays 1 or 0. -/
  | addSink (payoff : Bool)
  /-- Write or clear a known value. -/
  | setKnown (id : NodeId) (value : Option Rat)
  /-- Add an edge or replace its weight. -/
  | addEdge (source target : NodeId) (weight : Rat)
  /-- Remove an edge. -/
  | removeEdge (source target : NodeId)
  /-- Remove all edges that leave a node. -/
  | clearSuccessors (id : NodeId)
  /-- Remove a node. -/
  | removeNode (id : NodeId)
  /-- Merge a node into another. -/
  | contract (keep drop : NodeId)
  /-- Bind a producer state to a node. -/
  | bindState (state : State) (id : NodeId)
  /-- Promote one settled node to a sink. -/
  | promote (id : NodeId)
  /-- Promote all settled nodes to sinks. -/
  | promoteAll
  /-- Remove orphan sinks. -/
  | prune
  /-- Merge sinks that pay the same. -/
  | fuseSinks
  /-- Merge nodes that behave alike. -/
  | fuseNodes
  /-- Remove self-loops. -/
  | deleteSelfLoops
  /-- Make average nodes uniform. -/
  | correctLaw
  /-- Run the enabled reduction passes. -/
  | reduce (passes : Passes)
  deriving DecidableEq

namespace Game

/-- The game after an operation. -/
def perform (g : Game) : Operation → Game
  | .addNode label => (g.addNode label).2
  | .addSink payoff => (g.addSink payoff).2
  | .setKnown id value => g.setKnown id value
  | .addEdge source target weight => g.addEdge source target weight
  | .removeEdge source target => g.removeEdge source target
  | .clearSuccessors id => g.clearSuccessors id
  | .removeNode id => g.removeNode id
  | .contract keep drop => g.contract keep drop
  | .bindState state id => g.bindState state id
  | .promote id => g.promote id
  | .promoteAll => g.promoteAll.2
  | .prune => g.prune.2
  | .fuseSinks => g.fuseSinks.2
  | .fuseNodes => g.fuseNodes.2
  | .deleteSelfLoops => g.deleteSelfLoops.2
  | .correctLaw => g.correctLaw
  | .reduce passes => (g.reduce passes).2

/-- A game that some sequence of operations makes from the empty game. -/
def Reachable (g : Game) : Prop := ∃ ops : List Operation, ops.foldl perform empty = g

theorem Reachable.perform {g : Game} (h : g.Reachable) (op : Operation) :
    (g.perform op).Reachable := by
  obtain ⟨ops, rfl⟩ := h
  exact ⟨ops ++ [op], by rw [List.foldl_append, List.foldl_cons, List.foldl_nil]⟩

/-- What holds of the empty game and is kept by every operation holds of every
reachable game. -/
theorem Reachable.induction {P : Game → Prop} {g : Game} (h : g.Reachable) (start : P empty)
    (step : ∀ g op, P g → P (g.perform op)) : P g := by
  obtain ⟨ops, rfl⟩ := h
  suffices ∀ (ops : List Operation) (g : Game), P g → P (ops.foldl Game.perform g) from
    this ops empty start
  intro ops
  induction ops with
  | nil => exact fun _ hg => hg
  | cons op ops ih => exact fun g hg => ih _ (step g op hg)

/-! ### Reduction passes keep games linked -/

variable {g : Game}

theorem Linked.promote (h : g.Linked) (id : NodeId) : (g.promote id).Linked := by
  unfold Game.promote
  split
  · exact (h.setLabel id .sink).clearSuccessors id
  · exact h

theorem Linked.promoteEach {g : Game} (h : g.Linked) (ids : List NodeId) :
    (g.promoteEach ids).2.Linked := by
  induction ids generalizing g with
  | nil => exact h
  | cons id rest ih => exact ih (h.promote id)

theorem Linked.foldl_removeNode {g : Game} (h : g.Linked) (ids : List NodeId) :
    (ids.foldl Game.removeNode g).Linked := by
  induction ids generalizing g with
  | nil => exact h
  | cons id ids ih => exact ih (h.removeNode id)

theorem Linked.mergeAll {g : Game} (h : g.Linked) (plan : List (NodeId × NodeId)) :
    (g.mergeAll plan).Linked := by
  unfold Game.mergeAll
  induction plan generalizing g with
  | nil => exact h
  | cons m plan ih => exact ih (h.contract m.1 m.2)

/-- What a round of merging like nodes keeps, any number of rounds keeps. -/
theorem fuseRounds_induction {P : Game → Prop} (rounds : Nat) (start : P g)
    (round : ∀ g : Game, P g → P (g.mergeAll g.nodeMerges)) : P (Game.fuseRounds rounds g).2 := by
  induction rounds generalizing g with
  | zero => exact start
  | succ rounds ih =>
    unfold Game.fuseRounds
    split
    · exact start
    · exact ih (round g start)

theorem fuseNodes_induction {P : Game → Prop} (start : P g)
    (round : ∀ g : Game, P g → P (g.mergeAll g.nodeMerges)) : P g.fuseNodes.2 :=
  fuseRounds_induction g.nodeCount start round

theorem Linked.deleteSelfLoops (h : g.Linked) : g.deleteSelfLoops.2.Linked := by
  have hl := Linked.foldl_removeEdge (g.loopedNodes.map fun id => (id, id)) h
  rwa [List.foldl_map] at hl

/-- Making a node uniform keeps its edges. -/
theorem isSome_weight?_uniform (g : Game) (id u v : NodeId) :
    ((g.modify id Node.uniform).weight? u v).isSome = (g.weight? u v).isSome := by
  rw [weight?_modify]
  split
  · rename_i hu
    cases hn : g.node? id with
    | none => simp [weight?, hu, hn]
    | some n => simp [weight?, hu, hn, Node.weightTo?, Node.uniform, OrdMap.find?_mapValues]
  · rfl

theorem Linked.uniform (h : g.Linked) (id : NodeId) : (g.modify id Node.uniform).Linked := by
  rw [linked_iff] at h ⊢
  intro u v
  rw [isSome_weight?_uniform, predecessors_modify_of_eq g id v Node.uniform (fun _ => rfl)]
  exact h u v

theorem Linked.correctLaw (h : g.Linked) : g.correctLaw.Linked := by
  unfold Game.correctLaw
  generalize g.nodes.filter _ = l
  induction l generalizing g with
  | nil => exact h
  | cons e l ih => exact ih (h.uniform e.1)

theorem Linked.promoteAll (h : g.Linked) : g.promoteAll.2.Linked := h.promoteEach g.nodeIds

theorem Linked.prune (h : g.Linked) : g.prune.2.Linked := h.foldl_removeNode g.orphanSinks

theorem Linked.fuseSinks (h : g.Linked) : g.fuseSinks.2.Linked := h.mergeAll g.sinkMerges

theorem Linked.fuseNodes (h : g.Linked) : g.fuseNodes.2.Linked :=
  fuseNodes_induction h fun _ hg => hg.mergeAll _

/-- A pass that runs only if it is enabled keeps what the pass keeps. -/
theorem passIf_snd {P : Game → Prop} {pass : Game → Nat × Game}
    (hp : ∀ g : Game, P g → P (pass g).2) (enabled : Bool) (h : P g) :
    P (g.passIf enabled pass).2 := by
  unfold Game.passIf
  split
  · exact hp g h
  · exact h

/-- The game that a reduction run leaves, as the passes one after another. -/
theorem reduce_snd (g : Game) (passes : Passes) :
    (g.reduce passes).2 =
      let g₁ := (g.passIf passes.promoteSinks promoteAll).2
      let g₂ := (g₁.passIf passes.pruneSinks prune).2
      let g₃ := (g₂.passIf passes.fuseNodes fuseSinks).2
      let g₄ := (g₃.passIf passes.fuseNodes fuseNodes).2
      let g₅ := (g₄.passIf passes.deleteSelfLoops deleteSelfLoops).2
      if passes.correctProbabilities then g₅.correctLaw else g₅ := by
  unfold Game.reduce
  dsimp only
  split <;> rfl

/-- What every pass keeps, a reduction run keeps. -/
theorem reduce_snd_induction {P : Game → Prop} (h : P g) (passes : Passes)
    (promote : ∀ g : Game, P g → P g.promoteAll.2) (prune : ∀ g : Game, P g → P g.prune.2)
    (fuseSinks : ∀ g : Game, P g → P g.fuseSinks.2) (fuseNodes : ∀ g : Game, P g → P g.fuseNodes.2)
    (loops : ∀ g : Game, P g → P g.deleteSelfLoops.2) (correct : ∀ g : Game, P g → P g.correctLaw) :
    P (g.reduce passes).2 := by
  have h₁ := passIf_snd promote passes.promoteSinks h
  have h₂ := passIf_snd prune passes.pruneSinks h₁
  have h₃ := passIf_snd fuseSinks passes.fuseNodes h₂
  have h₄ := passIf_snd fuseNodes passes.fuseNodes h₃
  have h₅ := passIf_snd loops passes.deleteSelfLoops h₄
  rw [reduce_snd]
  dsimp only
  split
  · exact correct _ h₅
  · exact h₅

theorem Linked.reduce (h : g.Linked) (passes : Passes) : (g.reduce passes).2.Linked :=
  reduce_snd_induction h passes (fun _ => Linked.promoteAll) (fun _ => Linked.prune)
    (fun _ => Linked.fuseSinks) (fun _ => Linked.fuseNodes) (fun _ => Linked.deleteSelfLoops)
    (fun _ => Linked.correctLaw)

theorem Linked.perform (h : g.Linked) (op : Operation) : (g.perform op).Linked := by
  cases op with
  | addNode label => exact h.addNode label
  | addSink payoff => exact (h.addNode .sink).setKnown _ _
  | setKnown id value => exact h.setKnown id value
  | addEdge source target weight => exact h.addEdge source target weight
  | removeEdge source target => exact h.removeEdge source target
  | clearSuccessors id => exact h.clearSuccessors id
  | removeNode id => exact h.removeNode id
  | contract keep drop => exact h.contract keep drop
  | bindState state id => exact h.bindState state id
  | promote id => exact h.promote id
  | promoteAll => exact h.promoteAll
  | prune => exact h.prune
  | fuseSinks => exact h.fuseSinks
  | fuseNodes => exact h.fuseNodes
  | deleteSelfLoops => exact h.deleteSelfLoops
  | correctLaw => exact h.correctLaw
  | reduce passes => exact h.reduce passes

/-- **Every reachable game is linked.** -/
theorem Reachable.linked (h : g.Reachable) : g.Linked :=
  h.induction linked_empty fun _ op hg => hg.perform op

end Game

end StochasticGame
