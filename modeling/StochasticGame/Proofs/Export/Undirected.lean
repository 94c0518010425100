import StochasticGame.Proofs.Export.Numbering
import StochasticGame.Proofs.Text.Layout

/-!
# StochasticGame.Proofs.Export.Undirected

**The undirected text lists every adjacency once.** A pair of adjacent nodes is listed by the
node with the smaller number. That node may know of the other as a successor, as a
predecessor or as both, and the two records are kept apart; in a linked game they are two
views of the same edges, so nothing is lost, and the predecessors that are successors too are
left out, so nothing is repeated.
-/

namespace StochasticGame.Game

variable {g : Game} {id : NodeId} {n : Node} {u v : Nat}

/-! ### The neighbours that a node lists -/

/-- In a linked game every neighbour has a number: first those of the successors, then those
of the other predecessors. -/
theorem Linked.laterNeighbours_eq (h : g.Linked) (hn : g.node? id = some n) (u : Nat) :
    g.laterNeighbours u n =
      ((g.successors id).map g.rank).filter (u ≤ ·) ++
        (((g.predecessors id).map g.rank).filter fun v =>
          u < v ∧ v ∉ ((g.successors id).map g.rank).filter (u ≤ ·)).mergeSort := by
  have hsucc : n.successors.filterMap g.number? = n.successors.map g.rank :=
    filterMap_number? fun a ha => h.contains_of_mention hn (Or.inl ha)
  have hpred : n.preds.toList.filterMap g.number? = n.preds.toList.map g.rank :=
    filterMap_number? fun a ha => h.contains_of_mention hn (Or.inr ha)
  rw [laterNeighbours, hsucc, hpred, successors_of_node? hn, predecessors_of_node? hn]

/-- The numbers that a node lists are those of its successors and predecessors that are not
below its own. -/
theorem Linked.mem_laterNeighbours (h : g.Linked) (hn : g.node? id = some n) :
    v ∈ g.laterNeighbours (g.rank id) n ↔
      g.rank id ≤ v ∧ ∃ a, g.rank a = v ∧ (a ∈ g.successors id ∨ id ∈ g.successors a) := by
  rw [h.laterNeighbours_eq hn, List.mem_append, List.mem_mergeSort]
  simp only [List.mem_filter, List.mem_map, decide_eq_true_eq, not_and, not_le]
  constructor
  · rintro (⟨⟨a, ha, rfl⟩, hle⟩ | ⟨⟨a, ha, rfl⟩, hlt, -⟩)
    · exact ⟨hle, a, rfl, Or.inl ha⟩
    · exact ⟨Nat.le_of_lt hlt, a, rfl, Or.inr ((h a id).2 ha)⟩
  · rintro ⟨hle, a, rfl, hs | hp⟩
    · exact Or.inl ⟨⟨a, hs, rfl⟩, hle⟩
    · by_cases hs : ∃ b ∈ g.successors id, g.rank b = g.rank a
      · exact Or.inl ⟨hs, hle⟩
      · -- the predecessor is another node, since a self-loop would make it a successor
        have hne : g.rank id ≠ g.rank a := by
          intro he
          obtain rfl := rank_inj (h.contains_target hp) (contains_of_mem_successors hp) he
          exact hs ⟨id, hp, rfl⟩
        refine Or.inr ⟨⟨a, (h a id).1 hp, rfl⟩, Nat.lt_of_le_of_ne hle hne, ?_⟩
        exact fun hb => absurd hb hs

theorem Linked.nodup_laterNeighbours (h : g.Linked) (hn : g.node? id = some n) (u : Nat) :
    (g.laterNeighbours u n).Nodup := by
  have hranks : ∀ {ids : List NodeId}, ids.Nodup → (∀ a ∈ ids, g.contains a = true) →
      (ids.map g.rank).Nodup := by
    intro ids hids hlive
    exact hids.map_on fun a ha b hb hab => rank_inj (hlive a ha) (hlive b hb) hab
  rw [h.laterNeighbours_eq hn]
  refine List.Nodup.append ?_ ?_ ?_
  · exact (hranks (g.nodup_successors id) fun a ha => h.contains_target ha).filter _
  · rw [(List.mergeSort_perm _ _).nodup_iff]
    exact (hranks (g.nodup_predecessors id) fun a ha => h.contains_source ha).filter _
  · intro v hv hv'
    rw [List.mem_mergeSort, List.mem_filter, decide_eq_true_eq] at hv'
    exact hv'.2.2 hv

/-! ### The list of pairs -/

theorem adjacentPairs_eq (g : Game) :
    g.adjacentPairs = g.nodes.flatMap fun e =>
      (g.laterNeighbours (g.rank e.1) e.2).map (g.rank e.1, ·) := by
  rw [adjacentPairs, zipIdx_nodes, List.flatMap_map]

/-- A pair is listed exactly if its numbers are in order and belong to nodes with an edge
between them, whichever way it leads. -/
theorem Linked.mem_adjacentPairs (h : g.Linked) :
    (u, v) ∈ g.adjacentPairs ↔
      u ≤ v ∧ ∃ a b, g.rank a = u ∧ g.rank b = v ∧ (b ∈ g.successors a ∨ a ∈ g.successors b) := by
  simp only [adjacentPairs_eq, List.mem_flatMap, List.mem_map, Prod.mk.injEq]
  constructor
  · rintro ⟨⟨a, n⟩, hmem, v, hv, rfl, rfl⟩
    obtain ⟨hle, b, hb, hedge⟩ := (h.mem_laterNeighbours (mem_nodes.1 hmem)).1 hv
    exact ⟨hle, a, b, rfl, hb, hedge⟩
  · rintro ⟨hle, a, b, rfl, hb, hedge⟩
    have hlive : g.contains a = true :=
      hedge.elim contains_of_mem_successors fun ha => h.contains_target ha
    obtain ⟨n, hn⟩ := contains_iff.1 hlive
    exact ⟨(a, n), mem_nodes.2 hn, v, (h.mem_laterNeighbours hn).2 ⟨hle, b, hb, hedge⟩, rfl, rfl⟩

theorem Linked.nodup_adjacentPairs (h : g.Linked) : g.adjacentPairs.Nodup := by
  rw [adjacentPairs_eq]
  refine List.nodup_flatMap.2 ⟨?_, ?_⟩
  · intro e he
    exact (h.nodup_laterNeighbours (mem_nodes.1 he) _).map fun _ _ hp => congrArg Prod.snd hp
  · have hnodes : g.nodes.Pairwise fun e f => e.1 ≠ f.1 := List.pairwise_map.1 g.nodup_nodeIds
    refine hnodes.imp_of_mem fun {e f} he hf hne => ?_
    -- pairs that different nodes list differ in the first number
    intro p hp hp'
    obtain ⟨_, -, rfl⟩ := List.mem_map.1 hp
    obtain ⟨_, -, heq⟩ := List.mem_map.1 hp'
    refine hne (rank_inj ?_ ?_ (congrArg Prod.fst heq).symm)
    · exact contains_iff.2 ⟨e.2, mem_nodes.1 he⟩
    · exact contains_iff.2 ⟨f.2, mem_nodes.1 hf⟩

/-! ### The text -/

/-- The line of a pair. -/
def pairLine (p : Nat × Nat) : List Char := (s!"{p.1} {p.2}").toList

theorem pairLine_eq (p : Nat × Nat) :
    pairLine p = Nat.toDigits 10 p.1 ++ ' ' :: Nat.toDigits 10 p.2 := by
  simp only [pairLine, String.toList_append, Nat.toString_eq_repr, Nat.toList_repr,
    List.append_assoc]
  rfl

/-- The space tells where the first number ends. -/
theorem pairLine_injective : Function.Injective pairLine := by
  have hsplit : ∀ p, (pairLine p).splitOn ' ' = [Nat.toDigits 10 p.1, Nat.toDigits 10 p.2] := by
    intro p
    rw [pairLine_eq, List.splitOn_append_cons_self,
      List.splitOn_eq_singleton (Text.notMem_toDigits (by decide) _),
      List.splitOn_eq_singleton (Text.notMem_toDigits (by decide) _)]
    rfl
  intro p q h
  have hnumbers := hsplit p
  rw [h, hsplit q] at hnumbers
  injection hnumbers with hfirst hrest
  injection hrest with hsecond
  exact Prod.ext (Text.toDigits_injective hfirst).symm (Text.toDigits_injective hsecond).symm

theorem undirectedText_eq (g : Game) :
    g.undirectedText.toList =
      ((s!"p tdp {g.nodeCount} {g.adjacentPairs.length}").toList ::
        g.adjacentPairs.map pairLine).flatMap (· ++ ['\n']) := by
  rw [undirectedText, String.toList_join]
  simp only [List.flatMap_cons, List.flatMap_map, String.toList_append, pairLine]
  rfl

theorem newline_notMem_undirectedHeader (nodes edges : Nat) :
    '\n' ∉ (s!"p tdp {nodes} {edges}").toList := by
  have hdigits : ∀ n, '\n' ∉ Nat.toDigits 10 n := Text.notMem_toDigits (by decide)
  simp only [String.toList_append, Nat.toString_eq_repr, Nat.toList_repr, List.mem_append,
    hdigits, or_false]
  decide

theorem newline_notMem_pairLine (p : Nat × Nat) : '\n' ∉ pairLine p := by
  rw [pairLine_eq, List.mem_append, List.mem_cons]
  rintro (hfirst | hspace | hsecond)
  · exact Text.notMem_toDigits (by decide) _ hfirst
  · exact absurd hspace (by decide)
  · exact Text.notMem_toDigits (by decide) _ hsecond

/-- Splitting the text at its line feeds gives the header, a line for each pair, and nothing
after the last line feed. -/
theorem splitOn_undirectedText (g : Game) :
    g.undirectedText.toList.splitOn '\n' =
      (s!"p tdp {g.nodeIds.length} {g.adjacentPairs.length}").toList ::
        g.adjacentPairs.map pairLine ++ [[]] := by
  rw [undirectedText_eq, nodeCount_eq, Text.splitOn_ended]
  intro line hline
  rcases List.mem_cons.1 hline with rfl | hpair
  · exact newline_notMem_undirectedHeader _ _
  · obtain ⟨p, -, rfl⟩ := List.mem_map.1 hpair
    exact newline_notMem_pairLine p

/-- **The undirected text lists each adjacency once.** After a header with the number of live
nodes, each counted once, and the number of the lines that follow, each line holds two numbers
in order. No line occurs twice, and two numbers make a line exactly if they are those of nodes
with an edge from one to the other; a self-loop makes a line with its number twice. -/
theorem undirectedText_lists_adjacencies (h : g.Linked) :
    ∃ (ids : List NodeId) (pairs : List (Nat × Nat)),
      (ids.Nodup ∧ ∀ id, id ∈ ids ↔ g.contains id = true) ∧
      g.undirectedText.toList.splitOn '\n' =
        (s!"p tdp {ids.length} {pairs.length}").toList :: pairs.map pairLine ++ [[]] ∧
      (pairs.map pairLine).Nodup ∧ (∀ p ∈ pairs, p.1 ≤ p.2) ∧
      ∀ u v, u ≤ v → ((u, v) ∈ pairs ↔ ∃ a b, g.rank a = u ∧ g.rank b = v ∧
        (b ∈ g.successors a ∨ a ∈ g.successors b)) := by
  refine ⟨g.nodeIds, g.adjacentPairs, ⟨g.nodup_nodeIds, fun id => mem_nodeIds_iff⟩,
    splitOn_undirectedText g, h.nodup_adjacentPairs.map pairLine_injective, ?_, ?_⟩
  · intro p hp
    exact (h.mem_adjacentPairs.1 hp).1
  · intro u v huv
    rw [h.mem_adjacentPairs]
    exact ⟨fun hpair => hpair.2, fun hedge => ⟨huv, hedge⟩⟩

/-- A game with holes: the first node has been removed and the fifth one merged into the fourth.
The nodes that are left have the numbers 1 to 4. -/
def patchwork : Game :=
  List.foldl perform empty
    [.addNode .min, .addNode .average, .addNode .max, .addNode .min, .addNode .min, .addSink true,
      .addEdge 0 1 1, .addEdge 1 2 (1 / 2), .addEdge 1 5 (1 / 2), .addEdge 2 1 1, .addEdge 2 2 1,
      .addEdge 2 4 1, .addEdge 3 1 1, .removeNode 0, .contract 3 4]

theorem linked_patchwork : patchwork.Linked := Reachable.linked ⟨_, rfl⟩

/-- The header counts the nodes that are left. The edge from node 3 to node 1 is listed from
node 1, and the self-loop of node 2 once. -/
theorem patchwork_lists_adjacencies :
    patchwork.Linked ∧ ∃ (ids : List NodeId) (pairs : List (Nat × Nat)),
      (ids.Nodup ∧ ∀ id, id ∈ ids ↔ patchwork.contains id = true) ∧ ids.length = 4 ∧
      patchwork.undirectedText.toList.splitOn '\n' =
        "p tdp 4 5".toList :: pairs.map pairLine ++ [[]] ∧
      (pairs.map pairLine).Nodup ∧ (1, 3) ∈ pairs ∧ (2, 2) ∈ pairs := by
  obtain ⟨ids, pairs, hids, hlines, hnodup, -, hmem⟩ :=
    undirectedText_lists_adjacencies linked_patchwork
  have hedges : patchwork.nodeIds.length = 4 ∧ patchwork.adjacentPairs.length = 5 ∧
      patchwork.rank 1 = 1 ∧ patchwork.rank 2 = 2 ∧ patchwork.rank 3 = 3 ∧
      1 ∈ patchwork.successors 3 ∧ 2 ∈ patchwork.successors 2 := by
    decide +kernel
  obtain ⟨hnodes, hpairs, h1, h2, h3, hback, hloop⟩ := hedges
  have hcount : ids.length = 4 := by
    have hperm : ids.Perm patchwork.nodeIds :=
      (List.perm_ext_iff_of_nodup hids.1 patchwork.nodup_nodeIds).2 fun id =>
        (hids.2 id).trans mem_nodeIds_iff.symm
    rw [hperm.length_eq, hnodes]
  have hlength : pairs.length = 5 := by
    have htext := congrArg List.length (hlines.symm.trans (splitOn_undirectedText patchwork))
    simpa [hpairs] using htext
  rw [hcount, hlength] at hlines
  exact ⟨linked_patchwork, ids, pairs, hids, hcount, hlines, hnodup,
    (hmem 1 3 (by decide)).2 ⟨1, 3, h1, h3, Or.inr hback⟩,
    (hmem 2 2 (by decide)).2 ⟨2, 2, h2, h2, Or.inl hloop⟩⟩

end StochasticGame.Game
