import StochasticGame.Proofs.Export.Undirected

/-!
# StochasticGame.Proofs.Export.Directed

**The directed text determines the structure of a game.** A line of the text is one node, and
the numbers on it are those of the node's successors in edge order; a node without successors
has an empty line. Reading the lines back gives the successors of all nodes, with ids replaced
by numbers, and the header follows from them. So the text says exactly that much: labels,
weights, known values and the holes of the arena do not show.
-/

namespace StochasticGame.Game

variable {g g' : Game}

/-- The numbers of the successors of every live node, nodes in arena order and successors in
edge order. -/
def rankedSuccessors (g : Game) : List (List Nat) :=
  g.nodeIds.map fun id => (g.successors id).map g.rank

@[simp] theorem length_rankedSuccessors (g : Game) :
    g.rankedSuccessors.length = g.nodeCount := by
  rw [rankedSuccessors, List.length_map, nodeCount_eq]

/-- Every edge has one number. -/
theorem length_flatten_rankedSuccessors (g : Game) :
    g.rankedSuccessors.flatten.length = g.edgeCount := by
  rw [edgeCount_eq, Digraph.edges, List.length_flatMap, List.length_flatten, rankedSuccessors,
    List.map_map]
  simp [digraph, Function.comp_def]

/-! ### The lines of the text -/

/-- The line of a list of numbers, each followed by a space. -/
def spacedLine (ns : List Nat) : List Char := ns.flatMap fun n => Nat.toDigits 10 n ++ [' ']

/-- The header of a directed text. -/
def directedHeader (nodes edges : Nat) : List Char := (s!"{nodes} {edges}0").toList

theorem Linked.directedLine_eq (h : g.Linked) {id : NodeId} {n : Node}
    (hn : g.node? id = some n) :
    (g.directedLine n).toList = spacedLine ((g.successors id).map g.rank) ++ ['\n'] := by
  have hsucc : n.successors.filterMap g.number? = n.successors.map g.rank :=
    filterMap_number? fun a ha => h.contains_successor hn ha
  rw [directedLine, hsucc, successors_of_node? hn, spacedLine, String.toList_append,
    String.toList_join, List.flatMap_map]
  simp only [String.toList_append, Nat.toString_eq_repr, Nat.toList_repr]
  rfl

theorem Linked.directedText_eq (h : g.Linked) :
    g.directedText.toList =
      (directedHeader g.nodeCount g.edgeCount :: g.rankedSuccessors.map spacedLine).flatMap
        (· ++ ['\n']) := by
  have hlines : (g.nodes.map fun e => g.directedLine e.2).flatMap String.toList =
      (g.rankedSuccessors.map spacedLine).flatMap (· ++ ['\n']) := by
    rw [rankedSuccessors, nodeIds, List.flatMap_map, List.flatMap_map, List.flatMap_map,
      List.flatMap_map]
    exact List.flatMap_congr fun e he => h.directedLine_eq (mem_nodes.1 he)
  rw [directedText, String.toList_join, List.flatMap_cons, hlines, List.flatMap_cons]
  simp only [directedHeader, String.toList_append, List.append_assoc]
  rfl

theorem newline_notMem_directedHeader (nodes edges : Nat) : '\n' ∉ directedHeader nodes edges := by
  have hdigits : ∀ n, '\n' ∉ Nat.toDigits 10 n := Text.notMem_toDigits (by decide)
  simp only [directedHeader, String.toList_append, Nat.toString_eq_repr, Nat.toList_repr,
    List.mem_append, hdigits, or_false]
  decide

theorem newline_notMem_spacedLine (ns : List Nat) : '\n' ∉ spacedLine ns := by
  rw [spacedLine, List.mem_flatMap]
  rintro ⟨n, -, hmem⟩
  rcases List.mem_append.1 hmem with hdigit | hspace
  · exact Text.notMem_toDigits (by decide) n hdigit
  · exact absurd (List.mem_singleton.1 hspace) (by decide)

/-- Splitting the text at its line feeds gives the header, a line for each node, and nothing
after the last line feed. -/
theorem Linked.splitOn_directedText (h : g.Linked) :
    g.directedText.toList.splitOn '\n' =
      directedHeader g.nodeCount g.edgeCount :: g.rankedSuccessors.map spacedLine ++ [[]] := by
  rw [h.directedText_eq, Text.splitOn_ended]
  intro line hline
  rcases List.mem_cons.1 hline with rfl | hrow
  · exact newline_notMem_directedHeader _ _
  · obtain ⟨ns, -, rfl⟩ := List.mem_map.1 hrow
    exact newline_notMem_spacedLine ns

/-! ### Reading the text -/

/-- The numbers on the lines below the header, line by line. -/
def readRows (text : List Char) : List (Option (List Nat)) :=
  ((text.splitOn '\n').tail.dropLast).map Text.numbers?

theorem Linked.readRows_directedText (h : g.Linked) :
    readRows g.directedText.toList = g.rankedSuccessors.map some := by
  rw [readRows, h.splitOn_directedText, List.cons_append, List.tail_cons, List.dropLast_concat,
    List.map_map]
  exact List.map_congr_left fun ns _ => Text.numbers?_spaced ns

/-- Two texts are equal exactly if the numbered successors are. -/
theorem Linked.directedText_eq_iff (h : g.Linked) (h' : g'.Linked) :
    g.directedText = g'.directedText ↔ g.rankedSuccessors = g'.rankedSuccessors := by
  constructor
  · intro htext
    have hread := h.readRows_directedText
    rw [htext, h'.readRows_directedText] at hread
    exact (List.map_injective_iff.2 (Option.some_injective _) hread).symm
  · intro hsucc
    rw [← String.toList_inj, h.directedText_eq, h'.directedText_eq, ← length_rankedSuccessors,
      ← length_flatten_rankedSuccessors, hsucc, length_rankedSuccessors,
      length_flatten_rankedSuccessors]

/-- **The directed text can be decoded.** After a header with the number of nodes and the number
of edges, a 0 behind it, there is a line for each live node, in arena order. The numbers between
the spaces of a line are those of the node's successors, in edge order, and all lines together
hold as many numbers as there are edges. So two games have the same text exactly if they have
the same successors up to the numbering. -/
theorem directedText_determines_successors (h : g.Linked) :
    (∃ rows : List (List Char),
      g.directedText.toList.splitOn '\n' =
        (s!"{g.nodeCount} {g.edgeCount}0").toList :: rows ++ [[]] ∧
      rows.length = g.nodeCount ∧
      (∀ (i : Nat) id, g.nodeIds[i]? = some id → ∃ row, rows[i]? = some row ∧
        Text.numbers? row = some ((g.successors id).map g.rank)) ∧
      (rows.filterMap Text.numbers?).flatten.length = g.edgeCount) ∧
    ∀ g' : Game, g'.Linked →
      (g.directedText = g'.directedText ↔ g.rankedSuccessors = g'.rankedSuccessors) := by
  refine ⟨⟨g.rankedSuccessors.map spacedLine, h.splitOn_directedText, ?_, ?_, ?_⟩, ?_⟩
  · rw [List.length_map, length_rankedSuccessors]
  · intro i id hid
    refine ⟨spacedLine ((g.successors id).map g.rank), ?_, Text.numbers?_spaced _⟩
    rw [rankedSuccessors, List.map_map, List.getElem?_map, hid]
    rfl
  · have hread : (g.rankedSuccessors.map spacedLine).filterMap Text.numbers? =
        g.rankedSuccessors := by
      rw [List.filterMap_map]
      exact (List.filterMap_congr fun ns _ => Text.numbers?_spaced ns).trans List.filterMap_some
    rw [hread, length_flatten_rankedSuccessors]
  · intro g' h'
    exact h.directedText_eq_iff h'

/-- A game of four maximizing nodes without holes. -/
def tidyWork : Game :=
  List.foldl perform empty
    [.addNode .max, .addNode .max, .addNode .max, .addNode .max, .addEdge 0 1 1, .addEdge 0 3 1,
      .addEdge 1 0 1, .addEdge 1 1 1, .addEdge 1 2 1, .addEdge 2 0 1]

/-- The holes of `patchwork` do not show. -/
theorem patchwork_determines_successors :
    patchwork.Linked ∧ tidyWork.Linked ∧ patchwork.nodeIds = [1, 2, 3, 5] ∧
      patchwork.rankedSuccessors = [[2, 4], [1, 2, 3], [1], []] ∧
      patchwork.directedText = tidyWork.directedText := by
  have hpatchwork : patchwork.nodeIds = [1, 2, 3, 5] ∧
      patchwork.rankedSuccessors = [[2, 4], [1, 2, 3], [1], []] ∧
      patchwork.rankedSuccessors = tidyWork.rankedSuccessors := by
    decide +kernel
  have htidy : tidyWork.Linked := Reachable.linked ⟨_, rfl⟩
  obtain ⟨hids, hranked, hsame⟩ := hpatchwork
  exact ⟨linked_patchwork, htidy, hids, hranked,
    ((directedText_determines_successors linked_patchwork).2 tidyWork htidy).2 hsame⟩

end StochasticGame.Game
