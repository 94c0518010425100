import Mathlib.Data.List.Sort
import StochasticGame.Proofs.Game.Counts
import StochasticGame.Proofs.Reduction.MergePlan

/-!
# StochasticGame.Proofs.Reduction.NormalForm

**Fusion runs to its end.** `Fuses` is fusion as a loop that nothing bounds: rounds go on
until one plans no merge. The bound of `Game.fuseRounds` is never what stops it:

* a plan is feasible, so each of its merges finds both nodes live and removes one of them
  (`Feasible.nodeCount_mergeAll`), however the merges before it have rewritten the game;
* so a round that plans a merge leaves fewer nodes, and there are no more such rounds than
  there are nodes (`fuses_fuseRounds`).

The round that plans nothing has looked at every node, and no two of them had the same key.
-/

namespace StochasticGame

/-! ### Keys -/

/-- Nodes with the same label and the same weight on every edge have the same key,
whatever the order of their edges. -/
theorem Node.fuseKey?_congr {n m : Node} (hl : n.label = m.label)
    (hw : ∀ v, n.weightTo? v = m.weightTo? v) : n.fuseKey? = m.fuseKey? := by
  have hentries := OrdMap.entries_perm hw
  have hsorted : ∀ l : List (NodeId × Rat),
      (l.mergeSort fun a b => a.1 ≤ b.1).Pairwise fun a b => a.1 ≤ b.1 := by
    intro l
    refine (List.pairwise_mergeSort ?_ ?_ l).imp of_decide_eq_true
    · intro a b c hab hbc
      exact decide_eq_true (le_trans (of_decide_eq_true hab) (of_decide_eq_true hbc))
    · intro a b
      simpa using le_total a.1 b.1
  have hsort : n.succs.entries.mergeSort (fun a b => a.1 ≤ b.1) =
      m.succs.entries.mergeSort fun a b => a.1 ≤ b.1 := by
    refine List.Perm.eq_of_pairwise ?_ (hsorted _) (hsorted _)
      ((List.mergeSort_perm _ _).trans (hentries.trans (List.mergeSort_perm _ _).symm))
    -- no two entries of a node have the same key, so the order by keys is strict
    intro a b ha hb hab hba
    rw [List.mem_mergeSort] at ha hb
    exact List.inj_on_of_nodup_map n.succs.nodup ha (hentries.mem_iff.2 hb) (le_antisymm hab hba)
  rw [fuseKey?, fuseKey?, isSink, isSink, hl, hsort]

namespace Game

variable {g h : Game} {plan : List (NodeId × NodeId)} {keep drop : NodeId} {count rounds : Nat}

/-- If no merge is planned, nodes with the same label have different edges. -/
theorem exists_weight_ne (hplan : g.nodeMerges = []) {a b : NodeId} {n m : Node}
    (ha : g.node? a = some n) (hb : g.node? b = some m) (hab : a ≠ b) (hsink : n.label ≠ .sink)
    (hl : n.label = m.label) : ∃ v, n.weightTo? v ≠ m.weightTo? v := by
  by_contra hsame
  push Not at hsame
  obtain ⟨key, hkey⟩ : ∃ key, n.fuseKey? = some key := by
    rw [Node.fuseKey?, Node.isSink, if_neg (by simpa using hsink)]
    exact ⟨_, rfl⟩
  have hkey' : m.fuseKey? = some key := (Node.fuseKey?_congr hl hsame).symm.trans hkey
  have hdrops : a ∈ g.nodeMerges.map Prod.snd ∨ b ∈ g.nodeMerges.map Prod.snd :=
    mem_drops_or (mem_keyed.2 ⟨n, mem_nodes.2 ha, hkey⟩)
      (mem_keyed.2 ⟨m, mem_nodes.2 hb, hkey'⟩) hab
  rw [hplan] at hdrops
  simp at hdrops

/-! ### The end of the loop -/

/-- A merge removes one node. -/
theorem nodeCount_contract (hkd : keep ≠ drop) (hk : g.contains keep = true)
    (hd : g.contains drop = true) : (g.contract keep drop).nodeCount + 1 = g.nodeCount := by
  refine nodeCount_add_length (l := [drop]) (List.nodup_singleton drop) (by simpa using hd) ?_
  intro j
  rw [contains_eq_isSome_face?, face?_contract hkd hk hd, contains_eq_isSome_face?]
  by_cases hj : j = drop <;> simp [hj]

/-- Every merge of a feasible plan removes one node. -/
theorem Feasible.nodeCount_mergeAll (hp : g.Feasible plan) :
    (g.mergeAll plan).nodeCount + plan.length = g.nodeCount := by
  unfold Game.mergeAll
  induction plan generalizing g with
  | nil => rfl
  | cons m plan ih =>
    obtain ⟨keep, drop⟩ := m
    obtain ⟨hkd, hk, hd⟩ := hp.head
    have hone := nodeCount_contract hkd hk hd
    have hrest := ih hp.tail
    rw [List.foldl_cons, List.length_cons, ← Nat.add_assoc, hrest, hone]

/-- So does every planned merge. -/
theorem nodeCount_nodeMerges (hplan : g.nodeMerges = plan) :
    (g.mergeAll plan).nodeCount + plan.length = g.nodeCount :=
  (hplan ▸ feasible_nodeMerges g : g.Feasible plan).nodeCount_mergeAll

/-- Rounds of merging that go on until one of them plans nothing: from which game, how many
merges, and to which game. -/
inductive Fuses : Game → Nat → Game → Prop
  /-- Nothing is planned. -/
  | done {g : Game} (hplan : g.nodeMerges = []) : Fuses g 0 g
  /-- The planned merges are made, and the rounds go on. -/
  | round {g h : Game} {m : NodeId × NodeId} {plan : List (NodeId × NodeId)} {count : Nat}
      (hplan : g.nodeMerges = m :: plan) (rest : Fuses (g.mergeAll (m :: plan)) count h) :
      Fuses g ((m :: plan).length + count) h

/-- **As many rounds as there are nodes are enough.** -/
theorem fuses_fuseRounds (hle : g.nodeCount ≤ rounds) :
    Fuses g (fuseRounds rounds g).1 (fuseRounds rounds g).2 := by
  induction rounds generalizing g with
  | zero =>
    refine .done ?_
    have hnil : g.nodes = [] := List.eq_nil_of_length_eq_zero (Nat.le_zero.1 hle)
    rw [nodeMerges, hnil]
    rfl
  | succ rounds ih =>
    cases hplan : g.nodeMerges with
    | nil =>
      rw [fuseRounds_of_nil hplan]
      exact .done hplan
    | cons m plan =>
      have hcount := nodeCount_nodeMerges hplan
      rw [List.length_cons] at hcount
      rw [fuseRounds, hplan]
      exact .round hplan (ih (by omega))

theorem fuses_fuseNodes (g : Game) : Fuses g g.fuseNodes.1 g.fuseNodes.2 :=
  fuses_fuseRounds le_rfl

namespace Fuses

theorem nodeMerges_eq_nil (hf : Fuses g count h) : h.nodeMerges = [] := by
  induction hf with
  | done hplan => exact hplan
  | round _ _ ih => exact ih

/-- The merges that are counted are the nodes that are gone. -/
theorem nodeCount_eq (hf : Fuses g count h) : count + h.nodeCount = g.nodeCount := by
  induction hf with
  | done _ => exact Nat.zero_add _
  | round hplan _ ih =>
    have hcount := nodeCount_nodeMerges hplan
    omega

end Fuses

/-! ### Sinks -/

/-- Two live nodes with the same label, which are not sinks. -/
def SameOperator (g : Game) (a b : NodeId) : Prop :=
  ∃ l, l ≠ .sink ∧ (∃ k, g.face? a = some (l, k)) ∧ ∃ k, g.face? b = some (l, k)

/-- Merges that leave every sink alone. -/
structure SparesSinks (g h : Game) : Prop where
  /-- What is live is as it was. -/
  face : ∀ id f, h.face? id = some f → g.face? id = some f
  /-- No sink is merged into another node. -/
  sink : ∀ id k, g.face? id = some (.sink, k) → h.face? id = some (.sink, k)
  /-- Whatever is merged was no sink, and neither was the node that it was merged into. -/
  merged : ∀ a b, g.contains a = true → h.grave? a = some (.merged b) → g.SameOperator a b

namespace SparesSinks

theorem refl (g : Game) : SparesSinks g g where
  face _ _ hf := hf
  sink _ _ hf := hf
  merged a b ha hgrave := by
    rw [grave?_of_contains ha] at hgrave
    cases hgrave

theorem contract (hs : SparesSinks g h) (hkd : keep ≠ drop) (hk : h.contains keep = true)
    (hd : h.contains drop = true) (hsame : h.SameOperator keep drop) :
    SparesSinks g (h.contract keep drop) where
  face id f hf := hs.face id f (face?_of_contract hkd hk hd hf).2
  sink id k hf := by
    obtain ⟨l, hl, -, k', hdrop⟩ := hsame
    have hsink := hs.sink id k hf
    have hne : id ≠ drop := by
      intro he
      rw [he, hdrop] at hsink
      exact hl (congrArg Prod.fst (Option.some.inj hsink))
    rw [face?_contract hkd hk hd, if_neg hne, hsink]
  merged a b ha hgrave := by
    rw [grave?_contract hkd hk hd] at hgrave
    split at hgrave
    · rename_i hdrop
      obtain rfl : keep = b := by simpa using hgrave
      obtain ⟨l, hl, ⟨k, hkeep⟩, k', hface⟩ := hsame
      exact ⟨l, hl, ⟨k', hdrop ▸ hs.face _ _ hface⟩, k, hs.face _ _ hkeep⟩
    · exact hs.merged a b ha hgrave

/-- A round merges nodes with the same label, which are not sinks. -/
theorem nodeMerges (hs : SparesSinks g h) : SparesSinks g (h.mergeAll h.nodeMerges) := by
  refine mergeAll_induction (P := SparesSinks g) (R := SameOperator) hs ?_ ?_
  · intro p hp _ _
    obtain ⟨n, m, hn, hm, hsink, hl, -⟩ := node?_of_mem_nodeMerges hp
    exact ⟨n.label, hsink, ⟨n.known, face?_of_node? hn⟩, m.known, hl ▸ face?_of_node? hm⟩
  · intro h keep drop hs hkd hk hd hsame
    refine ⟨hs.contract hkd hk hd hsame, ?_⟩
    intro a b ha hb _ _ ⟨l, hl, ⟨k, hfa⟩, k', hfb⟩
    refine ⟨l, hl, ⟨k, ?_⟩, k', ?_⟩
    · rw [face?_contract hkd hk hd, if_neg ha, hfa]
    · rw [face?_contract hkd hk hd, if_neg hb, hfb]

theorem fuseNodes (g : Game) : SparesSinks g g.fuseNodes.2 :=
  fuseNodes_induction (refl g) fun _ hs => hs.nodeMerges

end SparesSinks

/-- **Fusion ends in a normal form.** The loop ends by itself. What it leaves has no two
nodes with the same label and the same weighted edges, other than sinks; it counts the nodes
that it removes, spares the sinks, and finds nothing to do when it is run again. -/
theorem fuseNodes_normalizes (g : Game) :
    Fuses g g.fuseNodes.1 g.fuseNodes.2 ∧
      (∀ a b n m, g.fuseNodes.2.node? a = some n → g.fuseNodes.2.node? b = some m → a ≠ b →
        n.label ≠ .sink → n.label = m.label → ∃ v, n.weightTo? v ≠ m.weightTo? v) ∧
      g.fuseNodes.1 + g.fuseNodes.2.nodeCount = g.nodeCount ∧
      SparesSinks g g.fuseNodes.2 ∧
      g.fuseNodes.2.fuseNodes = (0, g.fuseNodes.2) := by
  have hfuses := fuses_fuseNodes g
  have hplan := hfuses.nodeMerges_eq_nil
  refine ⟨hfuses, ?_, hfuses.nodeCount_eq, SparesSinks.fuseNodes g, fuseRounds_of_nil hplan _⟩
  intro a b n m ha hb hab hsink hl
  exact exists_weight_ne hplan ha hb hab hsink hl

end Game

end StochasticGame
