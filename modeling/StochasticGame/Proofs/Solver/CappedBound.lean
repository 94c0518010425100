import Mathlib.Algebra.GCDMonoid.Finset
import Mathlib.Algebra.GCDMonoid.Nat
import StochasticGame.Proofs.Solver.Denominators
import StochasticGame.Proofs.Solver.SearchChoice

/-!
# StochasticGame.Proofs.Solver.CappedBound

**The bound of a component in closed form.** The numbers that determine the bound are
gathered edge by edge and node by node, and the power is given up as soon as it passes the
cap. Neither matters for the result: the numbers are a count, a maximum and a least common
multiple over sets of nodes and edges, and since the base is positive, the power passes the
cap at some factor exactly if it does so at the last one.
-/

namespace StochasticGame

open DenominatorBound

/-! ### The numbers as functions of sets -/

namespace Game

variable {g : Game} {id : NodeId} {ids : List NodeId}

/-- The listed live nodes at which chance moves. -/
def listedAverages (g : Game) (ids : List NodeId) : Finset NodeId :=
  ids.toFinset.filter fun id => (g.node? id).map Node.label = some .average

/-- The targets and weights of the edges that leave an id. -/
def edgesFrom (g : Game) (id : NodeId) : List (NodeId × Rat) :=
  (g.node? id).elim [] fun n => n.succs.entries

/-- The targets and weights of the edges that leave listed average nodes. -/
def averageEdges (g : Game) (ids : List NodeId) : Finset (NodeId × Rat) :=
  (g.listedAverages ids).biUnion fun id => (g.edgesFrom id).toFinset

@[simp] theorem averageEdges_nil (g : Game) : g.averageEdges [] = ∅ := rfl

/-- Listing a further node adds its edges if chance moves there. -/
theorem averageEdges_cons (g : Game) (id : NodeId) (ids : List NodeId) :
    g.averageEdges (id :: ids) =
      if (g.node? id).map Node.label = some .average then
        (g.edgesFrom id).toFinset ∪ g.averageEdges ids
      else g.averageEdges ids := by
  unfold averageEdges listedAverages
  rw [List.toFinset_cons, Finset.filter_insert]
  split
  · exact Finset.biUnion_insert
  · rfl

/-- The largest denominator of a weight on an edge that leaves a listed average node, at
least 1. -/
def largestDenominator (g : Game) (ids : List NodeId) : Nat :=
  max 1 ((g.averageEdges ids).sup fun e => e.2.den)

/-- The least common multiple of the denominators of the weights on those of these edges
that end outside the list. -/
def outerMultiple (g : Game) (ids : List NodeId) : Nat :=
  ((g.averageEdges ids).filter fun e => e.1 ∉ ids).lcm fun e => e.2.den

end Game

namespace DenominatorBound.Data

/-- The numbers for a count of average nodes and a set of edges that leave them. -/
def summary (ids : List NodeId) (averages : Nat) (edges : Finset (NodeId × Rat)) : Data where
  averages := averages
  largest := max 1 (edges.sup fun e => e.2.den)
  multiple := (edges.filter fun e => e.1 ∉ ids).lcm fun e => e.2.den

variable {g : Game} {ids : List NodeId} {k : Nat} {edges : Finset (NodeId × Rat)}

theorem addEdge_summary (e : NodeId × Rat) :
    (summary ids k edges).addEdge ids e = summary ids k (insert e edges) := by
  have hlargest : (if max 1 (edges.sup fun e => e.2.den) < e.2.den then e.2.den
      else max 1 (edges.sup fun e => e.2.den)) = max 1 ((insert e edges).sup fun e => e.2.den) := by
    rw [Finset.sup_insert]
    split <;> omega
  have hmultiple : (if e.1 ∈ ids then (edges.filter fun e => e.1 ∉ ids).lcm fun e => e.2.den
      else ((edges.filter fun e => e.1 ∉ ids).lcm fun e => e.2.den).lcm e.2.den) =
        ((insert e edges).filter fun e => e.1 ∉ ids).lcm fun e => e.2.den := by
    rw [Finset.filter_insert]
    by_cases he : e.1 ∈ ids
    · simp only [he, not_true_eq_false, if_true, if_false]
    · simp only [he, not_false_eq_true, if_true, if_false, Finset.lcm_insert]
      exact Nat.lcm_comm _ _
  rw [addEdge, summary, summary, hlargest, hmultiple]

theorem foldl_addEdge_summary (l : List (NodeId × Rat)) :
    l.foldl (addEdge ids) (summary ids k edges) = summary ids k (edges ∪ l.toFinset) := by
  induction l generalizing edges with
  | nil => rw [List.foldl_nil, List.toFinset_nil, Finset.union_empty]
  | cons e l ih =>
    rw [List.foldl_cons, addEdge_summary, ih, List.toFinset_cons, Finset.union_insert,
      Finset.insert_union]

theorem addNode_summary (id : NodeId) :
    addNode g ids (summary ids k edges) id =
      if (g.node? id).map Node.label = some .average then
        summary ids (k + 1) (edges ∪ (g.edgesFrom id).toFinset)
      else summary ids k edges := by
  unfold addNode Game.edgesFrom
  cases g.node? id with
  | none => rfl
  | some n =>
    simp only [Option.map_some, Option.some_inj, Option.elim_some]
    split
    · exact foldl_addEdge_summary n.succs.entries
    · rfl

theorem foldl_addNode_summary (l : List NodeId) :
    l.foldl (addNode g ids) (summary ids k edges) =
      summary ids (k + l.countP fun id => (g.node? id).map Node.label = some .average)
        (edges ∪ g.averageEdges l) := by
  induction l generalizing k edges with
  | nil => simp
  | cons id l ih =>
    rw [List.foldl_cons, addNode_summary, Game.averageEdges_cons, List.countP_cons]
    split
    · rename_i h
      rw [ih, Finset.union_assoc]
      simp only [h, decide_true, if_true]
      congr 1
      omega
    · rename_i h
      rw [ih]
      simp [h]

/-- **The gathered numbers.** Nothing but the duplicates of a list could make the count
differ from the number of average nodes in it. -/
theorem ofNodes_eq (g : Game) {ids : List NodeId} (hids : ids.Nodup) :
    ofNodes g ids =
      ⟨(g.listedAverages ids).card, g.largestDenominator ids, g.outerMultiple ids⟩ := by
  have hcount : ids.countP (fun id => (g.node? id).map Node.label = some .average) =
      (g.listedAverages ids).card := by
    rw [List.countP_eq_length_filter, ← List.toFinset_card_of_nodup (hids.filter _),
      List.toFinset_filter, Game.listedAverages]
    simp only [decide_eq_true_eq]
  have hstart : ({} : Data) = summary ids 0 ∅ := rfl
  rw [ofNodes, hstart, foldl_addNode_summary, Nat.zero_add, Finset.empty_union, hcount]
  rfl

end DenominatorBound.Data

/-! ### The capped power -/

namespace DenominatorBound

variable {base cap k acc : Nat}

/-- A power of a positive base that is given up at some factor passes the cap, and one that
passes the cap is given up. -/
theorem cappedPower_eq_none_iff (hbase : 0 < base) :
    cappedPower base cap k acc = none ↔ k ≠ 0 ∧ cap < acc * base ^ k := by
  induction k generalizing acc with
  | zero => simp [cappedPower]
  | succ k ih =>
    have hpow : acc * base ^ (k + 1) = acc * base * base ^ k := by rw [pow_succ']; ring
    rw [cappedPower, hpow]
    split
    · rename_i hpass
      -- the factors that are left out would not make the product smaller
      have hle : acc * base ≤ acc * base * base ^ k :=
        Nat.le_mul_of_pos_right _ (Nat.pow_pos hbase)
      simp only [ne_eq, Nat.add_one_ne_zero, not_false_eq_true, true_and, true_iff]
      omega
    · rename_i hpass
      rw [ih]
      cases k with
      | zero => simpa using hpass
      | succ k => simp

end DenominatorBound

namespace Game

variable {g : Game} {ids : List NodeId}

theorem outerMultiple_pos (g : Game) (ids : List NodeId) : 0 < g.outerMultiple ids := by
  refine Nat.pos_of_ne_zero ?_
  rw [outerMultiple, Ne, Finset.lcm_eq_zero_iff]
  rintro ⟨e, -, he⟩
  exact e.2.den_ne_zero he

theorem largestDenominator_pos (g : Game) (ids : List NodeId) : 0 < g.largestDenominator ids :=
  Nat.lt_of_lt_of_le Nat.one_pos (Nat.le_max_left 1 _)

theorem denominatorBound_eq_ite (g : Game) (hids : ids.Nodup) (cap : Nat) :
    g.denominatorBound ids cap =
      if (g.listedAverages ids).card ≠ 0 ∧
          cap < (g.outerMultiple ids * g.largestDenominator ids) ^ (g.listedAverages ids).card then
        ⟨cap, true⟩
      else
        ⟨(g.outerMultiple ids * g.largestDenominator ids) ^ (g.listedAverages ids).card, false⟩ := by
  have hbase : 0 < g.outerMultiple ids * g.largestDenominator ids :=
    Nat.mul_pos (g.outerMultiple_pos ids) (g.largestDenominator_pos ids)
  have hgiven : cappedPower (g.outerMultiple ids * g.largestDenominator ids) cap
      (g.listedAverages ids).card 1 = none ↔ (g.listedAverages ids).card ≠ 0 ∧
        cap < 1 * (g.outerMultiple ids * g.largestDenominator ids) ^ (g.listedAverages ids).card :=
    cappedPower_eq_none_iff hbase
  rw [one_mul] at hgiven
  rw [denominatorBound, Data.ofNodes_eq g hids]
  dsimp only
  cases hpower : cappedPower (g.outerMultiple ids * g.largestDenominator ids) cap
      (g.listedAverages ids).card 1 with
  | none => rw [if_pos (hgiven.1 hpower)]
  | some value =>
    rw [eq_of_cappedPower hpower, one_mul, if_neg]
    intro hpass
    rw [hgiven.2 hpass] at hpower
    cases hpower

/-- **The bound is the power cut at the cap.** Over the listed average nodes, with `L` the
common multiple of the denominators on edges that end outside the list, `q` the largest
denominator and `k` the number of nodes, the bound is the smaller of `(L * q) ^ k` and the
cap, and is marked exactly if the cap is smaller. Without such a node it is 1, whatever the
cap. It always fits 64 bits. -/
theorem denominatorBound_is_capped_power (g : Game) {ids : List NodeId} (hids : ids.Nodup)
    (cap : UInt64) :
    ((g.listedAverages ids).card = 0 → g.denominatorBound ids cap.toNat = ⟨1, false⟩) ∧
    ((g.listedAverages ids).card ≠ 0 →
      (g.denominatorBound ids cap.toNat).value =
        min ((g.outerMultiple ids * g.largestDenominator ids) ^ (g.listedAverages ids).card)
          cap.toNat ∧
      ((g.denominatorBound ids cap.toNat).capped = true ↔
        (g.outerMultiple ids * g.largestDenominator ids) ^ (g.listedAverages ids).card >
          cap.toNat)) ∧
    (g.denominatorBound ids cap.toNat).value < 2 ^ 64 := by
  refine ⟨?_, ?_, ?_⟩
  · intro hk
    rw [g.denominatorBound_eq_ite hids, if_neg fun h => h.1 hk, hk, pow_zero]
  · intro hk
    rw [g.denominatorBound_eq_ite hids]
    split
    · rename_i hpass
      exact ⟨(Nat.min_eq_right (Nat.le_of_lt hpass.2)).symm, iff_of_true rfl hpass.2⟩
    · rename_i hfits
      have hle := Nat.le_of_not_lt fun h => hfits ⟨hk, h⟩
      exact ⟨(Nat.min_eq_left hle).symm, iff_of_false Bool.false_ne_true (Nat.not_lt.2 hle)⟩
  · exact Nat.lt_of_le_of_lt (g.denominatorBound_value_le ids _)
      (max_lt cap.toNat_lt (by norm_num))

/-- Two coins that lead to each other: one has a branch of weight 1/6 to a sink, and the other
stays away from the sinks with 3/4. -/
def unevenCoins : Game :=
  List.foldl perform empty
    [.addSink false, .addSink true, .addNode .average, .addNode .average, .addEdge 2 3 (1 / 2),
      .addEdge 2 1 (1 / 6), .addEdge 2 0 (1 / 3), .addEdge 3 2 (3 / 4), .addEdge 3 0 (1 / 4)]

/-- The multiple is 12, the largest denominator 6: the power is 5184, and a cap one below it
is passed. -/
theorem unevenCoins_capped_power :
    [2, 3].Nodup ∧ (unevenCoins.listedAverages [2, 3]).card = 2 ∧
      unevenCoins.outerMultiple [2, 3] = 12 ∧ unevenCoins.largestDenominator [2, 3] = 6 ∧
      (unevenCoins.denominatorBound [2, 3] (5183 : UInt64).toNat).value = min (72 ^ 2) 5183 ∧
      (unevenCoins.denominatorBound [2, 3] (5183 : UInt64).toNat).capped = true := by
  have hnumbers : (unevenCoins.listedAverages [2, 3]).card = 2 ∧
      unevenCoins.outerMultiple [2, 3] = 12 ∧ unevenCoins.largestDenominator [2, 3] = 6 := by
    decide +kernel
  obtain ⟨hk, hL, hq⟩ := hnumbers
  have hnodup : [2, 3].Nodup := by decide
  obtain ⟨hvalue, hcapped⟩ :=
    (denominatorBound_is_capped_power unevenCoins hnodup 5183).2.1 (by rw [hk]; decide)
  rw [hk, hL, hq] at hvalue hcapped
  exact ⟨hnodup, hk, hL, hq, hvalue, hcapped.2 (by decide)⟩

end Game

end StochasticGame
