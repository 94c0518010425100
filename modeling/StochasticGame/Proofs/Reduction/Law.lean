import Mathlib.Tactic.FieldSimp
import StochasticGame.Analysis
import StochasticGame.Proofs.Game.Operation
import StochasticGame.Proofs.Solver.Gap

/-!
# StochasticGame.Proofs.Reduction.Law

**Games with uniform average nodes.** The correction of probabilities replaces every
average node by its uniform version, whose operator is the mean over the successors,
and changes nothing else. A run whose check of the law succeeds has no average node
without successors, and one that deletes self-loops has no self-loops.
-/

namespace StochasticGame

namespace Node

variable {n : Node}

@[simp] theorem uniform_label (n : Node) : n.uniform.label = n.label := rfl

@[simp] theorem uniform_known (n : Node) : n.uniform.known = n.known := rfl

@[simp] theorem uniform_successors (n : Node) : n.uniform.successors = n.successors :=
  OrdMap.keys_mapValues ..

@[simp] theorem uniform_outDegree (n : Node) : n.uniform.outDegree = n.outDegree := by
  simp [outDegree, OrdMap.size, uniform, OrdMap.mapValues]

theorem uniform_entries (n : Node) :
    n.uniform.succs.entries = n.successors.map fun s => (s, 1 / (n.outDegree : Rat)) := by
  simp [uniform, OrdMap.mapValues, successors, OrdMap.keys, Function.comp_def]

theorem uniform_uniform (n : Node) : n.uniform.uniform = n.uniform := by
  have hsuccs : n.uniform.uniform.succs = n.uniform.succs := by
    rw [OrdMap.mk.injEq, uniform_entries, uniform_entries, uniform_successors, uniform_outDegree]
  exact Node.mk.injEq .. ▸ ⟨rfl, rfl, hsuccs, rfl⟩

theorem length_successors (n : Node) : n.successors.length = n.outDegree :=
  OrdMap.length_keys n.succs

/-- The operator of a uniform node is the mean over its successors. -/
theorem weightedSum_uniform (n : Node) (v : NodeId → Rat) :
    n.uniform.weightedSum v = (n.successors.map v).sum / n.successors.length := by
  rw [weightedSum, uniform_entries, List.map_map, length_successors]
  induction n.successors with
  | nil => simp
  | cons s ss ih =>
    rw [List.map_cons, List.sum_cons, ih, List.map_cons, List.sum_cons, Function.comp_apply]
    ring

theorem sum_uniform (n : Node) :
    (n.uniform.succs.entries.map Prod.snd).sum = n.successors.length / n.successors.length := by
  have h := n.weightedSum_uniform fun _ => 1
  rw [weightedSum_const, mul_one] at h
  rw [h]
  simp

theorem substochastic_uniform (n : Node) : n.uniform.Substochastic where
  nonneg e he := by
    rw [uniform_entries] at he
    obtain ⟨s, -, rfl⟩ := List.mem_map.1 he
    exact one_div_nonneg.2 (Nat.cast_nonneg _)
  sum_le := by
    rw [sum_uniform]
    exact div_self_le_one _

theorem weightSum_eq_sum (n : Node) : n.weightSum = (n.succs.entries.map Prod.snd).sum := by
  rw [weightSum, List.sum_eq_foldl]
  rfl

end Node

namespace Game

variable {g h : Game} {id : NodeId} {n : Node}

/-! ### The correction of probabilities -/

theorem node?_foldl_uniform (ids : List NodeId) (g : Game) (j : NodeId) :
    (ids.foldl (fun g i => g.modify i Node.uniform) g).node? j =
      if j ∈ ids then (g.node? j).map Node.uniform else g.node? j := by
  induction ids generalizing g with
  | nil => rfl
  | cons i ids ih =>
    rw [List.foldl_cons, ih, node?_modify]
    by_cases hj : j = i
    · simp [hj, Function.comp_def, Node.uniform_uniform]
    · simp [hj]

/-- The correction makes the average nodes uniform and leaves the others alone. -/
theorem node?_correctLaw (g : Game) (j : NodeId) :
    g.correctLaw.node? j =
      (g.node? j).map fun n => if n.label = .average then n.uniform else n := by
  rw [correctLaw,
    ← List.foldl_map (f := Prod.fst) (g := fun (g : Game) i => g.modify i Node.uniform),
    node?_foldl_uniform]
  cases hn : g.node? j with
  | none => simp
  | some n =>
    have hmem : j ∈ ((g.nodes.filter fun e => e.2.label = .average).map Prod.fst) ↔
        n.label = .average := by
      simp [mem_nodes, hn]
    simp only [hmem, Option.map_some]
    split <;> rfl

theorem face?_correctLaw (g : Game) (j : NodeId) : g.correctLaw.face? j = g.face? j := by
  rw [face?, face?, node?_correctLaw, Option.map_map]
  congr 1
  funext n
  by_cases hl : n.label = .average <;> simp [hl]

theorem contains_correctLaw (g : Game) (j : NodeId) :
    g.correctLaw.contains j = g.contains j := by
  rw [contains_eq_isSome_face?, contains_eq_isSome_face?, face?_correctLaw]

theorem successors_correctLaw (g : Game) (j : NodeId) :
    g.correctLaw.successors j = g.successors j := by
  rw [successors, successors, node?_correctLaw]
  cases g.node? j with
  | none => rfl
  | some n =>
    dsimp only [Option.map_some]
    split
    · exact n.uniform_successors
    · rfl

theorem bindings_correctLaw (g : Game) : g.correctLaw.bindings = g.bindings := by
  unfold correctLaw
  exact foldl_view bindings (fun g (e : NodeId × Node) => bindings_modify g e.1 Node.uniform) _ g

theorem capacity_correctLaw (g : Game) : g.correctLaw.capacity = g.capacity := by
  unfold correctLaw
  exact foldl_view capacity (fun g (e : NodeId × Node) => capacity_modify g e.1 Node.uniform) _ g

theorem grave?_correctLaw (g : Game) (j : NodeId) : g.correctLaw.grave? j = g.grave? j := by
  unfold correctLaw
  exact foldl_view (grave? · j)
    (fun g (e : NodeId × Node) => grave?_modify g e.1 j Node.uniform) _ g

theorem substochastic_correctLaw (g : Game) : g.correctLaw.Substochastic := by
  intro id n hn hl
  rw [node?_correctLaw, Option.map_eq_some_iff] at hn
  obtain ⟨m, -, rfl⟩ := hn
  by_cases hm : m.label = .average
  · rw [if_pos hm]
    exact m.substochastic_uniform
  · rw [if_neg hm] at hl
    exact absurd hl hm

/-! ### The check of the law -/

/-- The weights of every average node sum to one. -/
def Lawful (g : Game) : Prop :=
  ∀ id n, g.node? id = some n → n.label = .average → (n.succs.entries.map Prod.snd).sum = 1

theorem lawViolation?_eq_none_iff : g.lawViolation? = none ↔ g.Lawful := by
  rw [lawViolation?, Option.map_eq_none_iff, List.find?_eq_none]
  simp only [Node.weightSum_eq_sum]
  constructor
  · intro hlaw id n hn hl
    have hnode := hlaw (id, n) (mem_nodes.2 hn)
    rw [decide_eq_true_eq, not_and, not_not] at hnode
    exact hnode hl
  · intro hlaw e he
    rw [decide_eq_true_eq, not_and, not_not]
    exact hlaw e.1 e.2 (mem_nodes.1 he)

/-- Every average node has successors and takes their mean. -/
def Uniform (g : Game) : Prop :=
  ∀ id n, g.node? id = some n → n.label = .average →
    n.successors ≠ [] ∧ ∀ v, n.weightedSum v = (n.successors.map v).sum / n.successors.length

/-- A corrected game that passes the check is uniform. -/
theorem uniform_correctLaw (hlaw : g.correctLaw.lawViolation? = none) : g.correctLaw.Uniform := by
  intro id n hn hl
  have hsum := lawViolation?_eq_none_iff.1 hlaw id n hn hl
  rw [node?_correctLaw, Option.map_eq_some_iff] at hn
  obtain ⟨m, -, rfl⟩ := hn
  have hm : m.label = .average := by
    by_contra hm
    rw [if_neg hm] at hl
    exact hm hl
  rw [if_pos hm] at hsum ⊢
  rw [Node.uniform_successors]
  refine ⟨?_, m.weightedSum_uniform⟩
  -- without successors the weights would sum to 0
  intro hnil
  rw [Node.sum_uniform, hnil] at hsum
  simp at hsum

/-! ### Self-loops -/

theorem weight?_foldl_removeLoop (ids : List NodeId) (g : Game) (a b : NodeId) :
    (ids.foldl (fun g i => g.removeEdge i i) g).weight? a b =
      if a = b ∧ a ∈ ids then none else g.weight? a b := by
  induction ids generalizing g with
  | nil => simp
  | cons i ids ih =>
    rw [List.foldl_cons, ih, weight?_removeEdge]
    by_cases hab : a = b
    · subst hab
      by_cases ha : a = i <;> simp [ha]
    · have hne : ¬ (a = i ∧ b = i) := fun ⟨ha, hb⟩ => hab (ha.trans hb.symm)
      simp [hab, hne]

/-- Deleting self-loops leaves the other edges. -/
theorem weight?_deleteSelfLoops (g : Game) (a b : NodeId) :
    g.deleteSelfLoops.2.weight? a b = if a = b then none else g.weight? a b := by
  rw [deleteSelfLoops, weight?_foldl_removeLoop]
  by_cases hab : a = b
  · subst hab
    simp only [true_and, if_true, ite_eq_left_iff]
    -- a node that is not listed has no loop
    intro ha
    rw [← Option.not_isSome_iff_eq_none]
    intro hw
    obtain ⟨n, hn⟩ := contains_iff.1 (contains_of_mem_successors (mem_successors_iff.2 hw))
    rw [weight?_of_node? hn] at hw
    rw [loopedNodes, List.mem_map] at ha
    exact ha ⟨(a, n), List.mem_filter.2 ⟨mem_nodes.2 hn, hw⟩, rfl⟩
  · simp only [hab, false_and, if_false]

theorem mem_successors_deleteSelfLoops {a b : NodeId} :
    b ∈ g.deleteSelfLoops.2.successors a ↔ a ≠ b ∧ b ∈ g.successors a := by
  rw [mem_successors_iff, weight?_deleteSelfLoops, mem_successors_iff]
  by_cases hab : a = b
  · simp [hab]
  · simp [hab]

theorem not_mem_successors_deleteSelfLoops (g : Game) (a : NodeId) :
    a ∉ g.deleteSelfLoops.2.successors a :=
  fun ha => (mem_successors_deleteSelfLoops.1 ha).1 rfl

theorem face?_deleteSelfLoops (g : Game) (j : NodeId) :
    g.deleteSelfLoops.2.face? j = g.face? j := by
  rw [deleteSelfLoops, foldl_view (face? · j) fun g _ => face?_removeEdge g _ _ _]

theorem contains_deleteSelfLoops (g : Game) (j : NodeId) :
    g.deleteSelfLoops.2.contains j = g.contains j := by
  rw [contains_eq_isSome_face?, contains_eq_isSome_face?, face?_deleteSelfLoops]

theorem grave?_deleteSelfLoops (g : Game) (j : NodeId) :
    g.deleteSelfLoops.2.grave? j = g.grave? j := by
  rw [deleteSelfLoops, foldl_view (grave? · j) fun g _ => grave?_removeEdge g _ _ _]

theorem capacity_deleteSelfLoops (g : Game) : g.deleteSelfLoops.2.capacity = g.capacity := by
  rw [deleteSelfLoops, foldl_view capacity fun g _ => capacity_removeEdge g _ _]

theorem bindings_deleteSelfLoops (g : Game) : g.deleteSelfLoops.2.bindings = g.bindings := by
  rw [deleteSelfLoops, foldl_view bindings fun g _ => bindings_removeEdge g _ _]

/-! ### Analyses -/

/-- A reduction run fails exactly if its result violates the law. -/
theorem reduce_cases (g : Game) (passes : Passes) :
    (∃ violation, (g.reduce passes).2.lawViolation? = some violation ∧
      (g.reduce passes).1 = .error violation) ∨
    (g.reduce passes).2.lawViolation? = none ∧ ∃ stats, (g.reduce passes).1 = .ok stats := by
  unfold Game.reduce
  dsimp only
  split
  · rename_i violation hv
    exact Or.inl ⟨violation, hv, rfl⟩
  · rename_i hv
    exact Or.inr ⟨hv, _, rfl⟩

theorem reduce_ok_iff {passes : Passes} : (∃ stats, g.reduce passes = (.ok stats, h)) ↔
    (g.reduce passes).2 = h ∧ h.lawViolation? = none := by
  constructor
  · intro ⟨stats, hok⟩
    have hcases := g.reduce_cases passes
    rw [hok] at hcases
    cases hcases with
    | inl herr =>
      obtain ⟨violation, -, herr⟩ := herr
      cases herr
    | inr hlaw => exact ⟨by rw [hok], hlaw.1⟩
  · intro ⟨hr, hlaw⟩
    cases g.reduce_cases passes with
    | inl herr =>
      obtain ⟨violation, hv, -⟩ := herr
      rw [hr, hlaw] at hv
      cases hv
    | inr hok =>
      obtain ⟨-, stats, hok⟩ := hok
      exact ⟨stats, Prod.ext hok hr⟩

/-- What an analysis that succeeds has done. -/
theorem analyze_ok {settings : Settings} {pace : Nat} {a : Analysis}
    (ha : g.analyze settings pace = (.ok a, h)) :
    (g.reduce settings.reduce).2 = h ∧ h.lawViolation? = none ∧
      h.solve settings.solver pace = .ok a.solution := by
  rw [analyze] at ha
  split at ha
  · simp at ha
  · rename_i stats reduced hred
    obtain ⟨hr, hlaw⟩ := reduce_ok_iff.1 ⟨stats, hred⟩
    split at ha
    · simp at ha
    · rename_i sol hsol
      simp only [Prod.mk.injEq, Except.ok.injEq] at ha
      obtain ⟨rfl, rfl⟩ := ha
      exact ⟨hr, hlaw, hsol⟩

/-- An analysis succeeds if the check of the law and the solver do. -/
theorem exists_analyze (settings : Settings) (pace : Nat) {s : Solution}
    (hr : (g.reduce settings.reduce).2 = h) (hlaw : h.lawViolation? = none)
    (hs : h.solve settings.solver pace = .ok s) :
    ∃ a, g.analyze settings pace = (.ok a, h) ∧ a.solution = s := by
  obtain ⟨stats, hred⟩ := reduce_ok_iff.2 ⟨hr, hlaw⟩
  refine ⟨⟨stats, s⟩, ?_, rfl⟩
  rw [analyze, hred]
  dsimp only
  rw [hs]

end Game

end StochasticGame
