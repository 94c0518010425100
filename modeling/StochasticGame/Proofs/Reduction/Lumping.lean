import Mathlib.Algebra.BigOperators.Group.Finset.Basic
import Mathlib.Algebra.Order.Ring.Rat
import Mathlib.Tactic.Ring
import StochasticGame.Proofs.Reduction.Fusion
import StochasticGame.Proofs.Solver.Operator

/-!
# StochasticGame.Proofs.Reduction.Lumping

**Fusion keeps the equations of a game.** A fused game lumps nodes of the original: each
node has one that stands for it, and that one computes from a table what the node
computes if every successor has the value of who stands for it.

* `Node.Mirrors ρ n m` says that `m` does with successors renamed by `ρ` what `n` does
  with its own. It composes, and nodes that mirror each other yield the same values.
* One merge renames the dropped node in every list of successors and adds up weights,
  so every node is mirrored under that renaming (`Linked.mirrors_contract`). The merged
  nodes have to be alike, and the weights are right only if no average node leads to
  itself: the loop of a dropped node would be counted twice.
* `Lumps` is the invariant of the merges. Nodes that a round plans to merge are alike
  when it is planned, and stay so until their turn, because other merges rename alike.
-/

namespace StochasticGame

namespace Node

/-! ### Weighted sums over sets of nodes -/

/-- A weighted sum may range over any set of nodes that includes the successors. -/
theorem weightedSum_eq_sum (n : Node) (v : NodeId → Rat) {S : Finset NodeId}
    (hS : ∀ s ∈ n.successors, s ∈ S) :
    n.weightedSum v = ∑ s ∈ S, (n.weightTo? s).getD 0 * v s := by
  have hentry : ∀ e ∈ n.succs.entries, e.2 * v e.1 = (n.weightTo? e.1).getD 0 * v e.1 := by
    intro e he
    rw [weightTo?, OrdMap.find?_eq_some_iff.2 he, Option.getD_some]
  calc n.weightedSum v
      = (n.succs.entries.map fun e => (n.weightTo? e.1).getD 0 * v e.1).sum := by
        rw [weightedSum, List.map_congr_left hentry]
    _ = (n.successors.map fun s => (n.weightTo? s).getD 0 * v s).sum := by
        rw [successors, OrdMap.keys, List.map_map]
        rfl
    _ = ∑ s ∈ n.successors.toFinset, (n.weightTo? s).getD 0 * v s :=
        (List.sum_toFinset _ n.succs.keys_nodup).symm
    _ = ∑ s ∈ S, (n.weightTo? s).getD 0 * v s := by
        refine Finset.sum_subset (fun s hs => hS s (List.mem_toFinset.1 hs)) ?_
        intro s _ hs
        rw [List.mem_toFinset, successors, OrdMap.mem_keys_iff, Option.not_isSome_iff_eq_none] at hs
        rw [weightTo?, hs, Option.getD_none, zero_mul]

/-! ### Mirrored nodes -/

/-- `m` does with renamed successors what `n` does. -/
structure Mirrors (ρ : NodeId → NodeId) (n m : Node) : Prop where
  /-- The labels agree. -/
  label_eq : m.label = n.label
  /-- Sinks pay the same. -/
  known_eq : n.label = .sink → m.known = n.known
  /-- The successors are the renamed ones, unless nothing reads them. -/
  mem_successors : n.label ≠ .sink → ∀ t, t ∈ m.successors ↔ ∃ s ∈ n.successors, ρ s = t
  /-- Averages give a renamed successor all the weight of those it is renamed from. -/
  weightedSum_eq : n.label = .average → ∀ v, m.weightedSum v = n.weightedSum (v ∘ ρ)

namespace Mirrors

variable {ρ σ : NodeId → NodeId} {n m k n' m' : Node}

theorem refl (n : Node) : n.Mirrors id n where
  label_eq := rfl
  known_eq _ := rfl
  mem_successors _ t := by simp
  weightedSum_eq _ _ := rfl

theorem trans (h : n.Mirrors ρ m) (h' : m.Mirrors σ k) : n.Mirrors (σ ∘ ρ) k where
  label_eq := h'.label_eq.trans h.label_eq
  known_eq hl := (h'.known_eq (h.label_eq.trans hl)).trans (h.known_eq hl)
  mem_successors hl t := by
    rw [h'.mem_successors (h.label_eq ▸ hl)]
    constructor
    · intro ⟨s, hs, hst⟩
      obtain ⟨u, hu, hus⟩ := (h.mem_successors hl s).1 hs
      exact ⟨u, hu, by rw [Function.comp_apply, hus, hst]⟩
    · intro ⟨u, hu, hut⟩
      exact ⟨ρ u, (h.mem_successors hl _).2 ⟨u, hu, rfl⟩, hut⟩
  weightedSum_eq hl v := by
    rw [h'.weightedSum_eq (h.label_eq.trans hl), h.weightedSum_eq hl]
    rfl

/-- Only the names of the successors matter. -/
theorem congr (h : n.Mirrors ρ m) (hσ : ∀ s ∈ n.successors, σ s = ρ s) : n.Mirrors σ m where
  label_eq := h.label_eq
  known_eq := h.known_eq
  mem_successors hl t := by
    rw [h.mem_successors hl]
    exact exists_congr fun s => and_congr_right fun hs => by rw [hσ s hs]
  weightedSum_eq hl v := by
    rw [h.weightedSum_eq hl]
    refine weightedSum_congr fun s hs => ?_
    rw [Function.comp_apply, Function.comp_apply, hσ s hs]

/-- If two nodes are alike, so are those that mirror them under one renaming. -/
theorem alike (h : n.Mirrors id m) (hn : n.Mirrors ρ n') (hm : m.Mirrors ρ m') :
    n'.Mirrors id m' where
  label_eq := hm.label_eq.trans (h.label_eq.trans hn.label_eq.symm)
  known_eq hl := by
    have hl' : n.label = .sink := hn.label_eq.symm.trans hl
    rw [hm.known_eq (h.label_eq.trans hl'), h.known_eq hl', hn.known_eq hl']
  mem_successors hl t := by
    have hl' : n.label ≠ .sink := hn.label_eq ▸ hl
    have hsame : ∀ s, s ∈ m.successors ↔ s ∈ n.successors := by
      intro s
      rw [h.mem_successors hl']
      simp
    rw [hm.mem_successors (h.label_eq ▸ hl')]
    simp only [hsame, ← hn.mem_successors hl', id, exists_eq_right]
  weightedSum_eq hl v := by
    have hl' : n.label = .average := hn.label_eq.symm.trans hl
    rw [hm.weightedSum_eq (h.label_eq.trans hl'), h.weightedSum_eq hl', Function.comp_id,
      Function.comp_id, hn.weightedSum_eq hl']

/-- **Mirrored nodes yield the same values.** -/
theorem yields_iff (h : n.Mirrors ρ m) (v : NodeId → Rat) (x : Rat) :
    n.Yields (v ∘ ρ) x ↔ m.Yields v x := by
  -- a player sees the same values, under other names
  have hex : n.label ≠ .sink →
      ((∃ s ∈ n.successors, (v ∘ ρ) s = x) ↔ ∃ t ∈ m.successors, v t = x) := by
    intro hl
    simp only [h.mem_successors hl]
    constructor
    · intro ⟨s, hs, hx⟩
      exact ⟨ρ s, ⟨s, hs, rfl⟩, hx⟩
    · intro ⟨t, ⟨s, hs, hst⟩, hx⟩
      exact ⟨s, hs, by rw [Function.comp_apply, hst, hx]⟩
  have hall : n.label ≠ .sink → ∀ R : Rat → Prop,
      ((∀ s ∈ n.successors, R ((v ∘ ρ) s)) ↔ ∀ t ∈ m.successors, R (v t)) := by
    intro hl R
    simp only [h.mem_successors hl, forall_exists_index, and_imp, Function.comp_apply,
      forall_apply_eq_imp_iff₂]
  unfold Yields
  rw [h.label_eq]
  cases hl : n.label with
  | sink => rw [h.known_eq hl]
  | max => exact and_congr (hex (by simp [hl])) (hall (by simp [hl]) (· ≤ x))
  | min => exact and_congr (hex (by simp [hl])) (hall (by simp [hl]) (x ≤ ·))
  | average => simp only [h.weightedSum_eq hl]

/-- Nodes that are alike compute the same. -/
theorem step?_eq (h : n.Mirrors id m) (w : ValueTable) : n.step? w = m.step? w := by
  apply Option.ext
  intro x
  rw [step?_eq_some_iff, step?_eq_some_iff]
  exact h.yields_iff w.value x

/-- Sinks that pay the same are alike. -/
theorem of_sinks (hn : n.label = .sink) (hm : m.label = .sink) (hk : m.known = n.known) :
    n.Mirrors id m where
  label_eq := hm.trans hn.symm
  known_eq _ := hk
  mem_successors hl := absurd hn hl
  weightedSum_eq hl := by
    rw [hn] at hl
    cases hl

/-- Nodes with one label and, up to order, the same weighted successors are alike. -/
theorem of_perm (hsink : n.label ≠ .sink) (hl : m.label = n.label)
    (hperm : m.succs.entries.Perm n.succs.entries) : n.Mirrors id m where
  label_eq := hl
  known_eq h := absurd h hsink
  mem_successors _ t := by
    rw [successors, OrdMap.keys, (hperm.map Prod.fst).mem_iff]
    simp only [id, exists_eq_right]
    rfl
  weightedSum_eq _ v := (hperm.map _).sum_eq

end Mirrors

end Node

namespace Game

variable {g h : Game} {j r keep drop : NodeId} {n m k k' : Node}

/-! ### One merge -/

/-- What a merge makes of an id. -/
def rename (keep drop j : NodeId) : NodeId := if j = drop then keep else j

theorem rename_drop (keep drop : NodeId) : rename keep drop drop = keep := if_pos rfl

theorem rename_of_ne (hj : j ≠ drop) : rename keep drop j = j := if_neg hj

/-- A sum is the same if the weight of the dropped node is added to that of the kept one,
and each node counts with the value of what it is renamed to. -/
theorem sum_rename {S : Finset NodeId} (hkd : keep ≠ drop) (hk : keep ∈ S) (hd : drop ∈ S)
    {f f' : NodeId → Rat} (hkeep : f' keep = f keep + f drop) (hdrop : f' drop = 0)
    (hother : ∀ s, s ≠ keep → s ≠ drop → f' s = f s) (v : NodeId → Rat) :
    ∑ s ∈ S, f' s * v s = ∑ s ∈ S, f s * v (rename keep drop s) := by
  rw [← sub_eq_zero, ← Finset.sum_sub_distrib, Finset.sum_eq_add keep drop hkd]
  · rw [hkeep, hdrop, rename_drop, rename_of_ne hkd]
    ring
  · intro s _ hs
    rw [hother s hs.1 hs.2, rename_of_ne hs.2, sub_self]
  · intro hk'
    exact absurd hk hk'
  · intro hd'
    exact absurd hd hd'

/-- No average node leads to itself. -/
def NoAverageLoop (g : Game) : Prop := ∀ e ∈ g.nodes, e.2.label = .average → e.1 ∉ e.2.successors

instance : Decidable g.NoAverageLoop :=
  inferInstanceAs (Decidable (∀ e ∈ g.nodes, e.2.label = .average → e.1 ∉ e.2.successors))

/-- The node that a merge leaves at an id other than the dropped one. -/
theorem exists_node?_contract (hkd : keep ≠ drop) (hk : h.contains keep = true)
    (hd : h.contains drop = true) (hr : r ≠ drop) (hn : h.node? r = some n) :
    ∃ n', (h.contract keep drop).node? r = some n' ∧ n'.label = n.label ∧ n'.known = n.known := by
  have hf : (h.contract keep drop).face? r = some (n.label, n.known) := by
    rw [face?_contract hkd hk hd, if_neg hr, face?_of_node? hn]
  exact face?_eq_some_iff.1 hf

/-- The weights of an average node after a merge: a loop of the dropped node would add to
them at the kept one. -/
theorem Linked.weight?_contract_of_noLoop (hl : h.Linked) (hkd : keep ≠ drop)
    (hk : h.contains keep = true) (hd : h.contains drop = true) (hr : r ≠ drop)
    (hloop : r = keep → h.weight? drop drop = none) (t : NodeId) :
    (h.contract keep drop).weight? r t =
      if t = drop then none
      else if t = keep then (h.weight? r keep).merge (· + ·) (h.weight? r drop)
      else h.weight? r t := by
  rw [hl.weight?_contract hkd hk hd, mergedWeight?]
  by_cases hrk : r = keep
  · simp [hrk, hkd, hloop hrk]
  · simp [hr, hrk]

section AlikeNodes

variable (hl : h.Linked) (hkd : keep ≠ drop) (hn : h.node? keep = some n)
  (hm : h.node? drop = some m) (hlike : m.Mirrors id n)

include hl hkd hn hm hlike

/-- A merge of alike nodes renames the dropped one in the successors of every other node. -/
theorem Linked.mem_successors_rename (hr : r ≠ drop) (hk : h.node? r = some k)
    (hsink : k.label ≠ .sink) (t : NodeId) :
    t ∈ (h.contract keep drop).successors r ↔ ∃ s ∈ k.successors, rename keep drop s = t := by
  have hloop : r = keep → drop ∈ h.successors drop → drop ∈ h.successors keep := by
    intro hrk hself
    obtain rfl : k = n := Option.some_inj.1 (hk.symm.trans (hrk ▸ hn))
    rw [successors_of_node? hn, hlike.mem_successors (hlike.label_eq ▸ hsink)]
    exact ⟨drop, successors_of_node? hm ▸ hself, rfl⟩
  rw [mem_successors_contract hl hkd (contains_iff.2 ⟨n, hn⟩) (contains_iff.2 ⟨m, hm⟩) hloop hr,
    successors_of_node? hk]
  constructor
  · intro ⟨htd, ht⟩
    cases ht with
    | inl ht => exact ⟨t, ht, rename_of_ne htd⟩
    | inr ht => exact ⟨drop, ht.2, (rename_drop keep drop).trans ht.1.symm⟩
  · intro ⟨s, hs, hst⟩
    by_cases hsd : s = drop
    · subst hsd
      rw [rename_drop] at hst
      exact ⟨hst ▸ hkd, Or.inr ⟨hst.symm, hs⟩⟩
    · rw [rename_of_ne hsd] at hst
      exact ⟨hst ▸ hsd, Or.inl (hst ▸ hs)⟩

variable (hno : h.NoAverageLoop)

include hno

/-- After a merge of alike nodes an average sums the values that its successors are renamed
to. -/
theorem Linked.weightedSum_contract (hr : r ≠ drop) (hk : h.node? r = some k)
    (hk' : (h.contract keep drop).node? r = some k') (havg : k.label = .average)
    (v : NodeId → Rat) : k'.weightedSum v = k.weightedSum (v ∘ rename keep drop) := by
  have hloop : r = keep → h.weight? drop drop = none := by
    intro hrk
    obtain rfl : k = n := Option.some_inj.1 (hk.symm.trans (hrk ▸ hn))
    have hself := hno (drop, m) (mem_nodes.2 hm) (hlike.label_eq.symm.trans havg)
    rwa [← successors_of_node? hm, mem_successors_iff, Option.not_isSome_iff_eq_none] at hself
  have hweight : ∀ t, k'.weightTo? t = if t = drop then none
      else if t = keep then (k.weightTo? keep).merge (· + ·) (k.weightTo? drop)
      else k.weightTo? t := by
    intro t
    simp only [← weight?_of_node? hk', ← weight?_of_node? hk]
    exact hl.weight?_contract_of_noLoop hkd (contains_iff.2 ⟨n, hn⟩) (contains_iff.2 ⟨m, hm⟩) hr
      hloop t
  -- the sums may range over all successors before the merge, and the merged nodes
  rw [k'.weightedSum_eq_sum v (S := insert drop (insert keep k.successors.toFinset)),
    k.weightedSum_eq_sum _ (S := insert drop (insert keep k.successors.toFinset))]
  · refine sum_rename hkd (by simp) (by simp) ?_ ?_ ?_ v
    · rw [hweight, if_neg hkd, if_pos rfl, getD_merge]
    · rw [hweight, if_pos rfl, Option.getD_none]
    · intro s hsk hsd
      rw [hweight, if_neg hsd, if_neg hsk]
  · intro s hs
    simp [hs]
  · intro t ht
    rw [← successors_of_node? hk'] at ht
    obtain ⟨s, hs, hst⟩ :=
      (hl.mem_successors_rename hkd hn hm hlike hr hk (by simp [havg]) t).1 ht
    rw [← hst, rename]
    split <;> simp [hs]

/-- A merge of alike nodes leaves every other node mirrored under the renaming. -/
theorem Linked.mirrors_contract (hr : r ≠ drop) (hk : h.node? r = some k) :
    ∃ k', (h.contract keep drop).node? r = some k' ∧ k.Mirrors (rename keep drop) k' := by
  obtain ⟨k', hk', hlabel, hknown⟩ := exists_node?_contract hkd (contains_iff.2 ⟨n, hn⟩)
    (contains_iff.2 ⟨m, hm⟩) hr hk
  refine ⟨k', hk', hlabel, fun _ => hknown, ?_, ?_⟩
  · intro hsink t
    rw [← successors_of_node? hk']
    exact hl.mem_successors_rename hkd hn hm hlike hr hk hsink t
  · exact hl.weightedSum_contract hkd hn hm hlike hno hr hk hk'

/-- What mirrors a node after a merge stands where the node is renamed to. -/
theorem Linked.exists_mirror_contract (hk : h.node? r = some k) :
    ∃ k', (h.contract keep drop).node? (rename keep drop r) = some k' ∧
      k.Mirrors (rename keep drop) k' := by
  by_cases hr : r = drop
  · subst hr
    obtain rfl : k = m := Option.some_inj.1 (hk.symm.trans hm)
    obtain ⟨n', hn', hmir⟩ := hl.mirrors_contract hkd hn hm hlike hno hkd hn
    rw [rename_drop]
    exact ⟨n', hn', hlike.trans hmir⟩
  · rw [rename_of_ne hr]
    exact hl.mirrors_contract hkd hn hm hlike hno hr hk

theorem NoAverageLoop.contract : (h.contract keep drop).NoAverageLoop := by
  intro ⟨a, k'⟩ he havg hself
  rw [mem_nodes] at he
  obtain ⟨ha, hlive⟩ := contains_of_contract hkd (contains_iff.2 ⟨n, hn⟩)
    (contains_iff.2 ⟨m, hm⟩) (contains_iff.2 ⟨k', he⟩)
  obtain ⟨k, hk⟩ := contains_iff.1 hlive
  obtain ⟨k'', hk'', hmir⟩ := hl.mirrors_contract hkd hn hm hlike hno ha hk
  obtain rfl : k' = k'' := Option.some_inj.1 (he.symm.trans hk'')
  have hlabel : k.label = .average := hmir.label_eq.symm.trans havg
  obtain ⟨s, hs, hsa⟩ := (hmir.mem_successors (by simp [hlabel]) a).1 hself
  by_cases hsd : s = drop
  · -- the kept node led to the dropped one, which then had a loop as well
    subst hsd
    rw [rename_drop] at hsa
    subst hsa
    obtain rfl : k = n := Option.some_inj.1 (hk.symm.trans hn)
    have hml : m.label = .average := hlike.label_eq.symm.trans hlabel
    obtain ⟨t, ht, hts⟩ := (hlike.mem_successors (by simp [hml]) s).1 hs
    obtain rfl : t = s := hts
    exact hno (t, m) (mem_nodes.2 hm) hml ht
  · rw [rename_of_ne hsd] at hsa
    subst hsa
    exact hno (s, k) (mem_nodes.2 hk) hlabel hs

end AlikeNodes

/-! ### Merges one after another -/

/-- Two nodes that may be merged: the kept one mirrors the dropped one as it is. -/
def Alike (h : Game) (keep drop : NodeId) : Prop :=
  ∀ n m, h.node? keep = some n → h.node? drop = some m → m.Mirrors id n

/-- The node that stands for an id; an id outside the arena stands for itself. -/
def standIn (h : Game) (j : NodeId) : NodeId := (h.representative? j).getD j

theorem Stands.standIn_eq (hs : h.Stands j r) : h.standIn j = r := by
  rw [standIn, hs.representative?, Option.getD_some]

/-- Merges of alike nodes have made `h` of `g`. -/
structure Lumps (g h : Game) : Prop where
  /-- The edges of `g` are recorded consistently. -/
  origin : g.Linked
  /-- The edges of `h` are recorded consistently. -/
  linked : h.Linked
  /-- No average node leads to itself. -/
  noLoop : h.NoAverageLoop
  /-- The nodes of `h` are nodes of `g`. -/
  live : ∀ j, h.contains j = true → g.contains j = true
  /-- Every node of `g` is mirrored by the one that stands for it. -/
  mirrors : ∀ j n, g.node? j = some n →
    ∃ r m, h.Stands j r ∧ h.node? r = some m ∧ n.Mirrors h.standIn m

theorem Lumps.refl (hg : g.Linked) (hno : g.NoAverageLoop) : Lumps g g where
  origin := hg
  linked := hg
  noLoop := hno
  live _ hj := hj
  mirrors j n hn := by
    refine ⟨j, n, Stands.of_contains (contains_iff.2 ⟨n, hn⟩), hn, ?_⟩
    refine (Node.Mirrors.refl n).congr ?_
    intro s hs
    exact (Stands.of_contains (hg.contains_successor hn hs)).standIn_eq

theorem Lumps.exists_stands (hl : Lumps g h) (hn : g.node? j = some n) {s : NodeId}
    (hs : s ∈ n.successors) : ∃ t, h.Stands s t := by
  obtain ⟨k, hk⟩ := contains_iff.1 (hl.origin.contains_successor hn hs)
  obtain ⟨t, -, ht, -, -⟩ := hl.mirrors s k hk
  exact ⟨t, ht⟩

theorem Lumps.contract (hl : Lumps g h) (hkd : keep ≠ drop) (hn : h.node? keep = some n)
    (hm : h.node? drop = some m) (hlike : m.Mirrors id n) : Lumps g (h.contract keep drop) where
  origin := hl.origin
  linked := hl.linked.contract keep drop
  noLoop := hl.noLoop.contract hl.linked hkd hn hm hlike
  live j hj :=
    hl.live j (contains_of_contract hkd (contains_iff.2 ⟨n, hn⟩) (contains_iff.2 ⟨m, hm⟩) hj).2
  mirrors j k hk := by
    have hkeep : h.contains keep = true := contains_iff.2 ⟨n, hn⟩
    have hdrop : h.contains drop = true := contains_iff.2 ⟨m, hm⟩
    obtain ⟨r, k₁, hr, hk₁, hmir⟩ := hl.mirrors j k hk
    obtain ⟨k₂, hk₂, hmir'⟩ := hl.linked.exists_mirror_contract hkd hn hm hlike hl.noLoop hk₁
    refine ⟨_, k₂, hr.contract hkd hkeep hdrop, hk₂, (hmir.trans hmir').congr ?_⟩
    -- who stands for a successor is renamed as well
    intro s hs
    obtain ⟨t, ht⟩ := hl.exists_stands hk hs
    rw [Function.comp_apply, ht.standIn_eq, (ht.contract hkd hkeep hdrop).standIn_eq]
    rfl

theorem Lumps.mergeAll (hl : Lumps g h) {plan : List (NodeId × NodeId)}
    (hplan : ∀ p ∈ plan, h.Alike p.1 p.2) : Lumps g (h.mergeAll plan) := by
  refine mergeAll_induction (P := Lumps g) (R := Alike) hl (fun p hp _ _ => hplan p hp) ?_
  intro h keep drop hl hkd hk hd hlike
  obtain ⟨n, hn⟩ := contains_iff.1 hk
  obtain ⟨m, hm⟩ := contains_iff.1 hd
  refine ⟨hl.contract hkd hn hm (hlike n m hn hm), ?_⟩
  -- alike nodes are renamed alike
  intro a b ha hb hla hlb hab na' nb' hna' hnb'
  obtain ⟨na, hna⟩ := contains_iff.1 hla
  obtain ⟨nb, hnb⟩ := contains_iff.1 hlb
  obtain ⟨na'', hna'', hmira⟩ :=
    hl.linked.mirrors_contract hkd hn hm (hlike n m hn hm) hl.noLoop ha hna
  obtain ⟨nb'', hnb'', hmirb⟩ :=
    hl.linked.mirrors_contract hkd hn hm (hlike n m hn hm) hl.noLoop hb hnb
  obtain rfl : na' = na'' := Option.some_inj.1 (hna'.symm.trans hna'')
  obtain rfl : nb' = nb'' := Option.some_inj.1 (hnb'.symm.trans hnb'')
  exact (hab na nb hna hnb).alike hmirb hmira

theorem Lumps.fuseSinks (hl : Lumps g h) : Lumps g h.fuseSinks.2 := by
  refine hl.mergeAll ?_
  intro p hp n m hn hm
  obtain ⟨k, hf₁, hf₂⟩ := face?_of_mem_sinkMerges hp
  rw [face?_of_node? hn] at hf₁
  rw [face?_of_node? hm] at hf₂
  simp only [Option.some.injEq, Prod.mk.injEq] at hf₁ hf₂
  exact .of_sinks hf₂.1 hf₁.1 (hf₁.2.trans hf₂.2.symm)

theorem Lumps.fuseNodes (hl : Lumps g h) : Lumps g h.fuseNodes.2 := by
  refine fuseNodes_induction hl ?_
  intro h hl
  refine hl.mergeAll ?_
  intro p hp n m hn hm
  obtain ⟨n', m', hn', hm', hsink, hlabel, hperm⟩ := node?_of_mem_nodeMerges hp
  obtain rfl : n = n' := Option.some_inj.1 (hn.symm.trans hn')
  obtain rfl : m = m' := Option.some_inj.1 (hm.symm.trans hm')
  exact .of_perm (hlabel ▸ hsink) hlabel.symm hperm

/-! ### Tables of the fused game -/

/-- A table of a game as a table of the game before merges: every id has the value of the
node that stands for it. -/
def pullBack (h : Game) (w : ValueTable) : ValueTable :=
  ⟨(Array.range h.capacity).map fun j => w.value (h.standIn j)⟩

theorem value_pullBack (w : ValueTable) (hj : j < h.capacity) :
    (h.pullBack w).value j = w.value (h.standIn j) :=
  ValueTable.value_map_range _ hj

theorem Stands.value_pullBack (hs : h.Stands j r) (w : ValueTable) :
    (h.pullBack w).value j = w.value r := by
  obtain ⟨k, hk⟩ := hs
  rw [Game.value_pullBack w hk.lt_capacity, Stands.standIn_eq ⟨k, hk⟩]

/-- A node computes from the table before merges what the one that stands for it computes
from the table. -/
theorem Lumps.step?_eq (hl : Lumps g h) (w : ValueTable) (hj : g.contains j = true) :
    ∃ r, h.Stands j r ∧ h.contains r = true ∧ g.step? (h.pullBack w) j = h.step? w r := by
  obtain ⟨n, hn⟩ := contains_iff.1 hj
  obtain ⟨r, m, hr, hm, hmir⟩ := hl.mirrors j n hn
  refine ⟨r, hr, contains_iff.2 ⟨m, hm⟩, ?_⟩
  have hyields : ∀ x, n.Yields (h.pullBack w).value x ↔ m.Yields w.value x := by
    intro x
    rw [← hmir.yields_iff]
    refine Node.yields_congr fun s hs => ?_
    obtain ⟨t, ht⟩ := hl.exists_stands hn hs
    rw [ht.value_pullBack, Function.comp_apply, ht.standIn_eq]
  apply Option.ext
  intro x
  rw [step?, hn, step?, hm]
  exact Node.step?_eq_some_iff.trans ((hyields x).trans Node.step?_eq_some_iff.symm)

/-- The game after both fusion passes. -/
def fused (g : Game) : Game := g.fuseSinks.2.fuseNodes.2

/-- **Fusion preserves the equations of the game.** Let every node have the value of the
one that stands for it after fusion. Then a node that survives computes in both games the
same, and a node that was merged away computes what the one that stands for it does. So a
table that solves the fused game solves the game. Sinks may have edges and players
self-loops; average nodes may not lead to themselves. -/
theorem fusion_preserves_equations (hg : g.Linked) (hloop : g.NoAverageLoop) (w : ValueTable) :
    (∀ j r, g.contains j = true → g.fused.representative? j = some r →
      (g.fused.pullBack w).value j = w.value r) ∧
    (∀ j, g.fused.contains j = true → g.contains j = true ∧
      g.fused.representative? j = some j ∧ g.fused.step? w j = g.step? (g.fused.pullBack w) j) ∧
    (∀ j, g.contains j = true → g.fused.contains j = false →
      ∃ r, g.fused.representative? j = some r ∧ g.fused.contains r = true ∧
        g.step? (g.fused.pullBack w) j = g.fused.step? w r) ∧
    ((∀ j x, g.fused.step? w j = some x → w.value j = x) →
      ∀ j x, g.step? (g.fused.pullBack w) j = some x → (g.fused.pullBack w).value j = x) := by
  have hl : Lumps g g.fused := (Lumps.refl hg hloop).fuseSinks.fuseNodes
  refine ⟨?_, ?_, ?_, ?_⟩
  · intro j r hj hr
    obtain ⟨r', hs, -, -⟩ := hl.step?_eq w hj
    obtain rfl : r' = r := Option.some_inj.1 (hs.representative?.symm.trans hr)
    exact hs.value_pullBack w
  · intro j hj
    obtain ⟨r, hs, -, hstep⟩ := hl.step?_eq w (hl.live j hj)
    obtain rfl := (Stands.of_contains hj).unique hs
    exact ⟨hl.live j hj, hs.representative?, hstep.symm⟩
  · intro j hj _
    obtain ⟨r, hs, hr, hstep⟩ := hl.step?_eq w hj
    exact ⟨r, hs.representative?, hr, hstep⟩
  · intro hfix j x hx
    obtain ⟨n, hn, -⟩ := step?_eq_some_iff.1 hx
    obtain ⟨r, hs, -, hstep⟩ := hl.step?_eq w (contains_iff.2 ⟨n, hn⟩)
    rw [hs.value_pullBack]
    exact hfix r x (hstep.symm.trans hx)

/-- Two maximizers: the first can wait or ask for a coin, the second can pass to the first
or ask for another coin, which pays at another sink. A minimizer chooses between them. -/
def twins : Game :=
  List.foldl perform empty
    [.addNode .max, .addNode .max, .addSink false, .addSink true, .addSink true,
      .addNode .average, .addNode .average, .addNode .min, .addEdge 0 0 1, .addEdge 0 5 1,
      .addEdge 1 0 1, .addEdge 1 6 1, .addEdge 5 2 (1 / 2), .addEdge 5 3 (1 / 2),
      .addEdge 6 2 (1 / 2), .addEdge 6 4 (1 / 2), .addEdge 7 0 1, .addEdge 7 1 1]

/-- A solution of the fused `twins`; merged ids hold what nothing reads. -/
def fusedTwinsValues : ValueTable := ⟨#[1 / 2, 7, 0, 1, 7, 1 / 2, 7, 1 / 2]⟩

/-- Once the sinks are fused the coins are alike, and once these are, the maximizers. -/
theorem fused_twins :
    twins.fused = (twins.fuseSinks.2.mergeAll [(5, 6)]).mergeAll [(0, 1)] := by
  have hfirst : twins.fuseSinks.2.nodeMerges = [(5, 6)] := by
    rw [nodeMerges_of_sorted (by decide +kernel)]
    decide +kernel
  have hsecond : (twins.fuseSinks.2.mergeAll [(5, 6)]).nodeMerges = [(0, 1)] := by
    rw [nodeMerges_of_sorted (by decide +kernel)]
    decide +kernel
  have hthird :
      ((twins.fuseSinks.2.mergeAll [(5, 6)]).mergeAll [(0, 1)]).nodeMerges = [] := by
    rw [nodeMerges_of_sorted (by decide +kernel)]
    decide +kernel
  have hcount : twins.fuseSinks.2.nodeCount = 5 + 1 + 1 := by decide +kernel
  rw [fused, fuseNodes, hcount, fuseRounds_of_cons hfirst, fuseRounds_of_cons hsecond,
    fuseRounds_of_nil hthird]

theorem twins_fusion_preserves_equations :
    twins.Linked ∧ twins.NoAverageLoop ∧ twins.fused.representative? 1 = some 0 ∧
      twins.fused.representative? 6 = some 5 ∧
      ∀ j x, twins.step? (twins.fused.pullBack fusedTwinsValues) j = some x →
        (twins.fused.pullBack fusedTwinsValues).value j = x := by
  have hlinked : twins.Linked := Reachable.linked ⟨_, rfl⟩
  have hfixed : twins.fused.isFixed twins.fused.nodeIds fusedTwinsValues = true := by
    rw [fused_twins]
    decide +kernel
  refine ⟨hlinked, by decide +kernel, by rw [fused_twins]; decide +kernel,
    by rw [fused_twins]; decide +kernel, ?_⟩
  refine (fusion_preserves_equations hlinked (by decide +kernel) _).2.2.2 ?_
  intro j x hx
  obtain ⟨n, hn, -⟩ := step?_eq_some_iff.1 hx
  exact fixedAt_iff.1 (isFixed_iff.1 hfixed j (mem_nodeIds.2 ⟨n, hn⟩)) x hx

end Game

end StochasticGame
