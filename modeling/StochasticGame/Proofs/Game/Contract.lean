import Mathlib.Algebra.Field.Rat
import Mathlib.Data.List.Nodup
import StochasticGame.Game.Contract
import StochasticGame.Proofs.Game.Linked

/-!
# StochasticGame.Proofs.Game.Contract

**What merging two nodes does.** In a linked game, contracting `drop` into `keep`
leaves every edge alone that touches neither, turns the edges into `drop` into
edges into `keep`, and adds weights where both were there
(`Linked.weight?_contract`). Weights are added with `Option.merge (· + ·)`: an
absent edge adds nothing.

The proof follows the definition: the edges into `drop` are read
(`incoming`), everything at `drop` is cut (`detach`), and the edges are led to
`keep` one after another (`redirect`).
-/

namespace StochasticGame.Game

variable {g : Game} {keep drop u v : NodeId}

/-! ### Reading the edges into a node -/

theorem mem_incoming (h : g.Linked) {p : NodeId} {w : Rat} :
    (p, w) ∈ g.incoming drop ↔ g.weight? p drop = some w := by
  have hp := linked_iff.1 h p drop
  cases hn : g.node? drop with
  | none =>
    simp only [predecessors, hn, List.not_mem_nil, iff_false, Option.not_isSome_iff_eq_none] at hp
    simp [incoming, hn, hp]
  | some n =>
    simp only [predecessors, hn] at hp
    simp only [incoming, hn, List.mem_filterMap, Option.map_eq_some_iff, Prod.mk.injEq]
    constructor
    · rintro ⟨a, -, x, hx, rfl, rfl⟩
      exact hx
    · intro hw
      exact ⟨p, hp.1 (by rw [hw]; rfl), w, hw, rfl, rfl⟩

/-- Each predecessor is read once. -/
theorem nodup_incoming (g : Game) (drop : NodeId) : ((g.incoming drop).map Prod.fst).Nodup := by
  cases hn : g.node? drop with
  | none => simp [incoming, hn]
  | some n =>
    simp only [incoming, hn, List.map_filterMap]
    refine List.Nodup.filterMap ?_ n.preds.nodup
    intro a a' b hb hb'
    simp only [Option.mem_def, Option.map_map, Option.map_eq_some_iff, Function.comp_apply]
      at hb hb'
    obtain ⟨_, -, rfl⟩ := hb
    obtain ⟨_, -, h⟩ := hb'
    exact h.symm

theorem lookup_incoming (h : g.Linked) (p : NodeId) :
    (g.incoming drop).lookup p = g.weight? p drop := by
  let m : OrdMap NodeId Rat := ⟨g.incoming drop, nodup_incoming g drop⟩
  apply Option.ext
  intro w
  rw [← mem_incoming h]
  exact m.find?_eq_some_iff

/-! ### Cutting a node off -/

theorem Linked.detach (h : g.Linked) (id : NodeId) (edges : List (NodeId × Rat)) :
    (g.detach id edges).Linked := by
  have hl := Linked.foldl_removeEdge (edges.map fun e => (e.1, id)) (h.clearSuccessors id)
  rwa [List.foldl_map] at hl

theorem weight?_foldl_removeEdge_into (id : NodeId) (edges : List (NodeId × Rat)) (g : Game)
    (a b : NodeId) :
    (edges.foldl (fun g e => g.removeEdge e.1 id) g).weight? a b =
      if b = id ∧ a ∈ edges.map Prod.fst then none else g.weight? a b := by
  induction edges generalizing g with
  | nil => simp
  | cons e edges ih =>
    rw [List.foldl_cons, ih, weight?_removeEdge]
    by_cases hb : b = id
    · by_cases ha : a = e.1
      · simp [hb, ha]
      · simp only [ha, false_and, if_false, List.map_cons, List.mem_cons, false_or]
    · simp [hb]

theorem weight?_detach (h : g.Linked) (a b : NodeId) :
    (g.detach drop (g.incoming drop)).weight? a b =
      if a = drop ∨ b = drop then none else g.weight? a b := by
  rw [Game.detach, weight?_foldl_removeEdge_into, weight?_clearSuccessors]
  by_cases ha : a = drop
  · simp [ha]
  · by_cases hb : b = drop
    · subst hb
      cases hw : g.weight? a b with
      | none => simp
      | some w =>
        have hm : a ∈ (g.incoming b).map Prod.fst :=
          List.mem_map.2 ⟨(a, w), (mem_incoming h).2 hw, rfl⟩
        simp [hm]
    · simp [ha, hb]

@[simp] theorem capacity_detach (g : Game) (id : NodeId) (edges : List (NodeId × Rat)) :
    (g.detach id edges).capacity = g.capacity := by
  rw [detach, foldl_view capacity (fun g _ => capacity_removeEdge g _ _), capacity_clearSuccessors]

@[simp] theorem bindings_detach (g : Game) (id : NodeId) (edges : List (NodeId × Rat)) :
    (g.detach id edges).bindings = g.bindings := by
  rw [detach, foldl_view bindings (fun g _ => bindings_removeEdge g _ _), bindings_clearSuccessors]

@[simp] theorem grave?_detach (g : Game) (id j : NodeId) (edges : List (NodeId × Rat)) :
    (g.detach id edges).grave? j = g.grave? j := by
  rw [detach, foldl_view (grave? · j) (fun g _ => grave?_removeEdge g _ _ _),
    grave?_clearSuccessors]

@[simp] theorem face?_detach (g : Game) (id j : NodeId) (edges : List (NodeId × Rat)) :
    (g.detach id edges).face? j = g.face? j := by
  rw [detach, foldl_view (face? · j) (fun g _ => face?_removeEdge g _ _ _),
    face?_clearSuccessors]

/-! ### Leading edges elsewhere -/

theorem Linked.redirect (h : g.Linked) (keep drop : NodeId) (edges : List (NodeId × Rat)) :
    (g.redirect keep drop edges).Linked := by
  unfold Game.redirect
  induction edges generalizing g with
  | nil => exact h
  | cons e edges ih => exact ih (h.addWeight _ _ _)

@[simp] theorem capacity_redirect (g : Game) (keep drop : NodeId) (edges : List (NodeId × Rat)) :
    (g.redirect keep drop edges).capacity = g.capacity :=
  foldl_view capacity (fun g _ => capacity_addWeight g _ _ _) ..

@[simp] theorem bindings_redirect (g : Game) (keep drop : NodeId) (edges : List (NodeId × Rat)) :
    (g.redirect keep drop edges).bindings = g.bindings :=
  foldl_view bindings (fun g _ => bindings_addWeight g _ _ _) ..

@[simp] theorem grave?_redirect (g : Game) (keep drop j : NodeId) (edges : List (NodeId × Rat)) :
    (g.redirect keep drop edges).grave? j = g.grave? j :=
  foldl_view (grave? · j) (fun g _ => grave?_addWeight g _ _ _ _) ..

@[simp] theorem face?_redirect (g : Game) (keep drop j : NodeId) (edges : List (NodeId × Rat)) :
    (g.redirect keep drop edges).face? j = g.face? j :=
  foldl_view (face? · j) (fun g _ => face?_addWeight g _ _ _ _) ..

/-- The weights that leave `a` in a list of edges once `drop` is read as `keep`,
added to a weight that is there already. -/
def gather (keep drop a : NodeId) (edges : List (NodeId × Rat)) (start : Option Rat) :
    Option Rat :=
  edges.foldl
    (fun o e => if a = (if e.1 = drop then keep else e.1) then o.merge (· + ·) (some e.2) else o)
    start

theorem weight?_redirect (hk : g.contains keep = true) (edges : List (NodeId × Rat))
    (he : ∀ e ∈ edges, g.contains e.1 = true) (a b : NodeId) :
    (g.redirect keep drop edges).weight? a b =
      if b = keep then gather keep drop a edges (g.weight? a keep) else g.weight? a b := by
  induction edges generalizing g with
  | nil =>
    by_cases hb : b = keep <;> simp [Game.redirect, gather, hb]
  | cons e edges ih =>
    have hs : g.contains (if e.1 = drop then keep else e.1) = true := by
      split
      · exact hk
      · exact he e List.mem_cons_self
    have hc : ∀ j, (g.addWeight (if e.1 = drop then keep else e.1) keep e.2).contains j =
        g.contains j := by
      intro j
      rw [contains_eq_isSome_face?, face?_addWeight, ← contains_eq_isSome_face?]
    have ih' := ih ((hc keep).trans hk)
      (fun x hx => (hc x.1).trans (he x (List.mem_cons_of_mem _ hx)))
    rw [Game.redirect, List.foldl_cons, ← Game.redirect, ih', weight?_addWeight hs hk,
      weight?_addWeight hs hk]
    by_cases hb : b = keep
    · by_cases ha : a = (if e.1 = drop then keep else e.1) <;> simp [gather, hb, ha]
    · simp [hb]

/-- Away from the merged nodes, at most one listed edge starts at a node. -/
theorem gather_of_ne {a : NodeId} (hak : a ≠ keep) (had : a ≠ drop) (edges : List (NodeId × Rat))
    (hn : (edges.map Prod.fst).Nodup) (start : Option Rat) :
    gather keep drop a edges start = start.merge (· + ·) (edges.lookup a) := by
  induction edges generalizing start with
  | nil => simp [gather]
  | cons e edges ih =>
    simp only [List.map_cons, List.nodup_cons] at hn
    rw [gather, List.foldl_cons, ← gather, ih hn.2, OrdMap.lookup_cons_ite]
    by_cases hae : a = e.1
    · have hl : edges.lookup a = none := by
        rw [List.lookup_eq_none_iff]
        intro p hp
        have : a ≠ p.1 := fun hap => hn.1 (hae ▸ hap ▸ List.mem_map.2 ⟨p, hp, rfl⟩)
        simpa using this
      have hed : ¬ e.1 = drop := fun hed => had (hae.trans hed)
      rw [hl, if_neg hed, if_pos hae, if_pos hae, Option.merge_none_right]
    · rw [if_neg hae]
      by_cases hed : e.1 = drop
      · rw [if_pos hed, if_neg hak]
      · rw [if_neg hed, if_neg hae]

/-- At the kept node, edges from both merged nodes add up. -/
theorem gather_keep (hkd : keep ≠ drop) (edges : List (NodeId × Rat))
    (hn : (edges.map Prod.fst).Nodup) (start : Option Rat) :
    gather keep drop keep edges start =
      (start.merge (· + ·) (edges.lookup keep)).merge (· + ·) (edges.lookup drop) := by
  have hcomm : ∀ a b c : Option Rat,
      (a.merge (· + ·) b).merge (· + ·) c = (a.merge (· + ·) c).merge (· + ·) b := by
    intro a b c
    cases a <;> cases b <;> cases c <;>
      simp only [Option.merge_none_left, Option.merge_none_right, Option.merge_some_some, add_comm,
        add_left_comm]
  induction edges generalizing start with
  | nil => simp [gather]
  | cons e edges ih =>
    simp only [List.map_cons, List.nodup_cons] at hn
    have hl : edges.lookup e.1 = none := by
      rw [List.lookup_eq_none_iff]
      intro p hp
      have : e.1 ≠ p.1 := fun hep => hn.1 (hep ▸ List.mem_map.2 ⟨p, hp, rfl⟩)
      simpa using this
    rw [gather, List.foldl_cons, ← gather, ih hn.2, OrdMap.lookup_cons_ite,
      OrdMap.lookup_cons_ite]
    by_cases hed : e.1 = drop
    · -- the loop of the dropped node
      rw [hed] at hl
      have hke : ¬ keep = e.1 := fun hke => hkd (hke.trans hed)
      rw [if_pos hed, if_pos rfl, if_neg hke, if_pos hed.symm, hl, Option.merge_none_right, hcomm]
    · have hde : ¬ drop = e.1 := fun hde => hed hde.symm
      rw [if_neg hed, if_neg hde]
      by_cases hke : keep = e.1
      · rw [← hke] at hl
        rw [if_pos hke, if_pos hke, hl, Option.merge_none_right]
      · rw [if_neg hke, if_neg hke]

/-! ### The whole merge -/

/-- The weight of the edge from `a` to the kept node after merging `drop` into
`keep`. -/
def mergedWeight? (g : Game) (keep drop a : NodeId) : Option Rat :=
  let own := (g.weight? a keep).merge (· + ·) (g.weight? a drop)
  if a = keep then own.merge (· + ·) (g.weight? drop drop) else own

theorem getD_merge (a b : Option Rat) :
    (a.merge (· + ·) b).getD 0 = a.getD 0 + b.getD 0 := by
  cases a <;> cases b <;> simp

/-- A merged edge has the weights of the edges that it is merged from, an absent one
counting as 0. -/
theorem getD_mergedWeight? (g : Game) (keep drop a : NodeId) :
    (g.mergedWeight? keep drop a).getD 0 = (g.weight? a keep).getD 0 + (g.weight? a drop).getD 0 +
      if keep = a then (g.weight? drop drop).getD 0 else 0 := by
  unfold mergedWeight?
  by_cases ha : keep = a
  · rw [if_pos ha.symm, if_pos ha, getD_merge, getD_merge]
  · rw [if_neg (Ne.symm ha), if_neg ha, getD_merge, add_zero]

/-- A merged edge is there if one of the edges is that it is merged from. -/
theorem isSome_mergedWeight?_iff (g : Game) (keep drop a : NodeId) :
    (g.mergedWeight? keep drop a).isSome ↔ keep ∈ g.successors a ∨ drop ∈ g.successors a ∨
      keep = a ∧ drop ∈ g.successors drop := by
  simp only [mem_successors_iff, mergedWeight?]
  by_cases ha : keep = a
  · simp [ha, or_assoc]
  · simp [ha, Ne.symm ha]

theorem contract_of_live (hkd : keep ≠ drop) (hk : g.contains keep = true)
    (hd : g.contains drop = true) :
    g.contract keep drop =
      ((g.detach drop (g.incoming drop)).redirect keep drop (g.incoming drop)).setSlot drop
        (.merged keep) := by
  rw [contract, if_pos ⟨hkd, hk, hd⟩]

theorem contract_of_not_live (h : ¬ (g.contains keep = true ∧ g.contains drop = true)) :
    g.contract keep drop = g := by
  rw [contract, if_neg (fun hx => h hx.2)]

/-- The edges of the game just before the slot of the dropped node is emptied. -/
theorem Linked.weight?_redirect_detach (h : g.Linked) (hkd : keep ≠ drop)
    (hk : g.contains keep = true) (a b : NodeId) :
    ((g.detach drop (g.incoming drop)).redirect keep drop (g.incoming drop)).weight? a b =
      if a = drop ∨ b = drop then none
      else if b = keep then g.mergedWeight? keep drop a else g.weight? a b := by
  have hc : ∀ j, (g.detach drop (g.incoming drop)).contains j = g.contains j := by
    intro j
    rw [contains_eq_isSome_face?, face?_detach, ← contains_eq_isSome_face?]
  have he : ∀ e ∈ g.incoming drop, (g.detach drop (g.incoming drop)).contains e.1 = true := by
    intro e he
    rw [hc]
    exact contains_of_weight? ((mem_incoming h).1 he)
  have hn := nodup_incoming g drop
  rw [weight?_redirect ((hc keep).trans hk) _ he, weight?_detach h, weight?_detach h]
  by_cases ha : a = drop
  · -- nothing leaves the dropped node, since its own edges now leave `keep`
    subst ha
    have hg : ∀ edges : List (NodeId × Rat), gather keep a a edges none = none := by
      intro edges
      induction edges with
      | nil => rfl
      | cons e edges ih =>
        have hne : ¬ a = (if e.1 = a then keep else e.1) := by
          split
          · exact fun hx => hkd hx.symm
          · rename_i hea
            exact fun hx => hea hx.symm
        rw [gather, List.foldl_cons, if_neg hne, ← gather, ih]
    by_cases hb : b = keep <;> simp [hb, hg]
  · by_cases hb : b = keep
    · subst hb
      have hdb : ¬ (a = drop ∨ b = drop) := not_or.2 ⟨ha, hkd⟩
      rw [if_pos rfl, if_neg hdb, if_neg hdb, if_pos rfl, mergedWeight?]
      by_cases hab : a = b
      · subst hab
        rw [gather_keep hkd _ hn, lookup_incoming h, lookup_incoming h]
        simp
      · rw [gather_of_ne hab ha _ hn, lookup_incoming h]
        simp [hab]
    · simp [hb]

/-- **The edges after a merge.** -/
theorem Linked.weight?_contract (h : g.Linked) (hkd : keep ≠ drop) (hk : g.contains keep = true)
    (hd : g.contains drop = true) (a b : NodeId) :
    (g.contract keep drop).weight? a b =
      if a = drop ∨ b = drop then none
      else if b = keep then g.mergedWeight? keep drop a else g.weight? a b := by
  rw [contract_of_live hkd hk hd, weight?_setSlot rfl, h.weight?_redirect_detach hkd hk]
  by_cases ha : a = drop <;> simp [ha]

@[simp] theorem capacity_contract (g : Game) (keep drop : NodeId) :
    (g.contract keep drop).capacity = g.capacity := by
  unfold contract
  split <;> simp

@[simp] theorem bindings_contract (g : Game) (keep drop : NodeId) :
    (g.contract keep drop).bindings = g.bindings := by
  unfold contract
  split <;> simp

theorem face?_contract (hkd : keep ≠ drop) (hk : g.contains keep = true)
    (hd : g.contains drop = true) (j : NodeId) :
    (g.contract keep drop).face? j = if j = drop then none else g.face? j := by
  rw [contract_of_live hkd hk hd, face?_setSlot rfl, face?_redirect, face?_detach]

theorem contains_contract_of_ne (hkd : keep ≠ drop) (hk : g.contains keep = true)
    (hd : g.contains drop = true) {j : NodeId} (hj : j ≠ drop) :
    (g.contract keep drop).contains j = g.contains j := by
  rw [contains_eq_isSome_face?, face?_contract hkd hk hd, if_neg hj, contains_eq_isSome_face?]

theorem grave?_contract (hkd : keep ≠ drop) (hk : g.contains keep = true)
    (hd : g.contains drop = true) (j : NodeId) :
    (g.contract keep drop).grave? j = if j = drop then some (.merged keep) else g.grave? j := by
  have hlt : drop < g.capacity := lt_capacity_of_contains hd
  rw [contract_of_live hkd hk hd, grave?_setSlot rfl]
  simp [hlt]

/-- A slot whose node has no edges can be emptied. -/
theorem Linked.setSlot (h : g.Linked) {id : NodeId} {s : Slot} (hs : s.node? = none)
    (hin : ∀ a, g.weight? a id = none) (hout : ∀ b, g.weight? id b = none) :
    (g.setSlot id s).Linked := by
  rw [linked_iff] at h ⊢
  intro a b
  rw [weight?_setSlot hs, predecessors_setSlot hs]
  by_cases hb : b = id
  · subst hb
    by_cases ha : a = b <;> simp [ha, hin]
  · by_cases ha : a = id
    · subst ha
      have hab := h a b
      rw [hout] at hab
      simpa [hb] using hab
    · simp [ha, hb, h]

theorem Linked.contract (h : g.Linked) (keep drop : NodeId) : (g.contract keep drop).Linked := by
  by_cases hl : keep ≠ drop ∧ g.contains keep = true ∧ g.contains drop = true
  · obtain ⟨hkd, hk, hd⟩ := hl
    rw [contract_of_live hkd hk hd]
    refine ((h.detach drop _).redirect keep drop _).setSlot rfl ?_ ?_
    · intro a
      rw [h.weight?_redirect_detach hkd hk]
      simp
    · intro b
      rw [h.weight?_redirect_detach hkd hk]
      simp
  · rw [Game.contract, if_neg hl]
    exact h

/-- A merge leaves the payoffs on record. -/
theorem prunedPayoff?_contract (g : Game) (keep drop j : NodeId) :
    (g.contract keep drop).prunedPayoff? j = g.prunedPayoff? j := by
  by_cases hl : keep ≠ drop ∧ g.contains keep = true ∧ g.contains drop = true
  · obtain ⟨hkd, hk, hd⟩ := hl
    apply Option.ext
    intro x
    rw [prunedPayoff?_eq_some_iff, prunedPayoff?_eq_some_iff, grave?_contract hkd hk hd]
    by_cases hj : j = drop
    · -- neither a live node nor a merged one has a payoff on record
      simp [hj, grave?_of_contains hd]
    · rw [if_neg hj]
  · rw [Game.contract, if_neg hl]

/-- **What a merge does, and that it does nothing else.** Two different live nodes are
merged as follows. The dropped one is no longer live, and nothing leads to it. Every other
node keeps its label, its known value and its edges to third nodes. It leads to the kept
node if it led to either of the two, and the kept node leads to itself also if the dropped
one did; the weight is the sum of the weights of these edges. States stay bound as they
were and payoffs on record stay there, and the two records of the edges still agree. If the
two are the same or one of them is not live, nothing happens. -/
theorem contract_effect (h : g.Linked) (keep drop : NodeId) :
    (keep ≠ drop → g.contains keep = true → g.contains drop = true →
      (g.contract keep drop).contains drop = false ∧
      (∀ u, drop ∉ (g.contract keep drop).successors u) ∧
      (∀ u, u ≠ drop → (g.contract keep drop).face? u = g.face? u) ∧
      (∀ u v, u ≠ drop → v ≠ keep → v ≠ drop →
        (g.contract keep drop).weight? u v = g.weight? u v) ∧
      ∀ u, u ≠ drop →
        (keep ∈ (g.contract keep drop).successors u ↔ keep ∈ g.successors u ∨
          drop ∈ g.successors u ∨ keep = u ∧ drop ∈ g.successors drop) ∧
        ∀ x, (g.contract keep drop).weight? u keep = some x →
          x = (g.weight? u keep).getD 0 + (g.weight? u drop).getD 0 +
            if keep = u then (g.weight? drop drop).getD 0 else 0) ∧
    (g.contract keep drop).Linked ∧
    (g.contract keep drop).bindings = g.bindings ∧
    (∀ j, (g.contract keep drop).prunedPayoff? j = g.prunedPayoff? j) ∧
    (keep = drop ∨ g.contains keep = false ∨ g.contains drop = false →
      g.contract keep drop = g) := by
  refine ⟨?_, h.contract keep drop, bindings_contract .., prunedPayoff?_contract g keep drop, ?_⟩
  · intro hkd hk hd
    have hweight := h.weight?_contract hkd hk hd
    refine ⟨?_, ?_, ?_, ?_, ?_⟩
    · rw [contains_eq_isSome_face?, face?_contract hkd hk hd, if_pos rfl]
      rfl
    · intro u
      rw [mem_successors_iff, hweight, if_pos (Or.inr rfl)]
      exact Bool.false_ne_true
    · intro u hu
      rw [face?_contract hkd hk hd, if_neg hu]
    · intro u v hu hvk hvd
      rw [hweight, if_neg (not_or.2 ⟨hu, hvd⟩), if_neg hvk]
    · intro u hu
      have hkeep : (g.contract keep drop).weight? u keep = g.mergedWeight? keep drop u := by
        rw [hweight, if_neg (not_or.2 ⟨hu, hkd⟩), if_pos rfl]
      rw [mem_successors_iff, hkeep, isSome_mergedWeight?_iff, ← getD_mergedWeight?]
      refine ⟨Iff.rfl, ?_⟩
      intro x hx
      rw [hx, Option.getD_some]
  · intro hnone
    rw [Game.contract, if_neg]
    rintro ⟨hkd, hk, hd⟩
    cases hnone with
    | inl he => exact hkd he
    | inr hdead => simp [hk, hd] at hdead

/-- Two maximizers that lead to each other, of which the second can also wait, a coin that
leads to both, and a minimizer that leads to the second. -/
def tangle : Game :=
  (((((((((((((empty.addNode .average).2.addNode .max).2.addNode .max).2.addNode .min).2.addEdge
    0 1 (1 / 4)).addEdge 0 2 (1 / 4)).addEdge 0 3 (1 / 2)).addEdge 1 2 1).addEdge 1 3 1).addEdge
    2 1 1).addEdge 2 2 1).addEdge 3 2 1).bindState 7 2)

theorem linked_tangle : tangle.Linked :=
  (((((((((((((linked_empty.addNode _).addNode _).addNode _).addNode _).addEdge _ _ _).addEdge
    _ _ _).addEdge _ _ _).addEdge _ _ _).addEdge _ _ _).addEdge _ _ _).addEdge _ _ _).addEdge
    _ _ _).bindState _ _)

/-- The kept maximizer can wait now: it takes over the loop of the dropped one and its own
edge to it. The minimizer leads to it, and the other branch of the coin is as it was. -/
theorem tangle_contract_effect :
    tangle.Linked ∧ tangle.contains 1 = true ∧ tangle.contains 2 = true ∧
      (tangle.contract 1 2).contains 2 = false ∧
      1 ∈ (tangle.contract 1 2).successors 3 ∧ 1 ∈ (tangle.contract 1 2).successors 1 ∧
      (∀ x, (tangle.contract 1 2).weight? 1 1 = some x → x = 1 + 1) ∧
      (tangle.contract 1 2).weight? 0 3 = tangle.weight? 0 3 ∧
      (tangle.contract 1 2).bindings = tangle.bindings ∧ tangle.contract 2 2 = tangle := by
  have hk : tangle.contains 1 = true := by decide
  have hd : tangle.contains 2 = true := by decide
  obtain ⟨hlive, -, hbind, -, -⟩ := contract_effect linked_tangle 1 2
  obtain ⟨hgone, -, -, hother, hkeep⟩ := hlive (by decide) hk hd
  have hloop : tangle.weight? 1 1 = none ∧ tangle.weight? 1 2 = some 1 ∧
      tangle.weight? 2 2 = some 1 := ⟨rfl, rfl, rfl⟩
  refine ⟨linked_tangle, hk, hd, hgone, ?_, ?_, ?_, hother 0 3 (by decide) (by decide) (by decide),
    hbind, (contract_effect linked_tangle 2 2).2.2.2.2 (Or.inl rfl)⟩
  · exact (hkeep 3 (by decide)).1.2 (Or.inr (Or.inl (by decide)))
  · exact (hkeep 1 (by decide)).1.2 (Or.inr (Or.inl (by decide)))
  · intro x hx
    have hsum := (hkeep 1 (by decide)).2 x hx
    rw [hloop.1, hloop.2.1, hloop.2.2, if_pos rfl] at hsum
    simpa using hsum

end StochasticGame.Game
