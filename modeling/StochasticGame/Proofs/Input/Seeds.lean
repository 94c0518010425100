import StochasticGame.Proofs.Input.Grammar
import StochasticGame.Proofs.Reduction.Sinks
import StochasticGame.Proofs.Solver.Run

/-!
# StochasticGame.Proofs.Input.Seeds

**What is known when a game has been read.** Probabilities are rounded to fractions of the
unit interval with small denominators, so no weight is negative. A known value is 0 or 1
until average nodes are seeded; a seed is a sum of known values with weights that need not
sum to 1, so it may be above 1, but it is never negative.

Seeding only fills in values (`Fills`), so what a seed was computed from is still there in
the end (`explained_foldl_seed`).

All successors of a seeded node were known before it. Following seeded nodes, one ends
at settled ones: `Seeded.grounded`. This is why promotion, which cuts the edges of
settled nodes, leaves no seeded node on a cycle.
-/

namespace StochasticGame

/-- No probability of a choice is negative. -/
def Choice.Nonneg : Choice → Prop
  | .sure _ => True
  | .random distribution => ∀ p ∈ distribution, 0 ≤ p.1

/-- All probabilities of a choice are fractions of the unit interval that can be trusted. -/
def Choice.Trusted : Choice → Prop
  | .sure _ => True
  | .random distribution => ∀ p ∈ distribution, 0 ≤ p.1 ∧ p.1 ≤ 1 ∧ p.1.den ≤ 10

theorem Choice.Trusted.nonneg {choice : Choice} (h : choice.Trusted) : choice.Nonneg := by
  cases choice with
  | sure => exact trivial
  | random distribution => exact fun p hp => (h p hp).1

namespace Input

/-! ### Probabilities -/

theorem Pairs.trusted {ws : List (List Char)} {pairs : List (Rat × Nat)} (h : Pairs ws pairs) :
    ∀ q ∈ pairs, 0 ≤ q.1 ∧ q.1 ≤ 1 ∧ q.1.den ≤ 10 := by
  induction h with
  | nil => simp
  | cons _ hp _ _ ih =>
    obtain ⟨x, -, f, ⟨hf, -⟩, rfl⟩ := hp
    refine List.forall_mem_cons.2 ⟨⟨f.toRat_nonneg, ?_, ?_⟩, ih⟩
    · exact Fraction.toRat_le_one hf.pos hf.le
    · exact hf.den_toRat ▸ hf.den_le

theorem Group.trusted {group : List (List Char)} {choice : Choice} (h : Group group choice) :
    choice.Trusted := by
  cases h with
  | sure => exact trivial
  | random _ hpairs => exact hpairs.trusted

theorem trusted_of_readTransitionLine {line : Nat} {text : List Char} {entry : Option Transition}
    (h : readTransitionLine line text = .ok entry) :
    ∀ t ∈ entry, ∀ c ∈ t.choices, c.Trusted := by
  intro t ht
  rw [Option.mem_def.1 ht] at h
  obtain ⟨groups, hreading⟩ := readTransitionLine_eq_ok_some_iff.1 h
  obtain ⟨-, hgroups⟩ := hreading
  generalize t.choices = choices at hgroups ⊢
  induction hgroups with
  | nil => simp
  | cons hgroup _ ih => exact List.forall_mem_cons.2 ⟨hgroup.trusted, ih⟩

theorem trusted_of_readTransitions {bytes : ByteArray} {transitions : List Transition}
    (h : readTransitions bytes = .ok transitions) :
    ∀ t ∈ transitions, ∀ c ∈ t.choices, c.Trusted :=
  forall_mem_of_readLines (fun _ _ _ hentry => trusted_of_readTransitionLine hentry) h

/-! ### The construction -/

section Construction

open Game

variable {P : Game → Prop} {labels : List StateLabel} {g g' : Game} {source : NodeId}

/-- What the construction may do to a game: it adds the node of a state whose known value
is missing, 0 or 1, an average node, and an edge whose weight is not negative. -/
structure Keeps (P : Game → Prop) : Prop where
  /-- It adds the node of a state. -/
  withState : ∀ g state l k, P g → (k = none ∨ k = some 0 ∨ k = some 1) →
    P (g.withState state l k)
  /-- It adds an average node. -/
  addNode : ∀ g, P g → P (g.addNode .average).2
  /-- It adds an edge. -/
  addEdge : ∀ g u v w, P g → 0 ≤ w → P (g.addEdge u v w)

theorem Keeps.stateNode (hP : Keeps P) {state : Nat} {id : NodeId} (hg : P g)
    (h : stateNode labels g state = .ok (id, g')) : P g' := by
  unfold Input.stateNode at h
  split at h
  · obtain ⟨-, rfl⟩ := Prod.mk.inj (Except.ok.inj h)
    exact hg
  · split at h
    · cases h
    · rename_i entry _
      obtain ⟨-, rfl⟩ := Prod.mk.inj (Except.ok.inj h)
      refine hP.withState g state entry.label _ hg ?_
      cases entry.value with
      | none => exact Or.inl rfl
      | some one => cases one <;> simp

theorem Keeps.addTarget (hP : Keeps P) {target : Rat × Nat} (hg : P g) (hw : 0 ≤ target.1)
    (h : addTarget labels source g target = .ok g') : P g' := by
  unfold Input.addTarget at h
  rw [bind_eq_ok_iff] at h
  obtain ⟨⟨id, g₁⟩, hs, h⟩ := h
  obtain rfl := Except.ok.inj h
  exact hP.addEdge _ _ _ _ (hP.stateNode hg hs) hw

theorem Keeps.addChoice (hP : Keeps P) {choice : Choice} (hg : P g) (hc : choice.Nonneg)
    (h : addChoice labels source g choice = .ok g') : P g' := by
  cases choice with
  | sure state => exact hP.addTarget hg zero_le_one h
  | random distribution =>
    refine foldlM_ok_induction ?_ (hP.addEdge _ _ _ _ (hP.addNode g hg) zero_le_one) h
    intro g₁ target htarget g₂ hg₁ hstep
    exact hP.addTarget hg₁ (hc target htarget) hstep

theorem Keeps.addTransition (hP : Keeps P) {t : Transition} (hg : P g)
    (ht : ∀ c ∈ t.choices, c.Nonneg) (h : addTransition labels g t = .ok g') : P g' := by
  unfold Input.addTransition at h
  rw [bind_eq_ok_iff] at h
  obtain ⟨⟨source, g₁⟩, hs, h⟩ := h
  exact foldlM_ok_induction (fun g₁ choice hc g₂ hg₁ hstep => hP.addChoice hg₁ (ht choice hc) hstep)
    (hP.stateNode hg hs) h

end Construction

end Input

theorem Node.outDegree_ne_zero_iff {n : Node} : n.outDegree ≠ 0 ↔ n.successors ≠ [] := by
  rw [← List.length_pos_iff, Node.successors, OrdMap.length_keys, Nat.pos_iff_ne_zero,
    Node.outDegree]

namespace Game

open Input

variable {g g' : Game} {id : NodeId}

/-- What the construction leaves before seeding: no weight is negative, and known values
are 0 or 1. -/
structure Unseeded (g : Game) : Prop where
  /-- No weight is negative. -/
  nonneg : ∀ u v w, g.weight? u v = some w → 0 ≤ w
  /-- Known values are 0 or 1. -/
  known : ∀ id l x, g.face? id = some (l, some x) → x = 0 ∨ x = 1

theorem keeps_unseeded : Keeps Unseeded where
  withState g state l k hg hk := by
    refine ⟨?_, ?_⟩
    · intro u v w hw
      rw [withState, weight?_bindState, weight?_setKnown, weight?_addNode] at hw
      exact hg.nonneg u v w hw
    · intro id l' x hf
      rw [face?_withState] at hf
      split at hf
      · simp only [Option.some.injEq, Prod.mk.injEq] at hf
        obtain ⟨-, rfl⟩ := hf
        simpa using hk
      · exact hg.known id l' x hf
  addNode g hg := by
    refine ⟨?_, ?_⟩
    · intro u v w hw
      rw [weight?_addNode] at hw
      exact hg.nonneg u v w hw
    · intro id l x hf
      rw [face?_addNode] at hf
      split at hf
      · simp at hf
      · exact hg.known id l x hf
  addEdge g u v w hg hw := by
    by_cases hlive : g.contains u = true ∧ g.contains v = true
    · refine ⟨?_, ?_⟩
      · intro a b x hx
        rw [weight?_addEdge hlive.1 hlive.2] at hx
        split at hx
        · exact Option.some_inj.1 hx ▸ hw
        · exact hg.nonneg a b x hx
      · intro id l x hf
        rw [face?_addEdge] at hf
        exact hg.known id l x hf
    · rwa [addEdge_of_not_live hlive]

/-! ### Seeds -/

/-- The relation of promotion: an edge that leaves a node which is not settled. -/
def Follows (g : Game) (s id : NodeId) : Prop := s ∈ g.successors id ∧ ¬ g.settledAt id = true

/-- A game at some point of seeding: no weight and no known value is negative, and paths
from a node of known value end if they do not go on from settled nodes. -/
structure Seeded (g : Game) : Prop where
  /-- No weight is negative. -/
  nonneg : ∀ u v w, g.weight? u v = some w → 0 ≤ w
  /-- No known value is negative. -/
  known : ∀ id l x, g.face? id = some (l, some x) → 0 ≤ x
  /-- Nodes of known value lead to settled ones. -/
  grounded : ∀ id l x, g.face? id = some (l, some x) → Acc g.Follows id

/-- A settled node is followed by none. -/
theorem acc_of_settledAt (h : g.settledAt id = true) : Acc g.Follows id :=
  ⟨id, fun _ hs => absurd h hs.2⟩

theorem Unseeded.seeded (hg : g.Unseeded) : g.Seeded where
  nonneg := hg.nonneg
  known id l x hf := by rcases hg.known id l x hf with rfl | rfl <;> norm_num
  grounded id l x hf := by
    apply acc_of_settledAt
    rw [settledAt, hf, Option.any_some, decide_eq_true_eq]
    rcases hg.known id l x hf with rfl | rfl
    · exact Or.inl rfl
    · exact Or.inr rfl

/-- A weighted sum of values all of which have to be there. -/
theorem foldlM_weightedSum (known : NodeId → Option Rat) (es : List (NodeId × Rat))
    {acc value : Rat}
    (h : es.foldlM (fun acc e => (known e.1).map fun x => acc + e.2 * x) acc = some value) :
    (∀ e ∈ es, ∃ x, known e.1 = some x) ∧
      value = acc + (es.map fun e => e.2 * (known e.1).getD 0).sum := by
  induction es generalizing acc with
  | nil =>
    obtain rfl := Option.some_inj.1 h
    simp
  | cons e es ih =>
    rw [List.foldlM_cons] at h
    cases hx : known e.1 with
    | none => simp [hx] at h
    | some x =>
      rw [hx] at h
      obtain ⟨hall, hvalue⟩ := ih h
      refine ⟨List.forall_mem_cons.2 ⟨⟨x, hx⟩, hall⟩, ?_⟩
      rw [hvalue, List.map_cons, List.sum_cons, hx, Option.getD_some, add_assoc]

/-- A seed is what the operator makes of the initial table. All that it reads is known. -/
theorem knownExpectation?_eq_some {n : Node} {value : Rat}
    (h : g.knownExpectation? n = some value) :
    (∀ s ∈ n.successors, ∃ l x, g.face? s = some (l, some x)) ∧
      value = n.weightedSum (ValueTable.ofGame g).value := by
  obtain ⟨hall, hvalue⟩ := foldlM_weightedSum (fun s => (g.node? s).bind Node.known) _ h
  refine ⟨?_, by simp only [hvalue, zero_add, Node.weightedSum, ValueTable.value_ofGame]⟩
  intro s hs
  obtain ⟨e, he, rfl⟩ := List.mem_map.1 hs
  obtain ⟨x, hx⟩ := hall e he
  obtain ⟨m, hm, hk⟩ := Option.bind_eq_some_iff.1 hx
  exact ⟨m.label, x, by rw [face?_of_node? hm, hk]⟩

theorem Seeded.value_ofGame_nonneg (hg : g.Seeded) (id : NodeId) :
    0 ≤ (ValueTable.ofGame g).value id := by
  rcases ValueTable.value_ofGame_cases g id with h | ⟨l, h⟩
  · exact h.ge
  · exact hg.known id l _ h

/-- Writing a known value keeps the game seeded if it is not negative and what follows
the node is grounded. -/
theorem Seeded.setKnown (hg : g.Seeded) {l : Label} {x : Rat} (hf : g.face? id = some (l, none))
    (hx : 0 ≤ x) (hid : Acc g.Follows id) : (g.setKnown id (some x)).Seeded := by
  have hface : ∀ j, (g.setKnown id (some x)).face? j =
      if j = id then some (l, some x) else g.face? j := by
    intro j
    rw [face?_setKnown, hf, Option.map_some]
  have hsub : Subrelation (g.setKnown id (some x)).Follows g.Follows := by
    intro s t ⟨hs, ht⟩
    rw [mem_successors_iff, weight?_setKnown, ← mem_successors_iff] at hs
    refine ⟨hs, ?_⟩
    rw [settledAt, hface] at ht
    by_cases hti : t = id
    · -- the node was not known before, let alone settled
      simp [hti, settledAt, hf]
    · rwa [if_neg hti] at ht
  refine ⟨?_, ?_, ?_⟩
  · intro u v w hw
    rw [weight?_setKnown] at hw
    exact hg.nonneg u v w hw
  · intro j l' y hj
    rw [hface] at hj
    split at hj
    · simp only [Option.some.injEq, Prod.mk.injEq] at hj
      exact hj.2 ▸ hx
    · exact hg.known j l' y hj
  · intro j l' y hj
    apply hsub.accessible
    rw [hface] at hj
    split at hj
    · rename_i hji
      exact hji ▸ hid
    · exact hg.grounded j l' y hj

theorem Seeded.seed (hg : g.Seeded) (id : NodeId) : (g.seed id).Seeded := by
  rcases g.seed_cases id with hsame | ⟨n, value, hn, -, hk, -, hvalue, hset⟩
  · rwa [hsame]
  · rw [hset]
    obtain ⟨hall, rfl⟩ := knownExpectation?_eq_some hvalue
    have hf : g.face? id = some (n.label, none) := by rw [face?_of_node? hn, hk]
    refine hg.setKnown hf ?_ ⟨id, ?_⟩
    · refine Node.weightedSum_nonneg ?_ fun s _ => hg.value_ofGame_nonneg s
      intro e he
      refine hg.nonneg id e.1 e.2 ?_
      rw [weight?_of_node? hn]
      exact OrdMap.find?_eq_some_iff.2 he
    · intro s hs
      obtain ⟨l, x, hx⟩ := hall s (by rw [← successors_of_node? hn]; exact hs.1)
      exact hg.grounded s l x hx

theorem Seeded.seedAverages (hg : g.Seeded) : g.seedAverages.Seeded := by
  unfold Game.seedAverages
  generalize g.nodeIds = ids
  induction ids generalizing g with
  | nil => exact hg
  | cons id ids ih => exact ih (hg.seed id)

/-! ### Filling in values -/

/-- The second game is the first one with known values filled in at average nodes. -/
structure Fills (g g' : Game) : Prop where
  /-- The arena is as large as before. -/
  capacity : g'.capacity = g.capacity
  /-- States are bound as before. -/
  bindings : g'.bindings = g.bindings
  /-- Only average nodes without a known value get one. -/
  node : ∀ id, g'.node? id = g.node? id ∨ ∃ n x, g.node? id = some n ∧ n.label = .average ∧
    n.known = none ∧ g'.node? id = some { n with known := some x }

namespace Fills

theorem refl (g : Game) : Fills g g := ⟨rfl, rfl, fun _ => Or.inl rfl⟩

theorem trans {g'' : Game} (h : Fills g g') (h' : Fills g' g'') : Fills g g'' where
  capacity := h'.capacity.trans h.capacity
  bindings := h'.bindings.trans h.bindings
  node id := by
    rcases h.node id with hsame | ⟨n, x, hn, hl, hk, hn'⟩
    · rw [← hsame]
      exact h'.node id
    · rcases h'.node id with hsame | ⟨m, y, hm, -, hunknown, -⟩
      · exact Or.inr ⟨n, x, hn, hl, hk, hsame.trans hn'⟩
      · -- what has been filled in is known
        obtain rfl := Option.some_inj.1 (hm.symm.trans hn')
        cases hunknown

theorem seed (g : Game) (id : NodeId) : Fills g (g.seed id) := by
  rcases g.seed_cases id with hsame | ⟨n, x, hn, hl, hk, -, -, hset⟩
  · rw [hsame]
    exact refl g
  · rw [hset]
    refine ⟨capacity_setKnown .., bindings_setKnown .., ?_⟩
    intro j
    rw [setKnown, node?_modify]
    split
    · rename_i hj
      rw [hj, hn]
      exact Or.inr ⟨n, x, rfl, hl, hk, rfl⟩
    · exact Or.inl rfl

theorem foldl_seed (ids : List NodeId) (g : Game) : Fills g (ids.foldl Game.seed g) := by
  induction ids generalizing g with
  | nil => exact refl g
  | cons id ids ih => exact (seed g id).trans (ih (g.seed id))

variable (h : Fills g g')

include h

/-- A node of known value stays as it is. -/
theorem node?_of_known {n : Node} {x : Rat} (hn : g.node? id = some n) (hk : n.known = some x) :
    g'.node? id = some n := by
  rcases h.node id with hsame | ⟨m, y, hm, -, hunknown, -⟩
  · rw [hsame, hn]
  · obtain rfl := Option.some_inj.1 (hn.symm.trans hm)
    rw [hunknown] at hk
    cases hk

/-- Every node has been there before, with its label and its successors. -/
theorem exists_node {n' : Node} (hn' : g'.node? id = some n') :
    ∃ n, g.node? id = some n ∧ n.label = n'.label ∧ n.successors = n'.successors := by
  rcases h.node id with hsame | ⟨n, x, hn, -, -, hfilled⟩
  · exact ⟨n', hsame.symm.trans hn', rfl, rfl⟩
  · obtain rfl := Option.some_inj.1 (hfilled.symm.trans hn')
    exact ⟨n, hn, rfl, rfl⟩

theorem weight?_eq (u v : NodeId) : g'.weight? u v = g.weight? u v := by
  rcases h.node u with hsame | ⟨n, x, hn, -, -, hn'⟩
  · rw [weight?, weight?, hsame]
  · rw [weight?_of_node? hn, weight?_of_node? hn']
    rfl

theorem predecessors_eq (v : NodeId) : g'.predecessors v = g.predecessors v := by
  rcases h.node v with hsame | ⟨n, x, hn, -, -, hn'⟩
  · rw [predecessors, predecessors, hsame]
  · rw [predecessors_of_node? hn, predecessors_of_node? hn']

end Fills

/-- A value is the weighted sum of the known values of a node's successors, of which there is
at least one. -/
def Explained (g : Game) (n : Node) (x : Rat) : Prop :=
  n.successors ≠ [] ∧ ∃ value : NodeId → Rat,
    (∀ v ∈ n.successors, ∃ m, g.node? v = some m ∧ m.known = some (value v)) ∧
      n.weightedSum value = x

theorem Explained.fills {n : Node} {x : Rat} (hx : Explained g n x) (h : Fills g g') :
    Explained g' n x := by
  obtain ⟨hsuccs, value, hvalue, hsum⟩ := hx
  refine ⟨hsuccs, value, ?_, hsum⟩
  intro v hv
  obtain ⟨m, hm, hk⟩ := hvalue v hv
  exact ⟨m, h.node?_of_known hm hk, hk⟩

theorem explained_of_knownExpectation? {n : Node} {x : Rat} (hd : n.outDegree ≠ 0)
    (hx : g.knownExpectation? n = some x) : Explained g n x := by
  obtain ⟨hall, hsum⟩ := knownExpectation?_eq_some hx
  refine ⟨Node.outDegree_ne_zero_iff.1 hd, (ValueTable.ofGame g).value, ?_, hsum.symm⟩
  intro v hv
  obtain ⟨l, y, hy⟩ := hall v hv
  obtain ⟨m, hm, -, hk⟩ := face?_eq_some_iff.1 hy
  exact ⟨m, hm, by rw [ValueTable.value_ofGame, hm, Option.bind_some, hk, Option.getD_some]⟩

/-- A value that is filled in by a step is explained after it. -/
theorem explained_seed {j : NodeId} {n n' : Node} {x : Rat} (hn : g.node? id = some n)
    (hk : n.known = none) (hn' : (g.seed j).node? id = some n') (hx : n'.known = some x) :
    Explained (g.seed j) n' x := by
  have hne : g.node? id ≠ some n' := by
    intro he
    obtain rfl := Option.some_inj.1 (hn.symm.trans he)
    rw [hk] at hx
    cases hx
  have hfills := Fills.seed g j
  rcases g.seed_cases j with hidle | ⟨m, y, hm, -, -, hd, hy, hset⟩
  · rw [hidle] at hn'
    exact absurd hn' hne
  · rw [hset, setKnown, node?_modify, hm] at hn'
    split at hn'
    · obtain rfl := Option.some_inj.1 hn'
      obtain rfl := Option.some_inj.1 hx
      exact (explained_of_knownExpectation? hd hy).fills hfills
    · exact absurd hn' hne

/-- **All values that are filled in are explained in the end.** -/
theorem explained_foldl_seed (ids : List NodeId) {n n' : Node} {x : Rat}
    (hn : g.node? id = some n) (hk : n.known = none)
    (hn' : (ids.foldl seed g).node? id = some n') (hx : n'.known = some x) :
    Explained (ids.foldl seed g) n' x := by
  induction ids generalizing g n with
  | nil =>
    obtain rfl := Option.some_inj.1 (hn.symm.trans hn')
    rw [hk] at hx
    cases hx
  | cons j ids ih =>
    rcases (Fills.seed g j).node id with hsame | ⟨m, y, hm, -, -, hfilled⟩
    · exact ih (hsame.trans hn) hk hn'
    · -- from now on the node stays as it is
      have hrest := Fills.foldl_seed ids (g.seed j)
      obtain rfl := Option.some_inj.1 (hn'.symm.trans (hrest.node?_of_known hfilled rfl))
      exact (explained_seed hn hk hfilled hx).fills hrest

/-- A weighted sum is there if all values are. -/
theorem exists_foldlM_weightedSum (known : NodeId → Option Rat) {es : List (NodeId × Rat)}
    (h : ∀ e ∈ es, ∃ x, known e.1 = some x) (acc : Rat) :
    ∃ value, es.foldlM (fun acc e => (known e.1).map fun x => acc + e.2 * x) acc = some value := by
  induction es generalizing acc with
  | nil => exact ⟨acc, rfl⟩
  | cons e es ih =>
    obtain ⟨⟨x, hx⟩, hrest⟩ := List.forall_mem_cons.1 h
    obtain ⟨value, hvalue⟩ := ih hrest (acc + e.2 * x)
    exact ⟨value, by rw [List.foldlM_cons, hx]; exact hvalue⟩

theorem exists_knownExpectation? {n : Node}
    (h : ∀ v ∈ n.successors, ∃ m x, g.node? v = some m ∧ m.known = some x) :
    ∃ x, g.knownExpectation? n = some x := by
  refine exists_foldlM_weightedSum (fun v => (g.node? v).bind Node.known) ?_ 0
  intro e he
  obtain ⟨m, x, hm, hx⟩ := h e.1 (Node.mem_successors_of_entry he)
  exact ⟨x, by rw [hm, Option.bind_some, hx]⟩

/-- **A node whose successors are all known from the start is seeded,** whatever is seeded
before it and after it. -/
theorem exists_known_seedAverages {n : Node} (hn : g.node? id = some n) (hl : n.label = .average)
    (hs : n.successors ≠ [])
    (hall : ∀ v ∈ n.successors, ∃ m x, g.node? v = some m ∧ m.known = some x) :
    ∃ n' x, g.seedAverages.node? id = some n' ∧ n'.known = some x := by
  obtain ⟨before, after, hids⟩ := List.append_of_mem (mem_nodeIds.2 ⟨n, hn⟩)
  rw [seedAverages, hids, List.foldl_append, List.foldl_cons]
  have hbefore := Fills.foldl_seed before g
  have hafter := Fills.foldl_seed after ((before.foldl seed g).seed id)
  generalize before.foldl seed g = g₁ at hbefore hafter ⊢
  suffices h : ∃ n' x, (g₁.seed id).node? id = some n' ∧ n'.known = some x by
    obtain ⟨n', x, hn', hx⟩ := h
    exact ⟨n', x, hafter.node?_of_known hn' hx, hx⟩
  have hseed := Fills.seed g₁ id
  rcases hbefore.node id with hsame | ⟨m, x, -, -, -, hfilled⟩
  · rw [hn] at hsame
    cases hk : n.known with
    | some x => exact ⟨n, x, hseed.node?_of_known hsame hk, hk⟩
    | none =>
      obtain ⟨x, hx⟩ : ∃ x, g₁.knownExpectation? n = some x := by
        refine exists_knownExpectation? fun v hv => ?_
        obtain ⟨m, y, hm, hy⟩ := hall v hv
        exact ⟨m, y, hbefore.node?_of_known hm hy, hy⟩
      refine ⟨{ n with known := some x }, x, ?_, rfl⟩
      rw [seed_eq_setKnown hsame hl hk (Node.outDegree_ne_zero_iff.2 hs) hx, setKnown,
        node?_modify, if_pos rfl, hsame]
      rfl
  · exact ⟨_, x, hseed.node?_of_known hfilled rfl, rfl⟩

end Game

/-- **Games that are read are seeded.** -/
theorem Input.readGame_seeded {transitions labels : ByteArray} {g : Game}
    (h : readGame transitions labels = .ok g) : g.Seeded := by
  unfold readGame at h
  simp only [bind_eq_ok_iff] at h
  obtain ⟨ts, hts, ls, -, h⟩ := h
  unfold buildGame at h
  rw [bind_eq_ok_iff] at h
  obtain ⟨g₁, hg₁, h⟩ := h
  obtain rfl := Except.ok.inj h
  have hchoices := trusted_of_readTransitions hts
  have hempty : Game.empty.Unseeded :=
    ⟨fun u v w hw => by simp [Game.weight?] at hw, fun id l x hf => by simp [Game.face?] at hf⟩
  have hbuilt := foldlM_ok_induction (P := Game.Unseeded)
    (fun g t ht g' hg hstep => Game.keeps_unseeded.addTransition hg
      (fun c hc => (hchoices t ht c hc).nonneg) hstep) hempty hg₁
  exact hbuilt.seeded.seedAverages

end StochasticGame
