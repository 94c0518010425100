import Mathlib.Tactic.Common
import StochasticGame.Game.Edit

/-!
# StochasticGame.Proofs.Game.Views

**What each edit does to a game, seen from outside.** A game is observed through
four views, and every edit gets one lemma per view:

* `Game.face? id` — the label and the known value of a live node;
* `Game.weight? u v` — the weight of the edge from `u` to `v`;
* `Game.predecessors v` — the nodes that `v` records as its predecessors;
* `Game.grave? id` — what is left in a slot without a live node.

Later proofs cite these lemmas and never unfold an edit.
-/

namespace StochasticGame

namespace OrdMap

variable {κ α β : Type} [DecidableEq κ]

/-- A key is present exactly if looking it up gives a value. -/
theorem mem_keys_iff {m : OrdMap κ α} {k : κ} : k ∈ m.keys ↔ (m.find? k).isSome := by
  simp only [keys, find?, List.lookup_isSome_iff, List.mem_map, beq_iff_eq]
  constructor
  · rintro ⟨e, he, rfl⟩
    exact ⟨e, he, rfl⟩
  · rintro ⟨e, he, hk⟩
    exact ⟨e, he, hk.symm⟩

/-- Looking a key up finds exactly the entry listed for it. -/
theorem find?_eq_some_iff {m : OrdMap κ α} {k : κ} {a : α} :
    m.find? k = some a ↔ (k, a) ∈ m.entries := by
  obtain ⟨es, hn⟩ := m
  simp only [find?]
  induction es with
  | nil => simp
  | cons e rest ih =>
    simp only [List.map_cons, List.nodup_cons] at hn
    rw [lookup_cons_ite, List.mem_cons]
    by_cases hk : k = e.1
    · rw [if_pos hk]
      constructor
      · intro h
        exact Or.inl (Prod.ext hk (Option.some.inj h).symm)
      · rintro (h | h)
        · rw [← h]
        · exact absurd (List.mem_map.2 ⟨(k, a), h, hk⟩) hn.1
    · rw [if_neg hk, ih hn.2]
      constructor
      · exact Or.inr
      · rintro (h | h)
        · exact absurd (congrArg Prod.fst h) hk
        · exact h

/-- Maps in which every key has the same value list the same entries, in some order. -/
theorem entries_perm {m m' : OrdMap κ α} (h : ∀ k, m.find? k = m'.find? k) :
    m.entries.Perm m'.entries := by
  have hnodup : ∀ m : OrdMap κ α, m.entries.Nodup := fun m => List.Pairwise.of_map Prod.fst
    (fun _ _ hne he => hne (congrArg Prod.fst he)) m.nodup
  rw [List.perm_ext_iff_of_nodup (hnodup m) (hnodup m')]
  intro ⟨k, a⟩
  rw [← find?_eq_some_iff, ← find?_eq_some_iff, h k]

/-- Looking a key up after replacing every value. -/
theorem find?_mapValues (f : α → β) (m : OrdMap κ α) (k : κ) :
    (m.mapValues f).find? k = (m.find? k).map f := by
  obtain ⟨es, hn⟩ := m
  simp only [find?, mapValues]
  clear hn
  induction es with
  | nil => rfl
  | cons e rest ih =>
    rw [List.map_cons, lookup_cons_ite, lookup_cons_ite, ih]
    split <;> rfl

end OrdMap

namespace Node

/-! ### The fields of a changed node -/

variable (n : Node) (id : NodeId) (w : Rat)

@[simp] theorem setSucc_label : (n.setSucc id w).label = n.label := rfl

@[simp] theorem setSucc_known : (n.setSucc id w).known = n.known := rfl

@[simp] theorem setSucc_preds : (n.setSucc id w).preds = n.preds := rfl

@[simp] theorem dropSucc_label : (n.dropSucc id).label = n.label := rfl

@[simp] theorem dropSucc_known : (n.dropSucc id).known = n.known := rfl

@[simp] theorem dropSucc_preds : (n.dropSucc id).preds = n.preds := rfl

@[simp] theorem addPred_label : (n.addPred id).label = n.label := rfl

@[simp] theorem addPred_known : (n.addPred id).known = n.known := rfl

@[simp] theorem addPred_succs : (n.addPred id).succs = n.succs := rfl

@[simp] theorem dropPred_label : (n.dropPred id).label = n.label := rfl

@[simp] theorem dropPred_known : (n.dropPred id).known = n.known := rfl

@[simp] theorem dropPred_succs : (n.dropPred id).succs = n.succs := rfl

theorem weightTo?_setSucc (v : NodeId) :
    (n.setSucc id w).weightTo? v = if v = id then some w else n.weightTo? v :=
  OrdMap.find?_insert ..

theorem weightTo?_dropSucc (v : NodeId) :
    (n.dropSucc id).weightTo? v = if v = id then none else n.weightTo? v :=
  OrdMap.find?_erase ..

theorem mem_preds_addPred (u : NodeId) :
    u ∈ (n.addPred id).preds.toList ↔ u = id ∨ u ∈ n.preds.toList :=
  OrdSet.mem_insert ..

theorem mem_preds_dropPred (u : NodeId) :
    u ∈ (n.dropPred id).preds.toList ↔ u ∈ n.preds.toList ∧ u ≠ id :=
  OrdSet.mem_erase ..

end Node

/-- A view that no step of a fold changes is unchanged by the fold. -/
theorem foldl_view {α β γ : Type} (π : β → γ) {f : β → α → β} (h : ∀ b a, π (f b a) = π b)
    (l : List α) (b : β) : π (l.foldl f b) = π b := by
  induction l generalizing b with
  | nil => rfl
  | cons a l ih => rw [List.foldl_cons, ih, h]

namespace Game

/-! ### The views -/

/-- The label and the known value of a live node: all of it but its edges. -/
def face? (g : Game) (id : NodeId) : Option (Label × Option Rat) :=
  (g.node? id).map fun n => (n.label, n.known)

/-- The nodes that a node records as having an edge into it. -/
def predecessors (g : Game) (id : NodeId) : List NodeId :=
  match g.node? id with
  | some n => n.preds.toList
  | none => []

/-- What a slot holds, unless it holds a live node. -/
def grave? (g : Game) (id : NodeId) : Option Slot :=
  g.slots[id]?.filter fun s => s.node?.isNone

variable {g : Game} {id u v : NodeId} {n : Node}

theorem contains_iff : g.contains id = true ↔ ∃ n, g.node? id = some n := by
  rw [contains, Option.isSome_iff_exists]

theorem mem_nodeIds_iff : id ∈ g.nodeIds ↔ g.contains id = true :=
  mem_nodeIds.trans contains_iff.symm

theorem contains_eq_isSome_face? (g : Game) (id : NodeId) :
    g.contains id = (g.face? id).isSome := by
  simp [contains, face?]

theorem face?_of_node? (h : g.node? id = some n) : g.face? id = some (n.label, n.known) := by
  rw [face?, h, Option.map_some]

theorem face?_eq_some_iff {l : Label} {k : Option Rat} :
    g.face? id = some (l, k) ↔ ∃ n, g.node? id = some n ∧ n.label = l ∧ n.known = k := by
  simp only [face?, Option.map_eq_some_iff, Prod.mk.injEq]

theorem successors_of_node? (h : g.node? id = some n) : g.successors id = n.successors := by
  rw [successors, h]

theorem predecessors_of_node? (h : g.node? id = some n) : g.predecessors id = n.preds.toList := by
  rw [predecessors, h]

/-- A node records each predecessor once. -/
theorem nodup_predecessors (g : Game) (id : NodeId) : (g.predecessors id).Nodup := by
  unfold predecessors
  split
  · rename_i n _
    exact n.preds.nodup
  · exact List.nodup_nil

theorem weight?_of_node? (h : g.node? u = some n) (v : NodeId) :
    g.weight? u v = n.weightTo? v := by
  rw [weight?, h, Option.bind_some]

theorem weight?_of_not_live (h : g.node? u = none) (v : NodeId) : g.weight? u v = none := by
  rw [weight?, h, Option.bind_none]

/-- The successors of a node are the ends of its weighted edges. -/
theorem mem_successors_iff : v ∈ g.successors u ↔ (g.weight? u v).isSome := by
  cases h : g.node? u with
  | none => simp [successors, weight?, h]
  | some n =>
    rw [successors_of_node? h, weight?_of_node? h]
    exact OrdMap.mem_keys_iff

/-- The source of an edge is live. -/
theorem contains_of_mem_successors (h : v ∈ g.successors u) : g.contains u = true := by
  rw [contains_iff]
  cases hu : g.node? u with
  | none => simp [successors, hu] at h
  | some n => exact ⟨n, rfl⟩

/-- The source of an edge with a weight is live. -/
theorem contains_of_weight? {w : Rat} (h : g.weight? u v = some w) : g.contains u = true :=
  contains_of_mem_successors (mem_successors_iff.2 (by rw [h]; rfl))

/-- A node that records a predecessor is live. -/
theorem contains_of_mem_predecessors (h : u ∈ g.predecessors v) : g.contains v = true := by
  rw [contains_iff]
  cases hv : g.node? v with
  | none => simp [predecessors, hv] at h
  | some n => exact ⟨n, rfl⟩

theorem lt_capacity_of_contains (h : g.contains id = true) : id < g.capacity := by
  obtain ⟨n, hn⟩ := contains_iff.1 h
  exact lt_capacity_of_node? hn

/-- A slot inside the arena holds a live node or a grave. -/
theorem grave?_eq_none_iff (h : id < g.capacity) : g.grave? id = none ↔ g.contains id = true := by
  have hlt : id < g.slots.size := h
  have hs : g.slots[id]? = some g.slots[id] := Array.getElem?_eq_getElem hlt
  simp only [grave?, contains, node?, hs, Option.filter_some, Option.bind_some]
  cases Slot.node? _ <;> simp

theorem grave?_of_contains (h : g.contains id = true) : g.grave? id = none :=
  (grave?_eq_none_iff (lt_capacity_of_contains h)).2 h

/-- A payoff on record is that of a removed node. -/
theorem prunedPayoff?_eq_some_iff {x : Rat} :
    g.prunedPayoff? id = some x ↔ g.grave? id = some (.removed (some x)) := by
  rw [prunedPayoff?, grave?]
  cases hs : g.slots[id]? with
  | none => simp
  | some slot => cases slot <;> simp

/-! ### Changing one node -/

@[simp] theorem bindings_modify (g : Game) (id : NodeId) (f : Node → Node) :
    (g.modify id f).bindings = g.bindings := by
  unfold modify
  split <;> rfl

@[simp] theorem contains_modify (g : Game) (id j : NodeId) (f : Node → Node) :
    (g.modify id f).contains j = g.contains j := by
  simp only [contains, node?_modify]
  split
  · rename_i h
    simp [h]
  · rfl

@[simp] theorem grave?_modify (g : Game) (id j : NodeId) (f : Node → Node) :
    (g.modify id f).grave? j = g.grave? j := by
  unfold modify
  split
  · rename_i n hn
    have hlt : id < g.slots.size := lt_capacity_of_node? hn
    by_cases h : id = j
    · subst h
      rw [grave?_of_contains (contains_iff.2 ⟨n, hn⟩)]
      simp [grave?, hlt]
    · simp [grave?, h]
  · rfl

theorem face?_modify (g : Game) (id j : NodeId) (f : Node → Node) :
    (g.modify id f).face? j =
      if j = id then (g.node? id).map fun n => ((f n).label, (f n).known) else g.face? j := by
  simp only [face?, node?_modify]
  split <;> simp [Function.comp_def]

theorem weight?_modify (g : Game) (id u v : NodeId) (f : Node → Node) :
    (g.modify id f).weight? u v =
      if u = id then (g.node? id).bind fun n => (f n).weightTo? v else g.weight? u v := by
  simp only [weight?, node?_modify]
  split
  · cases g.node? id <;> rfl
  · rfl

/-- A change that leaves label and known value alone. -/
theorem face?_modify_of_eq (g : Game) (id j : NodeId) (f : Node → Node)
    (hl : ∀ n, (f n).label = n.label) (hk : ∀ n, (f n).known = n.known) :
    (g.modify id f).face? j = g.face? j := by
  rw [face?_modify]
  split
  · rename_i hj
    simp only [face?, hj, hl, hk]
  · rfl

/-- A change that leaves the outgoing edges alone. -/
theorem weight?_modify_of_eq (g : Game) (id u v : NodeId) (f : Node → Node)
    (h : ∀ n, (f n).succs = n.succs) : (g.modify id f).weight? u v = g.weight? u v := by
  rw [weight?_modify]
  split
  · rename_i hu
    simp only [weight?, hu, Node.weightTo?, h]
  · rfl

/-- A change that leaves the recorded predecessors alone. -/
theorem predecessors_modify_of_eq (g : Game) (id v : NodeId) (f : Node → Node)
    (h : ∀ n, (f n).preds = n.preds) : (g.modify id f).predecessors v = g.predecessors v := by
  simp only [predecessors, node?_modify]
  by_cases hv : v = id
  · subst hv
    cases g.node? v <;> simp [h]
  · simp [hv]

/-! ### Adding nodes, writing labels and known values -/

theorem node?_addNode (g : Game) (label : Label) (j : NodeId) :
    (g.addNode label).2.node? j = if j = g.capacity then some (.fresh label) else g.node? j := by
  simp only [addNode, node?, capacity, Array.getElem?_push]
  by_cases h : j = g.slots.size
  · simp [h]
  · simp [h]

@[simp] theorem capacity_addNode (g : Game) (label : Label) :
    (g.addNode label).2.capacity = g.capacity + 1 := by
  simp [addNode, capacity]

@[simp] theorem bindings_addNode (g : Game) (label : Label) :
    (g.addNode label).2.bindings = g.bindings := rfl

/-- There is no live node at the end of the arena. -/
theorem node?_capacity (g : Game) : g.node? g.capacity = none := by
  cases h : g.node? g.capacity with
  | none => rfl
  | some n => exact absurd (lt_capacity_of_node? h) (Nat.lt_irrefl _)

theorem face?_addNode (g : Game) (label : Label) (j : NodeId) :
    (g.addNode label).2.face? j = if j = g.capacity then some (label, none) else g.face? j := by
  simp only [face?, node?_addNode]
  split <;> rfl

@[simp] theorem weight?_addNode (g : Game) (label : Label) (u v : NodeId) :
    (g.addNode label).2.weight? u v = g.weight? u v := by
  simp only [weight?, node?_addNode]
  split
  · rename_i h
    rw [h, node?_capacity]
    rfl
  · rfl

@[simp] theorem predecessors_addNode (g : Game) (label : Label) (v : NodeId) :
    (g.addNode label).2.predecessors v = g.predecessors v := by
  simp only [predecessors, node?_addNode]
  by_cases h : v = g.capacity
  · simp [h, node?_capacity, Node.fresh]
  · simp [h]

@[simp] theorem grave?_addNode (g : Game) (label : Label) (j : NodeId) :
    (g.addNode label).2.grave? j = g.grave? j := by
  simp only [addNode, grave?, Array.getElem?_push]
  split
  · rename_i h
    rw [h]
    simp
  · rfl

@[simp] theorem capacity_setKnown (g : Game) (id : NodeId) (x : Option Rat) :
    (g.setKnown id x).capacity = g.capacity := capacity_modify ..

@[simp] theorem bindings_setKnown (g : Game) (id : NodeId) (x : Option Rat) :
    (g.setKnown id x).bindings = g.bindings := bindings_modify ..

@[simp] theorem grave?_setKnown (g : Game) (id j : NodeId) (x : Option Rat) :
    (g.setKnown id x).grave? j = g.grave? j := grave?_modify ..

theorem face?_setKnown (g : Game) (id j : NodeId) (x : Option Rat) :
    (g.setKnown id x).face? j =
      if j = id then (g.face? id).map fun e => (e.1, x) else g.face? j := by
  rw [setKnown, face?_modify]
  simp [face?, Function.comp_def]

@[simp] theorem weight?_setKnown (g : Game) (id u v : NodeId) (x : Option Rat) :
    (g.setKnown id x).weight? u v = g.weight? u v := weight?_modify_of_eq _ _ _ _ _ fun _ => rfl

@[simp] theorem predecessors_setKnown (g : Game) (id v : NodeId) (x : Option Rat) :
    (g.setKnown id x).predecessors v = g.predecessors v :=
  predecessors_modify_of_eq _ _ _ _ fun _ => rfl

@[simp] theorem capacity_setLabel (g : Game) (id : NodeId) (l : Label) :
    (g.setLabel id l).capacity = g.capacity := capacity_modify ..

@[simp] theorem bindings_setLabel (g : Game) (id : NodeId) (l : Label) :
    (g.setLabel id l).bindings = g.bindings := bindings_modify ..

@[simp] theorem grave?_setLabel (g : Game) (id j : NodeId) (l : Label) :
    (g.setLabel id l).grave? j = g.grave? j := grave?_modify ..

theorem face?_setLabel (g : Game) (id j : NodeId) (l : Label) :
    (g.setLabel id l).face? j =
      if j = id then (g.face? id).map fun e => (l, e.2) else g.face? j := by
  rw [setLabel, face?_modify]
  simp [face?, Function.comp_def]

@[simp] theorem weight?_setLabel (g : Game) (id u v : NodeId) (l : Label) :
    (g.setLabel id l).weight? u v = g.weight? u v := weight?_modify_of_eq _ _ _ _ _ fun _ => rfl

@[simp] theorem predecessors_setLabel (g : Game) (id v : NodeId) (l : Label) :
    (g.setLabel id l).predecessors v = g.predecessors v :=
  predecessors_modify_of_eq _ _ _ _ fun _ => rfl

/-! ### Adding edges -/

@[simp] theorem capacity_addEdge (g : Game) (u v : NodeId) (w : Rat) :
    (g.addEdge u v w).capacity = g.capacity := by
  unfold addEdge
  split <;> simp

@[simp] theorem bindings_addEdge (g : Game) (u v : NodeId) (w : Rat) :
    (g.addEdge u v w).bindings = g.bindings := by
  unfold addEdge
  split <;> simp

@[simp] theorem grave?_addEdge (g : Game) (u v j : NodeId) (w : Rat) :
    (g.addEdge u v w).grave? j = g.grave? j := by
  unfold addEdge
  split <;> simp

@[simp] theorem face?_addEdge (g : Game) (u v j : NodeId) (w : Rat) :
    (g.addEdge u v w).face? j = g.face? j := by
  unfold addEdge
  split
  · rw [face?_modify_of_eq _ _ _ _ (by simp) (by simp),
      face?_modify_of_eq _ _ _ _ (by simp) (by simp)]
  · rfl

theorem weight?_addEdge {w : Rat} (hu : g.contains u = true) (hv : g.contains v = true)
    (a b : NodeId) :
    (g.addEdge u v w).weight? a b = if a = u ∧ b = v then some w else g.weight? a b := by
  obtain ⟨n, hn⟩ := contains_iff.1 hu
  rw [addEdge, if_pos (by simp [hu, hv]), weight?_modify_of_eq _ _ _ _ _ (by simp), weight?_modify]
  by_cases ha : a = u
  · subst ha
    simp [hn, weight?_of_node? hn, Node.weightTo?_setSucc]
  · simp [ha]

theorem mem_predecessors_addEdge {w : Rat} (hu : g.contains u = true) (hv : g.contains v = true)
    (a b : NodeId) :
    a ∈ (g.addEdge u v w).predecessors b ↔ (a = u ∧ b = v) ∨ a ∈ g.predecessors b := by
  rw [addEdge, if_pos (by simp [hu, hv])]
  simp only [predecessors, node?_modify]
  obtain ⟨m, hm⟩ := contains_iff.1 hv
  by_cases hb : b = v
  · subst hb
    by_cases hbu : b = u
    · subst hbu
      simp [hm, Node.mem_preds_addPred]
    · simp [hm, hbu, Node.mem_preds_addPred]
  · by_cases hbu : b = u
    · subst hbu
      obtain ⟨n, hn⟩ := contains_iff.1 hu
      simp [hb, hn]
    · simp [hb, hbu]

theorem addEdge_of_not_live {w : Rat} (h : ¬ (g.contains u = true ∧ g.contains v = true)) :
    g.addEdge u v w = g := by
  rw [addEdge, if_neg (by simpa using h)]

@[simp] theorem capacity_addWeight (g : Game) (u v : NodeId) (w : Rat) :
    (g.addWeight u v w).capacity = g.capacity := by
  unfold addWeight
  split <;> simp

@[simp] theorem bindings_addWeight (g : Game) (u v : NodeId) (w : Rat) :
    (g.addWeight u v w).bindings = g.bindings := by
  unfold addWeight
  split <;> simp

@[simp] theorem grave?_addWeight (g : Game) (u v j : NodeId) (w : Rat) :
    (g.addWeight u v w).grave? j = g.grave? j := by
  unfold addWeight
  split <;> simp

@[simp] theorem face?_addWeight (g : Game) (u v j : NodeId) (w : Rat) :
    (g.addWeight u v w).face? j = g.face? j := by
  unfold addWeight
  split <;> simp

/-- Adding to a weight adds up what is there with what comes. -/
theorem weight?_addWeight {w : Rat} (hu : g.contains u = true) (hv : g.contains v = true)
    (a b : NodeId) :
    (g.addWeight u v w).weight? a b =
      if a = u ∧ b = v then (g.weight? u v).merge (· + ·) (some w) else g.weight? a b := by
  unfold addWeight
  split
  · rename_i old h
    rw [weight?_addEdge hu hv, h, Option.merge_some_some]
  · rename_i h
    rw [weight?_addEdge hu hv, h, Option.merge_none_left]

/-! ### Removing edges -/

@[simp] theorem capacity_removeEdge (g : Game) (u v : NodeId) :
    (g.removeEdge u v).capacity = g.capacity := by
  unfold removeEdge
  split <;> simp

@[simp] theorem bindings_removeEdge (g : Game) (u v : NodeId) :
    (g.removeEdge u v).bindings = g.bindings := by
  unfold removeEdge
  split <;> simp

@[simp] theorem grave?_removeEdge (g : Game) (u v j : NodeId) :
    (g.removeEdge u v).grave? j = g.grave? j := by
  unfold removeEdge
  split <;> simp

@[simp] theorem face?_removeEdge (g : Game) (u v j : NodeId) :
    (g.removeEdge u v).face? j = g.face? j := by
  unfold removeEdge
  split
  · rw [face?_modify_of_eq _ _ _ _ (by simp) (by simp),
      face?_modify_of_eq _ _ _ _ (by simp) (by simp)]
  · rfl

theorem weight?_removeEdge (g : Game) (u v a b : NodeId) :
    (g.removeEdge u v).weight? a b = if a = u ∧ b = v then none else g.weight? a b := by
  unfold removeEdge
  split
  · rename_i w h
    obtain ⟨n, hn⟩ := contains_iff.1 (contains_of_weight? h)
    rw [weight?_modify_of_eq _ _ _ _ _ (by simp), weight?_modify]
    by_cases ha : a = u
    · subst ha
      simp [hn, weight?_of_node? hn, Node.weightTo?_dropSucc]
    · simp [ha]
  · rename_i h
    split
    · rename_i hab
      rw [hab.1, hab.2, h]
    · rfl

theorem mem_predecessors_removeEdge (g : Game) (u v a b : NodeId) :
    a ∈ (g.removeEdge u v).predecessors b ↔
      a ∈ g.predecessors b ∧ ¬ (a = u ∧ b = v ∧ (g.weight? u v).isSome) := by
  unfold removeEdge
  split
  · rename_i w h
    obtain ⟨n, hn⟩ := contains_iff.1 (contains_of_weight? h)
    by_cases hb : b = v
    · subst hb
      cases hm : g.node? b with
      | none =>
        have hbu : ¬ b = u := by
          rintro rfl
          rw [hm] at hn
          cases hn
        simp [predecessors, node?_modify, hm, hbu]
      | some m =>
        by_cases hbu : b = u
        · subst hbu
          simp [predecessors, node?_modify, hm, h, Node.mem_preds_dropPred]
        · simp [predecessors, node?_modify, hm, h, hbu, Node.mem_preds_dropPred]
    · by_cases hbu : b = u
      · subst hbu
        simp [predecessors, node?_modify, hn, hb]
      · simp [predecessors, node?_modify, hb, hbu]
  · rename_i h
    simp [h]

@[simp] theorem capacity_clearSuccessors (g : Game) (id : NodeId) :
    (g.clearSuccessors id).capacity = g.capacity :=
  foldl_view capacity (fun g _ => capacity_removeEdge g _ _) ..

@[simp] theorem bindings_clearSuccessors (g : Game) (id : NodeId) :
    (g.clearSuccessors id).bindings = g.bindings :=
  foldl_view bindings (fun g _ => bindings_removeEdge g _ _) ..

@[simp] theorem grave?_clearSuccessors (g : Game) (id j : NodeId) :
    (g.clearSuccessors id).grave? j = g.grave? j :=
  foldl_view (grave? · j) (fun g _ => grave?_removeEdge g _ _ _) ..

@[simp] theorem face?_clearSuccessors (g : Game) (id j : NodeId) :
    (g.clearSuccessors id).face? j = g.face? j :=
  foldl_view (face? · j) (fun g _ => face?_removeEdge g _ _ _) ..

/-- Removing several edges of one node. -/
theorem weight?_foldl_removeEdge (id : NodeId) (l : List NodeId) (g : Game) (a b : NodeId) :
    (l.foldl (fun g succ => g.removeEdge id succ) g).weight? a b =
      if a = id ∧ b ∈ l then none else g.weight? a b := by
  induction l generalizing g with
  | nil => simp
  | cons s l ih =>
    rw [List.foldl_cons, ih, weight?_removeEdge]
    by_cases ha : a = id
    · by_cases hb : b = s <;> simp [ha, hb]
    · simp [ha]

theorem weight?_clearSuccessors (g : Game) (id a b : NodeId) :
    (g.clearSuccessors id).weight? a b = if a = id then none else g.weight? a b := by
  rw [clearSuccessors, weight?_foldl_removeEdge]
  by_cases ha : a = id
  · subst ha
    by_cases hb : b ∈ g.successors a
    · simp [hb]
    · rw [mem_successors_iff, Option.not_isSome_iff_eq_none] at hb
      simp [hb]
  · simp [ha]

/-! ### Emptying slots -/

@[simp] theorem capacity_setSlot (g : Game) (id : NodeId) (s : Slot) :
    (g.setSlot id s).capacity = g.capacity := by
  simp [setSlot, capacity]

@[simp] theorem bindings_setSlot (g : Game) (id : NodeId) (s : Slot) :
    (g.setSlot id s).bindings = g.bindings := rfl

/-- The nodes after a slot has been emptied. -/
theorem node?_setSlot {s : Slot} (h : s.node? = none) (g : Game) (id j : NodeId) :
    (g.setSlot id s).node? j = if j = id then none else g.node? j := by
  by_cases hj : j = id
  · subst hj
    by_cases hlt : j < g.slots.size
    · simp [setSlot, node?, hlt, h]
    · simp [setSlot, node?, hlt]
  · have hj' : ¬ id = j := fun e => hj e.symm
    simp [setSlot, node?, hj, hj']

theorem grave?_setSlot {s : Slot} (h : s.node? = none) (g : Game) (id j : NodeId) :
    (g.setSlot id s).grave? j =
      if j = id ∧ id < g.capacity then some s else g.grave? j := by
  by_cases hj : j = id
  · subst hj
    by_cases hlt : j < g.slots.size
    · simp [setSlot, grave?, hlt, h, capacity]
    · simp [setSlot, grave?, hlt, capacity]
  · have hj' : ¬ id = j := fun e => hj e.symm
    simp [setSlot, grave?, hj, hj']

theorem face?_setSlot {s : Slot} (h : s.node? = none) (g : Game) (id j : NodeId) :
    (g.setSlot id s).face? j = if j = id then none else g.face? j := by
  simp only [face?, node?_setSlot h]
  split <;> rfl

theorem weight?_setSlot {s : Slot} (h : s.node? = none) (g : Game) (id a b : NodeId) :
    (g.setSlot id s).weight? a b = if a = id then none else g.weight? a b := by
  simp only [weight?, node?_setSlot h]
  split <;> rfl

theorem predecessors_setSlot {s : Slot} (h : s.node? = none) (g : Game) (id v : NodeId) :
    (g.setSlot id s).predecessors v = if v = id then [] else g.predecessors v := by
  simp only [predecessors, node?_setSlot h]
  by_cases hv : v = id <;> simp [hv]

/-! ### Removing nodes -/

/-- The changes that `removeNode` makes to the rest of the game once the slot of
`id` is empty: `succs` forget `id` as a predecessor, `preds` their edge to it. -/
def unlink (g : Game) (id : NodeId) (succs preds : List NodeId) : Game :=
  preds.foldl (fun g pred => g.modify pred (·.dropSucc id))
    (succs.foldl (fun g succ => g.modify succ (·.dropPred id)) g)

theorem removeNode_of_node? (h : g.node? id = some n) :
    g.removeNode id =
      (g.setSlot id (.removed (if n.isSink then n.known else none))).unlink id n.successors
        n.preds.toList := by
  rw [removeNode, h]
  rfl

theorem removeNode_of_not_live (h : g.node? id = none) : g.removeNode id = g := by
  rw [removeNode, h]

@[simp] theorem capacity_unlink (g : Game) (id : NodeId) (succs preds : List NodeId) :
    (g.unlink id succs preds).capacity = g.capacity := by
  rw [unlink, foldl_view capacity (fun g _ => capacity_modify g _ _),
    foldl_view capacity (fun g _ => capacity_modify g _ _)]

@[simp] theorem bindings_unlink (g : Game) (id : NodeId) (succs preds : List NodeId) :
    (g.unlink id succs preds).bindings = g.bindings := by
  rw [unlink, foldl_view bindings (fun g _ => bindings_modify g _ _),
    foldl_view bindings (fun g _ => bindings_modify g _ _)]

@[simp] theorem grave?_unlink (g : Game) (id j : NodeId) (succs preds : List NodeId) :
    (g.unlink id succs preds).grave? j = g.grave? j := by
  rw [unlink, foldl_view (grave? · j) (fun g _ => grave?_modify g _ _ _),
    foldl_view (grave? · j) (fun g _ => grave?_modify g _ _ _)]

@[simp] theorem face?_unlink (g : Game) (id j : NodeId) (succs preds : List NodeId) :
    (g.unlink id succs preds).face? j = g.face? j := by
  rw [unlink, foldl_view (face? · j) (fun g _ => face?_modify_of_eq g _ _ _ (by simp) (by simp)),
    foldl_view (face? · j) (fun g _ => face?_modify_of_eq g _ _ _ (by simp) (by simp))]

/-- Dropping the edge to one node from several others. -/
theorem weight?_foldl_dropSucc (id : NodeId) (l : List NodeId) (g : Game) (a b : NodeId) :
    (l.foldl (fun g pred => g.modify pred (·.dropSucc id)) g).weight? a b =
      if b = id ∧ a ∈ l then none else g.weight? a b := by
  induction l generalizing g with
  | nil => simp
  | cons p l ih =>
    rw [List.foldl_cons, ih, weight?_modify]
    by_cases hb : b = id
    · by_cases hp : a = p
      · cases hn : g.node? p <;> simp [hb, hp, Node.weightTo?_dropSucc]
      · simp [hb, hp]
    · by_cases hp : a = p
      · subst hp
        cases hn : g.node? a <;> simp [hb, weight?, hn, Node.weightTo?_dropSucc]
      · simp [hb, hp]

/-- Making several nodes forget one predecessor. -/
theorem mem_predecessors_foldl_dropPred (id : NodeId) (l : List NodeId) (g : Game)
    (a b : NodeId) :
    a ∈ (l.foldl (fun g succ => g.modify succ (·.dropPred id)) g).predecessors b ↔
      a ∈ g.predecessors b ∧ ¬ (a = id ∧ b ∈ l) := by
  induction l generalizing g with
  | nil => simp
  | cons s l ih =>
    rw [List.foldl_cons, ih]
    by_cases hb : b = s
    · subst hb
      cases hn : g.node? b with
      | none => simp [predecessors, node?_modify, hn]
      | some n =>
        simp only [predecessors, node?_modify, hn, if_true, Option.map_some, List.mem_cons,
          true_or, and_true, Node.mem_preds_dropPred]
        tauto
    · simp [predecessors, node?_modify, hb]

theorem weight?_unlink (g : Game) (id a b : NodeId) (succs preds : List NodeId) :
    (g.unlink id succs preds).weight? a b =
      if b = id ∧ a ∈ preds then none else g.weight? a b := by
  rw [unlink, weight?_foldl_dropSucc,
    foldl_view (weight? · a b) (fun g _ => weight?_modify_of_eq g _ _ _ _ (by simp))]

theorem mem_predecessors_unlink (g : Game) (id a b : NodeId) (succs preds : List NodeId) :
    a ∈ (g.unlink id succs preds).predecessors b ↔
      a ∈ g.predecessors b ∧ ¬ (a = id ∧ b ∈ succs) := by
  rw [unlink, foldl_view (predecessors · b)
    (fun g _ => predecessors_modify_of_eq g _ _ _ (by simp)), mem_predecessors_foldl_dropPred]

/-! ### Binding states -/

@[simp] theorem capacity_bindState (g : Game) (state : State) (id : NodeId) :
    (g.bindState state id).capacity = g.capacity := rfl

@[simp] theorem node?_bindState (g : Game) (state : State) (id j : NodeId) :
    (g.bindState state id).node? j = g.node? j := rfl

@[simp] theorem face?_bindState (g : Game) (state : State) (id j : NodeId) :
    (g.bindState state id).face? j = g.face? j := rfl

@[simp] theorem weight?_bindState (g : Game) (state : State) (id u v : NodeId) :
    (g.bindState state id).weight? u v = g.weight? u v := rfl

@[simp] theorem predecessors_bindState (g : Game) (state : State) (id v : NodeId) :
    (g.bindState state id).predecessors v = g.predecessors v := rfl

@[simp] theorem grave?_bindState (g : Game) (state : State) (id j : NodeId) :
    (g.bindState state id).grave? j = g.grave? j := rfl

end Game

end StochasticGame
