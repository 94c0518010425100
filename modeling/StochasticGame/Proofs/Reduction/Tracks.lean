import StochasticGame.Proofs.Game.Operation
import StochasticGame.Proofs.Game.Representative

/-!
# StochasticGame.Proofs.Reduction.Tracks

**How a reduced game follows the original.** `Tracks g h` relates a game to what the
passes have made of it so far:

* the nodes of `h` are nodes of `g`, with settled ones turned into sinks;
* for every node of `g` a node of its kind stands in `h`, or it was a sink that has
  been removed with its payoff;
* up to self-loops, the successors of a node of `h` are those that stand for the
  successors of each node it stands for.

Promotion establishes the relation and every other pass keeps it. The weights of
edges are not part of it: passes sum them and the last pass overwrites them.
-/

namespace StochasticGame

/-- What a label and a known value make of a node: a settled one is as good as a
sink, and the known value of any other counts for nothing. -/
def kindOf (face : Label × Option Rat) : Label × Option Rat :=
  if face.2 = some 0 ∨ face.2 = some 1 then (.sink, face.2) else (face.1, none)

namespace Game

variable {g h h' : Game} {id j r t keep drop : NodeId}

/-- The kind of a live node. -/
def kind? (g : Game) (id : NodeId) : Option (Label × Option Rat) := (g.face? id).map kindOf

/-- A live node that is neither settled nor a sink. -/
def Inner (g : Game) (id : NodeId) : Prop := ∃ l, l ≠ .sink ∧ g.kind? id = some (l, none)

theorem Inner.contains (hi : g.Inner id) : g.contains id = true := by
  obtain ⟨l, -, hk⟩ := hi
  rw [contains_eq_isSome_face?]
  rw [kind?, Option.map_eq_some_iff] at hk
  obtain ⟨f, hf, -⟩ := hk
  rw [hf]
  rfl

/-- What passes have made of a game. -/
structure Tracks (g h : Game) : Prop where
  /-- The edges of `g` are recorded consistently. -/
  origin : g.Linked
  /-- The edges of `h` are recorded consistently. -/
  linked : h.Linked
  /-- The arena keeps its size. -/
  capacity_eq : h.capacity = g.capacity
  /-- States stay bound. -/
  bindings_eq : h.bindings = g.bindings
  /-- The sinks of `g` are settled. -/
  settled : ∀ id k, g.face? id = some (.sink, k) → k = some 0 ∨ k = some 1
  /-- A live node has the known value it had, and the label of its kind. -/
  face : ∀ id f, h.face? id = some f → ∃ f', g.face? id = some f' ∧ f = ((kindOf f').1, f'.2)
  /-- Sinks lead nowhere. -/
  leaf : ∀ id k, h.face? id = some (.sink, k) → ∀ v, v ∉ h.successors id
  /-- Who stands for a node is of its kind, and live unless it was a sink. -/
  stands : ∀ id, g.contains id = true → ∃ r, h.Stands id r ∧ g.kind? r = g.kind? id ∧
    (h.contains r = true ∨ ∃ k, g.kind? id = some (.sink, k) ∧ h.grave? r = some (.removed k))
  /-- Edges are kept, unless they have become self-loops. -/
  forth : ∀ id, g.Inner id → ∀ s ∈ g.successors id, ∀ r t, h.Stands id r → h.Stands s t →
    t = r ∨ t ∈ h.successors r
  /-- Edges other than self-loops come from edges. -/
  back : ∀ id, g.Inner id → ∀ r, h.Stands id r → ∀ t ∈ h.successors r,
    t = r ∨ ∃ s ∈ g.successors id, h.Stands s t

namespace Tracks

/-- The kind of a node that is a sink now. -/
theorem kind?_of_sink (ht : Tracks g h) {k : Option Rat} (hf : h.face? id = some (.sink, k)) :
    g.kind? id = some (.sink, k) := by
  obtain ⟨⟨l, k'⟩, hf', he⟩ := ht.face id _ hf
  simp only [Prod.mk.injEq] at he
  obtain ⟨hl, rfl⟩ := he
  rw [kind?, hf', Option.map_some]
  unfold kindOf at hl ⊢
  split
  · rfl
  · rename_i hs
    rw [if_neg hs] at hl
    obtain rfl : Label.sink = l := hl
    exact absurd (ht.settled id k hf') hs

/-- A node that is not a sink now was not settled and is as it was. -/
theorem face?_of_ne_sink (ht : Tracks g h) {l : Label} {k : Option Rat} (hl : l ≠ .sink)
    (hf : h.face? id = some (l, k)) :
    g.face? id = some (l, k) ∧ ¬ (k = some 0 ∨ k = some 1) := by
  obtain ⟨⟨l', k'⟩, hf', he⟩ := ht.face id _ hf
  simp only [Prod.mk.injEq] at he
  obtain ⟨rfl, rfl⟩ := he
  by_cases hs : k = some 0 ∨ k = some 1
  · rw [kindOf, if_pos hs] at hl
    exact absurd rfl hl
  · rw [kindOf, if_neg hs]
    exact ⟨hf', hs⟩

/-- The kind of a node that is not a sink now. -/
theorem kind?_of_ne_sink (ht : Tracks g h) {l : Label} {k : Option Rat} (hl : l ≠ .sink)
    (hf : h.face? id = some (l, k)) : g.kind? id = some (l, none) := by
  obtain ⟨hf', hs⟩ := ht.face?_of_ne_sink hl hf
  rw [kind?, hf', Option.map_some, kindOf, if_neg hs]

/-- A live inner node is not a sink. -/
theorem face?_ne_sink (ht : Tracks g h) (hi : g.Inner id) (hs : h.Stands id r) (k : Option Rat) :
    h.face? r ≠ some (.sink, k) := by
  intro hf
  obtain ⟨l, hl, hk⟩ := hi
  obtain ⟨r', hs', hkind, -⟩ := ht.stands id (Inner.contains ⟨l, hl, hk⟩)
  obtain rfl := hs.unique hs'
  rw [ht.kind?_of_sink hf, hk] at hkind
  simp only [Option.some.injEq, Prod.mk.injEq] at hkind
  exact hl hkind.1.symm

/-! ### Changes of edges only -/

/-- Adding or removing self-loops and changing weights keeps the relation. -/
theorem of_views (ht : Tracks g h) (hlinked : h'.Linked) (hcap : h'.capacity = h.capacity)
    (hbind : h'.bindings = h.bindings) (hface : ∀ j, h'.face? j = h.face? j)
    (hgrave : ∀ j, h'.grave? j = h.grave? j)
    (hsub : ∀ a b, b ∈ h'.successors a → b ∈ h.successors a)
    (hsup : ∀ a b, a ≠ b → b ∈ h.successors a → b ∈ h'.successors a) : Tracks g h' := by
  -- who stands for whom is a matter of merges only
  have hstands : ∀ {i r}, h'.Stands i r ↔ h.Stands i r := fun {i r} =>
    ⟨Stands.of_merges hcap.le fun j into => by rw [hgrave],
      Stands.of_merges hcap.ge fun j into => by rw [hgrave]⟩
  have hlive : ∀ j, h'.contains j = h.contains j := fun j => by
    rw [contains_eq_isSome_face?, contains_eq_isSome_face?, hface]
  refine ⟨ht.origin, hlinked, hcap.trans ht.capacity_eq, hbind.trans ht.bindings_eq, ht.settled,
    ?_, ?_, ?_, ?_, ?_⟩
  · intro id f hf
    exact ht.face id f (hface id ▸ hf)
  · intro id k hf v hv
    exact ht.leaf id k (hface id ▸ hf) v (hsub id v hv)
  · intro id hid
    obtain ⟨r, hs, hkind, hr⟩ := ht.stands id hid
    exact ⟨r, hstands.2 hs, hkind, by rw [hlive, hgrave]; exact hr⟩
  · intro id hi s hs r t hr hst
    rcases ht.forth id hi s hs r t (hstands.1 hr) (hstands.1 hst) with he | hmem
    · exact Or.inl he
    · by_cases hrt : r = t
      · exact Or.inl hrt.symm
      · exact Or.inr (hsup r t hrt hmem)
  · intro id hi r hr t hmem
    rcases ht.back id hi r (hstands.1 hr) t (hsub r t hmem) with he | ⟨s, hs, hst⟩
    · exact Or.inl he
    · exact Or.inr ⟨s, hs, hstands.2 hst⟩

theorem removeLoop (ht : Tracks g h) (i : NodeId) : Tracks g (h.removeEdge i i) := by
  refine ht.of_views (ht.linked.removeEdge i i) (capacity_removeEdge ..) (bindings_removeEdge ..)
    (face?_removeEdge h i i) (grave?_removeEdge h i i) ?_ ?_
  · intro a b
    rw [mem_successors_iff, mem_successors_iff, weight?_removeEdge]
    split
    · simp
    · exact fun hb => hb
  · intro a b hab
    have hne : ¬ (a = i ∧ b = i) := fun ⟨ha, hb⟩ => hab (ha.trans hb.symm)
    rw [mem_successors_iff, mem_successors_iff, weight?_removeEdge, if_neg hne]
    exact fun hb => hb

theorem deleteSelfLoops (ht : Tracks g h) : Tracks g h.deleteSelfLoops.2 := by
  unfold Game.deleteSelfLoops
  dsimp only
  generalize h.loopedNodes = ids
  induction ids generalizing h with
  | nil => exact ht
  | cons i ids ih => exact ih (ht.removeLoop i)

theorem uniform (ht : Tracks g h) (i : NodeId) : Tracks g (h.modify i Node.uniform) := by
  have hsucc : ∀ a b, b ∈ (h.modify i Node.uniform).successors a ↔ b ∈ h.successors a := by
    intro a b
    rw [mem_successors_iff, mem_successors_iff, isSome_weight?_uniform]
  exact ht.of_views (ht.linked.uniform i) (capacity_modify ..) (bindings_modify ..)
    (fun j => face?_modify_of_eq h i j _ (fun _ => rfl) fun _ => rfl) (fun j => grave?_modify ..)
    (fun a b => (hsucc a b).1) fun a b _ => (hsucc a b).2

theorem correctLaw (ht : Tracks g h) : Tracks g h.correctLaw := by
  unfold Game.correctLaw
  generalize h.nodes.filter _ = l
  induction l generalizing h with
  | nil => exact ht
  | cons e l ih => exact ih (ht.uniform e.1)

end Tracks

end Game

end StochasticGame
