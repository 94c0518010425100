import StochasticGame.Proofs.Game.Adjacency
import StochasticGame.Proofs.Input.Depiction

/-!
# StochasticGame.Proofs.Input.WellFormed

**What the later phases take for granted.** A game that has been read from two files is well
formed, whatever the files say (`readGame_wellFormed`). Its edges are the edges that the
transitions describe, so what holds of the probabilities on a line holds of the weights.

Seeds are consistent (`seeds_are_consistent`). Seeding goes through the arena once, and so an
average node may stay without a value although all its successors end with one. But no value is
ever replaced, and a seed is what the operator makes of the values that are there in the end.
-/

namespace StochasticGame

/-! ### Files -/

/-- What the phases after reading rely on. -/
structure Game.WellFormed (g : Game) : Prop where
  /-- Edges are recorded as they should be. -/
  adjacency : Adjacency g
  /-- Sinks have payoff 0 or 1. -/
  payoff : ∀ id n, g.node? id = some n → n.label = .sink → n.known = some 0 ∨ n.known = some 1
  /-- Weights are fractions of the unit interval with small denominators, -/
  weight : ∀ u v w, g.weight? u v = some w → 0 ≤ w ∧ w ≤ 1 ∧ w.den ≤ 10
  /-- and those of edges that leave a state are 1. -/
  certain : ∀ state id, g.bindings.find? state = some id → ∀ v w, g.weight? id v = some w → w = 1
  /-- States are bound to live nodes, -/
  live : ∀ state id, g.bindings.find? state = some id → g.contains id = true
  /-- each to one of its own. -/
  distinct : ∀ state state' id, g.bindings.find? state = some id →
    g.bindings.find? state' = some id → state = state'
  /-- No known value is negative. -/
  known : ∀ id n x, g.node? id = some n → n.known = some x → 0 ≤ x

namespace Input

open Game

variable {ts : List Transition} {labels : List StateLabel} {arena : List Place} {g g₀ : Game}
  {id : NodeId} {n : Node} {s : State} {entry : StateLabel}

theorem depicts_of_buildGame (h : buildGame ts labels = .ok g) :
    ∃ arena, Depicts ts labels arena g := by
  obtain ⟨g₀, hdrawn, rfl⟩ := exists_drawn_of_buildGame h
  exact ⟨_, hdrawn.depicts (Fills.foldl_seed g₀.nodeIds g₀)⟩

theorem Depicts.weight_eq_one (h : Depicts ts labels arena g)
    (hs : g.bindings.find? s = some id) {v : NodeId} {w : Rat} (hw : g.weight? id v = some w) :
    w = 1 :=
  ((h.edges id s ((h.bound s id).1 hs) v w).1 hw).1

/-- A weight is 1, or one of the probabilities of a random choice. -/
theorem Depicts.weight_cases (h : Depicts ts labels arena g) {u v : NodeId} {w : Rat}
    (hw : g.weight? u v = some w) :
    w = 1 ∨ ∃ t ∈ ts, ∃ d, .random d ∈ t.choices ∧ ∃ s, (w, s) ∈ d := by
  have hlt : u < arena.length := h.size ▸ lt_capacity_of_contains (contains_of_weight? hw)
  have hu := List.getElem?_eq_getElem hlt
  cases hp : arena[u] with
  | state s =>
    rw [hp] at hu
    exact Or.inl (h.weight_eq_one ((h.bound s u).2 hu) hw)
  | draw i j =>
    rw [hp] at hu
    obtain ⟨t, d, ht, hd⟩ := (h.mem_draw i j).1 (List.mem_of_getElem? hu)
    obtain ⟨s, -, before, after, rfl, -, -⟩ := ((h.draws u i j t d hu ht hd).2.2 v w).1 hw
    exact Or.inr ⟨t, List.mem_of_getElem? ht, _, List.mem_of_getElem? hd, s, by simp⟩

/-- **Games that are read are well formed.** -/
theorem readGame_wellFormed {transitions labels : ByteArray} {g : Game}
    (h : readGame transitions labels = .ok g) : g.WellFormed := by
  have hmodelled := readGame_ok h
  have hseeded := readGame_seeded h
  unfold readGame at h
  simp only [bind_eq_ok_iff] at h
  obtain ⟨ts, hts, ls, -, h⟩ := h
  obtain ⟨arena, hdepicts⟩ := depicts_of_buildGame h
  refine ⟨hmodelled.linked.adjacency, ?_, ?_, ?_, ?_, ?_, ?_⟩
  · intro id n hn hl
    have hface := face?_of_node? hn
    rw [hl] at hface
    exact (hmodelled.known id _ _ hface (by decide)).resolve_right fun he => he.2 rfl
  · intro u v w hw
    rcases hdepicts.weight_cases hw with rfl | ⟨t, ht, d, hd, s, hmem⟩
    · exact ⟨zero_le_one, le_rfl, by decide⟩
    · exact trusted_of_readTransitions hts t ht _ hd (w, s) hmem
  · intro s id hs v w hw
    exact hdepicts.weight_eq_one hs hw
  · intro s id hs
    exact hmodelled.whole id (hmodelled.bound id ⟨s, hs⟩)
  · intro s s' id hs hs'
    rw [hdepicts.bound] at hs hs'
    exact Place.state.inj (Option.some_inj.1 (hs.symm.trans hs'))
  · intro id n x hn hx
    exact hseeded.known id n.label x (by rw [face?_of_node? hn, hx])

/-- Two average states, a sure win and a sure loss, read from probabilities that are negative,
above 1, tiny or long. One target is listed twice. The first state is seeded before the second
random choice, which leads to it, and the second state comes too early to be seeded. -/
def noisyGame : Game :=
  List.foldl perform empty
    [.addNode .average, .bindState 5 0, .addSink true, .bindState 1 1, .addEdge 0 1 1,
      .addNode .average, .bindState 6 2, .addNode .average, .addEdge 2 3 1, .addNode .min,
      .setKnown 4 (some 0), .bindState 2 4, .addEdge 3 4 0, .addEdge 3 1 1, .addNode .average,
      .addEdge 2 5 1, .addEdge 5 0 (2 / 3), .addEdge 5 4 (1 / 3), .addEdge 4 4 1,
      .setKnown 0 (some 1), .setKnown 3 (some 1), .setKnown 5 (some (2 / 3))]

theorem noisyGame_wellFormed :
    readGame "5 -1 1e0 1\n6 -1 -0.5 2 1.7 1 -1.0 1e-3 5 .3333333 2 0.66 5\n2 -1 1 2\n".toUTF8
        "h\n5 average -1\n6 average -1\n1 sink 1\n2 min 0\n".toUTF8 = .ok noisyGame ∧
      noisyGame.WellFormed := by
  refine (and_iff_left_of_imp readGame_wellFormed).2 ?_
  decide +kernel

/-! ### Seeds -/

/-- The label entry of a node, if a state is bound to it. -/
def EntryOf (labels : List StateLabel) (g : Game) (id : NodeId) (entry : StateLabel) : Prop :=
  ∃ s, g.bindings.find? s = some id ∧ LastWith StateLabel.state labels s entry

/-- Entries are looked up among the states. -/
theorem entryOf_iff : EntryOf labels g id entry ↔
    ∃ s ∈ g.states, g.bindings.find? s = some id ∧ entry ∈ lastLabel? labels s := by
  constructor
  · intro h
    obtain ⟨s, hs, hlast⟩ := h
    refine ⟨s, OrdMap.mem_keys_iff.2 ?_, hs, find?_reverse_eq_some_iff.2 hlast⟩
    rw [hs]
    rfl
  · intro h
    obtain ⟨s, -, hs, hlast⟩ := h
    exact ⟨s, hs, find?_reverse_eq_some_iff.1 hlast⟩

theorem entryOf_iff_of_fills {g' : Game} (h : Fills g g') :
    EntryOf labels g' id entry ↔ EntryOf labels g id entry := by
  rw [EntryOf, EntryOf, h.bindings]

/-- Before seeding, the entry of a node decides what is known of it. -/
theorem Drawn.known_eq (h : Drawn labels (strokes ts) g) (hn : g.node? id = some n)
    (hentry : EntryOf labels g id entry) :
    n.known = entry.value.map fun one => if one then 1 else 0 := by
  obtain ⟨s, -, hs, hlast⟩ := entryOf_iff.1 hentry
  obtain ⟨f, hf, hface⟩ := h.face id _ ((h.bound s id).1 hs)
  rw [placeFace?, hlast, Option.map_some, Option.some_inj] at hf
  rw [face?_of_node? hn, ← hf, Option.some_inj] at hface
  exact congrArg Prod.snd hface

/-- A node without a label value starts with no known value. -/
theorem Drawn.known_eq_none (h : Drawn labels (strokes ts) g) (hn : g.node? id = some n)
    (hopen : ∀ entry, EntryOf labels g id entry → entry.value = none) : n.known = none := by
  have hlt : id < (Input.arena (strokes ts)).length := h.size ▸ lt_capacity_of_node? hn
  have hid := List.getElem?_eq_getElem hlt
  obtain ⟨f, hf, hface⟩ := h.face id _ hid
  cases hp : (Input.arena (strokes ts))[id] with
  | state s =>
    rw [hp] at hf hid
    obtain ⟨entry, hlast, -⟩ := Option.map_eq_some_iff.1 hf
    have hentry : EntryOf labels g id entry :=
      ⟨s, (h.bound s id).2 hid, find?_reverse_eq_some_iff.1 hlast⟩
    rw [h.known_eq hn hentry, hopen entry hentry]
    rfl
  | draw i j =>
    rw [hp] at hf
    obtain rfl := Option.some_inj.1 hf
    rw [face?_of_node? hn, Option.some_inj] at hface
    exact congrArg Prod.snd hface

/-- **Seeds are consistent.** The known value of an average node whose value no label gives is
explained by the final values of its successors. If labels give the values of all its
successors, it has a known value. -/
theorem seeds_are_consistent (h : buildGame ts labels = .ok g) (hn : g.node? id = some n)
    (hl : n.label = .average) (hopen : ∀ entry, EntryOf labels g id entry → entry.value = none) :
    (∀ x, n.known = some x → Explained g n x) ∧
      (n.successors ≠ [] →
        (∀ v ∈ n.successors, ∃ entry, EntryOf labels g v entry ∧ entry.value.isSome = true) →
        ∃ x, n.known = some x) := by
  obtain ⟨g₀, hdrawn, rfl⟩ := exists_drawn_of_buildGame h
  have hfills : Fills g₀ g₀.seedAverages := Fills.foldl_seed g₀.nodeIds g₀
  obtain ⟨n₀, hn₀, hlabel, hsuccs⟩ := hfills.exists_node hn
  simp only [entryOf_iff_of_fills hfills] at hopen ⊢
  have hunknown := hdrawn.known_eq_none hn₀ hopen
  refine ⟨?_, ?_⟩
  · intro x hx
    exact explained_foldl_seed g₀.nodeIds hn₀ hunknown hn hx
  · intro hne hall
    rw [← hsuccs] at hne hall
    have hknown : ∀ v ∈ n₀.successors, ∃ m x, g₀.node? v = some m ∧ m.known = some x := by
      intro v hv
      obtain ⟨entry, ⟨s, hs, hlast⟩, hvalue⟩ := hall v hv
      obtain ⟨one, hone⟩ := Option.isSome_iff_exists.1 hvalue
      obtain ⟨m, hm⟩ := contains_iff.1 (hdrawn.contains ((hdrawn.bound s v).1 hs))
      exact ⟨m, _, hm, by rw [hdrawn.known_eq hm ⟨s, hs, hlast⟩, hone, Option.map_some]⟩
    obtain ⟨n', x, hn', hx⟩ := exists_known_seedAverages hn₀ (hlabel.trans hl) hne hknown
    obtain rfl := Option.some_inj.1 (hn.symm.trans hn')
    exact ⟨x, hx⟩

/-- What `noisyGame` is read from. -/
def noisyTransitions : List Transition :=
  [⟨5, [.sure 1]⟩, ⟨6, [.random [(0, 2), (1, 1)], .random [(0, 5), (1 / 3, 2), (2 / 3, 5)]]⟩,
    ⟨2, [.sure 2]⟩]

@[inherit_doc noisyTransitions]
def noisyLabels : List StateLabel :=
  [⟨5, .average, none⟩, ⟨6, .average, none⟩, ⟨1, .sink, some true⟩, ⟨2, .min, some false⟩]

/-- The second random choice of `noisyGame` is seeded from a seed, and its first state is seeded
because a label gives the value of its successor. -/
theorem noisyGame_seeds :
    buildGame noisyTransitions noisyLabels = .ok noisyGame ∧
      (∃ n, noisyGame.node? 5 = some n ∧ n.known = some (2 / 3) ∧
        Explained noisyGame n (2 / 3)) ∧
      ∃ n x, noisyGame.node? 0 = some n ∧ n.known = some x := by
  have hbuild : buildGame noisyTransitions noisyLabels = .ok noisyGame := by decide +kernel
  have hopen : ∀ id, id = 5 ∨ id = 0 → ∀ entry, EntryOf noisyLabels noisyGame id entry →
      entry.value = none := by
    intro id hid entry hentry
    obtain ⟨s, hmem, hs, hlast⟩ := entryOf_iff.1 hentry
    have hall : ∀ s ∈ noisyGame.states,
        noisyGame.bindings.find? s = some 5 ∨ noisyGame.bindings.find? s = some 0 →
        ∀ entry ∈ lastLabel? noisyLabels s, entry.value = none := by decide +kernel
    rcases hid with rfl | rfl
    · exact hall s hmem (Or.inl hs) entry hlast
    · exact hall s hmem (Or.inr hs) entry hlast
  obtain ⟨n, hn, hl, hk⟩ := face?_eq_some_iff.1
    (by decide +kernel : noisyGame.face? 5 = some (.average, some (2 / 3)))
  obtain ⟨m, hm, hl', -⟩ := face?_eq_some_iff.1
    (by decide +kernel : noisyGame.face? 0 = some (.average, some 1))
  have hsuccs : m.successors = [1] := by
    rw [← successors_of_node? hm]
    decide +kernel
  refine ⟨hbuild, ⟨n, hn, hk, (seeds_are_consistent hbuild hn hl (hopen 5 (Or.inl rfl))).1 _ hk⟩,
    m, ?_⟩
  obtain ⟨x, hx⟩ := (seeds_are_consistent hbuild hm hl' (hopen 0 (Or.inr rfl))).2
    (by simp [hsuccs]) (by
      intro v hv
      obtain rfl := List.mem_singleton.1 (hsuccs ▸ hv)
      exact ⟨⟨1, .sink, some true⟩, entryOf_iff.2 ⟨1, by decide +kernel⟩, rfl⟩)
  exact ⟨x, hm, hx⟩

end Input

end StochasticGame
