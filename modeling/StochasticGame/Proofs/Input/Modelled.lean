import StochasticGame.Input.Build
import StochasticGame.Proofs.Game.Linked

/-!
# StochasticGame.Proofs.Input.Modelled

**What games read from files look like.** No node is ever removed while a game is
built. A node that is bound to no state is the average node of a random choice, and
leads to bound nodes only. Sinks have payoff 0 or 1, and a player has no known value
or one of these.

Every step of the construction keeps these facts (`Modelled`), so they hold of every
game that `readGame` returns.
-/

namespace StochasticGame

/-- A computation that succeeds succeeds at every step. -/
theorem bind_eq_ok_iff {α β ε : Type} {x : Except ε α} {f : α → Except ε β} {b : β} :
    x >>= f = .ok b ↔ ∃ a, x = .ok a ∧ f a = .ok b := by
  cases x with
  | error e =>
    constructor
    · intro h
      cases h
    · rintro ⟨a, ha, -⟩
      cases ha
  | ok a =>
    constructor
    · intro h
      exact ⟨a, rfl, h⟩
    · rintro ⟨a', ha, h⟩
      obtain rfl := Except.ok.inj ha
      exact h

/-- What steps keep that succeed, a fold of them keeps. -/
theorem foldlM_ok_induction {α σ ε : Type} {f : σ → α → Except ε σ} {P : σ → Prop} {l : List α}
    (step : ∀ s, ∀ a ∈ l, ∀ s', P s → f s a = .ok s' → P s') {s s' : σ} (start : P s)
    (h : l.foldlM f s = .ok s') : P s' := by
  induction l generalizing s with
  | nil =>
    obtain rfl := Except.ok.inj h
    exact start
  | cons a l ih =>
    rw [List.foldlM_cons, bind_eq_ok_iff] at h
    obtain ⟨s₁, hs, h⟩ := h
    exact ih (fun s x hx => step s x (List.mem_cons_of_mem a hx))
      (step s a List.mem_cons_self s₁ start hs) h

namespace Game

/-- Some state is bound to the node. -/
def Bound (g : Game) (id : NodeId) : Prop := ∃ state, g.bindings.find? state = some id

/-- A game as the construction leaves it. -/
structure Modelled (g : Game) : Prop where
  /-- Edges are recorded consistently. -/
  linked : g.Linked
  /-- Every slot holds a node. -/
  whole : ∀ id, id < g.capacity → g.contains id = true
  /-- Bound nodes lie in the arena. -/
  bound : ∀ id, g.Bound id → id < g.capacity
  /-- Other nodes are average nodes, -/
  label : ∀ id, g.contains id = true → ¬ g.Bound id → ∃ k, g.face? id = some (.average, k)
  /-- and lead to bound nodes. -/
  target : ∀ id, ¬ g.Bound id → ∀ s ∈ g.successors id, g.Bound s
  /-- The known value of a node that is no average node is 0 or 1, or is missing at a
  player. -/
  known : ∀ id l k, g.face? id = some (l, k) → l ≠ .average →
    (k = some 0 ∨ k = some 1) ∨ (k = none ∧ l ≠ .sink)

variable {g g' : Game} {id : NodeId}

theorem modelled_empty : empty.Modelled where
  linked := linked_empty
  whole id h := absurd h (Nat.not_lt_zero id)
  bound id h := by
    obtain ⟨state, h⟩ := h
    cases h
  label id h := by simp [contains] at h
  target id _ s hs := by simp [successors] at hs
  known id l k h := by simp [face?] at h

/-- The game with a node for one more state. -/
def withState (g : Game) (state : State) (l : Label) (k : Option Rat) : Game :=
  ((g.addNode l).2.setKnown g.capacity k).bindState state g.capacity

theorem face?_withState (g : Game) (state : State) (l : Label) (k : Option Rat) (j : NodeId) :
    (g.withState state l k).face? j = if j = g.capacity then some (l, k) else g.face? j := by
  rw [withState, face?_bindState, face?_setKnown]
  split
  · rw [face?_addNode, if_pos rfl, Option.map_some]
  · rename_i hj
    rw [face?_addNode, if_neg hj]

theorem bound_withState_iff {state : State} {l : Label} {k : Option Rat} {j : NodeId}
    (hnew : g.bindings.find? state = none) :
    (g.withState state l k).Bound j ↔ j = g.capacity ∨ g.Bound j := by
  constructor
  · rintro ⟨st, hst⟩
    rw [withState, bindState, OrdMap.find?_insert, bindings_setKnown, bindings_addNode] at hst
    split at hst
    · exact Or.inl (Option.some_inj.1 hst).symm
    · exact Or.inr ⟨st, hst⟩
  · rintro (rfl | ⟨st, hst⟩)
    · exact ⟨state, by rw [withState, bindState, OrdMap.find?_insert, if_pos rfl]⟩
    · have hne : st ≠ state := by
        rintro rfl
        rw [hnew] at hst
        cases hst
      refine ⟨st, ?_⟩
      rw [withState, bindState, OrdMap.find?_insert, if_neg hne, bindings_setKnown,
        bindings_addNode, hst]

/-- An average node without a known value is seeded if its successors are known. -/
theorem seed_eq_setKnown {n : Node} {x : Rat} (hn : g.node? id = some n) (hl : n.label = .average)
    (hk : n.known = none) (hd : n.outDegree ≠ 0) (hx : g.knownExpectation? n = some x) :
    g.seed id = g.setKnown id (some x) := by
  simp only [seed, hn]
  rw [if_pos ⟨hl, hk, hd⟩, hx]

/-- Nothing else is. -/
theorem seed_cases (g : Game) (id : NodeId) :
    g.seed id = g ∨ ∃ n x, g.node? id = some n ∧ n.label = .average ∧ n.known = none ∧
      n.outDegree ≠ 0 ∧ g.knownExpectation? n = some x ∧ g.seed id = g.setKnown id (some x) := by
  cases hn : g.node? id with
  | none => exact Or.inl (by simp only [seed, hn])
  | some n =>
    by_cases hcond : n.label = .average ∧ n.known = none ∧ n.outDegree ≠ 0
    · cases hx : g.knownExpectation? n with
      | none => exact Or.inl (by simp only [seed, hn, if_pos hcond, hx])
      | some x =>
        obtain ⟨hl, hk, hd⟩ := hcond
        exact Or.inr ⟨n, x, rfl, hl, hk, hd, hx, seed_eq_setKnown hn hl hk hd hx⟩
    · exact Or.inl (by simp only [seed, hn, if_neg hcond])

/-! ### Steps of the construction -/

namespace Modelled

theorem addEdge (h : g.Modelled) {u v : NodeId} (w : Rat) (huv : g.Bound u ∨ g.Bound v) :
    (g.addEdge u v w).Modelled := by
  by_cases hlive : g.contains u = true ∧ g.contains v = true
  · obtain ⟨hu, hv⟩ := hlive
    refine ⟨h.linked.addEdge u v w, ?_, ?_, ?_, ?_, ?_⟩
    · intro id hid
      rw [contains_eq_isSome_face?, face?_addEdge, ← contains_eq_isSome_face?]
      exact h.whole id (by rwa [capacity_addEdge] at hid)
    · intro id hid
      rw [capacity_addEdge]
      exact h.bound id (by rwa [Bound, bindings_addEdge] at hid)
    · intro id hid hb
      rw [face?_addEdge]
      rw [contains_eq_isSome_face?, face?_addEdge, ← contains_eq_isSome_face?] at hid
      exact h.label id hid (by rwa [Bound, bindings_addEdge] at hb)
    · intro id hb s hs
      rw [Bound, bindings_addEdge] at hb ⊢
      rw [mem_successors_iff, weight?_addEdge hu hv] at hs
      split at hs
      · rename_i he
        obtain ⟨rfl, rfl⟩ := he
        exact huv.resolve_left hb
      · exact h.target id hb s (mem_successors_iff.2 hs)
    · intro id l k hf
      rw [face?_addEdge] at hf
      exact h.known id l k hf
  · rwa [addEdge_of_not_live hlive]

/-- Adding the average node of a random choice. -/
theorem addNode (h : g.Modelled) : (g.addNode .average).2.Modelled := by
  have hlive : ∀ {id}, (g.addNode .average).2.contains id = true →
      id = g.capacity ∨ g.contains id = true := by
    intro id hid
    rw [contains_eq_isSome_face?, face?_addNode] at hid
    split at hid
    · exact Or.inl ‹_›
    · rw [contains_eq_isSome_face?]
      exact Or.inr hid
  refine ⟨h.linked.addNode _, ?_, ?_, ?_, ?_, ?_⟩
  · intro id hid
    rw [capacity_addNode] at hid
    rw [contains_eq_isSome_face?, face?_addNode]
    split
    · rfl
    · rw [← contains_eq_isSome_face?]
      exact h.whole id (Nat.lt_of_le_of_ne (Nat.le_of_lt_succ hid) ‹_›)
  · intro id hid
    rw [capacity_addNode]
    exact Nat.lt_succ_of_lt (h.bound id hid)
  · intro id hid hb
    rw [face?_addNode]
    split
    · exact ⟨none, rfl⟩
    · exact h.label id ((hlive hid).resolve_left ‹_›) hb
  · intro id hb s hs
    rw [mem_successors_iff, weight?_addNode] at hs
    exact h.target id hb s (mem_successors_iff.2 hs)
  · intro id l k hf hl
    rw [face?_addNode] at hf
    split at hf
    · simp only [Option.some.injEq, Prod.mk.injEq] at hf
      exact absurd hf.1.symm hl
    · exact h.known id l k hf hl

/-- Adding the node of a state. -/
theorem withState (h : g.Modelled) (state : State) {l : Label} {k : Option Rat}
    (hk : (k = some 0 ∨ k = some 1) ∨ (k = none ∧ l ≠ .sink))
    (hnew : g.bindings.find? state = none) : (g.withState state l k).Modelled := by
  have hcap : (g.withState state l k).capacity = g.capacity + 1 := by
    rw [Game.withState, capacity_bindState, capacity_setKnown, capacity_addNode]
  refine ⟨((h.linked.addNode l).setKnown _ _).bindState _ _, ?_, ?_, ?_, ?_, ?_⟩
  · intro id hid
    rw [hcap] at hid
    rw [contains_eq_isSome_face?, face?_withState]
    split
    · rfl
    · rw [← contains_eq_isSome_face?]
      exact h.whole id (Nat.lt_of_le_of_ne (Nat.le_of_lt_succ hid) ‹_›)
  · intro id hid
    rw [hcap]
    rcases (bound_withState_iff hnew).1 hid with rfl | hid
    · exact Nat.lt_succ_self _
    · exact Nat.lt_succ_of_lt (h.bound id hid)
  · intro id hid hb
    rw [bound_withState_iff hnew, not_or] at hb
    rw [face?_withState, if_neg hb.1]
    rw [contains_eq_isSome_face?, face?_withState, if_neg hb.1, ← contains_eq_isSome_face?] at hid
    exact h.label id hid hb.2
  · intro id hb s hs
    rw [bound_withState_iff hnew, not_or] at hb
    rw [Game.withState, mem_successors_iff, weight?_bindState, weight?_setKnown, weight?_addNode,
      ← mem_successors_iff] at hs
    exact (bound_withState_iff hnew).2 (Or.inr (h.target id hb.2 s hs))
  · intro id l' k' hf hl
    rw [face?_withState] at hf
    split at hf
    · simp only [Option.some.injEq, Prod.mk.injEq] at hf
      obtain ⟨rfl, rfl⟩ := hf
      exact hk
    · exact h.known id l' k' hf hl

/-- The known values of average nodes are free. -/
theorem setKnown (h : g.Modelled) {k : Option Rat} (hf : g.face? id = some (.average, k))
    (x : Option Rat) : (g.setKnown id x).Modelled := by
  have hface : ∀ j, (g.setKnown id x).face? j =
      if j = id then some (.average, x) else g.face? j := by
    intro j
    rw [face?_setKnown, hf, Option.map_some]
  have hlive : ∀ j, (g.setKnown id x).contains j = g.contains j := by
    intro j
    rw [contains_eq_isSome_face?, contains_eq_isSome_face?, hface]
    split
    · rename_i hj
      rw [hj, hf]
      rfl
    · rfl
  refine ⟨h.linked.setKnown _ _, ?_, ?_, ?_, ?_, ?_⟩
  · intro j hj
    rw [hlive]
    exact h.whole j (by rwa [capacity_setKnown] at hj)
  · intro j hj
    rw [capacity_setKnown]
    exact h.bound j (by rwa [Bound, bindings_setKnown] at hj)
  · intro j hj hb
    rw [hface]
    split
    · exact ⟨x, rfl⟩
    · exact h.label j (by rwa [hlive] at hj) (by rwa [Bound, bindings_setKnown] at hb)
  · intro j hb s hs
    rw [Bound, bindings_setKnown] at hb ⊢
    rw [mem_successors_iff, weight?_setKnown, ← mem_successors_iff] at hs
    exact h.target j hb s hs
  · intro j l k hj hl
    rw [hface] at hj
    split at hj
    · simp only [Option.some.injEq, Prod.mk.injEq] at hj
      exact absurd hj.1.symm hl
    · exact h.known j l k hj hl

theorem seed (h : g.Modelled) (id : NodeId) : (g.seed id).Modelled := by
  rcases g.seed_cases id with hsame | ⟨n, x, hn, hl, -, -, -, hset⟩
  · rwa [hsame]
  · -- only an average node is seeded
    rw [hset]
    exact h.setKnown (by rw [face?_of_node? hn, hl]) _

theorem seedAverages (h : g.Modelled) : g.seedAverages.Modelled := by
  unfold Game.seedAverages
  generalize g.nodeIds = ids
  induction ids generalizing g with
  | nil => exact h
  | cons id ids ih => exact ih (h.seed id)

end Modelled

end Game

/-! ### Reading -/

namespace Input

open Game

variable {labels : List StateLabel} {g g' : Game} {id source : NodeId}

/-- Listed sinks have a payoff. -/
def PayoffsListed (labels : List StateLabel) : Prop :=
  ∀ e ∈ labels, e.label = .sink → e.value ≠ none

theorem sink_of_readLabelLine {line : Nat} {text : List Char} {entry : Option StateLabel}
    (h : readLabelLine line text = .ok entry) :
    ∀ e ∈ entry, e.label = .sink → e.value ≠ none := by
  unfold readLabelLine at h
  split at h
  · obtain rfl := Except.ok.inj h
    intro e he
    cases he
  · simp only [bind_eq_ok_iff] at h
    obtain ⟨state, -, label, -, value, -, h⟩ := h
    split at h
    · cases h
    · rename_i hcond
      obtain rfl := Except.ok.inj h
      intro e he hl hv
      obtain rfl := Option.mem_some_iff.1 he
      exact hcond ⟨hl, hv⟩
  · cases h

/-- What holds of the entry of every line holds of all entries. -/
theorem forall_mem_of_readLines {α : Type} {P : α → Prop}
    {read : Nat → List Char → Except InputError (Option α)}
    (hread : ∀ line text entry, read line text = .ok entry → ∀ e ∈ entry, P e) {number : Nat}
    {lines : List (List UInt8)} {entries : List α} (h : readLines read number lines = .ok entries) :
    ∀ e ∈ entries, P e := by
  induction lines generalizing number entries with
  | nil =>
    obtain rfl := Except.ok.inj h
    intro e he
    cases he
  | cons line rest ih =>
    rw [readLines] at h
    simp only [bind_eq_ok_iff] at h
    obtain ⟨text, -, entry, hentry, entries, hentries, h⟩ := h
    obtain rfl := Except.ok.inj h
    intro e he
    rcases List.mem_append.1 he with he | he
    · exact hread _ _ _ hentry e (Option.mem_toList.1 he)
    · exact ih hentries e he

theorem payoffsListed_of_readLabels {bytes : ByteArray} (h : readLabels bytes = .ok labels) :
    PayoffsListed labels :=
  forall_mem_of_readLines (fun _ _ _ hentry => sink_of_readLabelLine hentry) h

/-- The node of a state is bound, and what was bound stays so. -/
theorem stateNode_ok {state : Nat} (hl : PayoffsListed labels) (hg : g.Modelled)
    (h : stateNode labels g state = .ok (id, g')) :
    g'.Modelled ∧ g'.Bound id ∧ ∀ j, g.Bound j → g'.Bound j := by
  unfold stateNode at h
  split at h
  · rename_i id' hid
    obtain ⟨rfl, rfl⟩ := Prod.mk.inj (Except.ok.inj h)
    exact ⟨hg, ⟨state, hid⟩, fun _ hj => hj⟩
  · rename_i hnew
    split at h
    · cases h
    · rename_i entry hentry
      obtain ⟨rfl, rfl⟩ := Prod.mk.inj (Except.ok.inj h)
      have hmem : entry ∈ labels := List.mem_reverse.1 (List.mem_of_find?_eq_some hentry)
      refine ⟨hg.withState state ?_ hnew, (bound_withState_iff hnew).2 (Or.inl rfl),
        fun j hj => (bound_withState_iff hnew).2 (Or.inr hj)⟩
      cases hv : entry.value with
      | none => exact Or.inr ⟨rfl, fun he => hl entry hmem he hv⟩
      | some one =>
        left
        cases one
        · exact Or.inl rfl
        · exact Or.inr rfl

theorem addTarget_ok {target : Rat × Nat} (hl : PayoffsListed labels) (hg : g.Modelled)
    (h : addTarget labels source g target = .ok g') :
    g'.Modelled ∧ ∀ j, g.Bound j → g'.Bound j := by
  unfold addTarget at h
  rw [bind_eq_ok_iff] at h
  obtain ⟨⟨id, g₁⟩, hs, h⟩ := h
  obtain rfl := Except.ok.inj h
  obtain ⟨hg₁, hid, hkeep⟩ := stateNode_ok hl hg hs
  refine ⟨hg₁.addEdge target.1 (Or.inr hid), ?_⟩
  intro j hj
  rw [Bound, bindings_addEdge]
  exact hkeep j hj

theorem addChoice_ok {choice : Choice} (hl : PayoffsListed labels) (hg : g.Modelled)
    (hsource : g.Bound source) (h : addChoice labels source g choice = .ok g') :
    g'.Modelled ∧ g'.Bound source := by
  cases choice with
  | sure state =>
    obtain ⟨hg', hkeep⟩ := addTarget_ok hl hg h
    exact ⟨hg', hkeep source hsource⟩
  | random distribution =>
    refine foldlM_ok_induction (P := fun g => g.Modelled ∧ g.Bound source) ?_ ?_ h
    · rintro g₁ target - g₂ ⟨hg₁, hb⟩ hstep
      obtain ⟨hg₂, hkeep⟩ := addTarget_ok hl hg₁ hstep
      exact ⟨hg₂, hkeep source hb⟩
    · have hb : (g.addNode .average).2.Bound source := hsource
      refine ⟨hg.addNode.addEdge 1 (Or.inl hb), ?_⟩
      rw [Bound, bindings_addEdge]
      exact hb

theorem addTransition_ok {t : Transition} (hl : PayoffsListed labels) (hg : g.Modelled)
    (h : addTransition labels g t = .ok g') : g'.Modelled := by
  unfold addTransition at h
  rw [bind_eq_ok_iff] at h
  obtain ⟨⟨source, g₁⟩, hs, h⟩ := h
  obtain ⟨hg₁, hb, -⟩ := stateNode_ok hl hg hs
  have hfold := foldlM_ok_induction (P := fun g => g.Modelled ∧ g.Bound source)
    (fun g₁ choice _ g₂ hp hstep => addChoice_ok hl hp.1 hp.2 hstep) ⟨hg₁, hb⟩ h
  exact hfold.1

/-- **Games that are read are modelled.** -/
theorem readGame_ok {transitions labels : ByteArray} (h : readGame transitions labels = .ok g) :
    g.Modelled := by
  unfold readGame at h
  simp only [bind_eq_ok_iff] at h
  obtain ⟨ts, -, ls, hls, h⟩ := h
  unfold buildGame at h
  rw [bind_eq_ok_iff] at h
  obtain ⟨g₁, hg₁, h⟩ := h
  obtain rfl := Except.ok.inj h
  have hl := payoffsListed_of_readLabels hls
  have hbuilt := foldlM_ok_induction (P := Modelled)
    (fun g t _ g' hg hstep => addTransition_ok hl hg hstep) modelled_empty hg₁
  exact hbuilt.seedAverages

end Input

end StochasticGame
