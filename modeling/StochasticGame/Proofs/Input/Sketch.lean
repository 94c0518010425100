import Mathlib.Data.List.Induction
import Mathlib.Data.List.Nodup
import StochasticGame.Proofs.Input.Modelled

/-!
# StochasticGame.Proofs.Input.Sketch

**Games are drawn stroke by stroke.** A node stands for a place: a state, or the random
choice at a position of the input. Transitions are spelled out as a list of strokes, each of
which mentions a place or draws an edge between two places, in the order in which the
construction gets to them.

* The arena lists the places in order of first mention, and a node is an index into it.
* The weight between two places is that of the last edge drawn.
* The construction fails at the first stroke that mentions a state without a label.

`Drawn` relates strokes to the game they have led to. One lemma for a stroke of each kind
(`Drawn.mention`, `Drawn.placeState`, `Drawn.placeDraw`, `Drawn.edge`) carries it through the
nested loops, by `Outcome`, which accounts for success and failure at once: what follows a
failure changes neither.
-/

namespace StochasticGame

/-! ### Last entries and first mentions -/

section Lists

variable {α κ : Type} [DecidableEq κ]

/-- The last entry of a list with a key. -/
def LastWith (key : α → κ) (l : List α) (k : κ) (a : α) : Prop :=
  ∃ before after, l = before ++ a :: after ∧ key a = k ∧ ∀ b ∈ after, key b ≠ k

theorem find?_reverse_eq_some_iff {key : α → κ} {l : List α} {k : κ} {a : α} :
    l.reverse.find? (fun b => decide (key b = k)) = some a ↔ LastWith key l k a := by
  rw [List.find?_eq_some_iff_append, decide_eq_true_eq]
  constructor
  · intro h
    obtain ⟨ha, after, before, hl, hafter⟩ := h
    refine ⟨before.reverse, after.reverse, ?_, ha, ?_⟩
    · rw [← l.reverse_reverse, hl]
      simp
    · intro b hb
      simpa using hafter b (List.mem_reverse.1 hb)
  · intro h
    obtain ⟨before, after, rfl, ha, hafter⟩ := h
    exact ⟨ha, after.reverse, before.reverse, by simp, by simpa using hafter⟩

theorem eraseDups_concat (l : List κ) (a : κ) :
    (l ++ [a]).eraseDups = if a ∈ l then l.eraseDups else l.eraseDups ++ [a] := by
  rw [List.eraseDups_append]
  by_cases h : a ∈ l <;> simp [List.removeAll, List.eraseDups_cons, h]

theorem nodup_eraseDups (l : List κ) : l.eraseDups.Nodup := by
  induction l using List.reverseRecOn with
  | nil => simp
  | append_singleton l a ih =>
    rw [eraseDups_concat]
    split
    · exact ih
    · rename_i ha
      rw [← List.mem_eraseDups] at ha
      exact ih.append (List.nodup_singleton a) (by simpa using ha)

theorem getElem?_concat_eq_some_iff {l : List α} {a b : α} {i : Nat} :
    (l ++ [a])[i]? = some b ↔ l[i]? = some b ∨ (i = l.length ∧ a = b) := by
  rw [List.getElem?_append]
  split
  · rename_i h
    simp [Nat.ne_of_lt h]
  · rename_i h
    rw [List.getElem?_eq_none (Nat.not_lt.1 h), List.getElem?_singleton]
    simp only [reduceCtorEq, false_or, Option.ite_none_right_eq_some, Option.some.injEq]
    exact and_congr_left fun _ => by omega

/-- A loop over a list is one over its entries with their positions. -/
theorem foldlM_eq_foldlM_zipIdx {β ε : Type} (f : β → α → Except ε β) (b : β) (l : List α) :
    l.foldlM f b = l.zipIdx.foldlM (fun b x => f b x.1) b := by
  conv_lhs => rw [← List.zipIdx_map_fst 0 l, List.foldlM_map]

/-- A position occurs once. -/
theorem ne_of_mem_zipIdx {l : List α} {before after : List (α × Nat)} {x : α × Nat}
    (h : l.zipIdx = before ++ x :: after) : ∀ y, y ∈ before ∨ y ∈ after → y.2 ≠ x.2 := by
  have hnodup : ((before ++ x :: after).map Prod.snd).Nodup := by
    rw [← h, List.zipIdx_map_snd]
    exact List.nodup_range'
  rw [List.perm_middle.map Prod.snd |>.nodup_iff, List.map_cons, List.nodup_cons] at hnodup
  intro y hy he
  exact hnodup.1 (he ▸ List.mem_map_of_mem (List.mem_append.2 hy))

end Lists

namespace Input

open Game

/-! ### Strokes -/

/-- What a node stands for. -/
inductive Place where
  /-- A state. -/
  | state (s : State)
  /-- A random choice, by the position of its line and its position among the choices
  there. -/
  | draw (line choice : Nat)
  deriving DecidableEq

/-- The state of a place. -/
def Place.state? : Place → Option State
  | .state s => some s
  | .draw _ _ => none

/-- One step of a drawing. -/
inductive Stroke where
  /-- A place is mentioned. -/
  | place (p : Place)
  /-- An edge is drawn. -/
  | edge (source target : Place) (weight : Rat)

/-- The place that a stroke mentions. -/
def Stroke.place? : Stroke → Option Place
  | .place p => some p
  | .edge _ _ _ => none

/-- The edge that a stroke draws from a place. -/
def Stroke.edgeFrom? (u : Place) : Stroke → Option (Place × Rat)
  | .place _ => none
  | .edge source target weight => if source = u then some (target, weight) else none

/-- A target is mentioned and joined to its source. -/
def targetStrokes (source : Place) (target : Rat × Nat) : List Stroke :=
  [.place (.state target.2), .edge source (.state target.2) target.1]

/-- A random choice is a place of its own. -/
def choiceStrokes (source : Place) (line position : Nat) : Choice → List Stroke
  | .sure state => targetStrokes source (1, state)
  | .random distribution =>
    [.place (.draw line position), .edge source (.draw line position) 1] ++
      distribution.flatMap (targetStrokes (.draw line position))

/-- A line mentions its state and then draws its choices. -/
def lineStrokes (line : Nat) (t : Transition) : List Stroke :=
  [.place (.state t.state)] ++
    t.choices.zipIdx.flatMap fun c => choiceStrokes (.state t.state) line c.2 c.1

/-- The strokes of all lines. -/
def strokes (ts : List Transition) : List Stroke := ts.zipIdx.flatMap fun t => lineStrokes t.2 t.1

/-- The states that are mentioned, in order. -/
def mentioned (σ : List Stroke) : List State := (σ.filterMap Stroke.place?).filterMap Place.state?

/-- The places that are mentioned, in order of first mention. -/
def arena (σ : List Stroke) : List Place := (σ.filterMap Stroke.place?).eraseDups

/-- The weight of the last edge from one place to another. -/
def lastWeight? (σ : List Stroke) (u v : Place) : Option Rat :=
  ((σ.filterMap (Stroke.edgeFrom? u)).reverse.find? (·.1 = v)).map Prod.snd

/-- The first state that is mentioned and has no label. -/
def firstMissing? (labels : List StateLabel) (σ : List Stroke) : Option State :=
  (mentioned σ).find? fun s => (lastLabel? labels s).isNone

variable {labels : List StateLabel} {σ τ : List Stroke} {p u v : Place} {w : Rat} {i j : Nat}

theorem mem_arena_iff : p ∈ arena σ ↔ Stroke.place p ∈ σ := by
  rw [arena, List.mem_eraseDups, List.mem_filterMap]
  constructor
  · intro h
    obtain ⟨x, hx, hp⟩ := h
    cases x with
    | place q => exact Option.some_inj.1 hp ▸ hx
    | edge => cases hp
  · intro h
    exact ⟨_, h, rfl⟩

theorem mem_mentioned_iff {s : State} : s ∈ mentioned σ ↔ Place.state s ∈ arena σ := by
  rw [mentioned, arena, List.mem_eraseDups, List.mem_filterMap]
  constructor
  · intro h
    obtain ⟨q, hq, hs⟩ := h
    cases q with
    | state => exact Option.some_inj.1 hs ▸ hq
    | draw => cases hs
  · intro h
    exact ⟨_, h, rfl⟩

theorem nodup_arena (σ : List Stroke) : (arena σ).Nodup := nodup_eraseDups _

theorem arena_inj (hi : (arena σ)[i]? = some p) (hj : (arena σ)[j]? = some p) : i = j :=
  (List.getElem?_inj (List.getElem?_eq_some_iff.1 hi).1 (nodup_arena σ)).1 (hi.trans hj.symm)

/-- A place keeps its index. -/
theorem getElem?_arena_append (h : (arena σ)[i]? = some p) : (arena (σ ++ τ))[i]? = some p := by
  rw [arena, List.filterMap_append, List.eraseDups_append]
  exact (List.getElem?_append_left (List.getElem?_eq_some_iff.1 h).1).trans h

theorem arena_concat_of_mem (h : p ∈ arena σ) : arena (σ ++ [.place p]) = arena σ := by
  rw [arena, List.mem_eraseDups] at h
  rw [arena, List.filterMap_append]
  exact (eraseDups_concat _ p).trans (if_pos h)

theorem arena_concat_of_notMem (h : p ∉ arena σ) : arena (σ ++ [.place p]) = arena σ ++ [p] := by
  rw [arena, List.mem_eraseDups] at h
  rw [arena, List.filterMap_append]
  exact (eraseDups_concat _ p).trans (if_neg h)

theorem arena_concat_edge (σ : List Stroke) (u v : Place) (w : Rat) :
    arena (σ ++ [.edge u v w]) = arena σ := by
  simp [arena, List.filterMap_cons, Stroke.place?]

theorem mentioned_append (σ τ : List Stroke) :
    mentioned (σ ++ τ) = mentioned σ ++ mentioned τ := by
  simp [mentioned]

theorem mentioned_concat_place (p : Place) :
    mentioned (σ ++ [.place p]) = mentioned σ ++ p.state?.toList := by
  rw [mentioned_append]
  cases p <;> rfl

theorem mentioned_concat_edge (u v : Place) (w : Rat) :
    mentioned (σ ++ [.edge u v w]) = mentioned σ := by
  rw [mentioned_append]
  exact List.append_nil _

theorem lastWeight?_concat_place (u v : Place) :
    lastWeight? (σ ++ [.place p]) u v = lastWeight? σ u v := by
  simp [lastWeight?, List.filterMap_cons, Stroke.edgeFrom?]

theorem lastWeight?_concat_edge (a b : Place) :
    lastWeight? (σ ++ [.edge u v w]) a b = if a = u ∧ b = v then some w else lastWeight? σ a b := by
  by_cases ha : u = a
  · by_cases hb : v = b <;> simp [lastWeight?, Stroke.edgeFrom?, ha, hb, eq_comm]
  · have ha' : ¬ a = u := fun h => ha h.symm
    simp [lastWeight?, Stroke.edgeFrom?, ha, ha']

theorem mem_filterMap_edgeFrom? : (v, w) ∈ σ.filterMap (Stroke.edgeFrom? u) ↔
    Stroke.edge u v w ∈ σ := by
  rw [List.mem_filterMap]
  constructor
  · intro h
    obtain ⟨x, hx, he⟩ := h
    cases x with
    | place => cases he
    | edge source target weight =>
      obtain ⟨rfl, hsame⟩ := Option.ite_none_right_eq_some.1 he
      obtain ⟨rfl, rfl⟩ := Prod.mk.inj (Option.some_inj.1 hsame)
      exact hx
  · intro h
    exact ⟨_, h, if_pos rfl⟩

theorem lastWeight?_eq_some_iff : lastWeight? σ u v = some w ↔
    LastWith Prod.fst (σ.filterMap (Stroke.edgeFrom? u)) v (v, w) := by
  rw [← find?_reverse_eq_some_iff, lastWeight?, Option.map_eq_some_iff]
  constructor
  · intro h
    obtain ⟨⟨v', w'⟩, hfind, rfl⟩ := h
    obtain rfl : v' = v := by simpa using List.find?_some hfind
    exact hfind
  · intro h
    exact ⟨_, h, rfl⟩

theorem edge_mem_of_lastWeight? (h : lastWeight? σ u v = some w) : Stroke.edge u v w ∈ σ := by
  obtain ⟨before, after, hl, -⟩ := lastWeight?_eq_some_iff.1 h
  rw [← mem_filterMap_edgeFrom?, hl]
  simp

/-! ### Games that have been drawn -/

/-- The label and the known value of a place. -/
def placeFace? (labels : List StateLabel) : Place → Option (Label × Option Rat)
  | .state s =>
    (lastLabel? labels s).map fun e => (e.label, e.value.map fun one => if one then 1 else 0)
  | .draw _ _ => some (.average, none)

/-- A game shows what has been drawn. -/
structure Drawn (labels : List StateLabel) (σ : List Stroke) (g : Game) : Prop where
  /-- Edges are recorded consistently. -/
  linked : g.Linked
  /-- The arena has a slot for every place, -/
  size : g.capacity = (arena σ).length
  /-- with the label and the known value of the place. -/
  face : ∀ id p, (arena σ)[id]? = some p → ∃ f, placeFace? labels p = some f ∧ g.face? id = some f
  /-- States are bound in order of first mention, -/
  states : g.states = (mentioned σ).eraseDups
  /-- which is the order of the arena, -/
  order : (arena σ).filterMap Place.state? = g.states
  /-- to their places. -/
  bound : ∀ s id, g.bindings.find? s = some id ↔ (arena σ)[id]? = some (.state s)
  /-- Edges join places that have been mentioned, -/
  closed : ∀ u v w, .edge u v w ∈ σ → u ∈ arena σ ∧ v ∈ arena σ
  /-- and the last weight counts. -/
  weight : ∀ a b u v, (arena σ)[a]? = some u → (arena σ)[b]? = some v →
    g.weight? a b = lastWeight? σ u v

theorem drawn_empty : Drawn labels [] .empty where
  linked := linked_empty
  size := rfl
  face id p h := by simp [arena] at h
  states := rfl
  order := rfl
  bound s id := by simp [arena, Game.empty]
  closed u v w h := by cases h
  weight a b u v h := by simp [arena] at h

namespace Drawn

variable {g g' : Game} {a b : NodeId}

theorem contains (h : Drawn labels σ g) (ha : (arena σ)[a]? = some p) : g.contains a = true := by
  obtain ⟨f, -, hf⟩ := h.face a p ha
  rw [contains_eq_isSome_face?, hf]
  rfl

/-- All states so far have a label. -/
theorem firstMissing?_eq_none (h : Drawn labels σ g) : firstMissing? labels σ = none := by
  rw [firstMissing?, List.find?_eq_none]
  intro s hs
  obtain ⟨id, hid⟩ := List.mem_iff_getElem?.1 (mem_mentioned_iff.1 hs)
  obtain ⟨f, hf, -⟩ := h.face id _ hid
  obtain ⟨e, he, -⟩ := Option.map_eq_some_iff.1 hf
  simp [he]

/-- Mentioning a place again changes nothing. -/
theorem mention (h : Drawn labels σ g) (hp : p ∈ arena σ) :
    Drawn labels (σ ++ [.place p]) g := by
  have harena := arena_concat_of_mem hp
  refine ⟨h.linked, harena ▸ h.size, harena ▸ h.face, ?_, harena ▸ h.order, harena ▸ h.bound,
    ?_, ?_⟩
  · rw [h.states, mentioned_concat_place]
    cases p with
    | state s => exact ((eraseDups_concat _ s).trans (if_pos (mem_mentioned_iff.2 hp))).symm
    | draw => exact congrArg List.eraseDups (List.append_nil _).symm
  · intro u v w he
    rw [harena]
    exact h.closed u v w (by simpa using he)
  · intro a b u v ha hb
    rw [harena] at ha hb
    rw [lastWeight?_concat_place]
    exact h.weight a b u v ha hb

/-- A place that is mentioned for the first time gets the next slot. -/
theorem place (h : Drawn labels σ g) (hp : p ∉ arena σ) {f : Label × Option Rat}
    (hf : placeFace? labels p = some f) (hlinked : g'.Linked) (hcap : g'.capacity = g.capacity + 1)
    (hface : ∀ id, g'.face? id = if id = g.capacity then some f else g.face? id)
    (hweight : ∀ a b, g'.weight? a b = g.weight? a b)
    (hstates : g'.states = g.states ++ p.state?.toList)
    (hbound : ∀ s id, g'.bindings.find? s = some id ↔
      g.bindings.find? s = some id ∨ (id = g.capacity ∧ p = .state s)) :
    Drawn labels (σ ++ [.place p]) g' := by
  have harena := arena_concat_of_notMem hp
  have hend : ∀ {q id}, (arena σ)[id]? = some q → id ≠ g.capacity := by
    intro q id hid he
    rw [he, h.size] at hid
    simp at hid
  refine ⟨hlinked, ?_, ?_, ?_, ?_, ?_, ?_, ?_⟩
  · rw [hcap, harena, List.length_append, ← h.size]
    rfl
  · intro id q hid
    rw [harena, getElem?_concat_eq_some_iff, ← h.size] at hid
    rw [hface]
    cases hid with
    | inl hold =>
      rw [if_neg (hend hold)]
      exact h.face id q hold
    | inr hnew =>
      obtain ⟨rfl, rfl⟩ := hnew
      exact ⟨f, hf, if_pos rfl⟩
  · rw [hstates, h.states, mentioned_concat_place]
    cases p with
    | state s =>
      have hs : s ∉ mentioned σ := fun hs => hp (mem_mentioned_iff.1 hs)
      exact ((eraseDups_concat _ s).trans (if_neg hs)).symm
    | draw => simp [Place.state?]
  · rw [harena, List.filterMap_append, h.order, hstates]
    cases p <;> rfl
  · intro s id
    rw [hbound, h.bound, harena, getElem?_concat_eq_some_iff, h.size]
  · intro u v w he
    have hold := h.closed u v w (by simpa using he)
    rw [harena]
    exact ⟨List.mem_append_left _ hold.1, List.mem_append_left _ hold.2⟩
  · intro a b u v ha hb
    rw [harena, getElem?_concat_eq_some_iff, ← h.size] at ha hb
    rw [hweight, lastWeight?_concat_place]
    -- nothing has been drawn from or to a new place
    have hnone : u = p ∨ v = p → lastWeight? σ u v = none := by
      intro huv
      rw [Option.eq_none_iff_forall_ne_some]
      intro w hw
      obtain ⟨hu, hv⟩ := h.closed u v w (edge_mem_of_lastWeight? hw)
      cases huv with
      | inl he => exact hp (he ▸ hu)
      | inr he => exact hp (he ▸ hv)
    cases ha with
    | inr hnew =>
      obtain ⟨rfl, rfl⟩ := hnew
      rw [hnone (Or.inl rfl), weight?_of_not_live (node?_capacity g)]
    | inl ha =>
      cases hb with
      | inr hnew =>
        obtain ⟨rfl, rfl⟩ := hnew
        rw [hnone (Or.inr rfl), ← Option.not_isSome_iff_eq_none]
        intro hsome
        exact Nat.lt_irrefl _ (lt_capacity_of_contains (h.linked.contains_of_isSome hsome))
      | inl hb => exact h.weight a b u v ha hb

/-- The node of a state is bound to it. -/
theorem placeState (h : Drawn labels σ g) {s : State} (hs : Place.state s ∉ arena σ)
    {l : Label} {k : Option Rat} (hf : placeFace? labels (.state s) = some (l, k)) :
    Drawn labels (σ ++ [.place (.state s)]) (g.withState s l k) := by
  have hnone : g.bindings.find? s = none := by
    rw [Option.eq_none_iff_forall_ne_some]
    intro id hid
    exact hs (List.mem_of_getElem? ((h.bound s id).1 hid))
  refine h.place hs hf (((h.linked.addNode l).setKnown _ _).bindState _ _) ?_ ?_ ?_ ?_ ?_
  · rw [withState, capacity_bindState, capacity_setKnown, capacity_addNode]
  · exact face?_withState g s l k
  · intro a b
    rw [withState, weight?_bindState, weight?_setKnown, weight?_addNode]
  · have hkeys : s ∉ g.bindings.keys := by simp [OrdMap.mem_keys_iff, hnone]
    rw [Game.states, withState, bindState, OrdMap.keys_insert, bindings_setKnown, bindings_addNode,
      if_neg hkeys]
    rfl
  · intro s' id
    rw [withState, bindState, OrdMap.find?_insert, bindings_setKnown, bindings_addNode]
    split
    · rename_i he
      simp [he, hnone, eq_comm]
    · rename_i he
      simp [Ne.symm he]

/-- The node of a random choice is bound to nothing. -/
theorem placeDraw (h : Drawn labels σ g) (hp : Place.draw i j ∉ arena σ) :
    Drawn labels (σ ++ [.place (.draw i j)]) (g.addNode .average).2 := by
  refine h.place hp rfl (h.linked.addNode _) (capacity_addNode ..) (face?_addNode g .average)
    (weight?_addNode g .average) ?_ ?_
  · exact (List.append_nil _).symm
  · intro s id
    simp

theorem edge (h : Drawn labels σ g) (ha : (arena σ)[a]? = some u) (hb : (arena σ)[b]? = some v)
    (w : Rat) : Drawn labels (σ ++ [.edge u v w]) (g.addEdge a b w) := by
  have harena := arena_concat_edge σ u v w
  refine ⟨h.linked.addEdge a b w, ?_, ?_, ?_, ?_, ?_, ?_, ?_⟩
  · rw [harena, capacity_addEdge, h.size]
  · intro id p hid
    rw [face?_addEdge]
    exact h.face id p (harena ▸ hid)
  · rw [Game.states, bindings_addEdge, mentioned_concat_edge]
    exact h.states
  · rw [harena, Game.states, bindings_addEdge]
    exact h.order
  · rw [harena, bindings_addEdge]
    exact h.bound
  · intro u' v' w' he
    rw [harena]
    rcases List.mem_append.1 he with he | he
    · exact h.closed u' v' w' he
    · obtain ⟨rfl, rfl, rfl⟩ := Stroke.edge.inj (List.mem_singleton.1 he)
      exact ⟨List.mem_of_getElem? ha, List.mem_of_getElem? hb⟩
  · intro a' b' u' v' ha' hb'
    rw [harena] at ha' hb'
    rw [weight?_addEdge (h.contains ha) (h.contains hb), lastWeight?_concat_edge,
      h.weight a' b' u' v' ha' hb']
    -- the ends of an edge are the same nodes exactly if they are the same places
    have hsame : ∀ {x y : NodeId} {q r : Place}, (arena σ)[x]? = some q →
        (arena σ)[y]? = some r → (x = y ↔ q = r) := by
      intro x y q r hx hy
      constructor
      · intro hxy
        exact Option.some_inj.1 (hx.symm.trans (hxy ▸ hy))
      · intro hqr
        exact arena_inj (hqr ▸ hx) hy
    simp only [hsame ha' ha, hsame hb' hb]

end Drawn

/-! ### The construction -/

section Outcome

variable {α β : Type} {r : Except InputError α} {P : α → Prop} {f : α → Except InputError β}
  {Q : β → Prop}

/-- A computation fails with the first state that has no label, and otherwise succeeds. -/
def Outcome (labels : List StateLabel) (σ : List Stroke) (r : Except InputError α)
    (P : α → Prop) : Prop :=
  match firstMissing? labels σ with
  | some s => r = .error (.missingLabel s)
  | none => ∃ a, r = .ok a ∧ P a

theorem firstMissing?_append : firstMissing? labels (σ ++ τ) =
    (firstMissing? labels σ).or (firstMissing? labels τ) := by
  rw [firstMissing?, mentioned_append, List.find?_append]
  rfl

theorem Outcome.of_ok (h : firstMissing? labels σ = none) {a : α} (ha : P a) :
    Outcome labels σ (.ok a) P := by
  rw [Outcome, h]
  exact ⟨a, rfl, ha⟩

theorem Outcome.imp (h : Outcome labels σ r P) {P' : α → Prop} (hP : ∀ a, P a → P' a) :
    Outcome labels σ r P' := by
  unfold Outcome at h ⊢
  split at h
  · exact h
  · obtain ⟨a, hr, ha⟩ := h
    exact ⟨a, hr, hP a ha⟩

theorem Outcome.bind (h : Outcome labels σ r P)
    (hf : ∀ a, P a → Outcome labels (σ ++ τ) (f a) Q) : Outcome labels (σ ++ τ) (r >>= f) Q := by
  unfold Outcome at h
  split at h
  · rename_i s hs
    rw [Outcome, firstMissing?_append, hs, h]
    rfl
  · obtain ⟨a, rfl, ha⟩ := h
    exact hf a ha

/-- A loop draws the strokes of its entries one after another. -/
theorem Outcome.foldlM {P : List Stroke → α → Prop} {step : α → β → Except InputError α}
    {draw : β → List Stroke} (hP : ∀ σ a, P σ a → firstMissing? labels σ = none) {xs : List β}
    (hstep : ∀ before x after, xs = before ++ x :: after → ∀ a, P (σ ++ before.flatMap draw) a →
      Outcome labels (σ ++ before.flatMap draw ++ draw x) (step a x)
        (P (σ ++ before.flatMap draw ++ draw x)))
    {a : α} (ha : P σ a) :
    Outcome labels (σ ++ xs.flatMap draw) (xs.foldlM step a) (P (σ ++ xs.flatMap draw)) := by
  induction xs generalizing σ a with
  | nil =>
    rw [List.flatMap_nil, List.append_nil]
    exact .of_ok (hP σ a ha) ha
  | cons x xs ih =>
    have hfirst := hstep [] x xs rfl a (by simpa using ha)
    rw [List.flatMap_nil, List.append_nil] at hfirst
    rw [List.flatMap_cons, ← List.append_assoc, List.foldlM_cons]
    refine hfirst.bind fun a' ha' => ih ?_ ha'
    intro before y after he a hbefore
    have hnext := hstep (x :: before) y after (by rw [he, List.cons_append]) a
    simp only [List.flatMap_cons, ← List.append_assoc] at hnext
    exact hnext hbefore

end Outcome

variable {g : Game} {source : NodeId}

theorem stateNode_outcome (h : Drawn labels σ g) (s : State) :
    Outcome labels (σ ++ [.place (.state s)]) (stateNode labels g s) fun r =>
      Drawn labels (σ ++ [.place (.state s)]) r.2 ∧
        (arena (σ ++ [.place (.state s)]))[r.1]? = some (.state s) := by
  unfold stateNode
  cases hs : g.bindings.find? s with
  | some id =>
    have hid := (h.bound s id).1 hs
    have hdrawn := h.mention (List.mem_of_getElem? hid)
    exact .of_ok hdrawn.firstMissing?_eq_none ⟨hdrawn, getElem?_arena_append hid⟩
  | none =>
    have hnew : Place.state s ∉ arena σ := by
      intro hmem
      obtain ⟨id, hid⟩ := List.mem_iff_getElem?.1 hmem
      rw [(h.bound s id).2 hid] at hs
      cases hs
    cases hl : lastLabel? labels s with
    | none =>
      have hmissing : firstMissing? labels (σ ++ [.place (.state s)]) = some s := by
        rw [firstMissing?_append, h.firstMissing?_eq_none]
        simp [firstMissing?, mentioned, Stroke.place?, Place.state?, hl]
      rw [Outcome, hmissing]
    | some entry =>
      have hdrawn := h.placeState hnew (by rw [placeFace?, hl, Option.map_some])
      refine .of_ok hdrawn.firstMissing?_eq_none ⟨hdrawn, ?_⟩
      rw [arena_concat_of_notMem hnew, getElem?_concat_eq_some_iff]
      exact Or.inr ⟨h.size, rfl⟩

theorem addTarget_outcome (h : Drawn labels σ g) (hu : (arena σ)[source]? = some u)
    (target : Rat × Nat) :
    Outcome labels (σ ++ targetStrokes u target) (addTarget labels source g target)
      (Drawn labels (σ ++ targetStrokes u target)) := by
  have hsplit : σ ++ targetStrokes u target =
      σ ++ [.place (.state target.2)] ++ [.edge u (.state target.2) target.1] := by
    rw [targetStrokes, List.append_assoc]
    rfl
  rw [hsplit]
  refine (stateNode_outcome h target.2).bind fun r hr => ?_
  have hdrawn := hr.1.edge (getElem?_arena_append hu) hr.2 target.1
  exact .of_ok hdrawn.firstMissing?_eq_none hdrawn

theorem addChoice_outcome (h : Drawn labels σ g) (hu : (arena σ)[source]? = some u)
    (hnew : Place.draw i j ∉ arena σ) (c : Choice) :
    Outcome labels (σ ++ choiceStrokes u i j c) (addChoice labels source g c)
      (Drawn labels (σ ++ choiceStrokes u i j c)) := by
  cases c with
  | sure state => exact addTarget_outcome h hu (1, state)
  | random distribution =>
    have hplace := h.placeDraw hnew
    have hid : (arena (σ ++ [.place (.draw i j)]))[g.capacity]? = some (.draw i j) := by
      rw [arena_concat_of_notMem hnew, getElem?_concat_eq_some_iff]
      exact Or.inr ⟨h.size, rfl⟩
    have hedge := hplace.edge (getElem?_arena_append hu) hid 1
    have hsplit : σ ++ choiceStrokes u i j (.random distribution) =
        σ ++ [.place (.draw i j)] ++ [.edge u (.draw i j) 1] ++
          distribution.flatMap (targetStrokes (.draw i j)) := by
      simp [choiceStrokes]
    rw [hsplit]
    refine (Outcome.foldlM (P := fun σ' g' =>
      Drawn labels σ' g' ∧ (arena σ')[g.capacity]? = some (.draw i j)) ?_ ?_
      ⟨hedge, getElem?_arena_append hid⟩).imp fun _ h => h.1
    · exact fun _ _ h => h.1.firstMissing?_eq_none
    · intro before target after _ g' hg'
      exact (addTarget_outcome hg'.1 hg'.2 target).imp fun _ h => ⟨h, getElem?_arena_append hg'.2⟩

theorem place_mem_targetStrokes {target : Rat × Nat} :
    Stroke.place p ∈ targetStrokes u target ↔ p = .state target.2 := by
  simp [targetStrokes]

theorem draw_mem_choiceStrokes {line position : Nat} {c : Choice} :
    Stroke.place (.draw i j) ∈ choiceStrokes u line position c ↔
      i = line ∧ j = position ∧ ∃ d, c = .random d := by
  cases c with
  | sure state => simp [choiceStrokes, place_mem_targetStrokes]
  | random d => simp [choiceStrokes, place_mem_targetStrokes]

theorem draw_mem_lineStrokes {line : Nat} {t : Transition} :
    Stroke.place (.draw i j) ∈ lineStrokes line t ↔
      i = line ∧ ∃ d, t.choices[j]? = some (.random d) := by
  simp only [lineStrokes, List.mem_append, List.mem_singleton, Stroke.place.injEq, reduceCtorEq,
    false_or, List.mem_flatMap, draw_mem_choiceStrokes, List.mem_zipIdx_iff_getElem?]
  constructor
  · intro h
    obtain ⟨c, hc, hi, rfl, d, hd⟩ := h
    exact ⟨hi, d, hd ▸ hc⟩
  · intro h
    obtain ⟨hi, d, hd⟩ := h
    exact ⟨(.random d, j), hd, hi, rfl, d, rfl⟩

theorem draw_mem_strokes {ts : List Transition} : Stroke.place (.draw i j) ∈ strokes ts ↔
    ∃ t d, ts[i]? = some t ∧ t.choices[j]? = some (.random d) := by
  simp only [strokes, List.mem_flatMap, draw_mem_lineStrokes, List.mem_zipIdx_iff_getElem?]
  constructor
  · intro h
    obtain ⟨t, ht, rfl, d, hd⟩ := h
    exact ⟨t.1, d, ht, hd⟩
  · intro h
    obtain ⟨t, d, ht, hd⟩ := h
    exact ⟨(t, i), ht, rfl, d, hd⟩

theorem addTransition_outcome (h : Drawn labels σ g) {line : Nat}
    (hnew : ∀ j, Place.draw line j ∉ arena σ) (t : Transition) :
    Outcome labels (σ ++ lineStrokes line t) (addTransition labels g t)
      (Drawn labels (σ ++ lineStrokes line t)) := by
  rw [lineStrokes, ← List.append_assoc]
  refine (stateNode_outcome h t.state).bind fun r hr => ?_
  obtain ⟨source, g₁⟩ := r
  obtain ⟨hdrawn, hsource⟩ := hr
  dsimp only
  rw [foldlM_eq_foldlM_zipIdx]
  refine (Outcome.foldlM (P := fun σ' g' =>
    Drawn labels σ' g' ∧ (arena σ')[source]? = some (.state t.state)) ?_ ?_
    ⟨hdrawn, hsource⟩).imp fun _ h => h.1
  · exact fun _ _ h => h.1.firstMissing?_eq_none
  · intro before c after hsplit g' hg'
    have hfresh : Place.draw line c.2 ∉
        arena (σ ++ [.place (.state t.state)] ++
          before.flatMap fun c => choiceStrokes (.state t.state) line c.2 c.1) := by
      rw [mem_arena_iff, List.mem_append, List.mem_append, List.mem_flatMap]
      intro h
      rcases h with (hmem | hmem) | ⟨c', hc', hmem⟩
      · exact hnew c.2 (mem_arena_iff.2 hmem)
      · simp at hmem
      · exact ne_of_mem_zipIdx hsplit c' (Or.inl hc') (draw_mem_choiceStrokes.1 hmem).2.1.symm
    exact (addChoice_outcome hg'.1 hg'.2 hfresh c.1).imp fun _ h =>
      ⟨h, getElem?_arena_append hg'.2⟩

/-- **Transitions are drawn as they are spelled out.** -/
theorem addTransitions_outcome (labels : List StateLabel) (ts : List Transition) :
    Outcome labels (strokes ts) (ts.foldlM (addTransition labels) .empty)
      (Drawn labels (strokes ts)) := by
  rw [foldlM_eq_foldlM_zipIdx, ← List.nil_append (strokes ts)]
  refine Outcome.foldlM ?_ ?_ drawn_empty
  · exact fun _ _ h => h.firstMissing?_eq_none
  · intro before t after hsplit g hg
    refine addTransition_outcome hg ?_ t.1
    intro j hmem
    rw [mem_arena_iff, List.nil_append, List.mem_flatMap] at hmem
    obtain ⟨t', ht', hmem⟩ := hmem
    exact ne_of_mem_zipIdx hsplit t' (Or.inl ht') (draw_mem_lineStrokes.1 hmem).1.symm

end Input

end StochasticGame
