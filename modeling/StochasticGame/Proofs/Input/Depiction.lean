import StochasticGame.Proofs.Input.Seeds
import StochasticGame.Proofs.Input.Sketch

/-!
# StochasticGame.Proofs.Input.Depiction

**A game that is built depicts its input.** `Depicts` says, in terms of transitions and
labels alone, which nodes there are, how they are labelled and which edges join them with
which weights. It holds of every game that is built, because it can be read off the strokes
of the transitions (`edge_mem_strokes`), and seeding changes no more than known values that
were missing.
-/

namespace StochasticGame

/-- The states that a choice leads to. -/
def Choice.targets : Choice → List State
  | .sure s => [s]
  | .random distribution => distribution.map Prod.snd

namespace Input

open Game

/-- The states that transitions mention, as sources and targets, in order. -/
def mentions (ts : List Transition) : List State :=
  ts.flatMap fun t => t.state :: t.choices.flatMap Choice.targets

/-- What a state leads to: the targets of its sure choices and the places of its random choices,
on whatever line they stand. -/
inductive Offers (ts : List Transition) : State → Place → Prop where
  | sure {i j : Nat} {t : Transition} {target : State} (ht : ts[i]? = some t)
    (hc : t.choices[j]? = some (.sure target)) : Offers ts t.state (.state target)
  | random {i j : Nat} {t : Transition} {d : List (Rat × Nat)} (ht : ts[i]? = some t)
    (hc : t.choices[j]? = some (.random d)) : Offers ts t.state (.draw i j)

/-- A game depicts transitions and labels, where `arena` lists what its nodes stand for. -/
structure Depicts (ts : List Transition) (labels : List StateLabel) (arena : List Place)
    (g : Game) : Prop where
  /-- No place has two nodes. -/
  nodup : arena.Nodup
  /-- Every node stands for a place. -/
  size : g.capacity = arena.length
  /-- There is a node for every state that is mentioned, -/
  mem_state : ∀ s, Place.state s ∈ arena ↔ s ∈ mentions ts
  /-- and one for every random choice. -/
  mem_draw : ∀ i j, Place.draw i j ∈ arena ↔
    ∃ t d, ts[i]? = some t ∧ t.choices[j]? = some (.random d)
  /-- States are bound in order of first mention, -/
  states : g.states = (mentions ts).eraseDups
  /-- which is also the order of their nodes, -/
  order : arena.filterMap Place.state? = (mentions ts).eraseDups
  /-- to these nodes. -/
  bound : ∀ s id, g.bindings.find? s = some id ↔ arena[id]? = some (.state s)
  /-- The node of a state is as its last label says. If that does not resolve it, only an
  average node has a known value. -/
  labelled : ∀ id s, arena[id]? = some (.state s) →
    ∃ n entry, g.node? id = some n ∧ LastWith StateLabel.state labels s entry ∧
      n.label = entry.label ∧
      (∀ one, entry.value = some one → n.known = some (if one then 1 else 0)) ∧
      (entry.value = none → n.label ≠ .average → n.known = none)
  /-- It leads to the nodes of what the state offers, with weight 1. -/
  edges : ∀ id s, arena[id]? = some (.state s) → ∀ v w, g.weight? id v = some w ↔
    w = 1 ∧ ∃ p, arena[v]? = some p ∧ Offers ts s p
  /-- The node of a random choice is an average node whose only predecessor is the state that
  offers the choice. It leads to the listed targets, with the last probability listed. -/
  draws : ∀ id i j t d, arena[id]? = some (.draw i j) → ts[i]? = some t →
    t.choices[j]? = some (.random d) →
    (∃ n, g.node? id = some n ∧ n.label = .average) ∧
      (∃ source, arena[source]? = some (.state t.state) ∧ g.predecessors id = [source]) ∧
      ∀ v w, g.weight? id v = some w ↔
        ∃ s, arena[v]? = some (.state s) ∧ LastWith Prod.snd d s (w, s)

variable {ts : List Transition} {labels : List StateLabel} {σ : List Stroke} {p u v : Place}
  {w : Rat} {i j : Nat} {s : State} {d : List (Rat × Nat)} {t : Transition}

/-! ### Reading the strokes -/

theorem flatMap_zipIdx_fst {α β : Type} (f : α → List β) (l : List α) :
    (l.zipIdx.flatMap fun x => f x.1) = l.flatMap f := by
  conv_rhs => rw [← List.zipIdx_map_fst 0 l, List.flatMap_map]

/-- Where only one position matters, a loop over all of them is about its entry. -/
theorem flatMap_zipIdx_of_ne {α β : Type} {f : α × Nat → List β} {l : List α} {a : α}
    (ha : l[i]? = some a) (hf : ∀ x, x.2 ≠ i → f x = []) : l.zipIdx.flatMap f = f (a, i) := by
  obtain ⟨before, after, hsplit⟩ := List.append_of_mem (List.mk_mem_zipIdx_iff_getElem?.2 ha)
  have hne := ne_of_mem_zipIdx hsplit
  have hnil : ∀ part : List (α × Nat), (∀ x ∈ part, x ∈ before ∨ x ∈ after) →
      part.flatMap f = [] :=
    fun part hpart => List.flatMap_eq_nil_iff.2 fun x hx => hf x (hne x (hpart x hx))
  rw [hsplit, List.flatMap_append, List.flatMap_cons, hnil before fun _ => Or.inl,
    hnil after fun _ => Or.inr, List.nil_append, List.append_nil]

theorem mentioned_flatMap {α : Type} (f : α → List Stroke) (l : List α) :
    mentioned (l.flatMap f) = l.flatMap fun a => mentioned (f a) := by
  simp only [mentioned, List.filterMap_flatMap]

theorem mentioned_choiceStrokes (c : Choice) :
    mentioned (choiceStrokes u i j c) = c.targets := by
  cases c with
  | sure => rfl
  | random d =>
    rw [choiceStrokes, mentioned_append, mentioned_flatMap]
    exact List.map_eq_flatMap.symm

theorem mentioned_strokes (ts : List Transition) : mentioned (strokes ts) = mentions ts := by
  simp only [strokes, lineStrokes, mentioned_flatMap, mentioned_append, mentioned_choiceStrokes,
    flatMap_zipIdx_fst]
  exact flatMap_zipIdx_fst (fun t => t.state :: t.choices.flatMap Choice.targets) ts

/-- An edge leaves the state that offers a choice, or the node of a random choice. -/
theorem edge_mem_choiceStrokes {c : Choice} : Stroke.edge u v w ∈ choiceStrokes p i j c ↔
    (u = p ∧ w = 1 ∧ ((∃ s, c = .sure s ∧ v = .state s) ∨ ∃ d, c = .random d ∧ v = .draw i j)) ∨
      (u = .draw i j ∧ ∃ d s, c = .random d ∧ v = .state s ∧ (w, s) ∈ d) := by
  cases c with
  | sure s' =>
    simp only [choiceStrokes, targetStrokes, List.mem_cons, Stroke.edge.injEq, reduceCtorEq,
      List.not_mem_nil, or_false, false_or, Choice.sure.injEq, exists_eq_left', false_and,
      and_false, exists_false]
    rw [and_comm (a := v = _)]
  | random d =>
    simp only [choiceStrokes, targetStrokes, List.mem_append, List.mem_cons, List.mem_flatMap,
      Stroke.edge.injEq, reduceCtorEq, List.not_mem_nil, or_false, false_or]
    constructor
    · intro h
      rcases h with ⟨rfl, rfl, rfl⟩ | ⟨q, hq, rfl, rfl, rfl⟩
      · exact Or.inl ⟨rfl, rfl, Or.inr ⟨d, rfl, rfl⟩⟩
      · exact Or.inr ⟨rfl, d, q.2, rfl, rfl, hq⟩
    · intro h
      rcases h with ⟨rfl, rfl, ⟨s', hs', -⟩ | ⟨d', -, rfl⟩⟩ | ⟨rfl, d', s', hd', rfl, hmem⟩
      · cases hs'
      · exact Or.inl ⟨rfl, rfl, rfl⟩
      · obtain rfl := Choice.random.inj hd'
        exact Or.inr ⟨(w, s'), hmem, rfl, rfl, rfl⟩

theorem edge_mem_strokes : Stroke.edge u v w ∈ strokes ts ↔
    ∃ i t j c, ts[i]? = some t ∧ t.choices[j]? = some c ∧
      .edge u v w ∈ choiceStrokes (.state t.state) i j c := by
  simp only [strokes, lineStrokes, List.mem_flatMap, List.mem_append, List.mem_singleton,
    reduceCtorEq, false_or, List.mem_zipIdx_iff_getElem?]
  constructor
  · intro h
    obtain ⟨⟨t, i⟩, ht, ⟨c, j⟩, hc, he⟩ := h
    exact ⟨i, t, j, c, ht, hc, he⟩
  · intro h
    obtain ⟨i, t, j, c, ht, hc, he⟩ := h
    exact ⟨(t, i), ht, (c, j), hc, he⟩

theorem exists_lastWeight? (h : Stroke.edge u v w ∈ σ) : ∃ w', lastWeight? σ u v = some w' := by
  rw [← Option.isSome_iff_exists, lastWeight?, Option.isSome_map, List.find?_isSome]
  exact ⟨(v, w), List.mem_reverse.2 (mem_filterMap_edgeFrom?.2 h), by simp⟩

theorem edge_state_mem_strokes :
    Stroke.edge (.state s) v w ∈ strokes ts ↔ w = 1 ∧ Offers ts s v := by
  simp only [edge_mem_strokes, edge_mem_choiceStrokes, Place.state.injEq, reduceCtorEq,
    false_and, or_false]
  constructor
  · intro h
    obtain ⟨i, t, j, c, ht, hc, rfl, rfl, hv⟩ := h
    rcases hv with ⟨s', rfl, rfl⟩ | ⟨d, rfl, rfl⟩
    · exact ⟨rfl, .sure ht hc⟩
    · exact ⟨rfl, .random ht hc⟩
  · intro h
    obtain ⟨rfl, hv⟩ := h
    cases hv with
    | sure ht hc => exact ⟨_, _, _, _, ht, hc, rfl, rfl, Or.inl ⟨_, rfl, rfl⟩⟩
    | random ht hc => exact ⟨_, _, _, _, ht, hc, rfl, rfl, Or.inr ⟨_, rfl, rfl⟩⟩

/-- All edges that leave a state have weight 1, so the last one does not matter. -/
theorem lastWeight?_state_eq_some_iff :
    lastWeight? (strokes ts) (.state s) v = some w ↔ w = 1 ∧ Offers ts s v := by
  constructor
  · intro h
    exact edge_state_mem_strokes.1 (edge_mem_of_lastWeight? h)
  · intro h
    obtain ⟨w', hw'⟩ := exists_lastWeight? (edge_state_mem_strokes.2 h)
    rw [hw', (edge_state_mem_strokes.1 (edge_mem_of_lastWeight? hw')).1, h.1]

theorem edgesFrom_choiceStrokes_of_ne {line position : Nat} (h : ¬ (line = i ∧ position = j))
    (c : Choice) :
    (choiceStrokes (.state s) line position c).filterMap (Stroke.edgeFrom? (.draw i j)) = [] := by
  rw [List.eq_nil_iff_forall_not_mem]
  intro e hmem
  obtain ⟨v, w⟩ := e
  rw [mem_filterMap_edgeFrom?, edge_mem_choiceStrokes] at hmem
  rcases hmem with ⟨he, -⟩ | ⟨he, -⟩
  · cases he
  · obtain ⟨rfl, rfl⟩ := Place.draw.inj he
    exact h ⟨rfl, rfl⟩

theorem edgesFrom_choiceStrokes (d : List (Rat × Nat)) :
    (choiceStrokes (.state s) i j (.random d)).filterMap (Stroke.edgeFrom? (.draw i j)) =
      d.map fun q => (.state q.2, q.1) := by
  simp [choiceStrokes, targetStrokes, Stroke.edgeFrom?, List.filterMap_flatMap,
    List.filterMap_cons, List.map_eq_flatMap]

/-- The edges that leave the node of a random choice are those of the choice. -/
theorem edgesFrom_strokes (ht : ts[i]? = some t) (hd : t.choices[j]? = some (.random d)) :
    (strokes ts).filterMap (Stroke.edgeFrom? (.draw i j)) = d.map fun q => (.state q.2, q.1) := by
  have hline : ∀ line t, (lineStrokes line t).filterMap (Stroke.edgeFrom? (.draw i j)) =
      t.choices.zipIdx.flatMap fun c =>
        (choiceStrokes (.state t.state) line c.2 c.1).filterMap (Stroke.edgeFrom? (.draw i j)) := by
    intro line t
    rw [lineStrokes, List.filterMap_append, List.filterMap_flatMap]
    rfl
  rw [strokes, List.filterMap_flatMap, flatMap_zipIdx_of_ne ht, hline, flatMap_zipIdx_of_ne hd,
    edgesFrom_choiceStrokes]
  · intro c hc
    exact edgesFrom_choiceStrokes_of_ne (fun h => hc h.2) c.1
  · intro t' ht'
    rw [hline, List.flatMap_eq_nil_iff]
    intro c _
    exact edgesFrom_choiceStrokes_of_ne (fun h => ht' h.1) c.1

/-- The last probability that is listed for a target is the weight of the edge to it. -/
theorem lastWeight?_draw_eq_some_iff (ht : ts[i]? = some t)
    (hd : t.choices[j]? = some (.random d)) : lastWeight? (strokes ts) (.draw i j) v = some w ↔
      ∃ s, v = .state s ∧ LastWith Prod.snd d s (w, s) := by
  rw [lastWeight?_eq_some_iff, edgesFrom_strokes ht hd]
  constructor
  · intro h
    obtain ⟨before, after, hsplit, -, hafter⟩ := h
    obtain ⟨before', rest, rfl, -, hrest⟩ := List.map_eq_append_iff.1 hsplit
    obtain ⟨⟨w', s⟩, after', rfl, hlast, rfl⟩ := List.map_eq_cons_iff.1 hrest
    obtain ⟨rfl, rfl⟩ := Prod.mk.inj hlast
    refine ⟨s, rfl, before', after', rfl, rfl, ?_⟩
    intro q hq he
    exact hafter _ (List.mem_map_of_mem hq) (congrArg Place.state he)
  · intro h
    obtain ⟨s, rfl, before, after, rfl, -, hafter⟩ := h
    refine ⟨_, _, List.map_append.trans (congrArg _ List.map_cons), rfl, ?_⟩
    intro q hq he
    obtain ⟨q', hq', rfl⟩ := List.mem_map.1 hq
    exact hafter q' hq' (Place.state.inj he)

/-- Only the state that offers a random choice leads to it. -/
theorem exists_lastWeight?_draw_iff (ht : ts[i]? = some t)
    (hd : t.choices[j]? = some (.random d)) :
    (∃ w, lastWeight? (strokes ts) u (.draw i j) = some w) ↔ u = .state t.state := by
  have hedge : ∀ {w}, Stroke.edge u (.draw i j) w ∈ strokes ts ↔ u = .state t.state ∧ w = 1 := by
    intro w
    simp only [edge_mem_strokes, edge_mem_choiceStrokes]
    constructor
    · intro h
      obtain ⟨i', t', j', c, ht', hc, h⟩ := h
      rcases h with ⟨hu, hw, ⟨s, -, he⟩ | ⟨d', rfl, he⟩⟩ | ⟨-, d', s, -, he, -⟩
      · cases he
      · obtain ⟨rfl, rfl⟩ := Place.draw.inj he
        obtain rfl := Option.some_inj.1 (ht.symm.trans ht')
        exact ⟨hu, hw⟩
      · cases he
    · intro h
      exact ⟨i, t, j, _, ht, hd, Or.inl ⟨h.1, h.2, Or.inr ⟨d, rfl, rfl⟩⟩⟩
  constructor
  · intro h
    obtain ⟨w, hw⟩ := h
    exact (hedge.1 (edge_mem_of_lastWeight? hw)).1
  · intro h
    exact exists_lastWeight? (hedge.2 ⟨h, rfl⟩)

/-! ### The game -/

variable {g g' : Game} {a b : NodeId}

/-- An edge between nodes is one between places. -/
theorem Drawn.weight?_eq_some_iff (h : Drawn labels σ g) (ha : (arena σ)[a]? = some u) :
    g.weight? a b = some w ↔ ∃ v, (arena σ)[b]? = some v ∧ lastWeight? σ u v = some w := by
  constructor
  · intro hw
    have hlive : g.contains b = true := h.linked.contains_of_isSome (by rw [hw]; rfl)
    have hlt : b < (arena σ).length := h.size ▸ lt_capacity_of_contains hlive
    have hb : (arena σ)[b]? = some (arena σ)[b] := List.getElem?_eq_getElem hlt
    exact ⟨_, hb, h.weight a b u _ ha hb ▸ hw⟩
  · intro hw
    obtain ⟨v, hb, hw⟩ := hw
    rw [h.weight a b u v ha hb, hw]

/-- A random choice has one predecessor. -/
theorem Drawn.exists_predecessors_draw (h : Drawn labels (strokes ts) g)
    (ha : (arena (strokes ts))[a]? = some (.draw i j)) (ht : ts[i]? = some t)
    (hd : t.choices[j]? = some (.random d)) :
    ∃ source, (arena (strokes ts))[source]? = some (.state t.state) ∧
      g.predecessors a = [source] := by
  obtain ⟨w, hw⟩ := (exists_lastWeight?_draw_iff ht hd).2 rfl
  obtain ⟨source, hsource⟩ :=
    List.mem_iff_getElem?.1 (h.closed _ _ _ (edge_mem_of_lastWeight? hw)).1
  refine ⟨source, hsource, List.perm_singleton.1 ?_⟩
  rw [List.perm_ext_iff_of_nodup (nodup_predecessors g a) (List.nodup_singleton source)]
  intro x
  rw [← linked_iff.1 h.linked, List.mem_singleton]
  constructor
  · intro hx
    obtain ⟨w', hw'⟩ := Option.isSome_iff_exists.1 hx
    have hlt : x < (arena (strokes ts)).length :=
      h.size ▸ lt_capacity_of_contains (contains_of_weight? hw')
    have hx := List.getElem?_eq_getElem hlt
    obtain ⟨v, hv, hlast⟩ := (h.weight?_eq_some_iff hx).1 hw'
    obtain rfl := Option.some_inj.1 (hv.symm.trans ha)
    rw [(exists_lastWeight?_draw_iff ht hd).1 ⟨w', hlast⟩] at hx
    exact arena_inj hx hsource
  · intro hx
    rw [hx, (h.weight?_eq_some_iff hsource).2 ⟨_, ha, hw⟩]
    rfl

/-- Filling in known values does not spoil the picture. -/
theorem Drawn.depicts (h : Drawn labels (strokes ts) g) (hfills : Fills g g') :
    Depicts ts labels (arena (strokes ts)) g' where
  nodup := nodup_arena _
  size := hfills.capacity.trans h.size
  mem_state s := by rw [← mem_mentioned_iff, mentioned_strokes]
  mem_draw i j := by rw [mem_arena_iff, draw_mem_strokes]
  states := by rw [Game.states, hfills.bindings, ← Game.states, h.states, mentioned_strokes]
  order := by rw [h.order, h.states, mentioned_strokes]
  bound := by
    rw [hfills.bindings]
    exact h.bound
  labelled id s hid := by
    obtain ⟨f, hf, hface⟩ := h.face id _ hid
    obtain ⟨entry, hentry, rfl⟩ := Option.map_eq_some_iff.1 hf
    obtain ⟨n, hn, hl, hk⟩ := face?_eq_some_iff.1 hface
    rw [lastLabel?, find?_reverse_eq_some_iff] at hentry
    rcases hfills.node id with hsame | ⟨m, x, hm, havg, hunknown, hfilled⟩
    · refine ⟨n, entry, hsame.trans hn, hentry, hl, ?_, ?_⟩
      · intro one hone
        rw [hk, hone]
        rfl
      · intro hnone _
        rw [hk, hnone]
        rfl
    · obtain rfl := Option.some_inj.1 (hn.symm.trans hm)
      refine ⟨_, entry, hfilled, hentry, hl, ?_, ?_⟩
      · intro one hone
        rw [hk, hone] at hunknown
        cases hunknown
      · intro _ hne
        exact absurd havg hne
  edges id s hid v w := by
    rw [hfills.weight?_eq, h.weight?_eq_some_iff hid]
    simp only [lastWeight?_state_eq_some_iff, and_left_comm, exists_and_left]
  draws id i j t d hid ht hd := by
    refine ⟨?_, ?_, ?_⟩
    · obtain ⟨f, hf, hface⟩ := h.face id _ hid
      obtain rfl := Option.some_inj.1 hf
      obtain ⟨n, hn, hl, -⟩ := face?_eq_some_iff.1 hface
      rcases hfills.node id with hsame | ⟨m, x, -, havg, -, hfilled⟩
      · exact ⟨n, hsame.trans hn, hl⟩
      · exact ⟨_, hfilled, havg⟩
    · rw [hfills.predecessors_eq]
      exact h.exists_predecessors_draw hid ht hd
    · intro v w
      rw [hfills.weight?_eq, h.weight?_eq_some_iff hid]
      simp only [lastWeight?_draw_eq_some_iff ht hd]
      constructor
      · intro hw
        obtain ⟨p, hp, s, rfl, hlast⟩ := hw
        exact ⟨s, hp, hlast⟩
      · intro hw
        obtain ⟨s, hp, hlast⟩ := hw
        exact ⟨_, hp, s, rfl, hlast⟩

theorem buildGame_outcome (ts : List Transition) (labels : List StateLabel) :
    Outcome labels (strokes ts) (buildGame ts labels) fun g =>
      ∃ g₀, Drawn labels (strokes ts) g₀ ∧ g = g₀.seedAverages := by
  rw [← List.append_nil (strokes ts)]
  refine (addTransitions_outcome labels ts).bind fun g₀ h => ?_
  rw [List.append_nil]
  exact .of_ok h.firstMissing?_eq_none ⟨g₀, h, rfl⟩

theorem exists_drawn_of_buildGame (h : buildGame ts labels = .ok g) :
    ∃ g₀, Drawn labels (strokes ts) g₀ ∧ g = g₀.seedAverages := by
  have houtcome := buildGame_outcome ts labels
  unfold Outcome at houtcome
  split at houtcome
  · rw [h] at houtcome
    cases houtcome
  · obtain ⟨g', hg', hdrawn⟩ := houtcome
    obtain rfl := Except.ok.inj (h.symm.trans hg')
    exact hdrawn

theorem lastLabel?_eq_none_iff : lastLabel? labels s = none ↔ ∀ e ∈ labels, e.state ≠ s := by
  simp [lastLabel?]

/-- **A game is built as the input describes it.** If some state that is mentioned has no label,
the first one is named in an error. Otherwise there is a game, and it depicts the input. -/
theorem buildGame_follows_input (ts : List Transition) (labels : List StateLabel) :
    (∃ before s after, mentions ts = before ++ s :: after ∧ (∀ e ∈ labels, e.state ≠ s) ∧
        (∀ s' ∈ before, ∃ e ∈ labels, e.state = s') ∧
        buildGame ts labels = .error (.missingLabel s)) ∨
      ((∀ s ∈ mentions ts, ∃ e ∈ labels, e.state = s) ∧
        ∃ g arena, buildGame ts labels = .ok g ∧ Depicts ts labels arena g) := by
  have houtcome := buildGame_outcome ts labels
  have hlabel : ∀ s', (lastLabel? labels s').isNone = false ↔ ∃ e ∈ labels, e.state = s' := by
    intro s'
    rw [Bool.eq_false_iff, ne_eq, Option.isNone_iff_eq_none, lastLabel?_eq_none_iff]
    push Not
    rfl
  unfold Outcome firstMissing? at houtcome
  rw [mentioned_strokes] at houtcome
  split at houtcome
  · rename_i s hfirst
    obtain ⟨hs, before, after, hsplit, hbefore⟩ := List.find?_eq_some_iff_append.1 hfirst
    refine Or.inl ⟨before, s, after, hsplit, ?_, ?_, houtcome⟩
    · exact lastLabel?_eq_none_iff.1 (Option.isNone_iff_eq_none.1 hs)
    · intro s' hs'
      exact (hlabel s').1 (by simpa using hbefore s' hs')
  · rename_i hnone
    obtain ⟨g, hg, g₀, hdrawn, rfl⟩ := houtcome
    refine Or.inr ⟨?_, _, _, hg, hdrawn.depicts (Fills.foldl_seed g₀.nodeIds g₀)⟩
    intro s hs
    exact (hlabel s).1 (Bool.eq_false_iff.2 (List.find?_eq_none.1 hnone s hs))

end Input

end StochasticGame
