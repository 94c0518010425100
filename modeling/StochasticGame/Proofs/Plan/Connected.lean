import StochasticGame.Proofs.Plan.Schedule

/-!
# StochasticGame.Proofs.Plan.Connected

**Components are strongly connected.** The candidates come in the order in which a
traversal along incoming edges finished them, last one first. When a candidate is
visited, whatever it leads to has been collected with an earlier candidate, or leads
back to it. So each visit collects vertices that lead to each other.

`Linked.connected_of_mem_plan` says so of the components of a plan. Together with
`Linked.plan_isSchedule` this makes a plan what it is meant to be: nodes wait for each
other only if they have to. In particular every component is a single vertex without a
loop exactly if there is no cycle (`isAcyclic_components_iff`).

Conversely, a path never leads to a later component of a schedule, so vertices that lead
to each other are in one component (`plan_lists_strong_components`).
-/

namespace StochasticGame.Digraph

variable {d : Digraph} {u v : NodeId}

/-! ### Paths of the reversed graph -/

theorem Reaches.mem_vertices (hd : d.Closed) (hu : u ∈ d.vertices) (h : d.Reaches u v) :
    v ∈ d.vertices := by
  induction h with
  | refl => exact hu
  | tail _ hbc ih => exact hd.next_mem _ ih _ hbc

theorem Reaches.reversed (hd : d.Closed) (hu : u ∈ d.vertices) (h : d.Reaches u v) :
    d.reversed.Reaches v u := by
  induction h with
  | refl => exact .refl
  | tail hub hbc ih =>
    have hb := Reaches.mem_vertices hd hu hub
    exact .head (List.mem_filter.2 ⟨hb, decide_eq_true hbc⟩) ih

theorem Reaches.of_reversed (h : d.reversed.Reaches u v) : d.Reaches v u := by
  induction h with
  | refl => exact .refl
  | tail _ hbc ih => exact .head (of_decide_eq_true (List.mem_filter.1 hbc).2) ih

/-! ### Candidates in order -/

/-- Whatever a candidate leads to is marked, or leads back to it, or an earlier
candidate leads there. -/
def InOrder (d : Digraph) (marked cands : List NodeId) : Prop :=
  ∀ a v b, cands = a ++ v :: b → ∀ u, d.Reaches v u →
    u ∈ marked ∨ d.Reaches u v ∨ ∃ z ∈ a, d.Reaches z u

/-- A list of vertices that everything leads out of no more. -/
def Complete (d : Digraph) (marked : List NodeId) : Prop :=
  ∀ u ∈ marked, ∀ w ∈ d.next u, w ∈ marked

theorem Complete.mem_of_reaches {marked : List NodeId} (h : d.Complete marked) (hu : u ∈ marked)
    (hr : d.Reaches u v) : v ∈ marked := by
  induction hr with
  | refl => exact hu
  | tail _ hbc ih => exact h _ ih _ hbc

/-- Once a candidate is marked with all that it leads to, the others are in order. -/
theorem InOrder.tail {marked marked' cands : List NodeId} (h : d.InOrder marked (v :: cands))
    (hsub : ∀ u ∈ marked, u ∈ marked') (hv : v ∈ marked') (hclosed : d.Complete marked') :
    d.InOrder marked' cands := by
  intro a x b hcands u hxu
  rcases h (v :: a) x b (by rw [hcands]; rfl) u hxu with hu | hback | ⟨z, hz, hzu⟩
  · exact Or.inl (hsub u hu)
  · exact Or.inr (Or.inl hback)
  · rcases List.mem_cons.1 hz with rfl | hz
    · exact Or.inl (hclosed.mem_of_reaches hv hzu)
    · exact Or.inr (Or.inr ⟨z, hz, hzu⟩)

/-- A visit with complete marks leaves complete marks. -/
theorem Visited.complete {marked : List NodeId} {t : Traversal}
    (h : d.Visited marked [] ⟨marked, []⟩ v t) (hclosed : d.Complete marked) :
    d.Complete t.marked := by
  intro u hu w hw
  rcases (h.sound.marked_iff u).1 hu with ho | hg | hf
  · exact (h.sound.marked_iff w).2 (Or.inl (hclosed u ho w hw))
  · exact absurd hg List.not_mem_nil
  · exact h.sound.marked_of_next hf hw

/-- What candidates in order collect is connected. -/
theorem connected_of_mem_collect (hd : d.Closed) {cands marked : List NodeId}
    (hc : ∀ v ∈ cands, v ∈ d.vertices) (hm : ∀ v ∈ marked, v ∈ d.vertices)
    (hclosed : d.Complete marked) (horder : d.InOrder marked cands) :
    ∀ c ∈ d.collect marked cands, ∀ u ∈ c, ∀ w ∈ c, d.Reaches u w := by
  induction cands generalizing marked with
  | nil => simp [collect]
  | cons v rest ih =>
    have hrest : ∀ u ∈ rest, u ∈ d.vertices := fun u hu => hc u (List.mem_cons_of_mem _ hu)
    rw [collect]
    split
    · rename_i hv
      exact ih hrest hm hclosed (horder.tail (fun _ hu => hu) hv hclosed)
    · have hvis := (Sound.start hm).visit_root hd (hc v List.mem_cons_self)
      intro c hcs
      rcases List.mem_cons.1 hcs with rfl | hcs
      · -- the new component: everything in it leads back to the candidate
        have hconn : ∀ u ∈ (d.visit ⟨marked, []⟩ v).finished, d.Connected v u := by
          intro u hu
          obtain ⟨new, hf, hreach⟩ := hvis.adds
          have hvu : d.Reaches v u := hreach u (by simpa [hf] using hu)
          rcases horder [] v rest rfl u hvu with hum | hback | ⟨z, hz, -⟩
          · exact absurd hum (hvis.sound.fresh u hu).1
          · exact ⟨hvu, hback⟩
          · exact absurd hz List.not_mem_nil
        intro u hu w hw
        exact (hconn u hu).2.trans (hconn w hw).1
      · have hsub : ∀ u ∈ marked, u ∈ (d.visit ⟨marked, []⟩ v).marked :=
          fun u hu => (hvis.sound.marked_iff u).2 (Or.inl hu)
        have hcomplete := hvis.complete hclosed
        exact ih hrest hvis.sound.mem_vertices hcomplete
          (horder.tail hsub hvis.mem hcomplete) c hcs

/-- Every component has a vertex: the candidate that it was collected from. -/
theorem ne_nil_of_mem_collect (hd : d.Closed) {cands marked : List NodeId}
    (hc : ∀ v ∈ cands, v ∈ d.vertices) (hm : ∀ v ∈ marked, v ∈ d.vertices) :
    ∀ c ∈ d.collect marked cands, c ≠ [] := by
  induction cands generalizing marked with
  | nil => simp [collect]
  | cons v rest ih =>
    have hrest : ∀ u ∈ rest, u ∈ d.vertices := fun u hu => hc u (List.mem_cons_of_mem _ hu)
    rw [collect]
    split
    · exact ih hrest hm
    · rename_i hv
      have hvis := (Sound.start hm).visit_root hd (hc v List.mem_cons_self)
      intro c hcs
      cases List.mem_cons.1 hcs with
      | inl hnew =>
        have hfinished : v ∈ c := by
          rcases (hvis.sound.marked_iff v).1 hvis.mem with ho | hg | hf
          · exact absurd ho hv
          · exact absurd hg List.not_mem_nil
          · rwa [hnew]
        exact List.ne_nil_of_mem hfinished
      | inr hcs => exact ih hrest hvis.sound.mem_vertices c hcs

/-! ### The order of the first traversal -/

/-- In a list without repetitions, an element with another one after it stands before
that one. -/
theorem mem_left_of_split {a b a' b' : List NodeId} {v z : NodeId}
    (h : a ++ v :: b = a' ++ z :: b') (hn : (a ++ v :: b).Nodup) (hv : v ∈ b') : z ∈ a := by
  induction a generalizing a' with
  | nil =>
    -- otherwise the first element occurs again
    have hvb : v ∉ b := (List.nodup_cons.1 hn).1
    cases a' with
    | nil =>
      obtain ⟨-, rfl⟩ : v = z ∧ b = b' := by simpa using h
      exact absurd hv hvb
    | cons x a' =>
      obtain ⟨-, rfl⟩ : v = x ∧ b = a' ++ z :: b' := by simpa using h
      exact absurd (List.mem_append_right _ (List.mem_cons_of_mem _ hv)) hvb
  | cons x a ih =>
    cases a' with
    | nil =>
      obtain ⟨rfl, -⟩ : x = z ∧ a ++ v :: b = b' := by simpa using h
      exact List.mem_cons_self
    | cons y a' =>
      obtain ⟨-, htail⟩ : x = y ∧ a ++ v :: b = a' ++ z :: b' := by simpa using h
      exact List.mem_cons_of_mem _ (ih htail (List.nodup_cons.1 hn).2)

/-- A traversal along incoming edges puts the vertices in order. -/
theorem inOrder_reversed (hd : d.Closed) :
    d.InOrder [] (d.reversed.traverse d.vertices).finished := by
  obtain ⟨hs, hall⟩ := Sound.traverse hd.reversed d.vertices fun _ hv => hv
  intro a v b hcands u hvu
  have hv : v ∈ d.vertices := by
    apply hs.mem_vertices v
    rw [hs.marked_iff, hcands]
    simp
  have hu := hall u (hvu.mem_vertices hd hv)
  rcases hs.led u hu with ⟨y, hy, -⟩ | ⟨o, ho, -⟩ | ⟨a', z, b', hsplit, hconn, hlast⟩
  · exact absurd hy List.not_mem_nil
  · exact absurd ho List.not_mem_nil
  · -- the vertex that leads the way is the candidate or comes before it
    rcases List.mem_cons.1 (hlast v (hvu.reversed hd hv)) with rfl | hvb
    · exact Or.inr (Or.inl hconn.2.of_reversed)
    · refine Or.inr (Or.inr ⟨z, ?_, hconn.1.of_reversed⟩)
      exact mem_left_of_split (hcands.symm.trans hsplit) (hcands ▸ hs.nodup) hvb

theorem mem_vertices_of_finished (hd : d.Closed) :
    ∀ v ∈ (d.reversed.traverse d.vertices).finished, v ∈ d.vertices := by
  obtain ⟨hs, -⟩ := Sound.traverse hd.reversed d.vertices fun _ hv => hv
  intro v hv
  exact hs.mem_vertices v ((hs.marked_iff v).2 (Or.inr (Or.inr hv)))

/-- The vertices of a component lead to each other. -/
theorem connected_of_mem_components (hd : d.Closed) :
    ∀ c ∈ d.components, ∀ u ∈ c, ∀ w ∈ c, d.Reaches u w :=
  connected_of_mem_collect hd (mem_vertices_of_finished hd) (by simp)
    (fun _ hu => absurd hu List.not_mem_nil) (inOrder_reversed hd)

theorem ne_nil_of_mem_components (hd : d.Closed) : ∀ c ∈ d.components, c ≠ [] :=
  ne_nil_of_mem_collect hd (mem_vertices_of_finished hd) (by simp)

/-! ### Cycles -/

/-- Every component is a single vertex without a loop exactly if no edge lies on a
cycle. -/
theorem isAcyclic_components_iff (hd : d.Closed) :
    d.isAcyclic d.components = true ↔ ∀ u ∈ d.vertices, ∀ w ∈ d.next u, ¬ d.Reaches w u := by
  have hcs := IsSchedule.components hd
  constructor
  · intro ha u hu w hw hback
    -- along an edge the component number goes down, along a path it does not go up
    have hdown := hcs.rank_of_isAcyclic ha
    have hup := (hback.rank_le hd hdown (hd.next_mem u hu w hw)).1
    exact absurd (hdown u hu w hw) (not_lt.2 hup)
  · intro hnone
    simp only [isAcyclic, Bool.and_eq_true, List.all_eq_true, decide_eq_true_eq]
    refine ⟨?_, fun u hu hloop => hnone u hu u hloop .refl⟩
    intro c hc
    obtain ⟨u, rest, rfl⟩ := List.exists_cons_of_ne_nil (ne_nil_of_mem_components hd c hc)
    have hu : u ∈ d.vertices :=
      (hcs.mem_iff u).1 (List.mem_flatten.2 ⟨_, hc, List.mem_cons_self⟩)
    have hnodup : (u :: rest).Nodup := (List.nodup_flatten.1 hcs.nodup).1 _ hc
    -- a second vertex would lie on a cycle through the first one
    have hrest : rest = [] := by
      rw [List.eq_nil_iff_forall_not_mem]
      intro w hw
      have hback := connected_of_mem_components hd _ hc w (List.mem_cons_of_mem u hw) u
        List.mem_cons_self
      rcases (connected_of_mem_components hd _ hc u List.mem_cons_self w
        (List.mem_cons_of_mem u hw)).cases_head with he | ⟨s, hs, hsw⟩
      · exact (List.nodup_cons.1 hnodup).1 (he ▸ hw)
      · exact hnone u hu s hs (hsw.trans hback)
    rw [hrest, List.length_singleton]

/-! ### Paths in a schedule -/

namespace IsSchedule

variable {cs : List (List NodeId)}

/-- Along a path the component number does not grow. -/
theorem componentOf_le_of_reaches (h : d.IsSchedule cs) (hd : d.Closed) (hu : u ∈ d.vertices)
    (hr : d.Reaches u v) : componentOf cs v ≤ componentOf cs u := by
  induction hr with
  | refl => exact le_rfl
  | tail hub hbc ih =>
    cases h.componentOf_next (Reaches.mem_vertices hd hu hub) hbc with
    | inl hlt => exact hlt.le.trans ih
    | inr hsame =>
      obtain ⟨c, hc, hbin, hcin⟩ := hsame
      exact (h.componentOf_congr hc hcin hbin).trans_le ih

/-- Vertices that lead to each other are in one component. -/
theorem exists_component_of_connected (h : d.IsSchedule cs) (hd : d.Closed)
    (hu : u ∈ d.vertices) (hv : v ∈ d.vertices) (huv : d.Connected u v) :
    ∃ c ∈ cs, u ∈ c ∧ v ∈ c := by
  have hnum : componentOf cs u = componentOf cs v :=
    le_antisymm (h.componentOf_le_of_reaches hd hv huv.2)
      (h.componentOf_le_of_reaches hd hu huv.1)
  obtain ⟨hmem, hlt⟩ := h.mem_getD hu
  have hmem' := (h.mem_getD hv).1
  rw [List.getD_eq_getElem _ _ hlt] at hmem
  rw [← hnum, List.getD_eq_getElem _ _ hlt] at hmem'
  exact ⟨_, List.getElem_mem hlt, hmem, hmem'⟩

end IsSchedule

end StochasticGame.Digraph

namespace StochasticGame.Game

variable {g : Game}

/-- Some path leads from the node back to it. -/
def OnCycle (g : Game) (id : NodeId) : Prop :=
  ∃ s ∈ g.successors id, g.digraph.Reaches s id

/-- No node lies on a cycle. -/
def Acyclic (g : Game) : Prop := ∀ id, ¬ g.OnCycle id

/-- The plan finds out whether there is a cycle. -/
theorem Linked.plan_acyclic_iff (hg : g.Linked) : g.plan.acyclic = true ↔ g.Acyclic := by
  have hplan : g.plan.acyclic = g.digraph.isAcyclic g.digraph.components := by
    unfold plan
    dsimp only
    split
    · rename_i ha
      exact ha.symm
    · rename_i ha
      exact (Bool.eq_false_iff.2 ha).symm
  rw [hplan, Digraph.isAcyclic_components_iff hg.digraph_closed]
  constructor
  · intro h id ⟨s, hs, hback⟩
    exact h id (mem_nodeIds.2 (contains_iff.1 (contains_of_mem_successors hs))) s hs hback
  · intro h u _ w hw hback
    exact h u ⟨w, hw, hback⟩

/-- **The nodes of a component of a plan lead to each other.** -/
theorem Linked.connected_of_mem_plan (hg : g.Linked) {ids : List NodeId}
    (hids : ids ∈ g.plan.components) : ∀ u ∈ ids, ∀ w ∈ ids, g.digraph.Reaches u w := by
  intro u hu w hw
  unfold Game.plan at hids
  dsimp only at hids
  split at hids
  · obtain ⟨x, -, rfl⟩ := List.mem_map.1 hids
    rw [List.mem_singleton] at hu hw
    subst hu hw
    exact .refl
  · obtain ⟨i, -, rfl⟩ := List.mem_map.1 hids
    rw [List.mem_mergeSort] at hu hw
    have hi : i < g.digraph.components.length := by
      by_contra hge
      rw [List.getD_eq_default _ _ (not_lt.1 hge)] at hu
      exact absurd hu List.not_mem_nil
    rw [List.getD_eq_getElem _ _ hi] at hu hw
    exact Digraph.connected_of_mem_components hg.digraph_closed _ (List.getElem_mem hi) u hu w hw

/-- A plan lists the nodes of a component by increasing id. -/
theorem pairwise_le_of_mem_plan {ids : List NodeId} (hids : ids ∈ g.plan.components) :
    ids.Pairwise (· ≤ ·) := by
  unfold Game.plan at hids
  dsimp only at hids
  split at hids
  · obtain ⟨x, -, rfl⟩ := List.mem_map.1 hids
    exact List.pairwise_singleton _ x
  · obtain ⟨i, -, rfl⟩ := List.mem_map.1 hids
    have htrans : ∀ a b c : NodeId, decide (a ≤ b) → decide (b ≤ c) → decide (a ≤ c) := by
      simpa using fun a b c : NodeId => Nat.le_trans
    have htotal : ∀ a b : NodeId, decide (a ≤ b) || decide (b ≤ a) := by
      simpa using Nat.le_total
    simpa using List.pairwise_mergeSort htrans htotal (g.digraph.components.getD i [])

/-- **The components of a plan are the strongly connected components.** Every live node is
in one of them and in no second one, and no other id is. Two live nodes are in one component
exactly if each leads to the other. The plan calls the game acyclic exactly if no node lies
on a cycle; a loop is one. The ids of a component increase. -/
theorem plan_lists_strong_components (hg : g.Linked) :
    g.plan.components.flatten.Nodup ∧
    (∀ id, id ∈ g.plan.components.flatten ↔ g.contains id = true) ∧
    (∀ u v, g.contains u = true → g.contains v = true →
      ((∃ c ∈ g.plan.components, u ∈ c ∧ v ∈ c) ↔
        g.digraph.Reaches u v ∧ g.digraph.Reaches v u)) ∧
    (g.plan.acyclic = true ↔ g.Acyclic) ∧
    ∀ c ∈ g.plan.components, c.Pairwise (· < ·) := by
  have hs := hg.plan_isSchedule
  refine ⟨hs.nodup, ?_, ?_, hg.plan_acyclic_iff, ?_⟩
  · intro id
    rw [hs.mem_iff, contains_iff]
    exact mem_nodeIds
  · intro u v hu hv
    constructor
    · intro ⟨c, hc, huc, hvc⟩
      exact ⟨hg.connected_of_mem_plan hc u huc v hvc, hg.connected_of_mem_plan hc v hvc u huc⟩
    · intro huv
      exact hs.exists_component_of_connected hg.digraph_closed
        (mem_nodeIds.2 (contains_iff.1 hu)) (mem_nodeIds.2 (contains_iff.1 hv)) huv
  · intro c hc
    have hnodup : c.Nodup := (List.nodup_flatten.1 hs.nodup).1 c hc
    exact ((pairwise_le_of_mem_plan hc).and hnodup).imp fun h => lt_of_le_of_ne h.1 h.2

/-- A cycle that leads to a node with a loop, and, apart from them, a node that leads to a
sink. -/
def islands : Game :=
  ((((((((((((empty.addNode .max).2.addNode .min).2.addNode .average).2.addNode .sink).2.addNode
    .max).2.addNode .sink).2.addEdge 0 1 1).addEdge 1 0 1).addEdge 1 2 1).addEdge 2 2
    (1 / 2)).addEdge 2 3 (1 / 2)).addEdge 4 5 1)

theorem linked_islands : islands.Linked :=
  ((((((((((((linked_empty.addNode _).addNode _).addNode _).addNode _).addNode _).addNode _).addEdge
    _ _ _).addEdge _ _ _).addEdge _ _ _).addEdge _ _ _).addEdge _ _ _).addEdge _ _ _)

/-- The nodes of the cycle are in one component. A node and the sink that it leads to are
not, although the cycle is elsewhere. -/
theorem islands_lists_strong_components :
    islands.Linked ∧ (∃ c ∈ islands.plan.components, 0 ∈ c ∧ 1 ∈ c) ∧
      (¬ ∃ c ∈ islands.plan.components, 4 ∈ c ∧ 5 ∈ c) ∧ islands.plan.acyclic = false ∧
      ∀ c ∈ islands.plan.components, c.Pairwise (· < ·) := by
  obtain ⟨-, -, hsame, hacyclic, hsorted⟩ := plan_lists_strong_components linked_islands
  refine ⟨linked_islands, ?_, ?_, ?_, hsorted⟩
  · have hto : islands.digraph.Reaches 0 1 := .single (show 1 ∈ islands.successors 0 by decide)
    have hback : islands.digraph.Reaches 1 0 := .single (show 0 ∈ islands.successors 1 by decide)
    exact (hsame 0 1 (by decide) (by decide)).2 ⟨hto, hback⟩
  · rw [hsame 4 5 (by decide) (by decide)]
    intro ⟨_, hback⟩
    cases hback.cases_head with
    | inl he => cases he
    | inr hstep =>
      obtain ⟨s, hs, -⟩ := hstep
      have hnone : islands.successors 5 = [] := by decide
      have hmem : s ∈ islands.successors 5 := hs
      rw [hnone] at hmem
      cases hmem
  · rw [Bool.eq_false_iff, ne_eq, hacyclic]
    intro ha
    -- a loop is a cycle
    exact ha 2 ⟨2, by decide, .refl⟩

end StochasticGame.Game
