import Mathlib.Data.Finset.Lattice.Fold
import Mathlib.Data.List.GetD
import Mathlib.Data.List.Nodup
import StochasticGame.Plan.Order
import StochasticGame.Proofs.Game.Linked
import StochasticGame.Proofs.Plan.Traversal

/-!
# StochasticGame.Proofs.Plan.Schedule

**The plan of a linked game is a complete dependency order.** `IsSchedule` says what
that means: the components list every vertex exactly once and nothing else, and
whatever a vertex leads to directly is in its own component or in an earlier one.

Both kinds of plan are post-orders of a graph whose edges go down some rank, and
`postOrder_of_rank` is about those. The ranks come from the components:

* a component takes everything that its first vertex leads to and that no earlier
  component has, so edges lead to the same or an earlier component
  (`IsSchedule.collect`);
* hence the edges of the condensation go down, and if every component is a single
  vertex without a loop, so do those of the graph itself.
-/

namespace StochasticGame.Digraph

/-- A complete dependency order of a graph. -/
structure IsSchedule (d : Digraph) (cs : List (List NodeId)) : Prop where
  /-- No vertex is listed twice, in one component or in two. -/
  nodup : cs.flatten.Nodup
  /-- The listed vertices are those of the graph. -/
  mem_iff : ∀ v, v ∈ cs.flatten ↔ v ∈ d.vertices
  /-- What a vertex leads to stands with it or before it. -/
  order : ∀ pre c post, cs = pre ++ c :: post → ∀ u ∈ c, ∀ w ∈ d.next u, w ∈ c ∨ w ∈ pre.flatten

variable {d : Digraph}

/-- What a vertex leads to stands in the components up to its own. -/
theorem IsSchedule.mem_of_next {cs pre post : List (List NodeId)} {c : List NodeId}
    (h : d.IsSchedule cs) (hcs : cs = pre ++ c :: post) {u w : NodeId}
    (hu : u ∈ (pre ++ [c]).flatten) (hw : w ∈ d.next u) : w ∈ (pre ++ [c]).flatten := by
  obtain ⟨c', hc', huc⟩ := List.mem_flatten.1 hu
  obtain ⟨a, b, hsplit⟩ := List.append_of_mem hc'
  have hcs' : cs = a ++ c' :: (b ++ post) := by
    calc cs = (pre ++ [c]) ++ post := by rw [hcs, List.append_assoc, List.singleton_append]
      _ = a ++ c' :: (b ++ post) := by rw [hsplit, List.append_assoc, List.cons_append]
  rw [hsplit, List.flatten_append, List.flatten_cons, List.mem_append, List.mem_append]
  rcases h.order a c' _ hcs' u huc w hw with hwc | hwa
  · exact Or.inr (Or.inl hwc)
  · exact Or.inl hwa

/-! ### Post-orders of acyclic graphs -/

/-- A path goes down in rank. -/
theorem Reaches.rank_le (hd : d.Closed) {rank : NodeId → Nat}
    (hr : ∀ u ∈ d.vertices, ∀ w ∈ d.next u, rank w < rank u) {u v : NodeId}
    (hu : u ∈ d.vertices) (h : d.Reaches u v) : rank v ≤ rank u ∧ v ∈ d.vertices := by
  induction h with
  | refl => exact ⟨Nat.le_refl _, hu⟩
  | tail _ hbc ih =>
    obtain ⟨hle, hb⟩ := ih
    have hlt := hr _ hb _ hbc
    exact ⟨by omega, hd.next_mem _ hb _ hbc⟩

theorem mem_sources {v : NodeId} :
    v ∈ d.sources ↔ v ∈ d.vertices ∧ ∀ u ∈ d.vertices, v ∉ d.next u := by
  rw [sources, List.mem_filter, decide_eq_true_iff]
  simp [edges]

/-- If edges go down in rank, a traversal from the sources finishes every vertex:
one that is not a source has a vertex of greater rank before it. -/
theorem mem_finished_of_rank (hd : d.Closed) {rank : NodeId → Nat}
    (hr : ∀ u ∈ d.vertices, ∀ w ∈ d.next u, rank w < rank u) {v : NodeId} (hv : v ∈ d.vertices) :
    v ∈ (d.traverse d.sources).finished := by
  obtain ⟨hs, hsrc⟩ := Sound.traverse hd d.sources fun v hv => (mem_sources.1 hv).1
  obtain ⟨top, htop⟩ : ∃ top, ∀ v ∈ d.vertices, rank v ≤ top :=
    ⟨d.vertices.toFinset.sup rank, fun v hv => Finset.le_sup (List.mem_toFinset.2 hv)⟩
  -- induction on the distance from the greatest rank
  induction hk : top - rank v using Nat.strongRecOn generalizing v with
  | _ k ih =>
    by_cases hsv : v ∈ d.sources
    · exact hsrc v hsv
    · obtain ⟨u, hu, huv⟩ : ∃ u ∈ d.vertices, v ∈ d.next u := by
        by_contra hne
        push Not at hne
        exact hsv (mem_sources.2 ⟨hv, hne⟩)
      have hlt := hr u hu v huv
      have hle := htop u hu
      exact hs.finished_of_next (ih (top - rank u) (by omega) hu rfl) huv

/-- **Post-order of an acyclic graph.** Every vertex is listed once, after all
that it leads to. -/
theorem postOrder_of_rank (hd : d.Closed) {rank : NodeId → Nat}
    (hr : ∀ u ∈ d.vertices, ∀ w ∈ d.next u, rank w < rank u) :
    d.postOrder.Nodup ∧ (∀ v, v ∈ d.postOrder ↔ v ∈ d.vertices) ∧
      ∀ a u b, d.postOrder = a ++ u :: b → ∀ w ∈ d.next u, w ∈ a := by
  obtain ⟨hs, -⟩ := Sound.traverse hd d.sources fun v hv => (mem_sources.1 hv).1
  have hmem : ∀ v, v ∈ d.postOrder ↔ v ∈ d.vertices := by
    intro v
    rw [postOrder, List.mem_reverse]
    constructor
    · intro hv
      exact hs.mem_vertices v ((hs.marked_iff v).2 (Or.inr (Or.inr hv)))
    · exact mem_finished_of_rank hd hr
  refine ⟨List.nodup_reverse.2 hs.nodup, hmem, ?_⟩
  intro a u b hab w hw
  have hu : u ∈ d.vertices := (hmem u).1 (by rw [hab]; simp)
  have hfin : (d.traverse d.sources).finished = b.reverse ++ u :: a.reverse := by
    rw [postOrder, List.reverse_eq_iff] at hab
    simpa using hab
  rcases (hs.order _ _ _ hfin w hw).2 with ho | hwa | hback
  · simp at ho
  · exact List.mem_reverse.1 hwa
  · -- a way back would go down in rank and end above
    have hle := (hback.rank_le hd hr (hd.next_mem u hu w hw)).1
    have hlt := hr u hu w hw
    omega

/-! ### Collecting components -/

/-- What `collect` leaves for the candidates, given closed marks: components that
together with the marks are closed, in order. -/
structure Collected (d : Digraph) (marked : List NodeId) (cands : List NodeId)
    (cs : List (List NodeId)) : Prop where
  /-- No vertex is collected twice. -/
  nodup : cs.flatten.Nodup
  /-- No marked vertex is collected. -/
  fresh : ∀ v ∈ cs.flatten, v ∉ marked
  /-- Only vertices are collected. -/
  mem_vertices : ∀ v ∈ cs.flatten, v ∈ d.vertices
  /-- No candidate is left out. -/
  covers : ∀ v ∈ cands, v ∈ marked ∨ v ∈ cs.flatten
  /-- What a vertex leads to is marked or stands with it or before it. -/
  order : ∀ pre c post, cs = pre ++ c :: post → ∀ u ∈ c, ∀ w ∈ d.next u,
    w ∈ c ∨ w ∈ pre.flatten ∨ w ∈ marked

namespace Collected

variable {marked cands : List NodeId} {cs : List (List NodeId)} {t : Traversal} {v : NodeId}

/-- A marked candidate adds nothing. -/
theorem skip (h : d.Collected marked cands cs) (hv : v ∈ marked) :
    d.Collected marked (v :: cands) cs := by
  refine ⟨h.nodup, h.fresh, h.mem_vertices, ?_, h.order⟩
  intro u hu
  rcases List.mem_cons.1 hu with rfl | hu
  · exact Or.inl hv
  · exact h.covers u hu

/-- What the visit of a candidate finishes is one more component, in front of those
collected with its marks. -/
theorem cons (hs : d.Sound marked [] t) (hv : v ∈ t.marked) (h : d.Collected t.marked cands cs) :
    d.Collected marked (v :: cands) (t.finished :: cs) := by
  have hmk : ∀ u, u ∈ t.marked ↔ u ∈ marked ∨ u ∈ t.finished := by
    intro u
    simpa using hs.marked_iff u
  refine ⟨?_, ?_, ?_, ?_, ?_⟩
  · rw [List.flatten_cons]
    refine List.nodup_append.2 ⟨hs.nodup, h.nodup, ?_⟩
    rintro x hx _ hy rfl
    exact h.fresh x hy ((hmk x).2 (Or.inr hx))
  · intro u hu
    rcases List.mem_append.1 (List.flatten_cons ▸ hu) with hu | hu
    · exact (hs.fresh u hu).1
    · exact fun hum => h.fresh u hu ((hmk u).2 (Or.inl hum))
  · intro u hu
    rcases List.mem_append.1 (List.flatten_cons ▸ hu) with hu | hu
    · exact hs.mem_vertices u ((hmk u).2 (Or.inr hu))
    · exact h.mem_vertices u hu
  · intro u hu
    have hum : u ∈ t.marked ∨ u ∈ cs.flatten := by
      rcases List.mem_cons.1 hu with rfl | hu
      · exact Or.inl hv
      · exact h.covers u hu
    rw [hmk] at hum
    rw [List.flatten_cons, List.mem_append]
    tauto
  · intro pre c post hcs u hu w hw
    cases pre with
    | nil =>
      -- the new component: its neighbours are marked when the visit ends
      obtain ⟨rfl, -⟩ : t.finished = c ∧ cs = post := by simpa using hcs
      have hwm := (hmk w).1 (hs.marked_of_next hu hw)
      tauto
    | cons p pre =>
      -- a later one: what was marked meanwhile stands before it
      obtain ⟨rfl, hcs'⟩ : t.finished = p ∧ cs = pre ++ c :: post := by simpa using hcs
      have hwo := h.order pre c post hcs' u hu w hw
      rw [hmk] at hwo
      rw [List.flatten_cons, List.mem_append]
      tauto

theorem collect (hd : d.Closed) (cands : List NodeId) (marked : List NodeId)
    (hc : ∀ v ∈ cands, v ∈ d.vertices) (hm : ∀ v ∈ marked, v ∈ d.vertices) :
    d.Collected marked cands (d.collect marked cands) := by
  induction cands generalizing marked with
  | nil =>
    rw [Digraph.collect]
    exact ⟨List.nodup_nil, by simp, by simp, by simp, by simp⟩
  | cons v rest ih =>
    have hrest : ∀ u ∈ rest, u ∈ d.vertices := fun u hu => hc u (List.mem_cons_of_mem _ hu)
    rw [Digraph.collect]
    split
    · rename_i hv
      exact (ih marked hrest hm).skip hv
    · have hvis := (Sound.start hm).visit_root hd (hc v List.mem_cons_self)
      exact cons hvis.sound hvis.mem (ih _ hrest hvis.sound.mem_vertices)

end Collected

theorem Closed.reversed (hd : d.Closed) : d.reversed.Closed where
  nodup := hd.nodup
  next_mem _ _ _ hv := (List.mem_filter.1 hv).1

/-- The strongly connected components, as they are discovered, are a schedule. -/
theorem IsSchedule.components (hd : d.Closed) : d.IsSchedule d.components := by
  obtain ⟨hs, hall⟩ := Sound.traverse hd.reversed d.vertices fun _ hv => hv
  have hfin : ∀ v ∈ (d.reversed.traverse d.vertices).finished, v ∈ d.vertices := fun v hv =>
    hs.mem_vertices v ((hs.marked_iff v).2 (Or.inr (Or.inr hv)))
  have h := Collected.collect hd (d.reversed.traverse d.vertices).finished [] hfin (by simp)
  refine ⟨h.nodup, ?_, ?_⟩
  · intro v
    constructor
    · exact h.mem_vertices v
    · intro hv
      exact (h.covers v (hall v hv)).resolve_left List.not_mem_nil
  · intro pre c post hcs u hu w hw
    simpa using h.order pre c post hcs u hu w hw

/-! ### Ranks from components -/

/-- In a schedule, a component number belongs to the component that holds the
vertex. -/
theorem componentOf_eq {cs pre post : List (List NodeId)} (hn : cs.flatten.Nodup)
    {c : List NodeId} (hcs : cs = pre ++ c :: post) {u : NodeId} (hu : u ∈ c) :
    componentOf cs u = pre.length := by
  subst hcs
  have hpre : ∀ part ∈ pre, u ∉ part := by
    intro part hpart hup
    rw [List.flatten_append] at hn
    have hu' : u ∈ pre.flatten := List.mem_flatten.2 ⟨part, hpart, hup⟩
    exact (List.nodup_append.1 hn).2.2 u hu' u (by simp [hu]) rfl
  rw [componentOf, List.findIdx_append]
  have hnone : List.findIdx (fun part => decide (u ∈ part)) pre = pre.length := by
    rw [List.findIdx_eq_length]
    simpa using hpre
  rw [hnone, if_neg (Nat.lt_irrefl _), List.findIdx_cons]
  simp [hu]

/-- The component that holds a vertex, with those before and after it. -/
theorem IsSchedule.split {cs : List (List NodeId)} (h : d.IsSchedule cs) {v : NodeId}
    (hv : v ∈ d.vertices) :
    ∃ pre c post, cs = pre ++ c :: post ∧ v ∈ c ∧ componentOf cs v = pre.length := by
  obtain ⟨c, hc, hvc⟩ := List.mem_flatten.1 ((h.mem_iff v).2 hv)
  obtain ⟨pre, post, hcs⟩ := List.append_of_mem hc
  exact ⟨pre, c, post, hcs, hvc, componentOf_eq h.nodup hcs hvc⟩

/-- Along an edge the component number does not grow, and it stays the same only
inside a component. -/
theorem IsSchedule.componentOf_next {cs : List (List NodeId)} (h : d.IsSchedule cs)
    {u w : NodeId} (hu : u ∈ d.vertices) (hw : w ∈ d.next u) :
    componentOf cs w < componentOf cs u ∨ ∃ c ∈ cs, u ∈ c ∧ w ∈ c := by
  obtain ⟨pre, c, post, hcs, huc, hcu⟩ := h.split hu
  rcases h.order pre c post hcs u huc w hw with hwc | hwp
  · exact Or.inr ⟨c, by rw [hcs]; simp, huc, hwc⟩
  · obtain ⟨c', hc', hwc'⟩ := List.mem_flatten.1 hwp
    obtain ⟨pre₁, pre₂, rfl⟩ := List.append_of_mem hc'
    have hcw : componentOf cs w = pre₁.length :=
      componentOf_eq h.nodup (by rw [hcs, List.append_assoc]; rfl) hwc'
    left
    rw [hcw, hcu]
    simp

/-- Vertices of one component have its number. -/
theorem IsSchedule.componentOf_congr {cs : List (List NodeId)} (h : d.IsSchedule cs)
    {c : List NodeId} (hc : c ∈ cs) {u w : NodeId} (hu : u ∈ c) (hw : w ∈ c) :
    componentOf cs u = componentOf cs w := by
  obtain ⟨pre, post, hcs⟩ := List.append_of_mem hc
  rw [componentOf_eq h.nodup hcs hu, componentOf_eq h.nodup hcs hw]

/-- If every component is a single vertex without a loop, edges go down in
component number. -/
theorem IsSchedule.rank_of_isAcyclic {cs : List (List NodeId)} (h : d.IsSchedule cs)
    (ha : d.isAcyclic cs = true) :
    ∀ u ∈ d.vertices, ∀ w ∈ d.next u, componentOf cs w < componentOf cs u := by
  simp only [isAcyclic, Bool.and_eq_true, List.all_eq_true, decide_eq_true_eq] at ha
  intro u hu w hw
  rcases h.componentOf_next hu hw with hlt | ⟨c, hc, huc, hwc⟩
  · exact hlt
  · obtain ⟨x, rfl⟩ := List.length_eq_one_iff.1 (ha.1 c hc)
    rw [List.mem_singleton] at huc hwc
    subst huc
    subst hwc
    exact absurd hw (ha.2 w hu)

/-! ### The condensation -/

theorem mem_condensation_next {cs : List (List NodeId)} {a b : Nat} :
    b ∈ (d.condensation cs).next a ↔
      a ≠ b ∧ ∃ u ∈ d.vertices, ∃ w ∈ d.next u, componentOf cs u = a ∧ componentOf cs w = b := by
  simp only [condensation, edges, List.mem_map, List.mem_filter, List.mem_flatMap, Prod.exists,
    decide_eq_true_eq, Prod.mk.injEq]
  constructor
  · rintro ⟨x, y, ⟨⟨⟨u, w, ⟨u', hu', w', hw', rfl, rfl⟩, rfl, rfl⟩, hne⟩, rfl⟩, rfl⟩
    exact ⟨hne, u', hu', w', hw', rfl, rfl⟩
  · rintro ⟨hne, u, hu, w, hw, rfl, rfl⟩
    exact ⟨_, _, ⟨⟨⟨u, w, ⟨u, hu, w, hw, rfl, rfl⟩, rfl, rfl⟩, hne⟩, rfl⟩, rfl⟩

/-- The edges of the condensation of a schedule go down. -/
theorem IsSchedule.condensation_next_lt {cs : List (List NodeId)} (h : d.IsSchedule cs)
    {a b : Nat} (hb : b ∈ (d.condensation cs).next a) : b < a := by
  obtain ⟨hne, u, hu, w, hw, rfl, rfl⟩ := mem_condensation_next.1 hb
  rcases h.componentOf_next hu hw with hlt | ⟨c, hc, huc, hwc⟩
  · exact hlt
  · exact absurd (h.componentOf_congr hc huc hwc) hne

theorem IsSchedule.condensation_closed {cs : List (List NodeId)} (h : d.IsSchedule cs) :
    (d.condensation cs).Closed where
  nodup := List.nodup_range
  next_mem a ha b hb := by
    have hlt := h.condensation_next_lt hb
    simp only [condensation, List.mem_range] at ha ⊢
    omega

/-- What is listed under a number is a vertex with that component number. -/
theorem IsSchedule.componentOf_getD {cs : List (List NodeId)} (h : d.IsSchedule cs) {i : Nat}
    {v : NodeId} (hv : v ∈ cs.getD i []) : v ∈ d.vertices ∧ componentOf cs v = i := by
  have hi : i < cs.length := by
    by_contra hge
    rw [List.getD_eq_default _ _ (by omega)] at hv
    simp at hv
  rw [List.getD_eq_getElem _ _ hi] at hv
  have hsplit : cs = cs.take i ++ cs[i] :: cs.drop (i + 1) := by simp
  refine ⟨(h.mem_iff v).1 (List.mem_flatten.2 ⟨cs[i], List.getElem_mem hi, hv⟩), ?_⟩
  rw [componentOf_eq h.nodup hsplit hv, List.length_take, Nat.min_eq_left hi.le]

/-- A vertex is listed under its component number. -/
theorem IsSchedule.mem_getD {cs : List (List NodeId)} (h : d.IsSchedule cs) {v : NodeId}
    (hv : v ∈ d.vertices) : v ∈ cs.getD (componentOf cs v) [] ∧ componentOf cs v < cs.length := by
  obtain ⟨pre, c, post, hcs, hvc, hnum⟩ := h.split hv
  rw [hnum, hcs]
  constructor
  · simpa using hvc
  · simp

/-- A vertex is listed once, anything else not at all. -/
theorem IsSchedule.count_flatten {cs : List (List NodeId)} (h : d.IsSchedule cs) (v : NodeId) :
    cs.flatten.count v = if v ∈ d.vertices then 1 else 0 := by
  simp only [h.nodup.count, h.mem_iff]

/-- The component that an edge leads to is not after the one it leaves. -/
theorem IsSchedule.le_of_next {cs : List (List NodeId)} (h : d.IsSchedule cs) {u w : NodeId}
    (hw : w ∈ d.next u) {i j : Nat} {c c' : List NodeId} (hi : cs[i]? = some c)
    (hj : cs[j]? = some c') (hu : u ∈ c) (hwc : w ∈ c') : j ≤ i := by
  obtain ⟨huv, hui⟩ : u ∈ d.vertices ∧ componentOf cs u = i := h.componentOf_getD (by simpa [hi])
  obtain ⟨-, hwj⟩ : w ∈ d.vertices ∧ componentOf cs w = j := h.componentOf_getD (by simpa [hj])
  cases h.componentOf_next huv hw with
  | inl hlt => omega
  | inr hsame =>
    obtain ⟨part, hpart, hup, hwp⟩ := hsame
    have heq := h.componentOf_congr hpart hup hwp
    omega

/-- The components of a schedule, in the post-order of its condensation and each
of them sorted, are a schedule. -/
theorem IsSchedule.postOrder_condensation {cs : List (List NodeId)} (h : d.IsSchedule cs)
    (hd : d.Closed) (le : NodeId → NodeId → Bool) :
    d.IsSchedule ((d.condensation cs).postOrder.map fun i => (cs.getD i []).mergeSort le) := by
  have hrank : ∀ a ∈ (d.condensation cs).vertices, ∀ b ∈ (d.condensation cs).next a, b < a :=
    fun _ _ _ hb => h.condensation_next_lt hb
  obtain ⟨hnodup, hmem, horder⟩ := postOrder_of_rank h.condensation_closed hrank
  have hidx : ∀ i, i ∈ (d.condensation cs).postOrder ↔ i < cs.length := by
    intro i
    rw [hmem]
    exact List.mem_range
  refine ⟨?_, ?_, ?_⟩
  · rw [List.nodup_flatten]
    refine ⟨?_, ?_⟩
    · intro l hl
      obtain ⟨i, hi, rfl⟩ := List.mem_map.1 hl
      rw [(List.mergeSort_perm _ _).nodup_iff, List.getD_eq_getElem _ _ ((hidx i).1 hi)]
      exact (List.nodup_flatten.1 h.nodup).1 _ (List.getElem_mem _)
    · rw [List.pairwise_map]
      refine hnodup.imp ?_
      intro i j hij v hvi hvj
      rw [List.mem_mergeSort] at hvi hvj
      exact hij ((h.componentOf_getD hvi).2.symm.trans (h.componentOf_getD hvj).2)
  · intro v
    rw [List.mem_flatten]
    constructor
    · rintro ⟨l, hl, hv⟩
      obtain ⟨i, -, rfl⟩ := List.mem_map.1 hl
      exact (h.componentOf_getD (List.mem_mergeSort.1 hv)).1
    · intro hv
      obtain ⟨hget, hlt⟩ := h.mem_getD hv
      exact ⟨_, List.mem_map.2 ⟨_, (hidx _).2 hlt, rfl⟩, List.mem_mergeSort.2 hget⟩
  · intro pre c post hcs u hu w hw
    obtain ⟨pre', rest, hpost, hpre, hrest⟩ := List.map_eq_append_iff.1 hcs
    obtain ⟨i, post', rfl, rfl, -⟩ := List.map_eq_cons_iff.1 hrest
    rw [List.mem_mergeSort] at hu ⊢
    obtain ⟨huv, hui⟩ := h.componentOf_getD hu
    obtain ⟨hget, -⟩ := h.mem_getD (hd.next_mem u huv w hw)
    by_cases hiw : componentOf cs w = i
    · left
      rwa [hiw] at hget
    · -- an edge between components is an edge of the condensation
      right
      have hnext : componentOf cs w ∈ (d.condensation cs).next i :=
        mem_condensation_next.2 ⟨fun e => hiw e.symm, u, huv, w, hw, hui, rfl⟩
      have hin := horder pre' i post' hpost _ hnext
      rw [← hpre, List.mem_flatten]
      exact ⟨_, List.mem_map.2 ⟨_, hin, rfl⟩, List.mem_mergeSort.2 hget⟩

/-- A list of single vertices in dependency order is a schedule. -/
theorem IsSchedule.singletons {vs : List NodeId} (hn : vs.Nodup)
    (hm : ∀ v, v ∈ vs ↔ v ∈ d.vertices)
    (ho : ∀ a u b, vs = a ++ u :: b → ∀ w ∈ d.next u, w ∈ a) : d.IsSchedule (vs.map ([·])) := by
  have hflat : ∀ l : List NodeId, (l.map ([·])).flatten = l := by
    intro l
    induction l with
    | nil => rfl
    | cons a l ih => rw [List.map_cons, List.flatten_cons, ih]; rfl
  refine ⟨by rw [hflat]; exact hn, fun v => by rw [hflat]; exact hm v, ?_⟩
  intro pre c post hcs u hu w hw
  obtain ⟨pre', rest, hvs, rfl, hrest⟩ := List.map_eq_append_iff.1 hcs
  obtain ⟨x, post', rfl, rfl, -⟩ := List.map_eq_cons_iff.1 hrest
  rw [List.mem_singleton] at hu
  subst hu
  rw [hflat]
  exact Or.inr (ho pre' u post' hvs w hw)

end StochasticGame.Digraph

namespace StochasticGame.Game

open StochasticGame.Digraph

variable {g : Game}

theorem nodup_nodeIds (g : Game) : g.nodeIds.Nodup := by
  rw [nodeIds, nodes, List.map_filterMap]
  refine List.Nodup.filterMap ?_ List.nodup_range
  intro a a' b hb hb'
  simp only [Option.mem_def, Option.map_map, Option.map_eq_some_iff, Function.comp_apply] at hb hb'
  obtain ⟨_, -, rfl⟩ := hb
  obtain ⟨_, -, h⟩ := hb'
  exact h.symm

theorem Linked.digraph_closed (h : g.Linked) : g.digraph.Closed where
  nodup := g.nodup_nodeIds
  next_mem _ _ _ hv := mem_nodeIds.2 (contains_iff.1 (h.contains_target hv))

/-- **The plan of a linked game is a schedule of its nodes.** -/
theorem Linked.plan_isSchedule (h : g.Linked) : g.digraph.IsSchedule g.plan.components := by
  have hd := h.digraph_closed
  have hc := IsSchedule.components hd
  unfold Game.plan
  dsimp only
  split
  · rename_i ha
    obtain ⟨hn, hm, ho⟩ := postOrder_of_rank hd (hc.rank_of_isAcyclic ha)
    exact IsSchedule.singletons hn hm ho
  · exact hc.postOrder_condensation hd _

/-- The plan of a cyclic game whose components come out sorted. -/
theorem plan_of_sorted (parts : List (List NodeId)) (order : List Nat)
    (hparts : g.digraph.components = parts) (hcyclic : g.digraph.isAcyclic parts = false)
    (horder : (g.digraph.condensation parts).postOrder = order)
    (hsorted : ∀ i ∈ order, (parts.getD i []).Pairwise fun a b => a ≤ b) :
    g.plan = ⟨false, order.map fun i => parts.getD i []⟩ := by
  unfold plan
  simp only [hparts, hcyclic, horder, Bool.false_eq_true, if_false, Plan.mk.injEq, true_and]
  apply List.map_congr_left
  intro i hi
  apply List.mergeSort_of_pairwise
  simpa using hsorted i hi

/-- **The plan is a complete dependency order.** It lists every live node in one
component, once, and no other id. The component of a successor is that of the node
itself or an earlier one. -/
theorem plan_is_dependency_order (h : g.Linked) :
    (∀ id, g.plan.components.flatten.count id = if g.contains id then 1 else 0) ∧
    ∀ u v, v ∈ g.successors u → ∀ (i j : Nat) (c c' : List NodeId),
      g.plan.components[i]? = some c → g.plan.components[j]? = some c' → u ∈ c → v ∈ c' → j ≤ i := by
  have hs := h.plan_isSchedule
  refine ⟨?_, fun u v hv i j c c' hi hj hu hvc => hs.le_of_next hv hi hj hu hvc⟩
  intro id
  have hlive : id ∈ g.digraph.vertices ↔ g.contains id = true :=
    mem_nodeIds.trans contains_iff.symm
  rw [hs.count_flatten]
  simp only [hlive]

/-- A cycle with a way out that can be entered from two sides. -/
def twoDoors : Game :=
  ((((((((((empty.addNode .max).2.addNode .min).2.addNode .average).2.addNode .sink).2.addNode
    .max).2.addEdge 0 2 1).addEdge 1 2 1).addEdge 2 1 (1 / 2)).addEdge 2 3 (1 / 2)).addEdge 4 1 1)

theorem linked_twoDoors : twoDoors.Linked :=
  ((((((((((linked_empty.addNode _).addNode _).addNode _).addNode _).addNode _).addEdge _ _
    _).addEdge _ _ _).addEdge _ _ _).addEdge _ _ _).addEdge _ _ _)

theorem twoDoors_plan_is_dependency_order :
    twoDoors.Linked ∧ twoDoors.plan = ⟨false, [[3], [1, 2], [4], [0]]⟩ ∧
      twoDoors.plan.components.flatten.count 2 = 1 ∧
      ∀ (i j : Nat) (c c' : List NodeId), twoDoors.plan.components[i]? = some c →
        twoDoors.plan.components[j]? = some c' → 4 ∈ c → 1 ∈ c' → j ≤ i := by
  obtain ⟨honce, horder⟩ := plan_is_dependency_order linked_twoDoors
  refine ⟨linked_twoDoors, ?_, ?_, horder 4 1 (by decide)⟩
  · exact plan_of_sorted [[3], [1, 2], [4], [0]] [0, 1, 2, 3] (by decide +kernel)
      (by decide +kernel) (by decide +kernel) (by decide)
  · rw [honce]
    decide

end StochasticGame.Game
