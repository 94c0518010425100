import Mathlib.Data.List.Perm.Subperm
import Mathlib.Logic.Relation
import Mathlib.Tactic.Common
import StochasticGame.Plan.Digraph

/-!
# StochasticGame.Proofs.Plan.Traversal

**What a depth-first visit does.** While a visit is under way every vertex met so
far is in one of three places:

* `old` — met by an earlier traversal whose marks are shared,
* `gray` — on the path from the start of the visit to where it is now,
* finished by this traversal.

`Digraph.Sound` is the invariant about them. Its `order` field is the fact that
makes a post-order useful: a neighbour of a finished vertex was finished before
it, unless it leads back to that vertex. Its `led` field is about what is further
away: on some cycle through a finished vertex lies the one that was finished after
all that it leads to. `Sound.visit` says that a visit keeps the invariant and that
its depth limit never cuts anything off.
-/

namespace StochasticGame.Digraph

/-- Vertices are listed once and edges lead to vertices. -/
structure Closed (d : Digraph) : Prop where
  /-- No vertex is listed twice. -/
  nodup : d.vertices.Nodup
  /-- A neighbour of a vertex is a vertex. -/
  next_mem : ∀ u ∈ d.vertices, ∀ v ∈ d.next u, v ∈ d.vertices

/-- A path of any length leads from one vertex to another. -/
def Reaches (d : Digraph) : NodeId → NodeId → Prop :=
  Relation.ReflTransGen fun u v => v ∈ d.next u

/-- Two vertices lead to each other. -/
def Connected (d : Digraph) (u v : NodeId) : Prop := d.Reaches u v ∧ d.Reaches v u

/-- A vertex is connected to one on the current path, or leads to an old one, or is
connected to a vertex that was finished after all that the two lead to. -/
def Led (d : Digraph) (old gray finished : List NodeId) (u : NodeId) : Prop :=
  (∃ y ∈ gray, d.Connected u y) ∨ (∃ o ∈ old, d.Reaches u o) ∨
    ∃ a z b, finished = a ++ z :: b ∧ d.Connected u z ∧ ∀ x, d.Reaches u x → x ∈ z :: b

/-- The state of a traversal in the middle of a visit. -/
structure Sound (d : Digraph) (old gray : List NodeId) (t : Traversal) : Prop where
  /-- A marked vertex is in one of the three places. -/
  marked_iff : ∀ u, u ∈ t.marked ↔ u ∈ old ∨ u ∈ gray ∨ u ∈ t.finished
  /-- Only vertices are marked. -/
  mem_vertices : ∀ u ∈ t.marked, u ∈ d.vertices
  /-- The current path visits no vertex twice. -/
  nodup_gray : gray.Nodup
  /-- No vertex is finished twice. -/
  nodup : t.finished.Nodup
  /-- A finished vertex is neither old nor on the current path. -/
  fresh : ∀ u ∈ t.finished, u ∉ old ∧ u ∉ gray
  /-- The neighbours of a finished vertex are marked, and those finished after
  it lead back to it. -/
  order : ∀ a u b, t.finished = a ++ u :: b → ∀ w ∈ d.next u,
    w ∈ t.marked ∧ (w ∈ old ∨ w ∈ b ∨ d.Reaches w u)
  /-- A finished vertex is connected to one that leads the way, if it does not lead
  elsewhere. -/
  led : ∀ u ∈ t.finished, d.Led old gray t.finished u

variable {d : Digraph} {old gray : List NodeId} {t : Traversal} {v : NodeId}

theorem Led.of_connected {finished : List NodeId} {u : NodeId} (h : d.Led old gray finished v)
    (hu : d.Connected u v) : d.Led old gray finished u := by
  rcases h with ⟨y, hy, hvy⟩ | ⟨o, ho, hvo⟩ | ⟨a, z, b, hf, hvz, hall⟩
  · exact Or.inl ⟨y, hy, hu.1.trans hvy.1, hvy.2.trans hu.2⟩
  · exact Or.inr (Or.inl ⟨o, ho, hu.1.trans hvo⟩)
  · exact Or.inr (Or.inr ⟨a, z, b, hf, ⟨hu.1.trans hvz.1, hvz.2.trans hu.2⟩,
      fun x hx => hall x (hu.2.trans hx)⟩)

/-- A traversal that starts with shared marks. -/
theorem Sound.start (h : ∀ u ∈ old, u ∈ d.vertices) : d.Sound old [] ⟨old, []⟩ where
  marked_iff u := by simp
  mem_vertices := h
  nodup_gray := List.nodup_nil
  nodup := List.nodup_nil
  fresh u hu := by simp at hu
  order a u b hab := by simp at hab
  led u hu := by simp at hu

/-- Neighbours of finished vertices are marked. -/
theorem Sound.marked_of_next (h : d.Sound old gray t) {u w : NodeId} (hu : u ∈ t.finished)
    (hw : w ∈ d.next u) : w ∈ t.marked := by
  obtain ⟨a, b, hab⟩ := List.append_of_mem hu
  exact (h.order a u b hab w hw).1

/-- What a part of a traversal started at `v` adds: it finishes vertices that `v`
leads to. -/
def Adds (d : Digraph) (v : NodeId) (t t' : Traversal) : Prop :=
  ∃ new, t'.finished = new ++ t.finished ∧ ∀ u ∈ new, d.Reaches v u

theorem Adds.refl (d : Digraph) (v : NodeId) (t : Traversal) : d.Adds v t t :=
  ⟨[], rfl, by simp⟩

theorem Adds.trans {t₁ t₂ t₃ : Traversal} (h₁ : d.Adds v t₁ t₂) (h₂ : d.Adds v t₂ t₃) :
    d.Adds v t₁ t₃ := by
  obtain ⟨new₁, hf₁, hr₁⟩ := h₁
  obtain ⟨new₂, hf₂, hr₂⟩ := h₂
  refine ⟨new₂ ++ new₁, by rw [hf₂, hf₁, List.append_assoc], ?_⟩
  intro u hu
  rcases List.mem_append.1 hu with hu | hu
  · exact hr₂ u hu
  · exact hr₁ u hu

/-- What a neighbour adds, the vertex itself adds too. -/
theorem Adds.head {w : NodeId} {t₁ t₂ : Traversal} (hw : w ∈ d.next v) (h : d.Adds w t₁ t₂) :
    d.Adds v t₁ t₂ := by
  obtain ⟨new, hf, hr⟩ := h
  exact ⟨new, hf, fun u hu => Relation.ReflTransGen.head hw (hr u hu)⟩

/-- Marks stay. -/
theorem Sound.marked_mono {t' : Traversal} (h : d.Sound old gray t) (h' : d.Sound old gray t')
    (ha : d.Adds v t t') {u : NodeId} (hu : u ∈ t.marked) : u ∈ t'.marked := by
  obtain ⟨new, hf, -⟩ := ha
  rw [h.marked_iff] at hu
  rw [h'.marked_iff, hf, List.mem_append]
  rcases hu with hu | hu | hu
  · exact Or.inl hu
  · exact Or.inr (Or.inl hu)
  · exact Or.inr (Or.inr (Or.inr hu))

/-- Enter a vertex: it joins the current path. -/
theorem Sound.enter (h : d.Sound old gray t) (hv : v ∈ d.vertices) (hm : v ∉ t.marked) :
    d.Sound old (v :: gray) { t with marked := v :: t.marked } where
  marked_iff u := by
    simp only [List.mem_cons, h.marked_iff]
    tauto
  mem_vertices u hu := by
    rcases List.mem_cons.1 hu with rfl | hu
    · exact hv
    · exact h.mem_vertices u hu
  nodup_gray := by
    refine List.nodup_cons.2 ⟨?_, h.nodup_gray⟩
    intro hg
    exact hm ((h.marked_iff v).2 (Or.inr (Or.inl hg)))
  nodup := h.nodup
  fresh u hu := by
    refine ⟨(h.fresh u hu).1, ?_⟩
    intro hg
    rcases List.mem_cons.1 hg with rfl | hg
    · exact hm ((h.marked_iff u).2 (Or.inr (Or.inr hu)))
    · exact (h.fresh u hu).2 hg
  order a u b hab w hw := by
    obtain ⟨hwm, hwo⟩ := h.order a u b hab w hw
    exact ⟨List.mem_cons_of_mem _ hwm, hwo⟩
  led u hu := by
    rcases h.led u hu with ⟨y, hy, huy⟩ | hrest
    · exact Or.inl ⟨y, List.mem_cons_of_mem _ hy, huy⟩
    · exact Or.inr hrest

/-- A vertex that leads neither to the path before it nor to an old vertex is left
after all that it leads to. -/
theorem Sound.led_of_leave (h : d.Sound old (v :: gray) t) (hg : ∀ u ∈ gray, d.Reaches u v)
    (hn : ∀ w ∈ d.next v, w ∈ t.marked) : d.Led old gray (v :: t.finished) v := by
  by_cases hgray : ∃ y ∈ gray, d.Reaches v y
  · obtain ⟨y, hy, hvy⟩ := hgray
    exact Or.inl ⟨y, hy, hvy, hg y hy⟩
  by_cases hold : ∃ o ∈ old, d.Reaches v o
  · exact Or.inr (Or.inl hold)
  refine Or.inr (Or.inr ⟨[], v, t.finished, rfl, ⟨.refl, .refl⟩, ?_⟩)
  intro x hx
  induction hx with
  | refl => exact List.mem_cons_self
  | tail hvb hbc ih =>
    rename_i b c
    have hm : c ∈ t.marked := by
      rcases List.mem_cons.1 ih with rfl | hb
      · exact hn c hbc
      · exact h.marked_of_next hb hbc
    -- of the places where a marked vertex can be, the other two have been excluded
    rcases (h.marked_iff c).1 hm with ho | hc | hf
    · exact absurd ⟨c, ho, hvb.tail hbc⟩ hold
    · rcases List.mem_cons.1 hc with rfl | hc
      · exact List.mem_cons_self
      · exact absurd ⟨c, hc, hvb.tail hbc⟩ hgray
    · exact List.mem_cons_of_mem _ hf

/-- Leave a vertex all of whose neighbours are marked: it is finished. -/
theorem Sound.leave (h : d.Sound old (v :: gray) t) (hold : v ∉ old)
    (hg : ∀ u ∈ gray, d.Reaches u v) (hn : ∀ w ∈ d.next v, w ∈ t.marked) :
    d.Sound old gray { t with finished := v :: t.finished } where
  marked_iff u := by
    simp only [h.marked_iff, List.mem_cons]
    tauto
  mem_vertices := h.mem_vertices
  nodup_gray := (List.nodup_cons.1 h.nodup_gray).2
  nodup := List.nodup_cons.2 ⟨fun hv => (h.fresh v hv).2 List.mem_cons_self, h.nodup⟩
  fresh u hu := by
    rcases List.mem_cons.1 hu with rfl | hu
    · exact ⟨hold, (List.nodup_cons.1 h.nodup_gray).1⟩
    · exact ⟨(h.fresh u hu).1, fun hg => (h.fresh u hu).2 (List.mem_cons_of_mem _ hg)⟩
  order a u b hab w hw := by
    cases a with
    | nil =>
      obtain ⟨rfl, rfl⟩ : v = u ∧ t.finished = b := by simpa using hab
      refine ⟨hn w hw, ?_⟩
      -- a neighbour that is not finished yet lies on the current path
      rcases (h.marked_iff w).1 (hn w hw) with ho | hgray | hf
      · exact Or.inl ho
      · rcases List.mem_cons.1 hgray with rfl | hgray
        · exact Or.inr (Or.inr Relation.ReflTransGen.refl)
        · exact Or.inr (Or.inr (hg w hgray))
      · exact Or.inr (Or.inl hf)
    | cons x a =>
      obtain ⟨-, hab⟩ : v = x ∧ t.finished = a ++ u :: b := by simpa using hab
      exact h.order a u b hab w hw
  led u hu := by
    have hv := h.led_of_leave hg hn
    rcases List.mem_cons.1 hu with rfl | hu
    · exact hv
    · rcases h.led u hu with ⟨y, hy, huy⟩ | ho | ⟨a, z, b, hf, hz⟩
      · rcases List.mem_cons.1 hy with rfl | hy
        · exact hv.of_connected huy
        · exact Or.inl ⟨y, hy, huy⟩
      · exact Or.inr (Or.inl ho)
      · exact Or.inr (Or.inr ⟨v :: a, z, b, congrArg (v :: ·) hf, hz⟩)

/-- A path as long as the list of vertices holds every vertex. -/
theorem Sound.mem_gray_of_length (h : d.Sound old gray t)
    (hl : d.vertices.length ≤ gray.length) (hv : v ∈ d.vertices) : v ∈ gray := by
  have hsub : gray ⊆ d.vertices := fun u hu =>
    h.mem_vertices u ((h.marked_iff u).2 (Or.inr (Or.inl hu)))
  have hperm := (h.nodup_gray.subperm hsub).perm_of_length_le hl
  exact hperm.mem_iff.2 hv

/-- What a visit achieves. -/
structure Visited (d : Digraph) (old gray : List NodeId) (t : Traversal) (v : NodeId)
    (t' : Traversal) : Prop where
  /-- The invariant holds again. -/
  sound : d.Sound old gray t'
  /-- The vertex has been met. -/
  mem : v ∈ t'.marked
  /-- Only vertices that it leads to have been finished. -/
  adds : d.Adds v t t'

/-- The visits of the neighbours of `v`, given what visits one level down do. -/
theorem Sound.visit_each {depth : Nat}
    (ih : ∀ {t : Traversal} {w : NodeId}, d.Sound old (v :: gray) t → w ∈ d.vertices →
      w ∈ d.next v → d.Visited old (v :: gray) t w (t.visit d.next depth w))
    (ws : List NodeId) (hws : ∀ w ∈ ws, w ∈ d.vertices ∧ w ∈ d.next v)
    (h : d.Sound old (v :: gray) t) :
    d.Sound old (v :: gray) (ws.foldl (Traversal.visit d.next depth) t) ∧
      (∀ w ∈ ws, w ∈ (ws.foldl (Traversal.visit d.next depth) t).marked) ∧
      d.Adds v t (ws.foldl (Traversal.visit d.next depth) t) := by
  induction ws generalizing t with
  | nil => exact ⟨h, by simp, Adds.refl d v t⟩
  | cons w ws ihw =>
    obtain ⟨hwv, hwn⟩ := hws w List.mem_cons_self
    have hvis := ih h hwv hwn
    obtain ⟨hs, hm, ha⟩ := ihw (fun x hx => hws x (List.mem_cons_of_mem _ hx)) hvis.sound
    refine ⟨hs, ?_, (hvis.adds.head hwn).trans ha⟩
    intro x hx
    rcases List.mem_cons.1 hx with rfl | hx
    · exact hvis.sound.marked_mono hs ha hvis.mem
    · exact hm x hx

/-- **A visit keeps the invariant.** The depth limit and the current path together
count at least all vertices, so when the limit is used up, every vertex is marked. -/
theorem Sound.visit (h : d.Sound old gray t) (hd : d.Closed) (depth : Nat) (hv : v ∈ d.vertices)
    (hg : ∀ u ∈ gray, d.Reaches u v) (hl : d.vertices.length ≤ depth + gray.length) :
    d.Visited old gray t v (t.visit d.next depth v) := by
  induction depth generalizing gray t v with
  | zero =>
    have hmem : v ∈ gray := h.mem_gray_of_length (by omega) hv
    exact ⟨h, (h.marked_iff v).2 (Or.inr (Or.inl hmem)), Adds.refl d v t⟩
  | succ depth ih =>
    rw [Traversal.visit]
    split
    · rename_i hm
      exact ⟨h, hm, Adds.refl d v t⟩
    · rename_i hm
      have hnext : ∀ w ∈ d.next v, w ∈ d.vertices ∧ w ∈ d.next v :=
        fun w hw => ⟨hd.next_mem v hv w hw, hw⟩
      have hpath : ∀ {w : NodeId}, w ∈ d.next v → ∀ u ∈ v :: gray, d.Reaches u w := by
        intro w hw u hu
        rcases List.mem_cons.1 hu with rfl | hu
        · exact Relation.ReflTransGen.single hw
        · exact (hg u hu).tail hw
      obtain ⟨hs, hmk, ha⟩ := Sound.visit_each
        (fun hs hw hwn => ih hs hw (hpath hwn) (by simp only [List.length_cons]; omega))
        (d.next v) hnext (h.enter hv hm)
      have hold : v ∉ old := fun ho => hm ((h.marked_iff v).2 (Or.inl ho))
      have hmv := (hs.marked_iff v).2 (Or.inr (Or.inl List.mem_cons_self))
      refine ⟨hs.leave hold hg hmk, hmv, ?_⟩
      obtain ⟨new, hf, hr⟩ := ha
      refine ⟨v :: new, congrArg (v :: ·) hf, ?_⟩
      intro u hu
      rcases List.mem_cons.1 hu with rfl | hu
      · exact Relation.ReflTransGen.refl
      · exact hr u hu

/-! ### Traversals -/

/-- A visit that starts a new path. -/
theorem Sound.visit_root (h : d.Sound old [] t) (hd : d.Closed) (hv : v ∈ d.vertices) :
    d.Visited old [] t v (d.visit t v) :=
  h.visit hd d.vertices.length hv (by simp) (by simp)

/-- Visits from several starts, one after another. -/
theorem Sound.traverse (hd : d.Closed) (starts : List NodeId) (hs : ∀ v ∈ starts, v ∈ d.vertices) :
    d.Sound [] [] (d.traverse starts) ∧ ∀ v ∈ starts, v ∈ (d.traverse starts).finished := by
  suffices ∀ (starts : List NodeId) (t : Traversal), (∀ v ∈ starts, v ∈ d.vertices) →
      d.Sound [] [] t → d.Sound [] [] (starts.foldl d.visit t) ∧
        (∀ v ∈ starts, v ∈ (starts.foldl d.visit t).finished) ∧
        ∀ v ∈ t.finished, v ∈ (starts.foldl d.visit t).finished by
    obtain ⟨h₁, h₂, -⟩ := this starts .start hs (Sound.start (by simp))
    exact ⟨h₁, h₂⟩
  intro starts
  induction starts with
  | nil => exact fun t _ h => ⟨h, by simp, fun _ hv => hv⟩
  | cons v starts ih =>
    intro t hs h
    have hvis := h.visit_root hd (hs v List.mem_cons_self)
    obtain ⟨h₁, h₂, h₃⟩ :=
      ih (d.visit t v) (fun x hx => hs x (List.mem_cons_of_mem _ hx)) hvis.sound
    refine ⟨h₁, ?_, ?_⟩
    · intro x hx
      rcases List.mem_cons.1 hx with rfl | hx
      · exact h₃ x (by simpa using (hvis.sound.marked_iff x).1 hvis.mem)
      · exact h₂ x hx
    · intro x hx
      obtain ⟨new, hf, -⟩ := hvis.adds
      exact h₃ x (by rw [hf]; exact List.mem_append_right _ hx)

/-- With no path under way and no old marks, what is finished is closed under
going on. -/
theorem Sound.finished_of_next (h : d.Sound [] [] t) {u w : NodeId} (hu : u ∈ t.finished)
    (hw : w ∈ d.next u) : w ∈ t.finished := by
  simpa using (h.marked_iff w).1 (h.marked_of_next hu hw)

end StochasticGame.Digraph
