import StochasticGame.Proofs.Plan.Schedule
import StochasticGame.Proofs.Reduction.Fusion

/-!
# StochasticGame.Proofs.Reduction.MergePlan

**What planned merges leave.** A plan drops every holder of a key but the first, and
keeps no node that it drops. So its merges can be carried out one after another without
one spoiling the next (`Feasible`): what is left is every node that the plan does not
drop, and no two of them hold the same key.
-/

namespace StochasticGame

/-! ### Who is kept and who is dropped -/

section Plan

variable {κ : Type} [DecidableEq κ] {holders items : List (κ × NodeId)} {key : κ}
  {keep id a b : NodeId}

/-- A plan drops listed nodes, each at most once. -/
theorem drops_sublist (holders items : List (κ × NodeId)) :
    ((mergePlan holders items).map Prod.snd).Sublist (items.map Prod.snd) := by
  induction items generalizing holders with
  | nil => exact List.Sublist.slnil
  | cons item rest ih =>
    obtain ⟨key, id⟩ := item
    rw [mergePlan]
    split
    · exact (ih holders).cons_cons id
    · exact (ih _).cons id

theorem mem_of_lookup (hkeep : holders.lookup key = some keep) : (key, keep) ∈ holders := by
  obtain ⟨l₁, l₂, rfl, -⟩ := List.lookup_eq_some_iff.1 hkeep
  exact List.mem_append_right l₁ List.mem_cons_self

/-- Kept nodes are not dropped. -/
theorem keep_not_mem_drops (hn : ((holders ++ items).map Prod.snd).Nodup) {m : NodeId × NodeId}
    (hm : m ∈ mergePlan holders items) : m.1 ∉ (mergePlan holders items).map Prod.snd := by
  induction items generalizing holders with
  | nil => simp [mergePlan] at hm
  | cons item rest ih =>
    obtain ⟨key, id⟩ := item
    rw [mergePlan] at hm ⊢
    split at hm
    · rename_i keep hkeep
      have hid : id ∉ (holders ++ rest).map Prod.snd ∧ ((holders ++ rest).map Prod.snd).Nodup := by
        rw [List.map_append, List.map_cons, List.nodup_middle, List.nodup_cons] at hn
        rwa [List.map_append]
      rw [List.map_cons, List.mem_cons, not_or]
      cases List.mem_cons.1 hm with
      | inl he =>
        -- a holder that was met before is not listed again
        subst he
        have hmem := List.mem_map_of_mem (f := Prod.snd) (mem_of_lookup hkeep)
        rw [List.map_append, List.nodup_append] at hn
        have hne : ∀ j ∈ ((key, id) :: rest).map Prod.snd, keep ≠ j := hn.2.2 keep hmem
        refine ⟨hne id List.mem_cons_self, ?_⟩
        intro hdrop
        exact hne keep (List.mem_cons_of_mem _ ((drops_sublist holders rest).subset hdrop)) rfl
      | inr hm =>
        obtain ⟨key', hkey, -⟩ := mem_mergePlan hm
        refine ⟨?_, ih hid.2 hm⟩
        intro he
        obtain rfl : m.1 = id := he
        exact hid.1 (List.mem_map_of_mem (f := Prod.snd) hkey)
    · exact ih (by simpa using hn) hm

/-- A listed holder of a key that was met before is dropped. -/
theorem mem_drops_of_holder (hkeep : (key, keep) ∈ holders) (hid : (key, id) ∈ items) :
    id ∈ (mergePlan holders items).map Prod.snd := by
  induction items generalizing holders with
  | nil => simp at hid
  | cons item rest ih =>
    obtain ⟨key', id'⟩ := item
    rw [mergePlan]
    split
    · cases List.mem_cons.1 hid with
      | inl he => exact List.mem_cons.2 (Or.inl (congrArg Prod.snd he))
      | inr hid => exact List.mem_cons_of_mem _ (ih hkeep hid)
    · rename_i hnone
      cases List.mem_cons.1 hid with
      | inl he =>
        obtain rfl : key = key' := congrArg Prod.fst he
        have hne := List.lookup_eq_none_iff.1 hnone _ hkeep
        simp at hne
      | inr hid => exact ih (List.mem_append_left _ hkeep) hid

/-- One of two listed holders of the same key is dropped. -/
theorem mem_drops_or (ha : (key, a) ∈ items) (hb : (key, b) ∈ items) (hab : a ≠ b) :
    a ∈ (mergePlan holders items).map Prod.snd ∨ b ∈ (mergePlan holders items).map Prod.snd := by
  induction items generalizing holders with
  | nil => simp at ha
  | cons item rest ih =>
    rw [mergePlan]
    split
    · -- the first of the list is dropped
      cases List.mem_cons.1 ha with
      | inl he => exact Or.inl (List.mem_cons.2 (Or.inl (congrArg Prod.snd he)))
      | inr ha =>
        cases List.mem_cons.1 hb with
        | inl he => exact Or.inr (List.mem_cons.2 (Or.inl (congrArg Prod.snd he)))
        | inr hb =>
          exact (ih ha hb).imp (List.mem_cons_of_mem _) (List.mem_cons_of_mem _)
    · -- the first of the list becomes a holder
      have hfirst : item ∈ holders ++ [item] := List.mem_append_right holders List.mem_cons_self
      cases List.mem_cons.1 ha with
      | inl he =>
        subst he
        cases List.mem_cons.1 hb with
        | inl he => exact absurd (congrArg Prod.snd he).symm hab
        | inr hb => exact Or.inr (mem_drops_of_holder hfirst hb)
      | inr hrest =>
        cases List.mem_cons.1 hb with
        | inl he =>
          subst he
          exact Or.inl (mem_drops_of_holder hfirst hrest)
        | inr hb => exact ih hrest hb

end Plan

namespace Game

variable {h : Game} {plan : List (NodeId × NodeId)} {keep drop j r : NodeId}

/-! ### Carrying out a plan -/

/-- Merges bring no node to life and change no label or known value. -/
theorem face?_of_mergeAll {f : Label × Option Rat} (hf : (h.mergeAll plan).face? j = some f) :
    h.face? j = some f := by
  have hback : ∀ i f, (h.mergeAll plan).face? i = some f → h.face? i = some f := by
    refine mergeAll_invariant (P := fun k => ∀ i f, k.face? i = some f → h.face? i = some f)
      (fun _ _ hi => hi) plan ?_
    intro k keep drop hk hkd hkeep hdrop i f hi
    exact hk i f (face?_of_contract hkd hkeep hdrop hi).2
  exact hback j f hf

theorem face?_of_fuseRounds {rounds : Nat} {f : Label × Option Rat}
    (hf : (Game.fuseRounds rounds h).2.face? j = some f) : h.face? j = some f :=
  fuseRounds_induction (P := fun k => ∀ i f, k.face? i = some f → h.face? i = some f) rounds
    (fun _ _ hi => hi) (fun _ hk i f hi => hk i f (face?_of_mergeAll hi)) j f hf

/-- A plan whose merges can be carried out one after another. -/
structure Feasible (h : Game) (plan : List (NodeId × NodeId)) : Prop where
  /-- It merges live nodes. -/
  live : ∀ m ∈ plan, h.contains m.1 = true ∧ h.contains m.2 = true
  /-- It keeps no node that it drops. -/
  kept : ∀ m ∈ plan, m.1 ∉ plan.map Prod.snd
  /-- It drops no node twice. -/
  once : (plan.map Prod.snd).Nodup

namespace Feasible

theorem head (hp : h.Feasible ((keep, drop) :: plan)) :
    keep ≠ drop ∧ h.contains keep = true ∧ h.contains drop = true := by
  refine ⟨?_, hp.live _ List.mem_cons_self⟩
  intro he
  exact hp.kept _ List.mem_cons_self (List.mem_cons.2 (Or.inl he))

/-- Neither node of a merge is dropped later. -/
theorem not_mem_tail (hp : h.Feasible ((keep, drop) :: plan)) :
    keep ∉ plan.map Prod.snd ∧ drop ∉ plan.map Prod.snd := by
  refine ⟨fun hk => ?_, (List.nodup_cons.1 hp.once).1⟩
  exact hp.kept _ List.mem_cons_self (List.mem_cons_of_mem _ hk)

theorem tail (hp : h.Feasible ((keep, drop) :: plan)) :
    (h.contract keep drop).Feasible plan where
  live := by
    obtain ⟨hkd, hk, hd⟩ := hp.head
    intro m hm
    have hkept : m.1 ≠ drop := fun he =>
      hp.kept m (List.mem_cons_of_mem _ hm) (List.mem_cons.2 (Or.inl he))
    have hdropped : m.2 ≠ drop := fun he => hp.not_mem_tail.2 (he ▸ List.mem_map_of_mem hm)
    rw [contains_contract_of_ne hkd hk hd hkept, contains_contract_of_ne hkd hk hd hdropped]
    exact hp.live m (List.mem_cons_of_mem _ hm)
  kept m hm hdrop :=
    hp.kept m (List.mem_cons_of_mem _ hm) (List.mem_cons_of_mem _ hdrop)
  once := (List.nodup_cons.1 hp.once).2

/-- The merges leave every node that is not dropped. -/
theorem face?_mergeAll (hp : h.Feasible plan) (j : NodeId) :
    (h.mergeAll plan).face? j = if j ∈ plan.map Prod.snd then none else h.face? j := by
  unfold Game.mergeAll
  induction plan generalizing h with
  | nil => simp
  | cons m plan ih =>
    obtain ⟨keep, drop⟩ := m
    obtain ⟨hkd, hk, hd⟩ := hp.head
    rw [List.foldl_cons, ih hp.tail, face?_contract hkd hk hd]
    by_cases hj : j = drop
    · simp [hj]
    · rw [if_neg hj, List.map_cons]
      simp only [List.mem_cons, hj, false_or]

theorem not_mem_drops (hp : h.Feasible plan) {f : Label × Option Rat}
    (hf : (h.mergeAll plan).face? j = some f) : j ∉ plan.map Prod.snd := by
  intro hdrop
  rw [hp.face?_mergeAll, if_pos hdrop] at hf
  cases hf

end Feasible

/-! ### The plans of the fusion passes -/

section Keyed

variable {κ : Type}

/-- The nodes of a list that have a key, with their keys. -/
theorem mem_keyed {l : List (NodeId × Node)} {key? : Node → Option κ} {key : κ} :
    (key, j) ∈ l.filterMap (fun e => (key? e.2).map (·, e.1)) ↔
      ∃ n, (j, n) ∈ l ∧ key? n = some key := by
  rw [List.mem_filterMap]
  constructor
  · intro ⟨⟨i, n⟩, he, hk⟩
    obtain ⟨key', hkey, heq⟩ := Option.map_eq_some_iff.1 hk
    simp only [Prod.mk.injEq] at heq
    obtain ⟨rfl, rfl⟩ := heq
    exact ⟨n, he, hkey⟩
  · intro ⟨n, he, hk⟩
    exact ⟨(j, n), he, by rw [hk]; rfl⟩

/-- A plan from one look at some nodes of a game is feasible. -/
theorem feasible_mergePlan [DecidableEq κ] {l : List (NodeId × Node)} (hl : l.Sublist h.nodes)
    (key? : Node → Option κ) :
    h.Feasible (mergePlan [] (l.filterMap fun e => (key? e.2).map (·, e.1))) := by
  have hnodup : ((l.filterMap fun e => (key? e.2).map (·, e.1)).map Prod.snd).Nodup := by
    refine List.Sublist.nodup ?_ ((hl.map Prod.fst).nodup h.nodup_nodeIds)
    clear hl
    induction l with
    | nil => exact List.Sublist.slnil
    | cons e l ih =>
      rw [List.filterMap_cons]
      cases key? e.2 with
      | none => exact ih.cons e.1
      | some key => exact ih.cons_cons e.1
  have hlive : ∀ {key : κ} {j}, (key, j) ∈ l.filterMap (fun e => (key? e.2).map (·, e.1)) →
      h.contains j = true := by
    intro key j hj
    obtain ⟨n, hn, -⟩ := mem_keyed.1 hj
    exact contains_iff.2 ⟨n, mem_nodes.1 (hl.subset hn)⟩
  refine ⟨?_, fun m => keep_not_mem_drops hnodup, (drops_sublist _ _).nodup hnodup⟩
  intro m hm
  obtain ⟨key, h₁, h₂⟩ := mem_mergePlan hm
  exact ⟨hlive h₁, hlive h₂⟩

end Keyed

theorem feasible_sinkMerges (h : Game) : h.Feasible h.sinkMerges :=
  feasible_mergePlan List.filter_sublist Node.known

theorem feasible_nodeMerges (h : Game) : h.Feasible h.nodeMerges :=
  feasible_mergePlan (List.Sublist.refl h.nodes) Node.fuseKey?

/-- **Fused sinks pay different amounts.** -/
theorem eq_of_face?_fuseSinks {k : Rat} (ha : h.fuseSinks.2.face? j = some (.sink, some k))
    (hb : h.fuseSinks.2.face? r = some (.sink, some k)) : j = r := by
  have hp := feasible_sinkMerges h
  -- a sink that is left was listed with its payoff, and not dropped
  have hleft : ∀ i, h.fuseSinks.2.face? i = some (.sink, some k) →
      i ∉ h.sinkMerges.map Prod.snd ∧
        (k, i) ∈ (h.nodes.filter (·.2.isSink)).filterMap fun e => e.2.known.map (·, e.1) := by
    intro i hi
    have hnot := hp.not_mem_drops hi
    rw [Game.fuseSinks, hp.face?_mergeAll, if_neg hnot] at hi
    obtain ⟨n, hn, hl, hk⟩ := face?_eq_some_iff.1 hi
    refine ⟨hnot, mem_keyed.2 ⟨n, List.mem_filter.2 ⟨mem_nodes.2 hn, ?_⟩, hk⟩⟩
    simp [Node.isSink, hl]
  by_contra hne
  have hdropped : j ∈ h.sinkMerges.map Prod.snd ∨ r ∈ h.sinkMerges.map Prod.snd :=
    mem_drops_or (hleft j ha).2 (hleft r hb).2 hne
  cases hdropped with
  | inl hdrop => exact (hleft j ha).1 hdrop
  | inr hdrop => exact (hleft r hb).1 hdrop

end Game

end StochasticGame
