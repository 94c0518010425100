import StochasticGame.Proofs.Reduction.Tracks

/-!
# StochasticGame.Proofs.Reduction.Fusion

**Merging like nodes keeps track of the game.** Two nodes may be merged if they are of
one kind and have the same successors. A round plans its merges from one look at the
game, so each pair is alike when it is planned; merging another pair renames a node in
all successor lists alike, which keeps it alike until its turn.
-/

namespace StochasticGame

/-- Planned merges are between holders of one key. -/
theorem mem_mergePlan {κ : Type} [DecidableEq κ] {holders items : List (κ × NodeId)}
    {p : NodeId × NodeId} (hp : p ∈ mergePlan holders items) :
    ∃ key, (key, p.1) ∈ holders ++ items ∧ (key, p.2) ∈ holders ++ items := by
  induction items generalizing holders with
  | nil => simp [mergePlan] at hp
  | cons item rest ih =>
    obtain ⟨key, id⟩ := item
    rw [mergePlan] at hp
    split at hp
    · rename_i keep hkeep
      rcases List.mem_cons.1 hp with rfl | hp
      · refine ⟨key, List.mem_append_left _ ?_, by simp⟩
        obtain ⟨l₁, l₂, rfl, -⟩ := List.lookup_eq_some_iff.1 hkeep
        simp
      · obtain ⟨key', h₁, h₂⟩ := ih hp
        have hsub : holders ++ rest ⊆ holders ++ (key, id) :: rest := by
          intro x hx
          rw [List.mem_append] at hx ⊢
          exact hx.imp_right (List.mem_cons_of_mem _)
        exact ⟨key', hsub h₁, hsub h₂⟩
    · obtain ⟨key', h₁, h₂⟩ := ih hp
      exact ⟨key', by simpa using h₁, by simpa using h₂⟩

namespace Game

variable {g h : Game} {id r t keep drop a b : NodeId}

/-! ### Merging a pair -/

/-- Two nodes with the same successors. -/
def SameSuccessors (h : Game) (a b : NodeId) : Prop :=
  ∀ v, v ∈ h.successors a ↔ v ∈ h.successors b

/-- A merge renames the dropped node in every list of successors. The kept node takes over
the loop of the dropped one, which is new to it unless the dropped one was its successor. -/
theorem mem_successors_contract (hl : h.Linked) (hkd : keep ≠ drop) (hk : h.contains keep = true)
    (hd : h.contains drop = true)
    (hloop : a = keep → drop ∈ h.successors drop → drop ∈ h.successors keep) (ha : a ≠ drop) :
    b ∈ (h.contract keep drop).successors a ↔
      b ≠ drop ∧ (b ∈ h.successors a ∨ (b = keep ∧ drop ∈ h.successors a)) := by
  rw [mem_successors_iff, hl.weight?_contract hkd hk hd]
  by_cases hbd : b = drop
  · simp [hbd]
  · rw [if_neg (by simp [ha, hbd])]
    by_cases hbk : b = keep
    · subst hbk
      rw [if_pos rfl, mergedWeight?]
      simp only [ne_eq, hbd, not_false_eq_true, true_and]
      by_cases hak : a = b
      · subst hak
        rw [if_pos rfl, Option.isSome_merge, Option.isSome_merge, Bool.or_eq_true, Bool.or_eq_true,
          ← mem_successors_iff, ← mem_successors_iff, ← mem_successors_iff]
        exact ⟨fun hor => hor.elim id fun hself => Or.inr (hloop rfl hself), Or.inl⟩
      · rw [if_neg hak, Option.isSome_merge, Bool.or_eq_true, ← mem_successors_iff,
          ← mem_successors_iff]
    · rw [if_neg hbk, ← mem_successors_iff]
      simp [hbd, hbk]

theorem SameSuccessors.contract (hab : h.SameSuccessors a b) (hl : h.Linked) (hkd : keep ≠ drop)
    (hk : h.contains keep = true) (hd : h.contains drop = true)
    (hsame : h.SameSuccessors keep drop) (ha : a ≠ drop) (hb : b ≠ drop) :
    (h.contract keep drop).SameSuccessors a b := by
  intro v
  have hloop := (hsame drop).2
  rw [mem_successors_contract hl hkd hk hd (fun _ => hloop) ha,
    mem_successors_contract hl hkd hk hd (fun _ => hloop) hb, hab v, hab drop]

/-- What is live after a merge was live before and is not the dropped node. -/
theorem face?_of_contract {f : Label × Option Rat} (hkd : keep ≠ drop)
    (hk : h.contains keep = true) (hd : h.contains drop = true)
    (hf : (h.contract keep drop).face? id = some f) : id ≠ drop ∧ h.face? id = some f := by
  rw [face?_contract hkd hk hd] at hf
  split at hf
  · simp at hf
  · exact ⟨‹_›, hf⟩

theorem contains_of_contract (hkd : keep ≠ drop) (hk : h.contains keep = true)
    (hd : h.contains drop = true) (hid : (h.contract keep drop).contains id = true) :
    id ≠ drop ∧ h.contains id = true := by
  rw [contains_eq_isSome_face?, Option.isSome_iff_exists] at hid
  obtain ⟨f, hf⟩ := hid
  obtain ⟨hne, hf⟩ := face?_of_contract hkd hk hd hf
  rw [contains_eq_isSome_face?, hf]
  exact ⟨hne, rfl⟩

/-- Who stands for a node after a merge, and what it led to before. -/
theorem Tracks.stands_contract (ht : Tracks g h) (hkd : keep ≠ drop)
    (hk : h.contains keep = true) (hd : h.contains drop = true)
    (hsame : h.SameSuccessors keep drop) (hid : g.contains id = true)
    (hs : (h.contract keep drop).Stands id t) :
    ∃ r, h.Stands id r ∧ t = (if r = drop then keep else r) ∧ t ≠ drop ∧
      h.SameSuccessors t r := by
  obtain ⟨r, hr, -⟩ := ht.stands id hid
  refine ⟨r, hr, hs.unique (hr.contract hkd hk hd), ?_⟩
  obtain rfl := hs.unique (hr.contract hkd hk hd)
  by_cases hrd : r = drop
  · rw [if_pos hrd, hrd]
    exact ⟨hkd, hsame⟩
  · rw [if_neg hrd]
    exact ⟨hrd, fun _ => Iff.rfl⟩

/-- Merging two nodes of one kind with the same successors keeps the relation. -/
theorem Tracks.contract (ht : Tracks g h) (hkd : keep ≠ drop) (hk : h.contains keep = true)
    (hd : h.contains drop = true) (hkind : g.kind? keep = g.kind? drop)
    (hsame : h.SameSuccessors keep drop) : Tracks g (h.contract keep drop) := by
  have hmem : ∀ {a b}, a ≠ drop → (b ∈ (h.contract keep drop).successors a ↔
      b ≠ drop ∧ (b ∈ h.successors a ∨ (b = keep ∧ drop ∈ h.successors a))) := fun ha =>
    mem_successors_contract ht.linked hkd hk hd (fun _ => (hsame drop).2) ha
  refine ⟨ht.origin, ht.linked.contract keep drop, (capacity_contract ..).trans ht.capacity_eq,
    (bindings_contract ..).trans ht.bindings_eq, ht.settled, ?_, ?_, ?_, ?_, ?_⟩
  · intro id f hf
    exact ht.face id f (face?_of_contract hkd hk hd hf).2
  · intro id k hf v hv
    obtain ⟨hne, hf⟩ := face?_of_contract hkd hk hd hf
    rcases ((hmem hne).1 hv).2 with hv | ⟨-, hv⟩
    · exact ht.leaf id k hf v hv
    · exact ht.leaf id k hf drop hv
  · intro id hid
    obtain ⟨r, hs, hkr, hr⟩ := ht.stands id hid
    refine ⟨_, hs.contract hkd hk hd, ?_⟩
    by_cases hrd : r = drop
    · rw [if_pos hrd]
      refine ⟨by rw [hkind, ← hrd, hkr], Or.inl ?_⟩
      rw [contains_contract_of_ne hkd hk hd hkd, hk]
    · rw [if_neg hrd]
      refine ⟨hkr, ?_⟩
      rw [contains_contract_of_ne hkd hk hd hrd, grave?_contract hkd hk hd, if_neg hrd]
      exact hr
  · intro id hi s hs r' t' hr' ht'
    obtain ⟨r, hr, her, hrd, hsucc⟩ := ht.stands_contract hkd hk hd hsame hi.contains hr'
    obtain ⟨t, hst, het, htd, -⟩ :=
      ht.stands_contract hkd hk hd hsame (ht.origin.contains_target hs) ht'
    rcases ht.forth id hi s hs r t hr hst with rfl | hedge
    · exact Or.inl (het.trans her.symm)
    · rw [← hsucc] at hedge
      refine Or.inr ((hmem hrd).2 ⟨htd, ?_⟩)
      by_cases htdrop : t = drop
      · rw [if_pos htdrop] at het
        exact Or.inr ⟨het, htdrop ▸ hedge⟩
      · rw [if_neg htdrop] at het
        exact Or.inl (het ▸ hedge)
  · intro id hi r' hr' t' hedge
    obtain ⟨r, hr, her, hrd, hsucc⟩ := ht.stands_contract hkd hk hd hsame hi.contains hr'
    -- the edge before the merge, of which this one is the renamed form
    obtain ⟨t, hedge, het⟩ : ∃ t ∈ h.successors r, t' = if t = drop then keep else t := by
      obtain ⟨hne, hedge | ⟨he, hedge⟩⟩ := (hmem hrd).1 hedge
      · exact ⟨t', (hsucc t').1 hedge, by rw [if_neg hne]⟩
      · exact ⟨drop, (hsucc drop).1 hedge, by rw [if_pos rfl, he]⟩
    rcases ht.back id hi r hr t hedge with rfl | ⟨s, hs, hst⟩
    · exact Or.inl (het.trans her.symm)
    · exact Or.inr ⟨s, hs, het ▸ hst.contract hkd hk hd⟩

/-! ### Merging by plan -/

/-- What a merge of like nodes keeps, planned merges keep, if a merge also leaves other
like nodes alike. -/
theorem mergeAll_induction {P : Game → Prop} {R : Game → NodeId → NodeId → Prop}
    {plan : List (NodeId × NodeId)} (start : P h)
    (hplan : ∀ p ∈ plan, h.contains p.1 = true → h.contains p.2 = true → R h p.1 p.2)
    (step : ∀ h keep drop, P h → keep ≠ drop → h.contains keep = true →
      h.contains drop = true → R h keep drop → P (h.contract keep drop) ∧
        ∀ a b, a ≠ drop → b ≠ drop → h.contains a = true → h.contains b = true → R h a b →
          R (h.contract keep drop) a b) : P (h.mergeAll plan) := by
  unfold Game.mergeAll
  induction plan generalizing h with
  | nil => exact start
  | cons p plan ih =>
    obtain ⟨keep, drop⟩ := p
    rw [List.foldl_cons]
    have hrest := fun q hq => hplan q (List.mem_cons_of_mem _ hq)
    by_cases hkd : keep = drop
    · subst hkd
      rw [contract_self]
      exact ih start hrest
    by_cases hlive : h.contains keep = true ∧ h.contains drop = true
    · obtain ⟨hk, hd⟩ := hlive
      obtain ⟨hP, hlike⟩ := step h keep drop start hkd hk hd (hplan _ List.mem_cons_self hk hd)
      refine ih hP ?_
      -- a pair that is still live was alike before, and neither of it was dropped
      intro q hq h₁ h₂
      obtain ⟨hn₁, h₁⟩ := contains_of_contract hkd hk hd h₁
      obtain ⟨hn₂, h₂⟩ := contains_of_contract hkd hk hd h₂
      exact hlike _ _ hn₁ hn₂ h₁ h₂ (hrest q hq h₁ h₂)
    · rw [contract_of_not_live hlive]
      exact ih start hrest

/-- What the merge of any two nodes keeps, planned merges keep. -/
theorem mergeAll_invariant {P : Game → Prop} (start : P h) (plan : List (NodeId × NodeId))
    (step : ∀ h keep drop, P h → keep ≠ drop → h.contains keep = true →
      h.contains drop = true → P (h.contract keep drop)) : P (h.mergeAll plan) :=
  mergeAll_induction (R := fun _ _ _ => True) start (fun _ _ _ _ => trivial)
    fun h keep drop hP hkd hk hd _ => ⟨step h keep drop hP hkd hk hd, fun _ _ _ _ _ _ _ => trivial⟩

/-- Planned merges of nodes that are alike keep the relation. -/
theorem Tracks.mergeAll (ht : Tracks g h) {plan : List (NodeId × NodeId)}
    (hplan : ∀ p ∈ plan, g.kind? p.1 = g.kind? p.2 ∧ h.SameSuccessors p.1 p.2) :
    Tracks g (h.mergeAll plan) := by
  refine mergeAll_induction (P := Tracks g)
    (R := fun h a b => g.kind? a = g.kind? b ∧ h.SameSuccessors a b) ht
    (fun p hp _ _ => hplan p hp) ?_
  intro h keep drop ht hkd hk hd hlike
  refine ⟨ht.contract hkd hk hd hlike.1 hlike.2, ?_⟩
  intro a b ha hb _ _ hab
  exact ⟨hab.1, hab.2.contract ht.linked hkd hk hd hlike.2 ha hb⟩

/-- Sinks are planned to be merged if they pay the same. -/
theorem face?_of_mem_sinkMerges {p : NodeId × NodeId} (hp : p ∈ h.sinkMerges) :
    ∃ k, h.face? p.1 = some (.sink, some k) ∧ h.face? p.2 = some (.sink, some k) := by
  obtain ⟨k, h₁, h₂⟩ := mem_mergePlan hp
  have hsink : ∀ j, (k, j) ∈ (h.nodes.filter (·.2.isSink)).filterMap
      (fun e => e.2.known.map (·, e.1)) → h.face? j = some (.sink, some k) := by
    intro j hj
    rw [List.mem_filterMap] at hj
    obtain ⟨⟨i, n⟩, he, hk⟩ := hj
    rw [List.mem_filter, mem_nodes] at he
    obtain ⟨k', hk', heq⟩ := Option.map_eq_some_iff.1 hk
    simp only [Prod.mk.injEq] at heq
    obtain ⟨rfl, rfl⟩ := heq
    have hl : n.label = .sink := by simpa [Node.isSink] using he.2
    rw [face?_of_node? he.1, hl, hk']
  exact ⟨k, hsink p.1 h₁, hsink p.2 h₂⟩

/-- Other nodes are planned to be merged if they have the same label and, up to order, the
same weighted successors. -/
theorem node?_of_mem_nodeMerges {p : NodeId × NodeId} (hp : p ∈ h.nodeMerges) :
    ∃ n m, h.node? p.1 = some n ∧ h.node? p.2 = some m ∧ n.label ≠ .sink ∧ m.label = n.label ∧
      n.succs.entries.Perm m.succs.entries := by
  obtain ⟨key, h₁, h₂⟩ := mem_mergePlan hp
  have hnode : ∀ j, (key, j) ∈ h.nodes.filterMap (fun e => e.2.fuseKey?.map (·, e.1)) →
      ∃ n, h.node? j = some n ∧ n.label ≠ .sink ∧ n.label = key.1 ∧
        key.2.Perm n.succs.entries := by
    intro j hj
    rw [List.mem_filterMap] at hj
    obtain ⟨⟨i, n⟩, he, hk⟩ := hj
    obtain ⟨key', hk', heq⟩ := Option.map_eq_some_iff.1 hk
    simp only [Prod.mk.injEq] at heq
    obtain ⟨rfl, rfl⟩ := heq
    unfold Node.fuseKey? at hk'
    split at hk'
    · simp at hk'
    · rename_i hsink
      obtain rfl := Option.some_inj.1 hk'
      exact ⟨n, mem_nodes.1 he, by simpa [Node.isSink] using hsink, rfl,
        List.mergeSort_perm n.succs.entries _⟩
  obtain ⟨n, hn, hsink, hl, hperm⟩ := hnode p.1 h₁
  obtain ⟨m, hm, -, hl', hperm'⟩ := hnode p.2 h₂
  exact ⟨n, m, hn, hm, hsink, hl'.trans hl.symm, hperm.symm.trans hperm'⟩

/-- Sinks lead nowhere, so they have the same successors. -/
theorem Tracks.sameSuccessors_of_mem_sinkMerges (ht : Tracks g h) {p : NodeId × NodeId}
    (hp : p ∈ h.sinkMerges) : h.SameSuccessors p.1 p.2 := by
  obtain ⟨k, hf₁, hf₂⟩ := face?_of_mem_sinkMerges hp
  intro v
  exact iff_of_false (ht.leaf _ _ hf₁ v) (ht.leaf _ _ hf₂ v)

theorem sameSuccessors_of_mem_nodeMerges {p : NodeId × NodeId} (hp : p ∈ h.nodeMerges) :
    h.SameSuccessors p.1 p.2 := by
  obtain ⟨n, m, hn, hm, -, -, hperm⟩ := node?_of_mem_nodeMerges hp
  intro v
  rw [successors_of_node? hn, successors_of_node? hm]
  exact (hperm.map Prod.fst).mem_iff

theorem Tracks.fuseSinks (ht : Tracks g h) : Tracks g h.fuseSinks.2 := by
  refine ht.mergeAll ?_
  intro p hp
  obtain ⟨k, hf₁, hf₂⟩ := face?_of_mem_sinkMerges hp
  exact ⟨(ht.kind?_of_sink hf₁).trans (ht.kind?_of_sink hf₂).symm,
    ht.sameSuccessors_of_mem_sinkMerges hp⟩

theorem Tracks.nodeMerges (ht : Tracks g h) : Tracks g (h.mergeAll h.nodeMerges) := by
  refine ht.mergeAll ?_
  intro p hp
  obtain ⟨n, m, hn, hm, hsink, hl, -⟩ := node?_of_mem_nodeMerges hp
  refine ⟨?_, sameSuccessors_of_mem_nodeMerges hp⟩
  rw [ht.kind?_of_ne_sink hsink (face?_of_node? hn),
    ht.kind?_of_ne_sink (hl ▸ hsink) (face?_of_node? hm), hl]

theorem Tracks.fuseNodes (ht : Tracks g h) : Tracks g h.fuseNodes.2 :=
  fuseNodes_induction ht fun _ hh => hh.nodeMerges

/-! ### Fusions of games with sorted successors -/

/-- The planned merges of a game whose successors come sorted. -/
theorem nodeMerges_of_sorted
    (hsorted : ∀ e ∈ g.nodes, e.2.succs.entries.Pairwise fun a b => a.1 ≤ b.1) :
    g.nodeMerges = mergePlan [] (g.nodes.filterMap fun e =>
      if e.2.isSink then none else some ((e.2.label, e.2.succs.entries), e.1)) := by
  unfold Game.nodeMerges
  congr 1
  apply List.filterMap_congr
  intro e he
  unfold Node.fuseKey?
  split
  · rfl
  · rw [List.mergeSort_of_pairwise (by simpa using hsorted e he)]
    rfl

/-- Fusion ends with the round that plans nothing. -/
theorem fuseRounds_of_nil (hplan : g.nodeMerges = []) (rounds : Nat) :
    Game.fuseRounds rounds g = (0, g) := by
  cases rounds with
  | zero => rfl
  | succ rounds => rw [Game.fuseRounds, hplan]

/-- One more round of fusion. -/
theorem fuseRounds_of_cons {m : NodeId × NodeId} {plan : List (NodeId × NodeId)}
    (hplan : g.nodeMerges = m :: plan) (rounds : Nat) :
    (Game.fuseRounds (rounds + 1) g).2 =
      (Game.fuseRounds rounds (g.mergeAll (m :: plan))).2 := by
  rw [Game.fuseRounds, hplan]

end Game

end StochasticGame
