import Mathlib.Data.List.Perm.Basic
import StochasticGame.Proofs.Reduction.Law
import StochasticGame.Proofs.Reduction.Sinks
import StochasticGame.Proofs.Solver.Trap

/-!
# StochasticGame.Proofs.Reduction.Carry

**Values carried back from a reduced game.** `Game.carry` gives every node of the
original game the value of the node that stands for it, or the payoff of the removed
sink that did. Carried values satisfy the equations of the original game at every node
that the passes have not `Altered`: they may drop a self-loop, and replace a successor
by one that stands for it, but may neither cut the edges of a player nor fuse two
successors of an average node, whose mean then counts fewer branches.
-/

namespace StochasticGame

/-- A mean over nodes is the mean over those that stand for them, if these are distinct;
the one whose value is the mean may be counted or not. -/
theorem mean_of_representatives {xs ts : List NodeId} {ρ : NodeId → NodeId} {v : NodeId → Rat}
    {r : NodeId} (hts : ts.Nodup) (hne : ts ≠ []) (hr : r ∉ ts) (hρ : (xs.map ρ).Nodup)
    (hforth : ∀ s ∈ xs, ρ s = r ∨ ρ s ∈ ts) (hback : ∀ t ∈ ts, ∃ s ∈ xs, ρ s = t)
    (hmean : (ts.map v).sum / ts.length = v r) :
    ((xs.map ρ).map v).sum / xs.length = v r := by
  have hlen : (ts.length : Rat) ≠ 0 := by
    rw [Nat.cast_ne_zero]
    exact fun h => hne (List.eq_nil_of_length_eq_zero h)
  have hsum : (ts.map v).sum = v r * ts.length := (div_eq_iff hlen).1 hmean
  -- those who stand for `xs` are `ts`, and possibly `r`
  have hmem : ∀ t, t ∈ xs.map ρ ↔ t ∈ ts ∨ t = r ∧ r ∈ xs.map ρ := by
    intro t
    constructor
    · intro ht
      obtain ⟨s, hs, rfl⟩ := List.mem_map.1 ht
      rcases hforth s hs with he | hs'
      · exact Or.inr ⟨he, he ▸ ht⟩
      · exact Or.inl hs'
    · rintro (ht | ⟨rfl, ht⟩)
      · obtain ⟨s, hs, rfl⟩ := hback t ht
        exact List.mem_map_of_mem hs
      · exact ht
  have hxs : (xs.map ρ).length = xs.length := List.length_map ρ
  rw [← hxs]
  by_cases hrx : r ∈ xs.map ρ
  · have hperm : (xs.map ρ).Perm (r :: ts) := by
      rw [List.perm_ext_iff_of_nodup hρ (List.nodup_cons.2 ⟨hr, hts⟩)]
      intro t
      rw [hmem, List.mem_cons]
      tauto
    have hlen' : (ts.length : Rat) + 1 ≠ 0 := by positivity
    rw [(hperm.map v).sum_eq, hperm.length_eq, List.map_cons, List.sum_cons, hsum,
      List.length_cons, Nat.cast_succ, div_eq_iff hlen']
    ring
  · have hperm : (xs.map ρ).Perm ts := by
      rw [List.perm_ext_iff_of_nodup hρ hts]
      intro t
      rw [hmem]
      tauto
    rw [(hperm.map v).sum_eq, hperm.length_eq, hmean]

namespace Game

variable {g h : Game} {id r s : NodeId} {v : NodeId → Rat}

/-- The value that a valuation of a reduced game gives a node of the original. -/
def carry (h : Game) (v : NodeId → Rat) (id : NodeId) : Rat :=
  match h.representative? id with
  | none => 0
  | some r => if h.contains r then v r else (h.prunedPayoff? r).getD 0

/-- The passes changed more about a node than how its successors are named: it is settled
but no sink, so its edges were cut, or it is an average node of whose successors two
were fused. -/
def Altered (g h : Game) (id : NodeId) : Prop :=
  ∃ n ∈ g.node? id, n.isSettled = true ∧ n.label ≠ .sink ∨
    n.label = .average ∧ ∃ s ∈ n.successors, ∃ t ∈ n.successors,
      s ≠ t ∧ h.representative? s = h.representative? t

instance : Decidable (g.Altered h id) :=
  inferInstanceAs (Decidable (∃ n ∈ g.node? id, n.isSettled = true ∧ n.label ≠ .sink ∨
    n.label = .average ∧ ∃ s ∈ n.successors, ∃ t ∈ n.successors,
      s ≠ t ∧ h.representative? s = h.representative? t))

theorem carry_of_live (hs : h.Stands id r) (hr : h.contains r = true) : h.carry v id = v r := by
  rw [carry, hs.representative?]
  exact if_pos hr

theorem prunedPayoff?_of_grave? {k : Option Rat} (hr : h.grave? r = some (.removed k)) :
    h.contains r = false ∧ h.prunedPayoff? r = k := by
  rw [grave?, Option.filter_eq_some_iff] at hr
  rw [contains, node?, prunedPayoff?, hr.1]
  exact ⟨rfl, rfl⟩

theorem carry_of_removed {k : Option Rat} (hs : h.Stands id r)
    (hr : h.grave? r = some (.removed k)) : h.carry v id = k.getD 0 := by
  obtain ⟨hlive, hpay⟩ := prunedPayoff?_of_grave? hr
  rw [carry, hs.representative?]
  simp [hlive, hpay]

namespace Tracks

/-- Whoever stands for an unsettled node is live and has its label. -/
theorem node?_of_kind (ht : Tracks g h) {l : Label} (hl : l ≠ .sink)
    (hk : g.kind? id = some (l, none)) (hs : h.Stands id r) :
    ∃ n, h.node? r = some n ∧ n.label = l := by
  have hi : g.Inner id := ⟨l, hl, hk⟩
  obtain ⟨r', hs', hkind, hlive⟩ := ht.stands id hi.contains
  obtain rfl := hs.unique hs'
  rcases hlive with hlive | ⟨k, hsink, -⟩
  · obtain ⟨n, hn⟩ := contains_iff.1 hlive
    have hnl : n.label ≠ .sink := by
      intro hnl
      apply ht.face?_ne_sink hi hs n.known
      rw [face?_of_node? hn, hnl]
    rw [hk, ht.kind?_of_ne_sink hnl (face?_of_node? hn)] at hkind
    simp only [Option.some.injEq, Prod.mk.injEq, and_true] at hkind
    exact ⟨n, hn, hkind⟩
  · rw [hk] at hsink
    simp only [Option.some.injEq, Prod.mk.injEq] at hsink
    exact absurd hsink.1 hl

theorem live_of_inner (ht : Tracks g h) (hi : g.Inner id) (hs : h.Stands id r) :
    h.contains r = true := by
  obtain ⟨l, hl, hk⟩ := hi
  obtain ⟨n, hn, -⟩ := ht.node?_of_kind hl hk hs
  exact contains_iff.2 ⟨n, hn⟩

theorem settled_of_kind (ht : Tracks g h) {k : Option Rat}
    (hk : g.kind? id = some (.sink, k)) : k = some 0 ∨ k = some 1 := by
  rw [kind?, Option.map_eq_some_iff] at hk
  obtain ⟨⟨l, k'⟩, hf, hkind⟩ := hk
  by_cases hs : k' = some 0 ∨ k' = some 1
  · rw [kindOf, if_pos hs] at hkind
    exact (Prod.mk.inj hkind).2 ▸ hs
  · rw [kindOf, if_neg hs] at hkind
    obtain rfl : l = .sink := (Prod.mk.inj hkind).1
    exact absurd (ht.settled id k' hf) hs

/-- Settled nodes keep their payoff. -/
theorem carry_of_settled (ht : Tracks g h) (hv : h.Solves v) {q : Rat}
    (hk : g.kind? id = some (.sink, some q)) : h.carry v id = q := by
  have hid : g.contains id = true := by
    rw [contains_eq_isSome_face?]
    rw [kind?, Option.map_eq_some_iff] at hk
    obtain ⟨f, hf, -⟩ := hk
    rw [hf]
    rfl
  obtain ⟨r, hs, hkind, hr | ⟨k, hk', hr⟩⟩ := ht.stands id hid
  · obtain ⟨n, hn⟩ := contains_iff.1 hr
    rw [carry_of_live hs hr]
    have hnl : n.label = .sink := by
      by_contra hnl
      rw [hk, ht.kind?_of_ne_sink hnl (face?_of_node? hn)] at hkind
      simp at hkind
    have hf : h.face? r = some (.sink, n.known) := by rw [face?_of_node? hn, hnl]
    rw [hk, ht.kind?_of_sink hf] at hkind
    simp only [Option.some.injEq, Prod.mk.injEq, true_and] at hkind
    refine hv r n hn q ?_
    rw [Node.Yields, hnl]
    exact hkind
  · rw [hk] at hk'
    simp only [Option.some.injEq, Prod.mk.injEq, true_and] at hk'
    rw [carry_of_removed hs hr, ← hk', Option.getD_some]

/-- What a successor of an inner node is carried from. -/
theorem carry_successor (ht : Tracks g h) (hi : g.Inner id) (hr : h.Stands id r)
    (hs : s ∈ g.successors id) :
    ∃ t, h.Stands s t ∧ (t = r ∨ t ∈ h.successors r) ∧ h.carry v s = v t := by
  obtain ⟨t, hst, -, -⟩ := ht.stands s (ht.origin.contains_target hs)
  have hedge := ht.forth id hi s hs r t hr hst
  refine ⟨t, hst, hedge, carry_of_live hst ?_⟩
  rcases hedge with rfl | hedge
  · exact ht.live_of_inner hi hr
  · exact ht.linked.contains_target hedge

/-- Where there are no self-loops, every successor of who stands for an inner node
carries its value to a successor of that node. -/
theorem exists_carry_eq (ht : Tracks g h) (hloop : ∀ a, a ∉ h.successors a) (hi : g.Inner id)
    (hr : h.Stands id r) {t : NodeId} (hedge : t ∈ h.successors r) :
    ∃ s ∈ g.successors id, h.Stands s t ∧ h.carry v s = v t := by
  rcases ht.back id hi r hr t hedge with rfl | ⟨s, hs, hst⟩
  · exact absurd hedge (hloop t)
  · exact ⟨s, hs, hst, carry_of_live hst (ht.linked.contains_target hedge)⟩

/-- An unsettled live node is no sink. -/
theorem kind?_of_not_settled (ht : Tracks g h) {n : Node} (hn : g.node? id = some n)
    (hs : ¬ n.isSettled = true) : n.label ≠ .sink ∧ g.kind? id = some (n.label, none) := by
  rw [isSettled_iff] at hs
  constructor
  · intro hl
    exact hs (ht.settled id n.known (by rw [face?_of_node? hn, hl]))
  · rw [kind?, face?_of_node? hn, Option.map_some, kindOf, if_neg hs]

/-- Whoever stands for an unsettled player, and has a successor, has the value it has to
have. -/
theorem yields_of_player (ht : Tracks g h) (hv : h.Solves v) {l : Label}
    (hl : l = .max ∨ l = .min) (hk : g.kind? id = some (l, none)) (hr : h.Stands id r)
    (hne : h.successors r ≠ []) :
    ∃ n : Node, n.label = l ∧ n.successors = h.successors r ∧ n.Yields v (v r) := by
  have hsink : l ≠ .sink := by rcases hl with rfl | rfl <;> simp
  obtain ⟨n, hn, rfl⟩ := ht.node?_of_kind hsink hk hr
  have hsucc : h.successors r = n.successors := successors_of_node? hn
  refine ⟨n, rfl, hsucc.symm, hv.yields hn ?_⟩
  intro hidle
  obtain ⟨n', hn', hcases⟩ := hidle.cases
  obtain rfl := Option.some_inj.1 (hn.symm.trans hn')
  rcases hcases with ⟨-, hnil⟩ | ⟨hns, -⟩
  · exact hne (hsucc.trans hnil)
  · exact hsink hns

/-- Carried values satisfy the equation of an unsettled player, who takes one of the
values of the successors that is last in some order. -/
theorem carry_eq_of_player (ht : Tracks g h) (hloop : ∀ a, a ∉ h.successors a)
    (hi : g.Inner id) {R : Rat → Rat → Prop} (hR : ∀ {a b}, R a b → R b a → a = b)
    (hfix : ∀ r, h.Stands id r → h.successors r ≠ [] →
      (∃ t ∈ h.successors r, v t = v r) ∧ ∀ t ∈ h.successors r, R (v t) (v r)) {x : Rat}
    (hx : (∃ s ∈ g.successors id, h.carry v s = x) ∧
      ∀ s ∈ g.successors id, R (h.carry v s) x) : h.carry v id = x := by
  obtain ⟨r, hr, -, -⟩ := ht.stands id hi.contains
  rw [carry_of_live hr (ht.live_of_inner hi hr)]
  obtain ⟨⟨s, hs, rfl⟩, hall⟩ := hx
  obtain ⟨t, -, rfl | hedge, hts⟩ := ht.carry_successor (v := v) hi hr hs
  · -- the choice became a self-loop, so it carries the node's own value
    exact hts.symm
  · obtain ⟨⟨t', hedge', ht'⟩, hlast⟩ := hfix r hr (List.ne_nil_of_mem hedge)
    obtain ⟨s', hs', -, hts'⟩ := ht.exists_carry_eq (v := v) hloop hi hr hedge'
    apply hR
    · rw [← ht', ← hts']
      exact hall s' hs'
    · rw [hts]
      exact hlast t hedge

/-- Carried values satisfy the equation of an unsettled average node of whose successors
no two were fused. -/
theorem carry_eq_of_average (ht : Tracks g h) (hloop : ∀ a, a ∉ h.successors a)
    (hi : g.Inner id) (hnodup : (g.successors id).Nodup)
    (hdistinct : ∀ s ∈ g.successors id, ∀ t ∈ g.successors id,
      h.representative? s = h.representative? t → s = t)
    (hfix : ∀ r, h.Stands id r → (h.successors r).Nodup ∧ h.successors r ≠ [] ∧
      ((h.successors r).map v).sum / (h.successors r).length = v r) :
    h.carry v id = ((g.successors id).map (h.carry v)).sum / (g.successors id).length := by
  obtain ⟨r, hr, -, -⟩ := ht.stands id hi.contains
  rw [carry_of_live hr (ht.live_of_inner hi hr)]
  obtain ⟨hts, hne, hmean⟩ := hfix r hr
  -- the node that stands for a successor
  let ρ := fun s => (h.representative? s).getD 0
  have hρ : ∀ {s t}, h.Stands s t → ρ s = t := fun hst => by
    simp only [ρ, hst.representative?, Option.getD_some]
  have hstands : ∀ s ∈ g.successors id, ∃ t, h.Stands s t ∧ (t = r ∨ t ∈ h.successors r) ∧
      h.carry v s = v t := fun s hs => ht.carry_successor hi hr hs
  have hmap : (g.successors id).map (h.carry v) = ((g.successors id).map ρ).map v := by
    rw [List.map_map]
    apply List.map_congr_left
    intro s hs
    obtain ⟨t, hst, -, hcarry⟩ := hstands s hs
    rw [hcarry, Function.comp_apply, hρ hst]
  rw [hmap]
  refine (mean_of_representatives hts hne (hloop r) ?_ ?_ ?_ hmean).symm
  · refine hnodup.map_on ?_
    intro s hs s' hs' he
    obtain ⟨t, hst, -, -⟩ := hstands s hs
    obtain ⟨t', hst', -, -⟩ := hstands s' hs'
    rw [hρ hst, hρ hst'] at he
    exact hdistinct s hs s' hs' (by rw [hst.representative?, hst'.representative?, he])
  · intro s hs
    obtain ⟨t, hst, hedge, -⟩ := hstands s hs
    rw [hρ hst]
    exact hedge
  · intro t hedge
    obtain ⟨s, hs, hst, -⟩ := ht.exists_carry_eq (v := v) hloop hi hr hedge
    exact ⟨s, hs, hρ hst⟩

/-- **Carried values satisfy the equations of the unreduced game at every node that was
not altered.** -/
theorem fixedAt_carry (ht : Tracks g h) (hloop : ∀ a, a ∉ h.successors a) (hu : h.Uniform)
    (hv : h.Solves v) (ha : ¬ g.Altered h id) : g.correctLaw.FixedAt (h.carry v) id := by
  intro n hn x hx
  rw [node?_correctLaw, Option.map_eq_some_iff] at hn
  obtain ⟨m, hm, rfl⟩ := hn
  by_cases hs : m.isSettled = true
  · -- a settled node that was not altered is a sink
    have hl : m.label = .sink := by
      by_contra hl
      exact ha ⟨m, hm, Or.inl ⟨hs, hl⟩⟩
    have hk : g.kind? id = some (.sink, m.known) := by
      rw [kind?, face?_of_node? hm, Option.map_some, kindOf, if_pos (isSettled_iff.1 hs)]
    rw [if_neg (by simp [hl]), Node.Yields, hl] at hx
    exact ht.carry_of_settled hv (hx ▸ hk)
  · obtain ⟨hsink, hk⟩ := ht.kind?_of_not_settled hm hs
    have hi : g.Inner id := ⟨m.label, hsink, hk⟩
    have hsucc : g.successors id = m.successors := successors_of_node? hm
    cases hl : m.label with
    | sink => exact absurd hl hsink
    | max =>
      rw [if_neg (by simp [hl]), Node.Yields, hl, ← hsucc] at hx
      refine ht.carry_eq_of_player hloop hi le_antisymm ?_ hx
      intro r hr hne
      obtain ⟨n, hnl, hns, hy⟩ := ht.yields_of_player hv (Or.inl hl) hk hr hne
      rwa [Node.Yields, hnl, hl, hns] at hy
    | min =>
      rw [if_neg (by simp [hl]), Node.Yields, hl, ← hsucc] at hx
      refine ht.carry_eq_of_player (R := fun a b => b ≤ a) hloop hi
        (fun hab hba => le_antisymm hba hab) ?_ hx
      intro r hr hne
      obtain ⟨n, hnl, hns, hy⟩ := ht.yields_of_player hv (Or.inr hl) hk hr hne
      rwa [Node.Yields, hnl, hl, hns] at hy
    | average =>
      rw [if_pos hl, Node.Yields, Node.uniform_label, hl] at hx
      dsimp only at hx
      rw [Node.weightedSum_uniform, ← hsucc] at hx
      rw [← hx]
      refine ht.carry_eq_of_average hloop hi (by rw [hsucc]; exact m.succs.keys_nodup) ?_ ?_
      · intro s hs t ht' he
        by_contra hne
        rw [hsucc] at hs ht'
        exact ha ⟨m, hm, Or.inr ⟨hl, s, hs, t, ht', hne, he⟩⟩
      · intro r hr
        obtain ⟨n, hn, hnl⟩ := ht.node?_of_kind hsink hk hr
        obtain ⟨hne, hmean⟩ := hu r n hn (hnl.trans hl)
        rw [successors_of_node? hn, ← hmean]
        refine ⟨n.succs.keys_nodup, hne, ?_⟩
        refine (hv r n hn _ ?_).symm
        rw [Node.Yields, hnl, hl]

end Tracks

end Game

end StochasticGame
