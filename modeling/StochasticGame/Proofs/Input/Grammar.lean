import Mathlib.Data.List.Forall2
import StochasticGame.Proofs.Approximation.Table
import StochasticGame.Proofs.Input.Modelled
import StochasticGame.Proofs.Text.Spelling

/-!
# StochasticGame.Proofs.Input.Grammar

**The grammar of transition lines.** A line is a state and then groups, each of which is one
choice:

    line   ::= state group*
    group  ::= marker one state  |  marker (probability state)*

where the first probability of a group is not 1, and words are separated by characters of
`Text.whiteSpace`. The three classes of words overlap:
markers are decimals, and so are states. What matters is that no state is a marker, and no
decimal that is 1 (`StateWord.not_marker`, `not_marker_of_one`), so a group ends where the
next marker stands and the groups of a line can be told apart (`eq_of_flatten_eq`).

The reader goes through a line from left to right. What it does inside a group depends on
the words of that group only (`readGroups_inside_append`).
-/

namespace StochasticGame.Input

open Text

variable {line state : Nat} {word target marker : List Char} {p : Rat}
  {body rest ws : List (List Char)} {pairs acc : List (Rat × Nat)} {choices : List Choice}
  {groups groups' : List (List (List Char))}

/-! ### Words of a line -/

/-- A decimal that double precision rounds to -1. -/
def Marker (word : List Char) : Prop :=
  ∃ d : Decimal, Decimal.Spells word d ∧ -1 - 1 / 2 ^ 53 ≤ d.value ∧ d.value ≤ -1 + 1 / 2 ^ 54

/-- An integer of 63 bits, possibly followed by a point and zeros. -/
def StateWord (word : List Char) (state : Nat) : Prop :=
  ∃ whole tail, word = whole ++ tail ∧ SpellsInteger whole state ∧ state < 2 ^ 63 ∧
    (tail = [] ∨ ∃ k, tail = '.' :: List.replicate k '0')

/-- A decimal, and the best fraction for it with a denominator up to 10. -/
def ProbabilityWord (word : List Char) (p : Rat) : Prop :=
  ∃ x, decimal? word = some x ∧ ∃ f : Fraction, f.IsBest x 10 ∧ p = f.toRat

theorem isMarker_iff : isMarker word = true ↔ Marker word := by
  rw [isMarker, Option.any_eq_true]
  exact exists_congr fun d => and_congr Decimal.read?_eq_some_iff Decimal.roundsToMinusOne_iff

theorem readState_eq_ok_iff : readState line word = .ok state ↔ StateWord word state := by
  have hfits : fitsSigned 64 state = true ↔ state < 2 ^ 63 := by
    simp only [fitsSigned, Nat.pow_eq, decide_eq_true_eq]
    omega
  have hread : readState line word = .ok state ↔ integral? word = some (.ofNat state) := by
    unfold readState
    split
    · rename_i n hn
      simp [hn]
    · rename_i hn
      simp only [reduceCtorEq, false_iff]
      exact hn state
  rw [hread, integral?_eq_some_iff]
  exact exists₂_congr fun whole tail => and_congr_right fun _ => and_congr_right fun _ =>
    and_congr_left fun _ => hfits

theorem readProbability_eq_ok_iff : readProbability line word = .ok p ↔ ProbabilityWord word p := by
  unfold readProbability ProbabilityWord
  cases decimal? word with
  | none => simp
  | some x =>
    obtain ⟨f, hf, hbest⟩ := exists_isBest x probabilityDenominator
    simp only [Except.ok.injEq, Option.some.injEq, exists_eq_left', hf]
    constructor
    · intro h
      exact ⟨f, hbest, h.symm⟩
    · intro h
      obtain ⟨f', hbest', rfl⟩ := h
      rw [hbest.unique hbest']

/-- A marker is negative. -/
theorem Marker.value_neg (h : Marker word) :
    ∃ d : Decimal, Decimal.read? word = some d ∧ d.value < 0 := by
  obtain ⟨d, hspells, -, hhi⟩ := h
  refine ⟨d, Decimal.read?_eq_some_iff.2 hspells, ?_⟩
  norm_num at hhi
  linarith

theorem not_marker_of_one (h : decimal? word = some 1) : ¬ Marker word := by
  intro hm
  obtain ⟨d, hd, hneg⟩ := hm.value_neg
  obtain ⟨d', hspells, -, hvalue⟩ := decimal?_eq_some_iff.1 h
  obtain rfl := Option.some_inj.1 (hd.symm.trans (Decimal.read?_eq_some_iff.2 hspells))
  linarith

/-- A state is a decimal, with the zeros as its places. -/
theorem StateWord.spells (h : StateWord word state) : ∃ negative k,
    Decimal.Spells word ⟨negative, 10 ^ k * state, k, 0⟩ ∧ (negative = true → state = 0) := by
  obtain ⟨whole, tail, rfl, hspells, -, htail⟩ := h
  generalize hz : (state : Int) = z at hspells
  cases hspells with
  | @signed sign digits negative hsign hdigits =>
    obtain ⟨k, hpoint⟩ : ∃ k, SpellsPoint (digits ++ tail) digits (List.replicate k '0') := by
      cases htail with
      | inl hnil =>
        rw [hnil, List.append_nil]
        exact ⟨0, .absent digits⟩
      | inr hzeros =>
        obtain ⟨k, rfl⟩ := hzeros
        exact ⟨k, .point digits _⟩
    have hall : IsDigits (digits ++ List.replicate k '0') := by
      refine ⟨by simp [hdigits.1], ?_⟩
      intro c hc
      cases List.mem_append.1 hc with
      | inl hd => exact hdigits.2 c hd
      | inr hr => exact List.eq_of_mem_replicate hr ▸ by decide
    have hstate : state = Nat.ofDigitChars 10 digits 0 ∧ (negative = true → state = 0) := by
      cases negative with
      | true =>
        rw [if_pos rfl] at hz
        omega
      | false =>
        rw [if_neg (by decide)] at hz
        exact ⟨Int.ofNat_inj.1 hz, fun he => nomatch he⟩
    have hparts := Decimal.Spells.parts hsign hpoint hall .absent
    -- every zero is a factor of ten
    rw [Nat.ofDigitChars_append, Nat.ofDigitChars_replicate_zero, List.length_replicate,
      ← hstate.1, List.append_nil] at hparts
    rw [List.append_assoc]
    exact ⟨negative, k, hparts, hstate.2⟩

/-- No state is a marker, not even one with a minus sign. -/
theorem StateWord.not_marker (h : StateWord word state) : ¬ Marker word := by
  intro hm
  obtain ⟨d, hd, hvalue⟩ := hm.value_neg
  obtain ⟨negative, k, hspells, hzero⟩ := h.spells
  obtain rfl := Option.some_inj.1 (hd.symm.trans (Decimal.read?_eq_some_iff.2 hspells))
  rw [Decimal.value_eq] at hvalue
  cases negative with
  | true => simp [hzero rfl] at hvalue
  | false =>
    simp only [Bool.false_eq_true, if_false, one_mul] at hvalue
    exact absurd hvalue (not_lt.2 (by positivity))

/-! ### Groups -/

/-- Pairs of a probability that is no marker and a state. -/
inductive Pairs : List (List Char) → List (Rat × Nat) → Prop where
  /-- There are no more. -/
  | nil : Pairs [] []
  /-- One pair and the others. -/
  | cons {word target : List Char} {p : Rat} {state : Nat} {ws : List (List Char)}
    {pairs : List (Rat × Nat)} (hword : ¬ Marker word) (hp : ProbabilityWord word p)
    (hstate : StateWord target state) (rest : Pairs ws pairs) :
    Pairs (word :: target :: ws) ((p, state) :: pairs)

/-- The words of a choice. -/
inductive Group : List (List Char) → Choice → Prop where
  /-- A marker, a decimal that is 1, and a state. -/
  | sure {marker word target : List Char} {state : Nat} (hmarker : Marker marker)
    (hone : decimal? word = some 1) (hstate : StateWord target state) :
    Group [marker, word, target] (.sure state)
  /-- A marker and any number of pairs, of which the first does not start with 1. -/
  | random {marker : List Char} {ws : List (List Char)} {pairs : List (Rat × Nat)}
    (hmarker : Marker marker) (hpairs : Pairs ws pairs)
    (hfirst : ∀ word, ws.head? = some word → decimal? word ≠ some 1) :
    Group (marker :: ws) (.random pairs)

/-- Words as a state and groups, and what these mean. -/
structure LineReading (ws : List (List Char)) (groups : List (List (List Char)))
    (t : Transition) : Prop where
  /-- The first word is the state, and the others are those of the groups. -/
  state : ∃ word, ws = word :: groups.flatten ∧ StateWord word t.state
  /-- Each group is a choice. -/
  choices : List.Forall₂ Group groups t.choices

theorem Pairs.not_marker (h : Pairs ws pairs) : ∀ w ∈ ws, ¬ Marker w := by
  induction h with
  | nil => simp
  | cons hword _ hstate _ ih =>
    exact List.forall_mem_cons.2 ⟨hword, List.forall_mem_cons.2 ⟨hstate.not_marker, ih⟩⟩

/-- A marker stands at the start of a group and nowhere else. -/
theorem Group.exists_marker {group : List (List Char)} {choice : Choice} (h : Group group choice) :
    ∃ marker body, group = marker :: body ∧ Marker marker ∧ ∀ w ∈ body, ¬ Marker w := by
  cases h with
  | @sure marker word target state hmarker hone hstate =>
    refine ⟨marker, [word, target], rfl, hmarker, ?_⟩
    exact List.forall_mem_cons.2 ⟨not_marker_of_one hone,
      List.forall_mem_cons.2 ⟨hstate.not_marker, by simp⟩⟩
  | @random marker ws pairs hmarker hpairs hfirst =>
    exact ⟨marker, ws, rfl, hmarker, hpairs.not_marker⟩

theorem marker_of_head?_flatten (h : List.Forall₂ Group groups choices)
    (hword : groups.flatten.head? = some word) : Marker word := by
  cases h with
  | nil => cases hword
  | cons hgroup _ =>
    obtain ⟨marker, body, rfl, hmarker, -⟩ := hgroup.exists_marker
    obtain rfl := Option.some_inj.1 hword
    exact hmarker

/-- **There is one way to take a line apart into groups.** -/
theorem eq_of_flatten_eq {choices' : List Choice} (h : List.Forall₂ Group groups choices)
    (h' : List.Forall₂ Group groups' choices') (he : groups.flatten = groups'.flatten) :
    groups = groups' := by
  -- a group goes on as long as there is no marker
  have htake : ∀ {body : List (List Char)} {gs : List (List (List Char))} {cs : List Choice},
      (∀ w ∈ body, ¬ Marker w) → List.Forall₂ Group gs cs →
        (body ++ gs.flatten).takeWhile (!isMarker ·) = body := by
    intro body gs cs hbody hgs
    have hpass : ∀ w ∈ body, (!isMarker w) = true := by
      intro w hw
      rw [Bool.not_eq_true', Bool.eq_false_iff]
      exact fun hm => hbody w hw (isMarker_iff.1 hm)
    rw [List.takeWhile_append_of_pos hpass]
    cases hflat : gs.flatten with
    | nil => simp
    | cons w rest =>
      have hw : Marker w := marker_of_head?_flatten hgs (by rw [hflat]; rfl)
      simp [isMarker_iff.2 hw]
  induction h generalizing groups' choices' with
  | nil =>
    cases h' with
    | nil => rfl
    | cons hgroup _ =>
      obtain ⟨marker, body, rfl, -⟩ := hgroup.exists_marker
      cases he
  | cons hgroup hrest ih =>
    obtain ⟨marker, body, rfl, -, hbody⟩ := hgroup.exists_marker
    cases h' with
    | nil => cases he
    | cons hgroup' hrest' =>
      obtain ⟨marker', body', rfl, -, hbody'⟩ := hgroup'.exists_marker
      simp only [List.flatten_cons, List.cons_append, List.cons.injEq] at he
      obtain ⟨rfl, he⟩ := he
      have hsame := congrArg (List.takeWhile (!isMarker ·)) he
      rw [htake hbody hrest, htake hbody' hrest'] at hsame
      obtain rfl := hsame
      rw [ih hrest' (List.append_cancel_left he)]

/-! ### The reader -/

theorem readGroups_between_cons (h : Marker marker) :
    readGroups line .between (marker :: rest) = readGroups line .opened rest := by
  rw [readGroups, if_pos (isMarker_iff.2 h)]

theorem marker_of_readGroups (h : readGroups line .between (word :: rest) = .ok choices) :
    Marker word := by
  rw [readGroups] at h
  split at h
  · rename_i hm
    exact isMarker_iff.1 hm
  · cases h

/-- Unless the first word is 1, a group that has been opened is a random choice. -/
theorem readGroups_opened (h : ∀ word, ws.head? = some word → decimal? word ≠ some 1) :
    readGroups line .opened ws = readGroups line (.inside []) ws := by
  cases ws with
  | nil => rfl
  | cons word rest =>
    unfold readGroups
    rw [if_neg (h word rfl)]
    rfl

/-- If it is 1, the group is a sure move. -/
theorem readGroups_opened_one (h : decimal? word = some 1) :
    readGroups line .opened (word :: target :: rest) = (do
      let state ← readState line target
      let choices ← readGroups line .between rest
      pure (.sure state :: choices)) := by
  conv_lhs => unfold readGroups
  rw [if_pos h]

/-- Pairs are added to a random choice, whatever follows them. -/
theorem readGroups_inside_append (h : Pairs body pairs) (acc : List (Rat × Nat)) :
    readGroups line (.inside acc) (body ++ rest) =
      readGroups line (.inside (acc ++ pairs)) rest := by
  induction h generalizing acc with
  | nil => rw [List.nil_append, List.append_nil]
  | @cons word target p state ws pairs hword hp hstate _ ih =>
    rw [List.cons_append, List.cons_append, readGroups,
      if_neg (fun hm => hword (isMarker_iff.1 hm)), readProbability_eq_ok_iff.2 hp]
    have hread : readState line target = .ok state := readState_eq_ok_iff.2 hstate
    simp only [hread, bind, Except.bind]
    rw [ih, List.append_assoc]
    rfl

/-- A random choice ends where the next group starts. -/
theorem readGroups_inside_of_between (h : readGroups line .between rest = .ok choices)
    (acc : List (Rat × Nat)) :
    readGroups line (.inside acc) rest = .ok (.random acc :: choices) := by
  cases rest with
  | nil =>
    obtain rfl := Except.ok.inj h
    rfl
  | cons word rest =>
    have hm := marker_of_readGroups h
    rw [readGroups_between_cons hm] at h
    rw [readGroups, if_pos (isMarker_iff.2 hm), h]
    rfl

/-- What is read inside a random choice is pairs, and then groups. -/
theorem exists_pairs_of_readGroups (h : readGroups line (.inside acc) ws = .ok choices) :
    ∃ body rest pairs tail, ws = body ++ rest ∧ Pairs body pairs ∧
      readGroups line .between rest = .ok tail ∧ choices = .random (acc ++ pairs) :: tail := by
  -- a step takes two words
  induction hn : ws.length using Nat.strongRecOn generalizing ws acc with
  | _ n ih =>
    cases ws with
    | nil =>
      obtain rfl := Except.ok.inj h
      exact ⟨[], [], [], [], rfl, .nil, rfl, by rw [List.append_nil]; rfl⟩
    | cons word rest =>
      by_cases hm : Marker word
      · rw [readGroups, if_pos (isMarker_iff.2 hm), bind_eq_ok_iff] at h
        obtain ⟨tail, htail, h⟩ := h
        obtain rfl := Except.ok.inj h
        refine ⟨[], word :: rest, [], tail, rfl, .nil, ?_, by rw [List.append_nil]⟩
        rw [readGroups_between_cons hm, htail]
      · rw [readGroups, if_neg (fun hi => hm (isMarker_iff.1 hi)), bind_eq_ok_iff] at h
        obtain ⟨p, hp, h⟩ := h
        cases rest with
        | nil => cases h
        | cons target rest =>
          rw [bind_eq_ok_iff] at h
          obtain ⟨state, hstate, h⟩ := h
          obtain ⟨body, rest', pairs, tail, rfl, hpairs, htail, rfl⟩ :=
            ih rest.length (by rw [← hn]; simp only [List.length_cons]; omega) h rfl
          refine ⟨word :: target :: body, rest', (p, state) :: pairs, tail, rfl, ?_, htail, ?_⟩
          · exact .cons hm (readProbability_eq_ok_iff.1 hp) (readState_eq_ok_iff.1 hstate) hpairs
          · rw [List.append_assoc]
            rfl

theorem readGroups_of_forall₂ (h : List.Forall₂ Group groups choices) :
    readGroups line .between groups.flatten = .ok choices := by
  induction h with
  | nil => rfl
  | @cons group choice groups choices hgroup hrest ih =>
    cases hgroup with
    | @sure marker word target state hmarker hone hstate =>
      rw [List.flatten_cons, List.cons_append, readGroups_between_cons hmarker, List.cons_append,
        List.cons_append, List.nil_append, readGroups_opened_one hone,
        readState_eq_ok_iff.2 hstate, ih]
      rfl
    | @random marker ws pairs hmarker hpairs hfirst =>
      have hopened : ∀ word, (ws ++ groups.flatten).head? = some word → decimal? word ≠ some 1 := by
        intro word hword hone
        cases ws with
        | nil => exact not_marker_of_one hone (marker_of_head?_flatten hrest hword)
        | cons first ws => exact hfirst word hword hone
      rw [List.flatten_cons, List.cons_append, readGroups_between_cons hmarker,
        readGroups_opened hopened, readGroups_inside_append hpairs, List.nil_append]
      exact readGroups_inside_of_between ih pairs

theorem exists_forall₂_of_readGroups (h : readGroups line .between ws = .ok choices) :
    ∃ groups, ws = groups.flatten ∧ List.Forall₂ Group groups choices := by
  -- a step takes a group
  induction hn : ws.length using Nat.strongRecOn generalizing ws choices with
  | _ n ih =>
    cases ws with
    | nil =>
      obtain rfl := Except.ok.inj h
      exact ⟨[], rfl, .nil⟩
    | cons marker ws =>
      have hm := marker_of_readGroups h
      rw [readGroups_between_cons hm] at h
      by_cases hfirst : ∀ word, ws.head? = some word → decimal? word ≠ some 1
      · rw [readGroups_opened hfirst] at h
        obtain ⟨body, rest, pairs, tail, rfl, hpairs, htail, rfl⟩ := exists_pairs_of_readGroups h
        obtain ⟨groups, rfl, hgroups⟩ :=
          ih rest.length (by rw [← hn]; simp only [List.length_cons, List.length_append]; omega)
            htail rfl
        refine ⟨(marker :: body) :: groups, by simp, .cons (.random hm hpairs ?_) hgroups⟩
        intro word hword
        exact hfirst word (by simp [List.head?_append, hword])
      · push Not at hfirst
        obtain ⟨word, hword, hone⟩ := hfirst
        obtain ⟨ws, rfl⟩ := List.head?_eq_some_iff.1 hword
        cases ws with
        | nil =>
          unfold readGroups at h
          rw [if_pos hone] at h
          cases h
        | cons target rest =>
          simp only [readGroups_opened_one hone, bind_eq_ok_iff] at h
          obtain ⟨state, hstate, tail, htail, h⟩ := h
          obtain rfl := Except.ok.inj h
          obtain ⟨groups, rfl, hgroups⟩ :=
            ih rest.length (by rw [← hn]; simp only [List.length_cons]; omega) htail rfl
          exact ⟨[marker, word, target] :: groups, rfl,
            .cons (.sure hm hone (readState_eq_ok_iff.1 hstate)) hgroups⟩

/-- **The reader accepts the lines of the grammar and no others.** -/
theorem readTransitionLine_eq_ok_some_iff {text : List Char} {t : Transition} :
    readTransitionLine line text = .ok (some t) ↔ ∃ groups, LineReading (words text) groups t := by
  unfold readTransitionLine
  cases words text with
  | nil =>
    constructor
    · intro h
      cases h
    · intro h
      obtain ⟨groups, ⟨word, hword, -⟩, -⟩ := h
      cases hword
  | cons first rest =>
    dsimp only
    rw [bind_eq_ok_iff]
    constructor
    · intro h
      obtain ⟨state, hstate, h⟩ := h
      obtain ⟨choices, hchoices, h⟩ := bind_eq_ok_iff.1 h
      obtain rfl := Option.some_inj.1 (Except.ok.inj h)
      obtain ⟨groups, rfl, hgroups⟩ := exists_forall₂_of_readGroups hchoices
      exact ⟨groups, ⟨first, rfl, readState_eq_ok_iff.1 hstate⟩, hgroups⟩
    · intro h
      obtain ⟨groups, ⟨word, hword, hstate⟩, hchoices⟩ := h
      obtain ⟨rfl, rfl⟩ := List.cons.inj hword
      refine ⟨t.state, readState_eq_ok_iff.2 hstate, ?_⟩
      exact bind_eq_ok_iff.2 ⟨t.choices, readGroups_of_forall₂ hchoices, rfl⟩

theorem readTransitionLine_eq_ok_none_iff {text : List Char} :
    readTransitionLine line text = .ok none ↔ words text = [] := by
  unfold readTransitionLine
  cases words text with
  | nil => simp
  | cons first rest =>
    simp only [bind_eq_ok_iff, reduceCtorEq, iff_false]
    intro h
    obtain ⟨state, -, choices, -, h⟩ := h
    cases h

/-- **Transition lines follow their grammar.** A line is accepted exactly if its words, the
parts between white space that are not empty, are a state and groups. The transition is what
they mean. No line can be read in two ways, neither into other groups nor with another meaning. A
line without words says nothing, and any other line is an error. -/
theorem transition_lines_follow_grammar (line : Nat) (text : List Char) :
    (∀ t, readTransitionLine line text = .ok (some t) ↔
        ∃ groups, LineReading ((text.splitOnP (· ∈ whiteSpace)).filter (· ≠ [])) groups t) ∧
      (∀ groups t groups' t',
        LineReading ((text.splitOnP (· ∈ whiteSpace)).filter (· ≠ [])) groups t →
        LineReading ((text.splitOnP (· ∈ whiteSpace)).filter (· ≠ [])) groups' t' →
        groups' = groups ∧ t' = t) ∧
      (readTransitionLine line text = .ok none ↔
        (text.splitOnP (· ∈ whiteSpace)).filter (· ≠ []) = []) ∧
      ((∃ e, readTransitionLine line text = .error e) ↔
        (text.splitOnP (· ∈ whiteSpace)).filter (· ≠ []) ≠ [] ∧
          ¬ ∃ groups t,
            LineReading ((text.splitOnP (· ∈ whiteSpace)).filter (· ≠ [])) groups t) := by
  rw [← words_eq_splitOnP]
  have hsome := @readTransitionLine_eq_ok_some_iff line text
  have hnone := @readTransitionLine_eq_ok_none_iff line text
  refine ⟨fun t => hsome, ?_, hnone, ?_⟩
  · intro groups t groups' t' h h'
    obtain ⟨⟨word, hword, -⟩, hchoices⟩ := id h
    obtain ⟨⟨word', hword', -⟩, hchoices'⟩ := id h'
    rw [hword] at hword'
    obtain ⟨-, hflatten⟩ := List.cons.inj hword'
    refine ⟨(eq_of_flatten_eq hchoices hchoices' hflatten).symm, ?_⟩
    have hread := hsome.2 ⟨groups, h⟩
    rw [hsome.2 ⟨groups', h'⟩] at hread
    exact Option.some_inj.1 (Except.ok.inj hread)
  · rw [exists_comm, ne_eq, ← hnone]
    simp only [← hsome]
    cases readTransitionLine line text with
    | error e => simp
    | ok entry => cases entry <;> simp

/-- States and markers may be spelled in many ways, and a state may have a minus. -/
example : readTransitionLine 1 "7.0 -1 1 4 -1.0 0.333 5 6e-1 -0 -10e-1".toList =
    .ok (some ⟨7, [.sure 4, .random [(1 / 3, 5), (3 / 5, 0)], .random []]⟩) := by decide +kernel

end StochasticGame.Input
