import StochasticGame.Proofs.Json.Reading

/-!
# StochasticGame.Proofs.Json.Skipping

**Every value can be skipped.** Skipping a value takes exactly the value off the text, with
the spaces before it. The readers of values, elements and members call each other and carry a
limit on the number of steps that are left; they use up two at most for each character that
they take, so twice the length of the text is enough.

The proof follows the grammar: one lemma for each kind of value, and for arrays and objects an
induction on what is left between the commas.
-/

namespace StochasticGame.Json

open Reader

variable {s rest cs : List Char} {c : Char}

/-! ### Lists in brackets -/

/-- Texts that each stand after a comma, then a closing bracket. -/
def closed (close : Char) (rest : List Char) : List (List Char) → List Char
  | [] => close :: rest
  | t :: ts => ',' :: (t ++ closed close rest ts)

theorem commaSeparated_append (close : Char) (rest t : List Char) (ts : List (List Char)) :
    commaSeparated (t :: ts) ++ close :: rest = t ++ closed close rest ts := by
  induction ts generalizing t with
  | nil => rw [commaSeparated, List.intercalate_singleton, closed]
  | cons t' ts ih =>
    rw [closed, ← ih t', commaSeparated, List.intercalate_cons_cons, commaSeparated]
    simp only [List.append_assoc, List.cons_append, List.nil_append]

theorem endsValue_closed (hs : IsSpaces s) {close : Char} (hclose : close = ']' ∨ close = '}')
    (rest : List Char) (ts : List (List Char)) : EndsValue (s ++ closed close rest ts) := by
  intro c hc
  cases s with
  | cons d s => exact Or.inl (Option.some_inj.1 hc ▸ hs.isSpace d List.mem_cons_self)
  | nil =>
    cases ts with
    | nil => exact Or.inr (Or.inr (Option.some_inj.1 hc ▸ hclose))
    | cons t ts => exact Or.inr (Or.inl (Option.some_inj.1 hc).symm)

/-- The value is skipped, whatever spaces stand before it, if the limit is at least twice the
length of the text. -/
def Skips (value : List Char) : Prop :=
  ∀ {limit : Nat} {s rest : List Char}, IsSpaces s → EndsValue rest →
    2 * (value ++ rest).length ≤ limit →
      Reads (skipValue (limit + 1)) (s ++ (value ++ rest)) () rest

theorem skips_null : Skips ['n', 'u', 'l', 'l'] := fun hs _ _ =>
  (reads_peek hs (by decide)).bind (reads_literal ['n', 'u', 'l', 'l'] _)

theorem skips_true : Skips ['t', 'r', 'u', 'e'] := fun hs _ _ =>
  (reads_peek hs (by decide)).bind (reads_literal ['t', 'r', 'u', 'e'] _)

theorem skips_false : Skips ['f', 'a', 'l', 's', 'e'] := fun hs _ _ =>
  (reads_peek hs (by decide)).bind (reads_literal ['f', 'a', 'l', 's', 'e'] _)

theorem IsNumber.exists_head (h : IsNumber cs) :
    ∃ c tail, cs = c :: tail ∧ (c = '-' ∨ c.isDigit = true) := by
  cases h with
  | @parts minus whole fraction exponent hm hw hf he =>
    rcases hm with rfl | rfl
    · obtain ⟨d, ds, rfl⟩ := List.exists_cons_of_ne_nil hw.1.1
      exact ⟨d, _, rfl, Or.inr (hw.1.2 d List.mem_cons_self)⟩
    · exact ⟨'-', _, rfl, Or.inl rfl⟩

/-- A number starts like no other value. -/
theorem isSpace_of_numberHead (hc : c = '-' ∨ c.isDigit = true) : isSpace c = false := by
  rcases hc with rfl | hdigit
  · decide
  · by_contra hspace
    simp only [Bool.not_eq_false, isSpace, decide_eq_true_eq] at hspace
    rcases hspace with rfl | rfl | rfl | rfl <;> revert hdigit <;> decide

theorem skips_number (h : IsNumber cs) : Skips cs := by
  intro limit s rest hs hrest _
  obtain ⟨t, ht⟩ := exists_reads_numberText .malformed h hrest
  obtain ⟨c, tail, rfl, hc⟩ := h.exists_head
  refine (reads_peek hs (isSpace_of_numberHead hc)).bind ?_
  split
  · exact absurd hc (by decide)
  · exact absurd hc (by decide)
  · exact absurd hc (by decide)
  · exact absurd hc (by decide)
  · exact absurd hc (by decide)
  · exact absurd hc (by decide)
  · rw [if_pos hc]
    exact ht.bind (reads_pure () rest)

theorem skips_string (h : IsQuoted cs) : Skips ('"' :: (cs ++ ['"'])) := by
  intro limit s rest hs _ _
  obtain ⟨text, htext⟩ : ∃ text, Reads (string .skipped) (cs ++ '"' :: rest) text rest :=
    reads_string_skipped h
  simp only [List.cons_append, List.append_assoc, List.nil_append]
  exact (reads_peek hs (by decide)).bind
    ((reads_advance '"' _).bind (htext.bind (reads_pure () rest)))

theorem skips_emptyArray (hspaces : IsSpaces cs) : Skips ('[' :: (cs ++ [']'])) := by
  intro limit s rest hs _ _
  simp only [List.cons_append, List.append_assoc, List.nil_append]
  refine (reads_peek hs (by decide)).bind ((reads_advance '[' _).bind ?_)
  refine (reads_peek hspaces (by decide)).bind ?_
  rw [if_pos rfl]
  exact reads_advance ']' rest

theorem skips_emptyObject (hspaces : IsSpaces cs) : Skips ('{' :: (cs ++ ['}'])) := by
  intro limit s rest hs _ _
  simp only [List.cons_append, List.append_assoc, List.nil_append]
  refine (reads_peek hs (by decide)).bind ((reads_advance '{' _).bind ?_)
  refine (reads_peek hspaces (by decide)).bind ?_
  rw [if_pos rfl]
  exact reads_advance '}' rest

variable {limit : Nat} {close : Char} {texts : List (List Char)}

theorem Element.text_append (e : Element) (rest : List Char) :
    e.text ++ rest = e.before ++ (e.value ++ (e.after ++ rest)) := by
  simp only [text, List.append_assoc]

theorem Member.text_append (m : Member) (rest : List Char) :
    m.text ++ rest = m.beforeKey ++
      '"' :: (m.key ++ '"' :: (m.afterKey ++ ':' :: (m.toElement.text ++ rest))) := by
  simp only [text, List.append_assoc, List.cons_append]

/-- The value of an element is skipped up to the spaces behind it. -/
theorem Element.reads_skipValue {e : Element} (hs : e.Spaced) (hv : Skips e.value)
    (hclose : close = ']' ∨ close = '}')
    (hlimit : 2 * (e.text ++ closed close rest texts).length < limit) :
    Reads (skipValue limit) (e.text ++ closed close rest texts) ()
      (e.after ++ closed close rest texts) := by
  obtain ⟨limit, rfl⟩ := Nat.exists_eq_add_one_of_ne_zero (Nat.ne_zero_of_lt hlimit)
  rw [e.text_append] at hlimit ⊢
  refine hv hs.1 (endsValue_closed hs.2 hclose rest texts) ?_
  rw [List.length_append] at hlimit
  omega

theorem reads_skipElements {elements : List Element} {e : Element}
    (hs : ∀ x ∈ e :: elements, x.Spaced) (hv : ∀ x ∈ e :: elements, Skips x.value)
    (hlimit : 2 * (e.text ++ closed ']' rest (elements.map Element.text)).length < limit) :
    Reads (skipElements (limit + 1)) (e.text ++ closed ']' rest (elements.map Element.text)) ()
      rest := by
  induction elements generalizing e limit with
  | nil =>
    have hspaced := hs e List.mem_cons_self
    refine (e.reads_skipValue hspaced (hv e List.mem_cons_self) (Or.inl rfl) hlimit).bind ?_
    exact (reads_peek hspaced.2 (by decide)).bind (reads_advance ']' rest)
  | cons e' elements ih =>
    have hspaced := hs e List.mem_cons_self
    refine (e.reads_skipValue hspaced (hv e List.mem_cons_self) (Or.inl rfl) hlimit).bind ?_
    refine (reads_peek hspaced.2 (by decide)).bind ((reads_advance ',' _).bind ?_)
    obtain ⟨limit, rfl⟩ := Nat.exists_eq_add_one_of_ne_zero (Nat.ne_zero_of_lt hlimit)
    refine ih (fun x hx => hs x (List.mem_cons_of_mem e hx))
      (fun x hx => hv x (List.mem_cons_of_mem e hx)) ?_
    simp only [List.map_cons, closed, List.length_append, List.length_cons] at hlimit ⊢
    omega

/-- A member is skipped with its key. -/
theorem Member.reads_skip {m : Member} {next : Reader Unit} (hs : m.Spaced) (hk : IsQuoted m.key)
    (hv : Skips m.value) (hlimit : 2 * (m.text ++ closed '}' rest texts).length < limit)
    (hnext : Reads next (m.after ++ closed '}' rest texts) () rest) :
    Reads (do expect '"'; let _ ← string .skipped; expect ':'; skipValue limit; next)
      (m.text ++ closed '}' rest texts) () rest := by
  rw [m.text_append] at hlimit ⊢
  obtain ⟨text, htext⟩ := reads_string_skipped hk
  refine (reads_expect hs.1 (by decide)).bind (htext.bind ?_)
  refine (reads_expect hs.2.1 (by decide)).bind ?_
  refine (m.toElement.reads_skipValue hs.2.2 hv (Or.inr rfl) ?_).bind hnext
  simp only [List.length_append, List.length_cons] at hlimit ⊢
  omega

theorem reads_skipMembers {members : List Member} {m : Member}
    (hs : ∀ x ∈ m :: members, x.Spaced) (hk : ∀ x ∈ m :: members, IsQuoted x.key)
    (hv : ∀ x ∈ m :: members, Skips x.value)
    (hlimit : 2 * (m.text ++ closed '}' rest (members.map Member.text)).length < limit) :
    Reads (skipMembers (limit + 1)) (m.text ++ closed '}' rest (members.map Member.text)) ()
      rest := by
  induction members generalizing m limit with
  | nil =>
    have hspaced := hs m List.mem_cons_self
    refine Member.reads_skip hspaced (hk m List.mem_cons_self) (hv m List.mem_cons_self) hlimit ?_
    exact (reads_peek hspaced.2.2.2 (by decide)).bind (reads_advance '}' rest)
  | cons m' members ih =>
    have hspaced := hs m List.mem_cons_self
    refine Member.reads_skip hspaced (hk m List.mem_cons_self) (hv m List.mem_cons_self) hlimit ?_
    refine (reads_peek hspaced.2.2.2 (by decide)).bind ((reads_advance ',' _).bind ?_)
    obtain ⟨limit, rfl⟩ := Nat.exists_eq_add_one_of_ne_zero (Nat.ne_zero_of_lt hlimit)
    refine ih (fun x hx => hs x (List.mem_cons_of_mem m hx))
      (fun x hx => hk x (List.mem_cons_of_mem m hx))
      (fun x hx => hv x (List.mem_cons_of_mem m hx)) ?_
    simp only [List.map_cons, closed, List.length_append, List.length_cons] at hlimit ⊢
    omega

/-- A value starts with a character that neither is a space nor closes an array. -/
theorem IsValue.exists_head (h : IsValue cs) :
    ∃ c tail, cs = c :: tail ∧ isSpace c = false ∧ c ≠ ']' := by
  cases h with
  | number h =>
    obtain ⟨c, tail, rfl, hc⟩ := h.exists_head
    refine ⟨c, tail, rfl, isSpace_of_numberHead hc, ?_⟩
    rintro rfl
    exact absurd hc (by decide)
  | _ => exact ⟨_, _, rfl, by decide, by decide⟩

theorem skips_array {elements : List Element} (hne : elements ≠ [])
    (hs : ∀ e ∈ elements, e.Spaced) (hvalue : ∀ e ∈ elements, IsValue e.value)
    (hv : ∀ e ∈ elements, Skips e.value) :
    Skips ('[' :: (commaSeparated (elements.map Element.text) ++ [']'])) := by
  intro limit s rest hspaces _ hlimit
  obtain ⟨e, elements, rfl⟩ := List.exists_cons_of_ne_nil hne
  obtain ⟨c, tail, hc, hspace, hclose⟩ := (hvalue e List.mem_cons_self).exists_head
  simp only [List.cons_append, List.append_assoc, List.map_cons, List.nil_append] at hlimit ⊢
  rw [commaSeparated_append, e.text_append] at hlimit ⊢
  refine (reads_peek hspaces (by decide)).bind ((reads_advance '[' _).bind ?_)
  have hpeek : Reads peek
      (e.before ++ (e.value ++ (e.after ++ closed ']' rest (elements.map Element.text)))) c
      (e.value ++ (e.after ++ closed ']' rest (elements.map Element.text))) := by
    rw [hc]
    exact reads_peek (hs e List.mem_cons_self).1 hspace
  refine hpeek.bind ?_
  rw [if_neg hclose]
  -- looking for the closing bracket has dropped the spaces before the first element
  have hbare : ∀ x ∈ ({ e with before := [] } : Element) :: elements, x.Spaced ∧ Skips x.value := by
    intro x hx
    rcases List.mem_cons.1 hx with rfl | hx
    · exact ⟨⟨isSpaces_nil, (hs e List.mem_cons_self).2⟩, hv e List.mem_cons_self⟩
    · exact ⟨hs x (List.mem_cons_of_mem e hx), hv x (List.mem_cons_of_mem e hx)⟩
  simp only [List.length_cons, List.length_append] at hlimit
  obtain ⟨limit, rfl⟩ : ∃ l, limit = l + 1 := Nat.exists_eq_add_one_of_ne_zero (by omega)
  have hread : Reads (skipElements (limit + 1))
      (({ e with before := [] } : Element).text ++ closed ']' rest (elements.map Element.text)) ()
      rest := by
    refine reads_skipElements (fun x hx => (hbare x hx).1) (fun x hx => (hbare x hx).2) ?_
    rw [Element.text_append]
    simp only [List.length_append, List.nil_append]
    omega
  rwa [Element.text_append] at hread

theorem skips_object {members : List Member} (hne : members ≠ [])
    (hs : ∀ m ∈ members, m.Spaced) (hk : ∀ m ∈ members, IsQuoted m.key)
    (hv : ∀ m ∈ members, Skips m.value) :
    Skips ('{' :: (commaSeparated (members.map Member.text) ++ ['}'])) := by
  intro limit s rest hspaces _ hlimit
  obtain ⟨m, members, rfl⟩ := List.exists_cons_of_ne_nil hne
  have hm := hs m List.mem_cons_self
  simp only [List.cons_append, List.append_assoc, List.map_cons, List.nil_append] at hlimit ⊢
  rw [commaSeparated_append, m.text_append] at hlimit ⊢
  refine (reads_peek hspaces (by decide)).bind ((reads_advance '{' _).bind ?_)
  refine (reads_peek hm.1 (by decide)).bind ?_
  rw [if_neg (by decide)]
  -- looking for the closing bracket has dropped the spaces before the first key
  have hbare : ∀ x ∈ ({ m with beforeKey := [] } : Member) :: members,
      x.Spaced ∧ IsQuoted x.key ∧ Skips x.value := by
    intro x hx
    rcases List.mem_cons.1 hx with rfl | hx
    · exact ⟨⟨isSpaces_nil, hm.2⟩, hk m List.mem_cons_self, hv m List.mem_cons_self⟩
    · have hmem := List.mem_cons_of_mem m hx
      exact ⟨hs x hmem, hk x hmem, hv x hmem⟩
  simp only [List.length_cons, List.length_append] at hlimit
  obtain ⟨limit, rfl⟩ : ∃ l, limit = l + 1 := Nat.exists_eq_add_one_of_ne_zero (by omega)
  have hread : Reads (skipMembers (limit + 1))
      (({ m with beforeKey := [] } : Member).text ++ closed '}' rest (members.map Member.text)) ()
      rest := by
    refine reads_skipMembers (fun x hx => (hbare x hx).1) (fun x hx => (hbare x hx).2.1)
      (fun x hx => (hbare x hx).2.2) ?_
    rw [Member.text_append]
    simp only [List.length_append, List.length_cons, List.nil_append]
    omega
  rwa [Member.text_append] at hread

/-- **Every value is skipped.** -/
theorem IsValue.skips (h : IsValue cs) : Skips cs := by
  induction h with
  | null => exact skips_null
  | isTrue => exact skips_true
  | isFalse => exact skips_false
  | number h => exact skips_number h
  | string h => exact skips_string h
  | emptyArray hs => exact skips_emptyArray hs
  | array hne hs hvalue ih => exact skips_array hne hs hvalue ih
  | emptyObject hs => exact skips_emptyObject hs
  | object hne hs hk _ ih => exact skips_object hne hs hk ih

theorem reads_skip (h : IsValue cs) (hs : IsSpaces s) (hrest : EndsValue rest) :
    Reads skip (s ++ (cs ++ rest)) () rest := by
  have hget : Reads get (s ++ (cs ++ rest)) (s ++ (cs ++ rest)) (s ++ (cs ++ rest)) := rfl
  refine hget.bind (h.skips hs hrest ?_)
  simp only [List.length_append]
  omega

end StochasticGame.Json
