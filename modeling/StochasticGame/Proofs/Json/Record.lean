import Mathlib.Data.List.Nodup
import Mathlib.Data.List.ReduceOption
import StochasticGame.Json.Record
import StochasticGame.Proofs.Json.Typed

/-!
# StochasticGame.Proofs.Json.Record

**Records are read member by member.** A record is written as an object whose members set
fields or have other names. `RecordText` is the grammar of such objects: for given names and
spellings of the fields' values, it says which fields an object lists, and in which order.

Reading one from the defaults changes the listed fields, each as its value says, and skips
everything else (`RecordText.reads`). It does not matter in which order the fields stand, as
long as none is listed twice.
-/

namespace StochasticGame.Json

open Reader

variable {ι σ : Type} {s rest cs : List Char}

/-! ### Members -/

/-- What a member says: a field and its value, or something of another name. A name is a string
of characters; a key whose escapes leave half of a pair alone spells none. -/
inductive Says (name : ι → String) (spells : ι → List Char → Prop) : Member → Option ι → Prop where
  /-- The member sets a field. -/
  | field {m : Member} {i : ι} (hkey : Spells m.key (name i).toList) (hvalue : spells i m.value) :
    Says name spells m (some i)
  /-- The member has a name that no field has, and any value. -/
  | other {m : Member} {key : String} (hkey : Spells m.key key.toList)
    (hother : ∀ i, name i ≠ key) (hvalue : IsValue m.value) : Says name spells m none

/-- An object with its members, and the fields that it lists in their order. -/
inductive RecordText (name : ι → String) (spells : ι → List Char → Prop) :
    List ι → List Char → Prop where
  /-- An object without members. -/
  | empty {spaces : List Char} (hs : IsSpaces spaces) :
    RecordText name spells [] ('{' :: (spaces ++ ['}']))
  /-- An object with members. -/
  | members {ms : List Member} {said : List (Option ι)} (hne : ms ≠ [])
    (hs : ∀ m ∈ ms, m.Spaced) (hsaid : List.Forall₂ (Says name spells) ms said) :
    RecordText name spells said.reduceOption
      ('{' :: (commaSeparated (ms.map Member.text) ++ ['}']))

/-- A member with its key as it is spelled, and the same spaces before key and value. -/
def Member.plain (spaces : List Char) (key : String) (value : List Char) : Member :=
  ⟨⟨spaces, value, []⟩, spaces, key.toList, []⟩

/-- Every choice of fields can be listed, if each value has a spelling and no name has anything
to escape. -/
theorem exists_recordText {name : ι → String} {spells : ι → List Char → Prop}
    (hname : ∀ i, (name i).toList.all (IsPlain ·) = true) (hvalue : ∀ i, ∃ value, spells i value)
    (listed : List ι) : ∃ cs, RecordText name spells listed cs := by
  by_cases hne : listed = []
  · subst hne
    exact ⟨_, .empty isSpaces_nil⟩
  · choose value hspells using hvalue
    have hsaid : List.Forall₂ (Says name spells)
        (listed.map fun i => Member.plain [] (name i) (value i)) (listed.map some) := by
      rw [List.forall₂_map_left_iff, List.forall₂_map_right_iff, List.forall₂_same]
      exact fun i _ => .field (spells_self (hname i)) (hspells i)
    have hspaced : ∀ m ∈ listed.map fun i => Member.plain [] (name i) (value i), m.Spaced := by
      intro m hm
      obtain ⟨i, -, rfl⟩ := List.mem_map.1 hm
      exact ⟨isSpaces_nil, isSpaces_nil, isSpaces_nil, isSpaces_nil⟩
    have htext := RecordText.members (mt List.map_eq_nil_iff.1 hne) hspaced hsaid
    rw [List.reduceOption, List.filterMap_map, Function.id_comp, List.filterMap_some] at htext
    exact ⟨_, htext⟩

/-! ### Fields -/

/-- The fields of a record read their values: no two have one name, each is found by its name,
and its reader turns the spellings of its value into the change of the record. -/
structure Implements (fields : List (RecordField σ)) (name : ι → String)
    (spells : ι → List Char → Prop) (put : ι → σ → σ) : Prop where
  /-- The names tell the fields apart. -/
  injective : Function.Injective name
  /-- Every field is known by its name, and its values are read. -/
  known : ∀ i, ∃ field, fields.find? (·.name = name i) = some field ∧
    ReadsValue field.read (spells i) (put i)
  /-- No other names are known. -/
  unknown : ∀ key, (∀ i, name i ≠ key) → fields.find? (·.name = key) = none

variable {fields : List (RecordField σ)} {name : ι → String} {spells : ι → List Char → Prop}
  {put : ι → σ → σ} {limit : Nat} {seen : List ι} {texts : List (List Char)}

/-- A field of the list has the name of `i` and reads its values. -/
def IsFieldOf (name : ι → String) (spells : ι → List Char → Prop) (put : ι → σ → σ) (i : ι)
    (field : RecordField σ) : Prop :=
  field.name = name i ∧ ReadsValue field.read (spells i) (put i)

theorem find?_name_eq_none {all : List ι} {key : String}
    (h : List.Forall₂ (IsFieldOf name spells put) all fields) (hkey : ∀ i ∈ all, name i ≠ key) :
    fields.find? (·.name = key) = none := by
  induction h with
  | nil => rfl
  | @cons i field all fields hfield _ ih =>
    have hne : field.name ≠ key := hfield.1 ▸ hkey i List.mem_cons_self
    rw [List.find?_cons_of_neg (by simpa using hne)]
    exact ih fun j hj => hkey j (List.mem_cons_of_mem i hj)

theorem exists_find?_name {all : List ι} {i : ι}
    (h : List.Forall₂ (IsFieldOf name spells put) all fields) (hnames : (all.map name).Nodup)
    (hi : i ∈ all) :
    ∃ field, fields.find? (·.name = name i) = some field ∧
      ReadsValue field.read (spells i) (put i) := by
  induction h with
  | nil => exact absurd hi List.not_mem_nil
  | @cons j field all fields hfield _ ih =>
    rw [List.map_cons, List.nodup_cons] at hnames
    rcases List.mem_cons.1 hi with rfl | hi
    · refine ⟨field, List.find?_cons_of_pos ?_, hfield.2⟩
      simpa using hfield.1
    · have hne : field.name ≠ name i := fun heq =>
        hnames.1 (hfield.1.symm.trans heq ▸ List.mem_map_of_mem hi)
      rw [List.find?_cons_of_neg (by simpa using hne)]
      exact ih hnames.2 hi

/-- Fields that stand in the order of their list implement the record. -/
theorem implements_of_forall₂ {all : List ι} (hall : ∀ i, i ∈ all)
    (hnames : (all.map name).Nodup) (h : List.Forall₂ (IsFieldOf name spells put) all fields) :
    Implements fields name spells put where
  injective i j hij := List.inj_on_of_nodup_map hnames (hall i) (hall j) hij
  known i := exists_find?_name h hnames (hall i)
  unknown _ hkey := find?_name_eq_none h fun i _ => hkey i

/-! ### Reading -/

theorem reads_nextKey_closed (started : Bool) (hs : IsSpaces s) :
    Reads (nextKey started) (s ++ '}' :: rest) false rest :=
  (reads_peek hs (by decide)).bind ((reads_advance '}' rest).bind (reads_pure false rest))

theorem reads_nextKey_first (hs : IsSpaces s) :
    Reads (nextKey false) (s ++ '"' :: rest) true rest := by
  refine (reads_peek hs (by decide)).bind ?_
  exact (reads_expect isSpaces_nil (by decide)).bind (reads_pure true rest)

theorem reads_nextKey_comma {s' : List Char} (hs : IsSpaces s) (hs' : IsSpaces s') :
    Reads (nextKey true) (s ++ ',' :: (s' ++ '"' :: rest)) true rest := by
  refine (reads_peek hs (by decide)).bind ((reads_advance ',' _).bind ?_)
  exact (reads_expect hs' (by decide)).bind (reads_pure true rest)

/-- One member is read: what follows sees the change that it makes, and its name among the
names seen. -/
theorem Says.reads_members {m : Member} {what : Option ι} {said : List (Option ι)}
    {started : Bool} {before : List Char} {r : σ} (impl : Implements fields name spells put)
    (h : Says name spells m what) (hs : m.Spaced)
    (hnodup : (seen ++ (what :: said).reduceOption).Nodup)
    (hkey : Reads (nextKey started) before true
      (m.key ++ '"' :: (m.afterKey ++ ':' :: (m.toElement.text ++ closed '}' rest texts))))
    (hnext : ∀ {seen : List ι} {r : σ}, (seen ++ said.reduceOption).Nodup →
      Reads (Reader.members fields limit true (seen.map name) r)
        (m.after ++ closed '}' rest texts) (said.reduceOption.foldl (fun r i => put i r) r) rest) :
    Reads (Reader.members fields (limit + 1) started (seen.map name) r) before
      ((what :: said).reduceOption.foldl (fun r i => put i r) r) rest := by
  refine hkey.bind ?_
  have hend := endsValue_closed hs.2.2.2 (Or.inr rfl) rest texts
  rw [m.toElement.text_append]
  cases h with
  | @field i hname hvalue =>
    obtain ⟨field, hfind, hread⟩ := impl.known i
    rw [List.reduceOption_cons_of_some] at hnodup ⊢
    have hnodup' : (i :: seen ++ said.reduceOption).Nodup := List.perm_middle.nodup hnodup
    have hnew : name i ∉ seen.map name := fun hmem =>
      (List.nodup_cons.1 hnodup').1
        (List.mem_append_left _ ((List.mem_map_of_injective impl.injective).1 hmem))
    refine (reads_string_wanted hname).bind ?_
    rw [hfind]
    simp only [if_neg hnew]
    refine (reads_expect hs.2.1 (by decide)).bind ?_
    exact (hread hvalue hs.2.2.1 hend).bind (hnext hnodup')
  | @other key hname hother hvalue =>
    rw [List.reduceOption_cons_of_none] at hnodup ⊢
    refine (reads_string_wanted hname).bind ?_
    rw [impl.unknown key hother]
    refine (reads_expect hs.2.1 (by decide)).bind ?_
    exact (reads_skip hvalue hs.2.2.1 hend).bind (hnext hnodup)

/-- The members that stand after commas are read up to the closing bracket. -/
theorem reads_members_closed {ms : List Member} {said : List (Option ι)} {r : σ}
    (impl : Implements fields name spells put) (h : List.Forall₂ (Says name spells) ms said)
    (hms : ∀ m ∈ ms, m.Spaced) (hnodup : (seen ++ said.reduceOption).Nodup) (hs : IsSpaces s)
    (hlimit : ms.length < limit) :
    Reads (members fields limit true (seen.map name) r)
      (s ++ closed '}' rest (ms.map Member.text))
      (said.reduceOption.foldl (fun r i => put i r) r) rest := by
  induction h generalizing limit seen s r with
  | nil =>
    obtain ⟨limit, rfl⟩ := Nat.exists_eq_add_one_of_ne_zero (Nat.ne_zero_of_lt hlimit)
    exact (reads_nextKey_closed true hs).bind (reads_pure r rest)
  | @cons m what ms said hsaid _ ih =>
    obtain ⟨limit, rfl⟩ := Nat.exists_eq_add_one_of_ne_zero (Nat.ne_zero_of_lt hlimit)
    have hm := hms m List.mem_cons_self
    rw [List.map_cons, closed, m.text_append]
    refine hsaid.reads_members impl hm hnodup (reads_nextKey_comma hs hm.1) fun hnodup' => ?_
    exact ih (fun x hx => hms x (List.mem_cons_of_mem m hx)) hnodup' hm.2.2.2
      (Nat.lt_of_succ_lt_succ hlimit)

theorem length_le_length_closed (close : Char) (rest : List Char) (texts : List (List Char)) :
    texts.length ≤ (closed close rest texts).length := by
  induction texts with
  | nil => exact Nat.zero_le _
  | cons t texts ih =>
    simp only [closed, List.length_cons, List.length_append]
    omega

/-- **A record is read from its object.** Every listed field is set to its value, and no other
field is changed. -/
theorem RecordText.reads {recordName : String} {defaults : σ} {listed : List ι}
    (impl : Implements fields name spells put) (h : RecordText name spells listed cs)
    (hnodup : listed.Nodup) (hs : IsSpaces s) :
    Reads (record recordName fields defaults) (s ++ (cs ++ rest))
      (listed.foldl (fun r i => put i r) defaults) rest := by
  have hget : ∀ text, Reads get text text text := fun _ => rfl
  cases h with
  | @empty spaces hspaces =>
    simp only [List.cons_append, List.append_assoc, List.nil_append]
    refine (reads_peek hs (by decide)).bind ((reads_advance '{' _).bind ((hget _).bind ?_))
    exact (reads_nextKey_closed false hspaces).bind (reads_pure defaults rest)
  | @members ms said hne hms hsaid =>
    obtain ⟨m, ms, rfl⟩ := List.exists_cons_of_ne_nil hne
    obtain ⟨what, said, hsay, htail, rfl⟩ := List.forall₂_cons_left_iff.1 hsaid
    have hm := hms m List.mem_cons_self
    simp only [List.cons_append, List.append_assoc, List.map_cons, List.nil_append]
    rw [commaSeparated_append, m.text_append]
    refine (reads_peek hs (by decide)).bind ((reads_advance '{' _).bind ((hget _).bind ?_))
    change Reads (Reader.members fields _ false (List.map name []) defaults) _ _ _
    have hseen : ([] ++ (what :: said).reduceOption).Nodup := hnodup
    refine hsay.reads_members impl hm hseen (reads_nextKey_first hm.1) fun hnodup' => ?_
    refine reads_members_closed impl htail (fun x hx => hms x (List.mem_cons_of_mem m hx)) hnodup'
      hm.2.2.2 ?_
    have hclosed := length_le_length_closed '}' rest (ms.map Member.text)
    simp only [List.length_append, List.length_cons, List.length_map] at hclosed ⊢
    omega

end StochasticGame.Json
