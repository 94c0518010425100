/-!
# StochasticGame.Ordered.Map

**Finite maps that remember insertion order.** An `OrdMap` is the list of its
entries together with the fact that no key occurs twice. Writing to a key that
is present replaces its value in place, writing to a new key appends an entry,
and erasing a key keeps the order of the others.

Design points:

* the list *is* the map, so iteration order is part of the value and two maps
  are equal exactly when they list the same entries in the same order;
* uniqueness of keys is a field of the type, so no later statement has to carry
  it as a hypothesis.
-/

namespace StochasticGame

/-- A finite map from `κ` to `α` with its entries in insertion order. -/
structure OrdMap (κ α : Type) where
  /-- The entries, oldest first. -/
  entries : List (κ × α)
  /-- No key occurs twice. -/
  nodup : (entries.map Prod.fst).Nodup
  deriving DecidableEq

namespace OrdMap

variable {κ α β : Type}

/-! ### Views -/

/-- The map without entries. -/
def empty : OrdMap κ α := ⟨[], List.nodup_nil⟩

instance : Inhabited (OrdMap κ α) := ⟨empty⟩

/-- The keys in insertion order. -/
def keys (m : OrdMap κ α) : List κ := m.entries.map Prod.fst

/-- The values in insertion order. -/
def values (m : OrdMap κ α) : List α := m.entries.map Prod.snd

/-- The number of entries. -/
def size (m : OrdMap κ α) : Nat := m.entries.length

/-- The value stored under a key. -/
def find? [DecidableEq κ] (m : OrdMap κ α) (k : κ) : Option α := m.entries.lookup k

/-- Whether a key is present. -/
def contains [DecidableEq κ] (m : OrdMap κ α) (k : κ) : Bool := (m.find? k).isSome

/-- One step of a look-up in a list of entries. -/
theorem lookup_cons_ite [DecidableEq κ] (j : κ) (e : κ × α) (es : List (κ × α)) :
    (e :: es).lookup j = if j = e.1 then some e.2 else es.lookup j := by
  obtain ⟨k, a⟩ := e
  by_cases h : j = k
  · simp [h]
  · have hb : (j == k) = false := by simpa using h
    rw [List.lookup_cons, hb, if_neg h]

theorem keys_nodup (m : OrdMap κ α) : m.keys.Nodup := m.nodup

@[simp] theorem keys_empty : (empty : OrdMap κ α).keys = [] := rfl

@[simp] theorem length_keys (m : OrdMap κ α) : m.keys.length = m.size := by
  simp [keys, size]

@[simp] theorem find?_empty [DecidableEq κ] (k : κ) : (empty : OrdMap κ α).find? k = none := rfl

/-! ### Insertion -/

/-- Write `a` under `k` in a list of entries: in place if `k` is listed, at the
end otherwise. -/
def insertEntry [DecidableEq κ] (k : κ) (a : α) : List (κ × α) → List (κ × α)
  | [] => [(k, a)]
  | e :: rest => if e.1 = k then (k, a) :: rest else e :: insertEntry k a rest

/-- Inserting changes the list of keys only by appending a new one. -/
theorem map_fst_insertEntry [DecidableEq κ] (k : κ) (a : α) (es : List (κ × α)) :
    (insertEntry k a es).map Prod.fst =
      if k ∈ es.map Prod.fst then es.map Prod.fst else es.map Prod.fst ++ [k] := by
  induction es with
  | nil => rfl
  | cons e rest ih =>
    by_cases h : e.1 = k
    · simp [insertEntry, h]
    · have h' : ¬ k = e.1 := fun hk => h hk.symm
      simp only [insertEntry, h, if_false, List.map_cons, ih, List.mem_cons, h', false_or]
      split <;> simp

/-- Write a value under a key, keeping the position of a key that is present. -/
def insert [DecidableEq κ] (m : OrdMap κ α) (k : κ) (a : α) : OrdMap κ α where
  entries := insertEntry k a m.entries
  nodup := by
    rw [map_fst_insertEntry]
    split
    · exact m.nodup
    · rename_i h
      refine List.nodup_append.2 ⟨m.nodup, by simp, ?_⟩
      intro x hx y hy hxy
      simp only [List.mem_singleton] at hy
      exact h (hy ▸ hxy ▸ hx)

/-- The keys after an insertion. -/
theorem keys_insert [DecidableEq κ] (m : OrdMap κ α) (k : κ) (a : α) :
    (m.insert k a).keys = if k ∈ m.keys then m.keys else m.keys ++ [k] :=
  map_fst_insertEntry k a m.entries

/-- Looking a key up after writing to one. -/
theorem find?_insert [DecidableEq κ] (m : OrdMap κ α) (k j : κ) (a : α) :
    (m.insert k a).find? j = if j = k then some a else m.find? j := by
  obtain ⟨es, hn⟩ := m
  simp only [find?, insert]
  clear hn
  induction es with
  | nil => simp [insertEntry, lookup_cons_ite]
  | cons e rest ih =>
    by_cases hk : e.1 = k
    · by_cases h : j = k <;> simp [insertEntry, lookup_cons_ite, hk, h]
    · by_cases h : j = e.1
      · simp [insertEntry, lookup_cons_ite, hk, h]
      · simp [insertEntry, lookup_cons_ite, hk, h, ih]

/-! ### Erasure and mapping -/

/-- Drop the entry of a key. -/
def erase [DecidableEq κ] (m : OrdMap κ α) (k : κ) : OrdMap κ α where
  entries := m.entries.filter fun e => e.1 ≠ k
  nodup := (List.filter_sublist.map _).nodup m.nodup

/-- The keys after an erasure. -/
theorem keys_erase [DecidableEq κ] (m : OrdMap κ α) (k : κ) :
    (m.erase k).keys = m.keys.filter fun j => j ≠ k := by
  simp only [keys, erase, List.filter_map]
  rfl

/-- Looking a key up after erasing one. -/
theorem find?_erase [DecidableEq κ] (m : OrdMap κ α) (k j : κ) :
    (m.erase k).find? j = if j = k then none else m.find? j := by
  obtain ⟨es, hn⟩ := m
  simp only [find?, erase]
  clear hn
  induction es with
  | nil => simp
  | cons e rest ih =>
    by_cases hk : e.1 = k
    · by_cases h : j = k
      · simpa [hk, h] using ih
      · simpa [hk, h, lookup_cons_ite] using ih
    · by_cases h : j = e.1
      · simp [hk, h, lookup_cons_ite]
      · simpa [hk, h, lookup_cons_ite] using ih

/-- Replace every value, keeping the keys and their order. -/
def mapValues (f : α → β) (m : OrdMap κ α) : OrdMap κ β where
  entries := m.entries.map fun e => (e.1, f e.2)
  nodup := by
    have h : (m.entries.map fun e => (e.1, f e.2)).map Prod.fst = m.entries.map Prod.fst := by
      simp [Function.comp_def]
    rw [h]
    exact m.nodup

@[simp] theorem keys_mapValues (f : α → β) (m : OrdMap κ α) : (m.mapValues f).keys = m.keys := by
  simp [keys, mapValues, Function.comp_def]

/-! ### Building from a list -/

/-- The map a list of entries writes, one after another: a repeated key keeps
its first position and its last value. -/
def ofList [DecidableEq κ] (es : List (κ × α)) : OrdMap κ α :=
  es.foldl (fun m e => m.insert e.1 e.2) empty

end OrdMap

end StochasticGame
