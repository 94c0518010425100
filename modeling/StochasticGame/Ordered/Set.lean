/-!
# StochasticGame.Ordered.Set

**Finite sets that remember insertion order.** An `OrdSet` is a list without
repetitions. A new element goes to the end, a known one changes nothing, and
erasing keeps the order of the rest.
-/

namespace StochasticGame

/-- A finite set with its elements in insertion order. -/
structure OrdSet (α : Type) where
  /-- The elements, oldest first. -/
  toList : List α
  /-- No element occurs twice. -/
  nodup : toList.Nodup
  deriving DecidableEq

namespace OrdSet

variable {α : Type}

/-- The set without elements. -/
def empty : OrdSet α := ⟨[], List.nodup_nil⟩

instance : Inhabited (OrdSet α) := ⟨empty⟩

/-- The number of elements. -/
def size (s : OrdSet α) : Nat := s.toList.length

@[simp] theorem toList_empty : (empty : OrdSet α).toList = [] := rfl

variable [DecidableEq α]

/-- Add an element at the end unless it is present. -/
def insert (s : OrdSet α) (a : α) : OrdSet α where
  toList := if a ∈ s.toList then s.toList else s.toList ++ [a]
  nodup := by
    split
    · exact s.nodup
    · rename_i h
      refine List.nodup_append.2 ⟨s.nodup, by simp, ?_⟩
      intro x hx y hy hxy
      simp only [List.mem_singleton] at hy
      exact h (hy ▸ hxy ▸ hx)

@[simp] theorem mem_insert (s : OrdSet α) (a b : α) :
    b ∈ (s.insert a).toList ↔ b = a ∨ b ∈ s.toList := by
  simp only [insert]
  split
  · rename_i h
    constructor
    · exact Or.inr
    · rintro (rfl | hb)
      · exact h
      · exact hb
  · simp [or_comm]

/-- Drop an element. -/
def erase (s : OrdSet α) (a : α) : OrdSet α where
  toList := s.toList.filter fun b => b ≠ a
  nodup := List.filter_sublist.nodup s.nodup

@[simp] theorem mem_erase (s : OrdSet α) (a b : α) :
    b ∈ (s.erase a).toList ↔ b ∈ s.toList ∧ b ≠ a := by
  simp [erase]

end OrdSet

end StochasticGame
