import Mathlib.Logic.Function.Basic

namespace Parthenon.Library

/-! # Numbered entries

The entries of a table are numbered in the order they were made, so that an entry
under an id that is used again has another number.
-/

variable {κ : Type u} {γ : Type v} [DecidableEq κ] {table : κ → Option γ} {number : κ → Nat}
  {made : Nat} {id other : κ} {entry changed kept : γ}

/-- What is there after an update was written or was there before. -/
theorem update_cases (found : Function.update table id (some changed) other = some kept) :
    other = id ∧ kept = changed ∨ other ≠ id ∧ table other = some kept := by
  by_cases same : other = id
  · subst same
    rw [Function.update_self] at found
    cases found
    exact .inl ⟨rfl, rfl⟩
  · rw [Function.update_of_ne same] at found
    exact .inr ⟨same, found⟩

/-- The entries that are there have numbers of their own. -/
structure Numbered (table : κ → Option γ) (number : κ → Nat) (made : Nat) : Prop where
  below : ∀ id entry, table id = some entry → number id < made
  distinct : ∀ id entry other kept, table id = some entry → table other = some kept →
    number id = number other → id = other

namespace Numbered

/-- An entry that is written over keeps its number. -/
theorem write (numbered : Numbered table number made) (found : table id = some entry)
    (changed : γ) : Numbered (Function.update table id (some changed)) number made := by
  have before : ∀ other kept, Function.update table id (some changed) other = some kept →
      ∃ kept, table other = some kept := by
    intro other kept written
    rcases update_cases written with ⟨rfl, -⟩ | ⟨-, there⟩
    · exact ⟨entry, found⟩
    · exact ⟨kept, there⟩
  constructor
  · intro other kept written
    obtain ⟨kept, there⟩ := before other kept written
    exact numbered.below other kept there
  · intro one first two second writtenOne writtenTwo same
    obtain ⟨first, thereOne⟩ := before one first writtenOne
    obtain ⟨second, thereTwo⟩ := before two second writtenTwo
    exact numbered.distinct one first two second thereOne thereTwo same

/-- An entry that is made takes the next number. -/
theorem open_ (numbered : Numbered table number made) (id : κ) (entry : γ) :
    Numbered (Function.update table id (some entry)) (Function.update number id made)
      (made + 1) := by
  constructor
  · intro other kept written
    rcases update_cases written with ⟨rfl, -⟩ | ⟨differs, there⟩
    · rw [Function.update_self]
      exact Nat.lt_succ_self made
    · rw [Function.update_of_ne differs]
      exact Nat.lt_succ_of_lt (numbered.below other kept there)
  · intro one first two second writtenOne writtenTwo same
    rcases update_cases writtenOne with ⟨rfl, -⟩ | ⟨differsOne, thereOne⟩ <;>
      rcases update_cases writtenTwo with ⟨rfl, -⟩ | ⟨differsTwo, thereTwo⟩
    · rfl
    · have below := numbered.below two second thereTwo
      rw [Function.update_self, Function.update_of_ne differsTwo] at same
      omega
    · have below := numbered.below one first thereOne
      rw [Function.update_self, Function.update_of_ne differsOne] at same
      omega
    · rw [Function.update_of_ne differsOne, Function.update_of_ne differsTwo] at same
      exact numbered.distinct one first two second thereOne thereTwo same

end Numbered

end Parthenon.Library
