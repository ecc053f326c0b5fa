import Mathlib.Algebra.BigOperators.Group.List.Basic
import Mathlib.Algebra.Order.Ring.Nat
import Mathlib.Data.List.Basic
import Mathlib.Order.Interval.Finset.Nat

namespace Parthenon.Library

/-! # Shuffles in place

Each place, from the last one down to the second, is exchanged with one that is picked.
An access out of range has no result.
-/

variable {α : Type u} {β : Type v} {σ : Type w}

/-- The values at two places change places. -/
def exchange (values : List α) (i j : Nat) : Option (List α) :=
  match values[i]?, values[j]? with
  | some first, some second => some ((values.set i second).set j first)
  | _, _ => none

theorem exchange_of_lt {values : List α} {i j : Nat} (first : i < values.length)
    (second : j < values.length) :
    exchange values i j = some ((values.set i values[j]).set j values[i]) := by
  unfold exchange
  rw [List.getElem?_eq_getElem first, List.getElem?_eq_getElem second]

/-- A result means that both places were in range. -/
theorem exchange_cases (values : List α) (i j : Nat) :
    (i < values.length ∧ j < values.length) ∨ exchange values i j = none := by
  unfold exchange
  cases first : values[i]? with
  | none => exact .inr rfl
  | some _ =>
      cases second : values[j]? with
      | none => exact .inr rfl
      | some _ =>
          exact .inl ⟨(List.getElem?_eq_some_iff.mp first).1, (List.getElem?_eq_some_iff.mp second).1⟩

theorem exchange_perm {values exchanged : List α} {i j : Nat}
    (done : exchange values i j = some exchanged) : exchanged.Perm values := by
  rcases exchange_cases values i j with ⟨first, second⟩ | refused
  · rw [exchange_of_lt first second] at done
    cases done
    exact List.set_set_perm first second
  · rw [refused] at done
    cases done

theorem exchange_map (f : α → β) (values : List α) (i j : Nat) :
    exchange (values.map f) i j = (exchange values i j).map (List.map f) := by
  unfold exchange
  rw [List.getElem?_map, List.getElem?_map]
  cases values[i]? with
  | none => rfl
  | some first =>
      cases values[j]? with
      | none => rfl
      | some second => simp only [Option.map_some, List.map_set]

/-- The shuffle from a place down.  What is picked may depend on what was picked before. -/
def shuffleDown (pick : σ → Nat → Option (Nat × σ)) : Nat → σ → List α → Option (List α)
  | 0, _, values => some values
  | i + 1, state, values =>
      (pick state (i + 1)).bind fun picked =>
        (exchange values (i + 1) picked.1).bind fun exchanged =>
          shuffleDown pick i picked.2 exchanged

variable {pick : σ → Nat → Option (Nat × σ)}

theorem shuffleDown_perm {i : Nat} {state : σ} {values shuffled : List α}
    (done : shuffleDown pick i state values = some shuffled) : shuffled.Perm values := by
  induction i generalizing state values with
  | zero =>
      cases done
      exact .refl _
  | succ i ih =>
      rw [shuffleDown] at done
      obtain ⟨⟨j, next⟩, _, done⟩ := Option.bind_eq_some_iff.mp done
      obtain ⟨exchanged, swapped, done⟩ := Option.bind_eq_some_iff.mp done
      exact (ih done).trans (exchange_perm swapped)

/-- The places are what is shuffled, so names for the values do not matter. -/
theorem shuffleDown_map (f : α → β) (i : Nat) (state : σ) (values : List α) :
    shuffleDown pick i state (values.map f) = (shuffleDown pick i state values).map (List.map f) := by
  induction i generalizing state values with
  | zero => rfl
  | succ i ih =>
      rw [shuffleDown, shuffleDown]
      cases pick state (i + 1) with
      | none => rfl
      | some picked =>
          obtain ⟨j, next⟩ := picked
          simp only [Option.bind_some]
          rw [exchange_map]
          cases exchange values (i + 1) j with
          | none => rfl
          | some exchanged =>
              simp only [Option.map_some, Option.bind_some]
              exact ih next exchanged

/-- A shuffle whose picks are no further than their places goes through. -/
theorem shuffleDown_exists {i : Nat} {values : List α}
    (picks : ∀ state place, 0 < place → place ≤ i →
      ∃ j next, pick state place = some (j, next) ∧ j ≤ place)
    (inside : i < values.length) (state : σ) :
    ∃ shuffled, shuffleDown pick i state values = some shuffled := by
  induction i generalizing state values with
  | zero => exact ⟨values, rfl⟩
  | succ i ih =>
      obtain ⟨j, next, picked, le⟩ := picks state (i + 1) (Nat.succ_pos i) (Nat.le_refl _)
      have within : j < values.length := Nat.lt_of_le_of_lt le inside
      have shorter : i < ((values.set (i + 1) values[j]).set j values[i + 1]).length := by
        rw [List.length_set, List.length_set]
        exact Nat.lt_of_succ_lt inside
      obtain ⟨shuffled, done⟩ := ih (fun state place positive below =>
        picks state place positive (Nat.le_succ_of_le below)) shorter next
      refine ⟨shuffled, ?_⟩
      rw [shuffleDown, picked]
      simp only [Option.bind_some]
      rw [exchange_of_lt inside within]
      exact done

/-- A place that picks nothing stops the shuffle, if the shuffle gets there. -/
theorem shuffleDown_none {i place : Nat} (positive : 0 < place) (below : place ≤ i)
    (nothing : ∀ state, pick state place = none) (state : σ) (values : List α) :
    shuffleDown pick i state values = none := by
  induction i generalizing state values with
  | zero => exact absurd (Nat.lt_of_lt_of_le positive below) (Nat.lt_irrefl 0)
  | succ i ih =>
      rw [shuffleDown]
      rcases Nat.lt_or_eq_of_le below with lower | rfl
      · cases pick state (i + 1) with
        | none => rfl
        | some picked =>
            obtain ⟨j, next⟩ := picked
            simp only [Option.bind_some]
            cases exchange values (i + 1) j with
            | none => rfl
            | some exchanged => exact ih (Nat.le_of_lt_succ lower) next exchanged
      · rw [nothing]
        rfl

/-! ## Weighted choice

A ticket falls into the weights in turn, and chooses the place where it comes to lie.
-/

/-- The place of the weight that covers the ticket. -/
def choose : Nat → List Nat → Option Nat
  | _, [] => none
  | ticket, weight :: rest =>
      if ticket < weight then some 0 else (choose (ticket - weight) rest).map (· + 1)

section Choice

variable {ticket place weight : Nat} {weights : List Nat}

/-- Each place is chosen by the tickets from the sum of the weights before it to that sum with
its own. -/
theorem choose_eq_some_iff :
    choose ticket weights = some place ↔
      (weights.take place).sum ≤ ticket ∧ ticket < (weights.take (place + 1)).sum := by
  induction weights generalizing ticket place with
  | nil => simp [choose]
  | cons first rest ih =>
      rw [choose]
      split
      · rename_i covers
        cases place with
        | zero => simpa using covers
        | succ place =>
            simp only [Option.some.injEq, List.take_succ_cons, List.sum_cons]
            omega
      · rename_i beyond
        cases place with
        | zero =>
            simp only [Option.map_eq_some_iff, List.take_succ_cons, List.take_zero, List.sum_cons,
              List.sum_nil]
            omega
        | succ place =>
            have later : (choose (ticket - first) rest).map (· + 1) = some (place + 1) ↔
                choose (ticket - first) rest = some place := by
              simp
            rw [later, ih]
            simp only [List.take_succ_cons, List.sum_cons]
            omega

theorem choose_of_lt_sum (below : ticket < weights.sum) :
    ∃ place weight, choose ticket weights = some place ∧ weights[place]? = some weight ∧
      0 < weight := by
  induction weights generalizing ticket with
  | nil => simp at below
  | cons first rest ih =>
      rw [choose]
      by_cases covers : ticket < first
      · exact ⟨0, first, if_pos covers, rfl, by omega⟩
      · rw [List.sum_cons] at below
        have later : ticket - first < rest.sum := by omega
        obtain ⟨place, weight, chosen, there, positive⟩ := ih later
        refine ⟨place + 1, weight, ?_, there, positive⟩
        rw [if_neg covers, chosen]
        rfl

theorem sum_take_succ (there : weights[place]? = some weight) :
    (weights.take (place + 1)).sum = (weights.take place).sum + weight := by
  rw [List.take_add_one, there, List.sum_append]
  simp

/-- As many tickets choose a place as it weighs. -/
theorem card_choose (there : weights[place]? = some weight) :
    ((Finset.range weights.sum).filter fun ticket => choose ticket weights = some place).card =
      weight := by
  have upTo := sum_take_succ there
  have within : (weights.take (place + 1)).sum ≤ weights.sum := by
    conv_rhs => rw [← List.take_append_drop (place + 1) weights, List.sum_append]
    exact Nat.le_add_right _ _
  have covered : ((Finset.range weights.sum).filter fun ticket =>
      choose ticket weights = some place) =
        Finset.Ico (weights.take place).sum (weights.take (place + 1)).sum := by
    ext ticket
    rw [Finset.mem_filter, Finset.mem_range, choose_eq_some_iff, Finset.mem_Ico]
    omega
  rw [covered, Nat.card_Ico]
  omega

end Choice

end Parthenon.Library
