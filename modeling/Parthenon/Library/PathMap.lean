import Mathlib.Logic.Function.Basic
import Mathlib.Data.List.Infix

namespace Parthenon.Library

/-! # Maps from paths

A finite map whose keys are lists, seen the way a prefix tree builds one: a map
moved below a path, and a fork that holds a value at the empty key and a map
below each first step.
-/

abbrev PathMap (α : Type u) (β : Type v) := List α → Option β

namespace PathMap

variable {α : Type u} {β : Type v}

def empty : PathMap α β := fun _ => none

/-- A value at the empty key and a map below each first step. -/
def fork (here : Option β) (below : α → PathMap α β) : PathMap α β
  | [] => here
  | step :: rest => below step rest

@[simp] theorem fork_nil (here : Option β) (below : α → PathMap α β) :
    fork here below [] = here := rfl

@[simp] theorem fork_cons (here : Option β) (below : α → PathMap α β) (step : α) (rest : List α) :
    fork here below (step :: rest) = below step rest := rfl

@[simp] theorem empty_apply (key : List α) : (empty : PathMap α β) key = none := rfl

theorem fork_none_empty : fork none (fun _ => empty) = (empty : PathMap α β) := by
  funext key
  cases key with
  | nil => rfl
  | cons step rest => rfl

/-- Every key with a value has this length. -/
def HasLength (length : Nat) (map : PathMap α β) : Prop :=
  ∀ key value, map key = some value → key.length = length

theorem HasLength.missing {length : Nat} {map : PathMap α β} (uniform : map.HasLength length)
    {key : List α} (other : key.length ≠ length) : map key = none := by
  cases found : map key with
  | none => rfl
  | some value => exact absurd (uniform key value found) other

variable [DecidableEq α]

/-- A map moved below a path. -/
def under : List α → PathMap α β → PathMap α β
  | [], map => map
  | step :: path, map => fork none (Function.update (fun _ => empty) step (under path map))

@[simp] theorem under_nil (map : PathMap α β) : under [] map = map := rfl

theorem under_cons_cons (step next : α) (path rest : List α) (map : PathMap α β) :
    under (step :: path) map (next :: rest) = if next = step then under path map rest else none := by
  rw [under, fork_cons, Function.update_apply]
  split
  · rfl
  · rfl

theorem under_append (first second : List α) (map : PathMap α β) :
    under (first ++ second) map = under first (under second map) := by
  induction first with
  | nil => rfl
  | cons step first ih => rw [List.cons_append, under, ih, under]

@[simp] theorem under_at (path rest : List α) (map : PathMap α β) :
    under path map (path ++ rest) = map rest := by
  induction path with
  | nil => rfl
  | cons step path ih => rw [List.cons_append, under_cons_cons, if_pos rfl, ih]

theorem under_outside {path key : List α} (outside : ¬ path <+: key) (map : PathMap α β) :
    under path map key = none := by
  induction path generalizing key with
  | nil => exact absurd List.nil_prefix outside
  | cons step path ih =>
      cases key with
      | nil => rfl
      | cons next rest =>
          rw [under_cons_cons]
          by_cases same : next = step
          · rw [if_pos same]
            apply ih
            intro inside
            exact outside (List.cons_prefix_cons.mpr ⟨same.symm, inside⟩)
          · rw [if_neg same]

theorem under_empty (path : List α) : under path (empty : PathMap α β) = empty := by
  funext key
  by_cases inside : path <+: key
  · obtain ⟨rest, rfl⟩ := inside
    rw [under_at]
    rfl
  · exact under_outside inside _

/-- The map with one key. -/
def single (key : List α) (value : β) : PathMap α β := under key (fork (some value) fun _ => empty)

theorem single_apply (key other : List α) (value : β) :
    single key value other = if key = other then some value else none := by
  unfold single
  by_cases inside : key <+: other
  · obtain ⟨rest, rfl⟩ := inside
    rw [under_at]
    cases rest with
    | nil => simp
    | cons step rest => simp
  · rw [under_outside inside, if_neg]
    intro same
    exact inside (same ▸ List.prefix_refl key)

theorem update_empty (key : List α) (value : β) :
    Function.update empty key (some value) = single key value := by
  funext other
  rw [Function.update_apply, single_apply]
  simp only [eq_comm, empty_apply]

theorem update_fork_nil (here value : Option β) (below : α → PathMap α β) :
    Function.update (fork here below) [] value = fork value below := by
  funext key
  cases key with
  | nil => simp
  | cons step rest => simp

theorem update_fork_cons (here value : Option β) (below : α → PathMap α β) (step : α)
    (rest : List α) : Function.update (fork here below) (step :: rest) value =
      fork here (Function.update below step (Function.update (below step) rest value)) := by
  funext key
  cases key with
  | nil => simp
  | cons next tail =>
      by_cases same : next = step
      · subst same
        simp [Function.update_apply]
      · simp [same]

theorem update_under (path rest : List α) (map : PathMap α β) (value : Option β) :
    Function.update (under path map) (path ++ rest) value =
      under path (Function.update map rest value) := by
  induction path with
  | nil => rfl
  | cons step path ih =>
      rw [List.cons_append, under, update_fork_cons, Function.update_self, ih,
        Function.update_idem, under]

theorem update_missing {map : PathMap α β} {key : List α} (missing : map key = none) :
    Function.update map key none = map := by
  rw [← missing]
  exact Function.update_eq_self key map

theorem HasLength.under {length : Nat} {map : PathMap α β} (uniform : map.HasLength length)
    (path : List α) : (under path map).HasLength (path.length + length) := by
  intro key value found
  by_cases inside : path <+: key
  · obtain ⟨rest, rfl⟩ := inside
    rw [under_at] at found
    rw [List.length_append, uniform rest value found]
  · rw [under_outside inside] at found
    cases found

/-- There are keys with different first steps. -/
def Forks (map : PathMap α β) : Prop :=
  ∃ first second firstRest secondRest, first ≠ second ∧
    map (first :: firstRest) ≠ none ∧ map (second :: secondRest) ≠ none

theorem Forks.not_under {map : PathMap α β} (forks : map.Forks) (step : α) (path : List α)
    (below : PathMap α β) : map ≠ PathMap.under (step :: path) below := by
  intro same
  obtain ⟨first, second, firstRest, secondRest, apart, firstFound, secondFound⟩ := forks
  rw [same, under_cons_cons] at firstFound secondFound
  by_cases atFirst : first = step
  · by_cases atSecond : second = step
    · exact apart (atFirst.trans atSecond.symm)
    · rw [if_neg atSecond] at secondFound
      exact secondFound rfl
  · rw [if_neg atFirst] at firstFound
    exact firstFound rfl

theorem Forks.not_single {map : PathMap α β} (forks : map.Forks) (path key : List α) (value : β) :
    PathMap.under path map ≠ single key value := by
  intro same
  obtain ⟨first, second, firstRest, secondRest, apart, firstFound, secondFound⟩ := forks
  have only (rest : List α) (found : map rest ≠ none) : key = path ++ rest := by
    rw [← under_at path rest map, same, single_apply] at found
    by_contra other
    rw [if_neg other] at found
    exact found rfl
  have atFirst := only _ firstFound
  have atSecond := only _ secondFound
  have heads := List.append_cancel_left (atFirst.symm.trans atSecond)
  exact apart (List.cons.inj heads).1

/-- Two maps that fork are the same map below the same path, or differ. -/
theorem under_injective {left right : PathMap α β} (leftForks : left.Forks)
    (rightForks : right.Forks) {leftPath rightPath : List α}
    (same : PathMap.under leftPath left = PathMap.under rightPath right) :
    leftPath = rightPath ∧ left = right := by
  induction leftPath generalizing rightPath with
  | nil =>
      cases rightPath with
      | nil => exact ⟨rfl, same⟩
      | cons step path => exact absurd same (leftForks.not_under step path right)
  | cons step leftPath ih =>
      cases rightPath with
      | nil => exact absurd same.symm (rightForks.not_under step leftPath left)
      | cons other rightPath =>
          obtain ⟨first, _, firstRest, _, _, firstFound, _⟩ := leftForks
          have found := congrFun same (step :: leftPath ++ first :: firstRest)
          rw [under_at, List.cons_append, under_cons_cons] at found
          by_cases sameStep : step = other
          · subst sameStep
            have below : PathMap.under leftPath left = PathMap.under rightPath right := by
              funext key
              have at_ := congrFun same (step :: key)
              rwa [under_cons_cons, if_pos rfl, under_cons_cons, if_pos rfl] at at_
            obtain ⟨samePath, sameMap⟩ := ih below
            exact ⟨congrArg (step :: ·) samePath, sameMap⟩
          · rw [if_neg sameStep] at found
            exact absurd found firstFound

theorem Forks.path_nil {map below : PathMap α β} (forks : map.Forks) {path : List α}
    (same : PathMap.under path below = map) : path = [] := by
  cases path with
  | nil => rfl
  | cons step path => exact absurd same.symm (forks.not_under step path below)

end PathMap

end Parthenon.Library
