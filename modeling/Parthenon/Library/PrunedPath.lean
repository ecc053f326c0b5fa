import Mathlib.Data.Nat.Bitwise
import Parthenon.Library.PairTree

namespace Parthenon.Library

/-! # Pruned paths

A path that leaves out the levels on which a node is combined with itself.  It leads
to the root exactly when there is no such level, as far as `combine` is injective on
the pairs it meets and the leaf is no combined node.
-/

/-! ## Trees under a map -/

section Map

variable {α : Type u} {β : Type v} {combine : α → α → α} {other : β → β → β} {image : α → β}

theorem levelPairs_map (image : α → β) (level : List α) :
    levelPairs (level.map image) = (levelPairs level).map fun pair => (image pair.1, image pair.2) := by
  induction level using levelPairs.induct with
  | case1 => rfl
  | case2 last => rfl
  | case3 left right rest ih =>
      rw [List.map_cons, List.map_cons, levelPairs, levelPairs, ih, List.map_cons]

variable (commutes : ∀ left right, image (combine left right) = other (image left) (image right))

include commutes

theorem nextLevel_map (level : List α) :
    nextLevel other (level.map image) = (nextLevel combine level).map image := by
  rw [nextLevel, nextLevel, levelPairs_map, List.map_map, List.map_map]
  exact List.map_congr_left fun pair _ => (commutes pair.1 pair.2).symm

theorem pairRoot_map (empty : α) (leaves : List α) :
    pairRoot other (image empty) (leaves.map image) = image (pairRoot combine empty leaves) := by
  rw [pairRoot, pairRoot, List.length_map]
  generalize leaves.length = fuel
  induction fuel generalizing leaves with
  | zero => cases leaves <;> rfl
  | succ fuel ih =>
      rw [buildRoot, buildRoot, List.length_map]
      split
      · cases leaves <;> rfl
      · rw [nextLevel_map commutes, ih]

theorem climb_map (leaf : α) (path : List (α × Bool)) :
    climb other (image leaf) (path.map fun sibling => (image sibling.1, sibling.2)) =
      image (climb combine leaf path) := by
  induction path generalizing leaf with
  | nil => rfl
  | cons sibling rest ih =>
      have step : climbStep other (image leaf) (image sibling.1, sibling.2) =
          image (climbStep combine leaf sibling) := by
        rw [climbStep, climbStep]
        split
        · exact (commutes leaf sibling.1).symm
        · exact (commutes sibling.1 leaf).symm
      exact (congrArg (climb other · _) step).trans (ih (climbStep combine leaf sibling))

end Map

/-! ## The path and its levels -/

section Sibling

variable {α : Type u}

/-- The other node of a pair and whether it is on the right, if there is one. -/
def sibling (level : List α) (index : Nat) : Option (α × Bool) :=
  level[index ^^^ 1]?.map fun node => (node, index % 2 = 0)

theorem xor_one (index : Nat) : index ^^^ 1 = if index % 2 = 0 then index + 1 else index - 1 := by
  by_cases even : index % 2 = 0
  · rw [if_pos even, Nat.xor_one_of_even (Nat.even_iff.mpr even)]
  · rw [if_neg even, Nat.xor_one_of_odd (Nat.odd_iff.mpr (by omega))]

theorem levelPairs_last {level : List α} {index : Nat} (even : index % 2 = 0)
    (last : index + 1 = level.length) {node : α} (isNode : level[index]? = some node) :
    (levelPairs level)[index / 2]? = some (node, node) := by
  induction level using levelPairs.induct generalizing index with
  | case1 => cases last
  | case2 only =>
      obtain rfl : index = 0 := by simpa using last
      obtain rfl : only = node := by simpa using isNode
      rfl
  | case3 left right rest ih =>
      obtain ⟨before, rfl⟩ : ∃ before, index = before + 2 := by
        rw [List.length_cons, List.length_cons] at last
        exact ⟨index - 2, by omega⟩
      have half : (before + 2) / 2 = before / 2 + 1 := by omega
      rw [half]
      exact ih (by omega) (by simpa using last) isNode

/-- The sibling of a node is the other half of its pair, and a node without one is both. -/
theorem sibling_cases {level : List α} {index : Nat} (inside : index < level.length) :
    ∃ left right, (levelPairs level)[index / 2]? = some (left, right) ∧
      level[index] = (if index % 2 = 0 then left else right) ∧
      ((index ^^^ 1 < level.length ∧
          sibling level index = some (if index % 2 = 0 then (right, true) else (left, false))) ∨
        (¬ index ^^^ 1 < level.length ∧ sibling level index = none ∧ left = right)) := by
  obtain ⟨left, right, isPair, isNode⟩ := levelPairs_getElem inside
  refine ⟨left, right, isPair, isNode, ?_⟩
  by_cases has : index ^^^ 1 < level.length
  · obtain ⟨otherLeft, otherRight, isOther, isSibling⟩ := levelPairs_getElem has
    have half : (index ^^^ 1) / 2 = index / 2 := by
      rw [xor_one]
      split <;> omega
    obtain ⟨rfl, rfl⟩ := Prod.mk.inj (Option.some.inj (isPair.symm.trans (half ▸ isOther)))
    refine .inl ⟨has, ?_⟩
    rw [sibling, List.getElem?_eq_getElem has, isSibling, Option.map_some]
    by_cases even : index % 2 = 0
    · have odd : ¬ (index ^^^ 1) % 2 = 0 := by
        rw [xor_one, if_pos even]
        omega
      rw [if_neg odd, if_pos even, decide_eq_true even]
    · have evenOther : (index ^^^ 1) % 2 = 0 := by
        rw [xor_one, if_neg even]
        omega
      rw [if_pos evenOther, if_neg even, decide_eq_false even]
  · refine .inr ⟨has, ?_, ?_⟩
    · rw [sibling, List.getElem?_eq_none (Nat.not_lt.mp has)]
      rfl
    · have alone : index % 2 = 0 ∧ index + 1 = level.length := by
        rw [xor_one] at has
        split at has <;> omega
      have doubled := levelPairs_last alone.1 alone.2 (List.getElem?_eq_getElem inside)
      obtain ⟨isLeft, isRight⟩ := Prod.mk.inj (Option.some.inj (isPair.symm.trans doubled))
      rw [isLeft, isRight]

end Sibling

/-- The number of nodes on a level above so many leaves. -/
def levelSize (count : Nat) : Nat → Nat
  | 0 => count
  | level + 1 => (levelSize count level + 1) / 2

theorem levelSize_succ (count level : Nat) :
    levelSize count (level + 1) = levelSize ((count + 1) / 2) level := by
  induction level with
  | zero => rfl
  | succ level ih => rw [levelSize, ih, levelSize]

/-- On every level below the root the node on the way from a leaf has a sibling. -/
def HasSiblings (count index : Nat) : Prop :=
  ∀ level, 1 < levelSize count level → index / 2 ^ level ^^^ 1 < levelSize count level

theorem hasSiblings_of_single {count index : Nat} (single : count ≤ 1) : HasSiblings count index := by
  have small (level : Nat) : levelSize count level ≤ 1 := by
    induction level with
    | zero => exact single
    | succ level ih =>
        rw [levelSize]
        omega
  intro level several
  exact absurd several (Nat.not_lt.mpr (small level))

theorem hasSiblings_step {count index : Nat} (several : 1 < count) :
    HasSiblings count index ↔
      index ^^^ 1 < count ∧ HasSiblings ((count + 1) / 2) (index / 2) := by
  have up (level : Nat) : index / 2 ^ (level + 1) = index / 2 / 2 ^ level := by
    rw [Nat.pow_succ', Nat.div_div_eq_div_mul]
  constructor
  · intro has
    refine ⟨?_, fun level => ?_⟩
    · have here := has 0 several
      rwa [Nat.pow_zero, Nat.div_one] at here
    · have above := has (level + 1)
      rwa [levelSize_succ, up] at above
  · rintro ⟨here, above⟩ level
    cases level with
    | zero =>
        intro _
        rw [Nat.pow_zero, Nat.div_one]
        exact here
    | succ level =>
        rw [levelSize_succ, up]
        exact above level

section Path

variable {α : Type u} (combine : α → α → α)

/-- The siblings on the way to the root, without the levels that have none. -/
def buildPruned : Nat → List α → Nat → List (α × Bool)
  | 0, _, _ => []
  | fuel + 1, level, index =>
      if level.length ≤ 1 then []
      else
        (sibling level index).toList ++ buildPruned fuel (nextLevel combine level) (index / 2)

def prunedPath (leaves : List α) (index : Nat) : List (α × Bool) :=
  buildPruned combine leaves.length leaves index

/-- The pairs that a climb combines. -/
def climbPairs : α → List (α × Bool) → List (α × α)
  | _, [] => []
  | node, sibling :: rest =>
      (if sibling.2 then (node, sibling.1) else (sibling.1, node)) ::
        climbPairs (climbStep combine node sibling) rest

/-- A node and its sibling, put together in their order, give the node back on its side. -/
theorem own_side {index : Nat} {node left right first second : α}
    (halves : (if (if index % 2 = 0 then (right, true) else (left, false)).2 then
        (node, (if index % 2 = 0 then (right, true) else (left, false)).1)
      else ((if index % 2 = 0 then (right, true) else (left, false)).1, node)) = (first, second)) :
    node = if index % 2 = 0 then first else second := by
  by_cases even : index % 2 = 0
  · rw [if_pos even] at halves
    rw [if_pos even]
    exact (Prod.mk.inj halves).1
  · rw [if_neg even] at halves
    rw [if_neg even]
    exact (Prod.mk.inj halves).2

theorem climbStep_eq (node : α) (sibling : α × Bool) :
    climbStep combine node sibling =
      combine (if sibling.2 then (node, sibling.1) else (sibling.1, node)).1
        (if sibling.2 then (node, sibling.1) else (sibling.1, node)).2 := by
  rw [climbStep]
  split <;> rfl

theorem buildPruned_eq_buildPath {fuel : Nat} {level : List α} {index : Nat}
    (inside : index < level.length) (has : HasSiblings level.length index) :
    buildPruned combine fuel level index = buildPath combine fuel level index := by
  induction fuel generalizing level index with
  | zero => rfl
  | succ fuel ih =>
      rw [buildPruned, buildPath]
      by_cases single : level.length ≤ 1
      · rw [if_pos single, if_pos single]
      · obtain ⟨here, above⟩ := (hasSiblings_step (Nat.not_le.mp single)).mp has
        obtain ⟨left, right, isPair, _, ⟨_, isSibling⟩ | ⟨alone, _⟩⟩ := sibling_cases inside
        · have insideNext : index / 2 < (nextLevel combine level).length := by
            rw [nextLevel_length]
            omega
          rw [if_neg single, if_neg single, isPair, isSibling,
            ih insideNext (by rw [nextLevel_length]; exact above)]
          rfl
        · exact absurd here alone

theorem climb_prunedPath (empty : α) {leaves : List α} {index : Nat}
    (inside : index < leaves.length) (has : HasSiblings leaves.length index) :
    climb combine leaves[index] (prunedPath combine leaves index) = pairRoot combine empty leaves := by
  rw [prunedPath, buildPruned_eq_buildPath combine inside has]
  exact climb_siblingPath combine empty inside

theorem sibling_map {β : Type v} (image : α → β) (level : List α) (index : Nat) :
    sibling (level.map image) index =
      (sibling level index).map fun other => (image other.1, other.2) := by
  rw [sibling, sibling, List.getElem?_map]
  cases level[index ^^^ 1]? <;> rfl

theorem prunedPath_map {β : Type v} {image : α → β} {other : β → β → β}
    (commutes : ∀ left right, image (combine left right) = other (image left) (image right))
    (leaves : List α) (index : Nat) :
    prunedPath other (leaves.map image) index =
      (prunedPath combine leaves index).map fun sibling => (image sibling.1, sibling.2) := by
  rw [prunedPath, prunedPath, List.length_map]
  generalize leaves.length = fuel
  induction fuel generalizing leaves index with
  | zero => rfl
  | succ fuel ih =>
      rw [buildPruned, buildPruned, List.length_map]
      split
      · rfl
      · rw [sibling_map, nextLevel_map commutes, ih, List.map_append]
        cases sibling leaves index <;> rfl

/-! ## Nothing else leads to the root -/

theorem mem_of_mem_levelPairs {level : List α} {pair : α × α} (member : pair ∈ levelPairs level) :
    pair.1 ∈ level ∧ pair.2 ∈ level := by
  induction level using levelPairs.induct with
  | case1 => cases member
  | case2 last =>
      obtain rfl := List.mem_singleton.mp member
      exact ⟨List.mem_singleton_self last, List.mem_singleton_self last⟩
  | case3 left right rest ih =>
      rcases List.mem_cons.mp member with rfl | later
      · exact ⟨List.mem_cons_self, List.mem_cons_of_mem left List.mem_cons_self⟩
      · obtain ⟨first, second⟩ := ih later
        exact ⟨List.mem_cons_of_mem left (List.mem_cons_of_mem right first),
          List.mem_cons_of_mem left (List.mem_cons_of_mem right second)⟩

/-- A node above the leaves: it is combined from a pair of the tree. -/
def Combined (leaves : List α) (node : α) : Prop :=
  ∃ pair ∈ combinedPairs combine leaves, node = combine pair.1 pair.2

theorem combined_of_mem_nextLevel {level : List α} (several : 1 < level.length) {node : α}
    (member : node ∈ nextLevel combine level) : Combined combine level node := by
  obtain ⟨pair, isPair, rfl⟩ := List.mem_map.mp member
  refine ⟨pair, ?_, rfl⟩
  rw [combinedPairs_step combine several]
  exact List.mem_append_left _ isPair

theorem Combined.below {level : List α} (several : 1 < level.length) {node : α}
    (combined : Combined combine (nextLevel combine level) node) : Combined combine level node := by
  obtain ⟨pair, isPair, rfl⟩ := combined
  refine ⟨pair, ?_, rfl⟩
  rw [combinedPairs_step combine several]
  exact List.mem_append_right _ isPair

theorem combined_of_next {level : List α} (several : 1 < level.length) {node : α}
    (isNode : node ∈ nextLevel combine level ∨ Combined combine (nextLevel combine level) node) :
    Combined combine level node :=
  isNode.elim (combined_of_mem_nextLevel combine several) (Combined.below combine several)

/-- Both halves of a pair are nodes of the tree. -/
theorem combinedPairs_nodes {fuel : Nat} {level : List α} (enough : level.length ≤ fuel)
    {pair : α × α} (member : pair ∈ combinedPairs combine level) :
    (pair.1 ∈ level ∨ Combined combine level pair.1) ∧
      (pair.2 ∈ level ∨ Combined combine level pair.2) := by
  induction fuel generalizing level with
  | zero =>
      have none_ : level = [] := List.eq_nil_of_length_eq_zero (Nat.le_zero.mp enough)
      rw [none_] at member
      cases member
  | succ fuel ih =>
      by_cases several : 1 < level.length
      · rw [combinedPairs_step combine several, List.mem_append] at member
        rcases member with here | above
        · obtain ⟨first, second⟩ := mem_of_mem_levelPairs here
          exact ⟨.inl first, .inl second⟩
        · have shorter : (nextLevel combine level).length ≤ fuel := by
            rw [nextLevel_length]
            omega
          obtain ⟨first, second⟩ := ih shorter above
          exact ⟨.inr (combined_of_next combine several first),
            .inr (combined_of_next combine several second)⟩
      · have none_ : combinedPairs combine level = [] := by
          rw [combinedPairs]
          cases level.length with
          | zero => rfl
          | succ count => rw [buildPairs, if_pos (Nat.not_lt.mp several)]
        rw [none_] at member
        cases member

theorem nextLevel_getElem {level : List α} {index : Nat} {left right : α}
    (isPair : (levelPairs level)[index / 2]? = some (left, right)) :
    (nextLevel combine level)[index / 2]? = some (combine left right) := by
  simp only [nextLevel, List.getElem?_map, isPair, Option.map_some]

variable {pairs : Set (α × α)}
  (injective : Set.InjOn (fun pair => combine pair.1 pair.2) pairs)

include injective

/-- Only the node itself climbs to the root, and only where nothing is left out; any other
start that does is a node from above. -/
theorem climb_buildPruned_cases (empty : α) {fuel : Nat} {level : List α}
    (enough : level.length ≤ fuel) {index : Nat} (inside : index < level.length)
    (within : ∀ pair ∈ combinedPairs combine level, pair ∈ pairs) {start : α}
    (climbed : ∀ pair ∈ climbPairs combine start (buildPruned combine fuel level index), pair ∈ pairs)
    (reaches : climb combine start (buildPruned combine fuel level index) =
      pairRoot combine empty level) :
    (start = level[index] ∧ HasSiblings level.length index) ∨ Combined combine level start := by
  induction fuel generalizing level index start with
  | zero => omega
  | succ fuel ih =>
      rw [buildPruned] at climbed reaches
      by_cases single : level.length ≤ 1
      · obtain ⟨leaf, rfl⟩ : ∃ leaf, level = [leaf] := List.length_eq_one_iff.mp (by omega)
        obtain rfl : index = 0 := by simpa using inside
        exact .inl ⟨reaches, hasSiblings_of_single single⟩
      · have several : 1 < level.length := Nat.not_le.mp single
        have shorter : (nextLevel combine level).length ≤ fuel := by
          rw [nextLevel_length]
          omega
        have insideNext : index / 2 < (nextLevel combine level).length := by
          rw [nextLevel_length]
          omega
        have withinNext : ∀ pair ∈ combinedPairs combine (nextLevel combine level), pair ∈ pairs :=
          fun pair member => within pair (by
            rw [combinedPairs_step combine several]
            exact List.mem_append_right _ member)
        rw [if_neg single, pairRoot_step combine empty several] at reaches
        rw [if_neg single] at climbed
        obtain ⟨left, right, isPair, isNode, ⟨here, isSibling⟩ | ⟨_, alone, same⟩⟩ :=
          sibling_cases inside
        · rw [isSibling] at climbed reaches
          obtain ⟨first, later⟩ := List.forall_mem_cons.mp climbed
          have inLevel : (left, right) ∈ pairs := within _ (by
            rw [combinedPairs_step combine several]
            exact List.mem_append_left _ (List.mem_of_getElem? isPair))
          have parent : (nextLevel combine level)[index / 2] = combine left right :=
            (List.getElem?_eq_some_iff.mp (nextLevel_getElem combine isPair)).2
          rcases ih shorter insideNext withinNext later reaches with
            ⟨stepped, above⟩ | ⟨pair, isAbove, stepped⟩
          · rw [climbStep_eq, parent] at stepped
            have halves := injective first inLevel stepped
            have whole : HasSiblings level.length index :=
              (hasSiblings_step several).mpr ⟨here, by rwa [nextLevel_length] at above⟩
            exact .inl ⟨isNode ▸ own_side halves, whole⟩
          · rw [climbStep_eq] at stepped
            have halves := injective first (withinNext pair isAbove) stepped
            obtain ⟨firstNode, secondNode⟩ := combinedPairs_nodes combine shorter isAbove
            have isHalf : start = if index % 2 = 0 then pair.1 else pair.2 := own_side halves
            rw [isHalf]
            refine .inr ?_
            split
            · exact combined_of_next combine several firstNode
            · exact combined_of_next combine several secondNode
        · rw [alone] at climbed reaches
          rcases ih shorter insideNext withinNext climbed reaches with ⟨isParent, _⟩ | above
          · refine .inr (combined_of_mem_nextLevel combine several ?_)
            rw [isParent]
            exact List.getElem_mem insideNext
          · exact .inr (above.below combine several)

/-- A leaf that is no combined node climbs to the root exactly when nothing is left out. -/
theorem climb_prunedPath_iff (empty : α) {leaves : List α} {index : Nat}
    (inside : index < leaves.length)
    (within : ∀ pair ∈ combinedPairs combine leaves, pair ∈ pairs)
    (climbed : ∀ pair ∈ climbPairs combine leaves[index] (prunedPath combine leaves index),
      pair ∈ pairs)
    (apart : ¬ Combined combine leaves leaves[index]) :
    climb combine leaves[index] (prunedPath combine leaves index) = pairRoot combine empty leaves ↔
      HasSiblings leaves.length index := by
  refine ⟨fun reaches => ?_, climb_prunedPath combine empty inside⟩
  rcases climb_buildPruned_cases combine injective empty (Nat.le_refl _) inside within climbed
    reaches with ⟨_, has⟩ | combined
  · exact has
  · exact absurd combined apart

end Path

end Parthenon.Library
