import Mathlib.Data.List.Nodup
import Mathlib.Data.Set.Function
import Mathlib.Logic.Relation

namespace Parthenon.Library

/-! # Pair trees

The root of a tree built over a list of leaves by combining neighbours, where
an odd last node is combined with itself.  Over one number of leaves the root
determines them, as far as `combine` is injective on the pairs it meets.
-/

/-- Equal images of two lists come from equal lists, where the map is injective
between their members. -/
theorem map_inj_between {α : Type u} {β : Type v} {image : α → β} {first second : List α}
    (injective : ∀ left ∈ first, ∀ right ∈ second, image left = image right → left = right)
    (same : first.map image = second.map image) : first = second := by
  induction first generalizing second with
  | nil => exact (List.map_eq_nil_iff.mp same.symm).symm
  | cons left rest ih =>
      cases second with
      | nil => simp at same
      | cons right others =>
          rw [List.map_cons, List.map_cons, List.cons.injEq] at same
          obtain ⟨headSame, restSame⟩ := same
          have heads := injective left List.mem_cons_self right List.mem_cons_self headSame
          have rests := ih (fun one inRest other inOthers =>
            injective one (List.mem_cons_of_mem left inRest) other
              (List.mem_cons_of_mem right inOthers)) restSame
          rw [heads, rests]

variable {α : Type u} (combine : α → α → α)

/-- The pairs that one level combines. -/
def levelPairs : List α → List (α × α)
  | [] => []
  | [last] => [(last, last)]
  | left :: right :: rest => (left, right) :: levelPairs rest

def nextLevel (level : List α) : List α :=
  (levelPairs level).map fun pair => combine pair.1 pair.2

theorem levelPairs_length (level : List α) : (levelPairs level).length = (level.length + 1) / 2 := by
  induction level using levelPairs.induct with
  | case1 => simp [levelPairs]
  | case2 last => simp [levelPairs]
  | case3 left right rest ih =>
      simp only [levelPairs, List.length_cons, ih]
      omega

theorem nextLevel_length (level : List α) :
    (nextLevel combine level).length = (level.length + 1) / 2 := by
  rw [nextLevel, List.length_map, levelPairs_length]

/-- Run the level loop for at most `fuel` levels. -/
def buildRoot (empty : α) : Nat → List α → α
  | 0, level => level.headD empty
  | fuel + 1, level =>
      if level.length ≤ 1 then level.headD empty
      else buildRoot empty fuel (nextLevel combine level)

/-- Every pair that the level loop combines within `fuel` levels. -/
def buildPairs : Nat → List α → List (α × α)
  | 0, _ => []
  | fuel + 1, level =>
      if level.length ≤ 1 then []
      else levelPairs level ++ buildPairs fuel (nextLevel combine level)

def pairRoot (empty : α) (leaves : List α) : α := buildRoot combine empty leaves.length leaves

def combinedPairs (leaves : List α) : List (α × α) := buildPairs combine leaves.length leaves

/-- A loop over the levels that halves them at each step does not depend on its fuel, once there
is enough for as many levels as there are nodes. -/
theorem levels_enough {β : Type*} {loop : Nat → List α → β} (last : List α → β)
    (joined : List α → β → β) (ends : loop 0 [] = last [])
    (turns : ∀ fuel level, loop (fuel + 1) level =
      if level.length ≤ 1 then last level else joined level (loop fuel (nextLevel combine level)))
    {fuel : Nat} {level : List α} (enough : level.length ≤ fuel) :
    loop fuel level = loop level.length level := by
  suffices same : ∀ (small large : Nat) (level : List α), level.length ≤ small → small ≤ large →
      loop small level = loop large level from
    (same level.length fuel level (Nat.le_refl _) enough).symm
  intro small
  induction small with
  | zero =>
      intro large level short _
      have none : level = [] := List.eq_nil_of_length_eq_zero (Nat.le_zero.mp short)
      subst none
      cases large with
      | zero => rfl
      | succ large => exact ends.trans (turns large []).symm
  | succ small ih =>
      intro large level short below
      obtain ⟨large, rfl⟩ : ∃ before, large = before + 1 := ⟨large - 1, by omega⟩
      rw [turns, turns]
      split
      · rfl
      · rename_i several
        have next : (nextLevel combine level).length ≤ small := by
          rw [nextLevel_length]
          omega
        rw [ih large _ next (Nat.le_of_succ_le_succ below)]

/-- The loop ends by itself: fuel for as many levels as there are leaves is
never used up. -/
theorem buildRoot_enough (empty : α) {fuel : Nat} {level : List α} (enough : level.length ≤ fuel) :
    buildRoot combine empty fuel level = pairRoot combine empty level :=
  levels_enough combine (fun level => level.headD empty) (fun _ root => root) rfl (fun _ _ => rfl)
    enough

/-- One level pairs determine the level, over one number of nodes. -/
theorem levelPairs_inj {first second : List α} (sameLength : first.length = second.length)
    (same : levelPairs first = levelPairs second) : first = second := by
  induction first using levelPairs.induct generalizing second with
  | case1 => exact (List.eq_nil_of_length_eq_zero sameLength.symm).symm
  | case2 last =>
      match second with
      | [] => simp at sameLength
      | [other] => simpa [levelPairs] using same
      | _ :: _ :: _ => simp at sameLength
  | case3 left right rest ih =>
      match second with
      | [] => simp at sameLength
      | [_] => simp at sameLength
      | otherLeft :: otherRight :: others =>
          simp only [List.length_cons, Nat.add_right_cancel_iff] at sameLength
          simp only [levelPairs, List.cons.injEq, Prod.mk.injEq] at same
          obtain ⟨⟨rfl, rfl⟩, restSame⟩ := same
          rw [ih sameLength restSame]

theorem nextLevel_inj {first second : List α} {pairs : Set (α × α)}
    (injective : Set.InjOn (fun pair => combine pair.1 pair.2) pairs)
    (firstIn : ∀ pair ∈ levelPairs first, pair ∈ pairs)
    (secondIn : ∀ pair ∈ levelPairs second, pair ∈ pairs)
    (sameLength : first.length = second.length)
    (same : nextLevel combine first = nextLevel combine second) : first = second := by
  apply levelPairs_inj sameLength
  exact map_inj_between (fun left inFirst right inSecond =>
    injective (firstIn left inFirst) (secondIn right inSecond)) same

/-- The root determines the leaves among lists of one length. -/
theorem buildRoot_inj (empty : α) {pairs : Set (α × α)}
    (injective : Set.InjOn (fun pair => combine pair.1 pair.2) pairs) {fuel : Nat}
    {first second : List α} (enough : first.length ≤ fuel)
    (firstIn : ∀ pair ∈ buildPairs combine fuel first, pair ∈ pairs)
    (secondIn : ∀ pair ∈ buildPairs combine fuel second, pair ∈ pairs)
    (sameLength : first.length = second.length)
    (same : buildRoot combine empty fuel first = buildRoot combine empty fuel second) :
    first = second := by
  induction fuel generalizing first second with
  | zero =>
      have firstNone : first = [] := List.eq_nil_of_length_eq_zero (Nat.le_zero.mp enough)
      have secondNone : second = [] := List.eq_nil_of_length_eq_zero (by omega)
      rw [firstNone, secondNone]
  | succ fuel ih =>
      simp only [buildRoot, buildPairs] at same firstIn secondIn
      by_cases single : first.length ≤ 1
      · rw [if_pos single, if_pos (sameLength ▸ single)] at same
        match first, second with
        | [], [] => rfl
        | [leaf], [other] => simpa using same
        | [], _ :: _ => simp at sameLength
        | [_], [] => simp at sameLength
        | [_], _ :: _ :: _ => simp at sameLength
        | _ :: _ :: _, _ => simp at single
      · have singleOther : ¬ second.length ≤ 1 := sameLength ▸ single
        rw [if_neg single, if_neg singleOther] at same
        rw [if_neg single] at firstIn
        rw [if_neg singleOther] at secondIn
        simp only [List.mem_append] at firstIn secondIn
        have shorter : (nextLevel combine first).length ≤ fuel := by
          rw [nextLevel_length]
          omega
        have levelLength : (nextLevel combine first).length = (nextLevel combine second).length := by
          rw [nextLevel_length, nextLevel_length, sameLength]
        have levelSame := ih shorter (fun pair member => firstIn pair (.inr member))
          (fun pair member => secondIn pair (.inr member)) levelLength same
        exact nextLevel_inj combine injective (fun pair member => firstIn pair (.inl member))
          (fun pair member => secondIn pair (.inl member)) sameLength levelSame

theorem pairRoot_inj (empty : α) {first second : List α}
    (injective : Set.InjOn (fun pair => combine pair.1 pair.2)
      (fun pair => pair ∈ combinedPairs combine first ∨ pair ∈ combinedPairs combine second))
    (sameLength : first.length = second.length)
    (same : pairRoot combine empty first = pairRoot combine empty second) : first = second := by
  refine buildRoot_inj combine empty injective (Nat.le_refl _) ?_ ?_ sameLength ?_
  · intro pair member
    exact .inl member
  · intro pair member
    rw [sameLength] at member
    exact .inr member
  · rw [pairRoot, pairRoot, ← sameLength] at same
    exact same

/-! ## Level by level -/

theorem pairRoot_step (empty : α) {level : List α} (several : 1 < level.length) :
    pairRoot combine empty level = pairRoot combine empty (nextLevel combine level) := by
  obtain ⟨fuel, isFuel⟩ : ∃ fuel, level.length = fuel + 1 := ⟨level.length - 1, by omega⟩
  have enough : (nextLevel combine level).length ≤ fuel := by
    rw [nextLevel_length]
    omega
  rw [← buildRoot_enough combine empty enough, pairRoot, isFuel, buildRoot, if_neg (by omega)]

theorem buildPairs_enough {fuel : Nat} {level : List α} (enough : level.length ≤ fuel) :
    buildPairs combine fuel level = combinedPairs combine level :=
  levels_enough combine (fun _ => []) (fun level pairs => levelPairs level ++ pairs) rfl
    (fun _ _ => rfl) enough

theorem combinedPairs_step {level : List α} (several : 1 < level.length) :
    combinedPairs combine level =
      levelPairs level ++ combinedPairs combine (nextLevel combine level) := by
  obtain ⟨fuel, isFuel⟩ : ∃ fuel, level.length = fuel + 1 := ⟨level.length - 1, by omega⟩
  have enough : (nextLevel combine level).length ≤ fuel := by
    rw [nextLevel_length]
    omega
  rw [← buildPairs_enough combine enough, combinedPairs, isFuel, buildPairs, if_neg (by omega)]

/-- One level of a tree and the level above it. -/
def Above (level above : List α) : Prop := 1 < level.length ∧ above = nextLevel combine level

/-- Levels of one tree, the lower one first. -/
def Ascends : List α → List α → Prop := Relation.ReflTransGen (Above combine)

theorem ascends_to_root (empty : α) {level : List α} (some_ : level ≠ []) :
    Ascends combine level [pairRoot combine empty level] := by
  induction size : level.length using Nat.strong_induction_on generalizing level with
  | _ size_ ih =>
      match level with
      | [] => exact absurd rfl some_
      | [leaf] => exact .refl
      | left :: right :: rest =>
          have several : 1 < (left :: right :: rest).length := by simp
          have shorter : (nextLevel combine (left :: right :: rest)).length < size_ := by
            rw [nextLevel_length]
            omega
          have someAbove : nextLevel combine (left :: right :: rest) ≠ [] := by
            simp [nextLevel, levelPairs]
          rw [pairRoot_step combine empty several]
          exact .head ⟨several, rfl⟩ (ih _ shorter someAbove rfl)

/-! ## Leaves without a repeated stretch

Lists of different lengths can have one root, since an odd level is padded.  Then one of them
has a stretch that is followed by a copy of itself.
-/

/-- No stretch of the list is followed by a copy of itself. -/
def SquareFree (level : List α) : Prop :=
  ∀ before stretch after, level = before ++ (stretch ++ (stretch ++ after)) → stretch = []

theorem squareFree_of_nodup {level : List α} (distinct : level.Nodup) : SquareFree level := by
  rintro before stretch after rfl
  cases stretch with
  | nil => rfl
  | cons node rest =>
      have twice := (List.nodup_append.mp distinct).2.1
      rw [List.cons_append, List.nodup_cons] at twice
      exact absurd (List.mem_append_right rest (List.mem_append_left after List.mem_cons_self)) twice.1

theorem SquareFree.of_append (before : List α) {rest : List α} (free : SquareFree (before ++ rest)) :
    SquareFree rest := by
  rintro front stretch after rfl
  exact free (before ++ front) stretch after (List.append_assoc ..).symm

theorem not_squareFree_twice (before : List α) (node : α) (after : List α) :
    ¬ SquareFree (before ++ node :: node :: after) := fun free =>
  List.cons_ne_nil node [] (free before [node] after rfl)

theorem SquareFree.map {β : Type v} {image : α → β} {level : List α} (free : SquareFree level)
    (injective : ∀ first ∈ level, ∀ second ∈ level, image first = image second → first = second) :
    SquareFree (level.map image) := by
  intro before stretch after split
  obtain ⟨front, later, rfl, _, split⟩ := List.map_eq_append_iff.mp split
  obtain ⟨once, later, rfl, rfl, split⟩ := List.map_eq_append_iff.mp split
  obtain ⟨again, rest, rfl, same, rfl⟩ := List.map_eq_append_iff.mp split
  have repeated : once = again := by
    refine map_inj_between (fun first inOnce second inAgain => ?_) same.symm
    exact injective first (List.mem_append_right _ (List.mem_append_left _ inOnce)) second
      (List.mem_append_right _ (List.mem_append_right _ (List.mem_append_left _ inAgain)))
  subst repeated
  rw [free front once rest rfl, List.map_nil]

/-- Pairs taken apart again. -/
def pairNodes (pairs : List (α × α)) : List α := pairs.flatMap fun pair => [pair.1, pair.2]

theorem pairNodes_append (first second : List (α × α)) :
    pairNodes (first ++ second) = pairNodes first ++ pairNodes second := List.flatMap_append

theorem pairNodes_concat (pairs : List (α × α)) (pair : α × α) :
    pairNodes (pairs ++ [pair]) = pairNodes pairs ++ [pair.1] ++ [pair.2] := by
  rw [pairNodes_append, List.append_assoc]
  rfl

theorem eq_nil_of_pairNodes {pairs : List (α × α)} (none : pairNodes pairs = []) : pairs = [] := by
  cases pairs with
  | nil => rfl
  | cons pair rest => cases none

/-- The pairs of a level taken apart are the level, but for a copy of an odd last node. -/
theorem pairNodes_levelPairs (level : List α) :
    pairNodes (levelPairs level) = level ∨
      ∃ before last, level = before ++ [last] ∧
        pairNodes (levelPairs level) = before ++ [last] ++ [last] := by
  induction level using levelPairs.induct with
  | case1 => exact .inl rfl
  | case2 last => exact .inr ⟨[], last, rfl, rfl⟩
  | case3 left right rest ih =>
      rw [levelPairs, pairNodes, List.flatMap_cons, ← pairNodes]
      rcases ih with whole | ⟨before, last, listed, padded⟩
      · rw [whole]
        exact .inl rfl
      · rw [padded]
        exact .inr ⟨left :: right :: before, last, by rw [listed]; rfl, rfl⟩

/-- A stretch of pairs that repeats is a stretch of nodes that repeats, unless it ends in the
copy of the last node, which then stands twice in the level. -/
theorem levelPairs_squareFree {level : List α} (free : SquareFree level) :
    SquareFree (levelPairs level) := by
  intro before stretch after split
  by_contra repeats
  have apart : pairNodes (levelPairs level) =
      pairNodes before ++ (pairNodes stretch ++ (pairNodes stretch ++ pairNodes after)) := by
    rw [split, pairNodes_append, pairNodes_append, pairNodes_append]
  rcases pairNodes_levelPairs level with whole | ⟨front, last, rfl, padded⟩
  · exact repeats (eq_nil_of_pairNodes (free _ _ _ (whole.symm.trans apart)))
  · rw [padded] at apart
    rcases List.eq_nil_or_concat' after with rfl | ⟨others, pair, rfl⟩
    · obtain ⟨pairs, pair, rfl⟩ := (List.eq_nil_or_concat' stretch).resolve_left repeats
      rw [pairNodes_concat, show pairNodes ([] : List (α × α)) = [] from rfl, List.append_nil,
        ← List.append_assoc, ← List.append_assoc, ← List.append_assoc] at apart
      obtain ⟨ends, copied⟩ := List.append_inj' apart rfl
      obtain ⟨_, lasts⟩ := List.append_inj' ends rfl
      obtain ⟨isLast, _⟩ := List.cons.inj lasts
      obtain ⟨isCopy, _⟩ := List.cons.inj copied
      rw [ends, ← isCopy, ← isLast] at free
      refine not_squareFree_twice (pairNodes before ++ pairNodes pairs) last (pairNodes pairs ++ [last]) ?_
      simpa only [List.append_assoc, List.cons_append, List.nil_append] using free
    · rw [pairNodes_concat, ← List.append_assoc, ← List.append_assoc, ← List.append_assoc] at apart
      obtain ⟨ends, _⟩ := List.append_inj' apart rfl
      rw [ends] at free
      refine repeats (eq_nil_of_pairNodes (free (pairNodes before) (pairNodes stretch)
        (pairNodes others ++ [pair.1]) ?_))
      simp only [List.append_assoc]

/-- A node that is combined with itself is alone: without repeated stretches the nodes are read
off their pairs, however many there are. -/
theorem levelPairs_inj_of_squareFree {first second : List α} (firstFree : SquareFree first)
    (secondFree : SquareFree second) (same : levelPairs first = levelPairs second) :
    first = second := by
  induction first using levelPairs.induct generalizing second with
  | case1 =>
      match second with
      | [] => rfl
      | [_] => simp [levelPairs] at same
      | _ :: _ :: _ => simp [levelPairs] at same
  | case2 last =>
      match second with
      | [] => simp [levelPairs] at same
      | [other] => simpa [levelPairs] using same
      | left :: right :: rest =>
          simp only [levelPairs, List.cons.injEq, Prod.mk.injEq] at same
          obtain ⟨⟨rfl, rfl⟩, _⟩ := same
          exact absurd secondFree (not_squareFree_twice [] last rest)
  | case3 left right rest ih =>
      match second with
      | [] => simp [levelPairs] at same
      | [other] =>
          simp only [levelPairs, List.cons.injEq, Prod.mk.injEq] at same
          obtain ⟨⟨rfl, rfl⟩, _⟩ := same
          exact absurd firstFree (not_squareFree_twice [] _ rest)
      | otherLeft :: otherRight :: others =>
          simp only [levelPairs, List.cons.injEq, Prod.mk.injEq] at same
          obtain ⟨⟨rfl, rfl⟩, restSame⟩ := same
          have firstRest : SquareFree rest := SquareFree.of_append [left, right] firstFree
          have secondRest : SquareFree others := SquareFree.of_append [left, right] secondFree
          rw [ih firstRest secondRest restSame]

section Injective

variable {pairs : Set (α × α)}
  (injective : Set.InjOn (fun pair => combine pair.1 pair.2) pairs)

include injective

theorem nextLevel_squareFree {level : List α} (free : SquareFree level)
    (within : ∀ pair ∈ levelPairs level, pair ∈ pairs) : SquareFree (nextLevel combine level) :=
  (levelPairs_squareFree free).map fun first firstIn second secondIn same =>
    injective (within first firstIn) (within second secondIn) same

theorem nextLevel_inj_of_squareFree {first second : List α} (firstFree : SquareFree first)
    (secondFree : SquareFree second) (firstIn : ∀ pair ∈ levelPairs first, pair ∈ pairs)
    (secondIn : ∀ pair ∈ levelPairs second, pair ∈ pairs)
    (same : nextLevel combine first = nextLevel combine second) : first = second := by
  apply levelPairs_inj_of_squareFree firstFree secondFree
  exact map_inj_between (fun left inFirst right inSecond =>
    injective (firstIn left inFirst) (secondIn right inSecond)) same

theorem Ascends.keeps {level above : List α} (ascends : Ascends combine level above)
    (free : SquareFree level) (within : ∀ pair ∈ combinedPairs combine level, pair ∈ pairs) :
    SquareFree above ∧ ∀ pair ∈ combinedPairs combine above, pair ∈ pairs := by
  induction ascends with
  | refl => exact ⟨free, within⟩
  | tail _ next ih =>
      obtain ⟨several, rfl⟩ := next
      obtain ⟨free, within⟩ := ih
      rw [combinedPairs_step combine several] at within
      exact ⟨nextLevel_squareFree combine injective free fun pair member =>
          within pair (List.mem_append_left _ member),
        fun pair member => within pair (List.mem_append_right _ member)⟩

/-- A level above the next level of `second` that is the next level of `first`
has `first` below it. -/
theorem Ascends.below {first second : List α} (firstSeveral : 1 < first.length)
    (secondSeveral : 1 < second.length) (firstFree : SquareFree first)
    (secondFree : SquareFree second) (firstIn : ∀ pair ∈ combinedPairs combine first, pair ∈ pairs)
    (secondIn : ∀ pair ∈ combinedPairs combine second, pair ∈ pairs)
    (ascends : Ascends combine (nextLevel combine second) (nextLevel combine first)) :
    Ascends combine second first := by
  have up : Above combine second (nextLevel combine second) := ⟨secondSeveral, rfl⟩
  have firstLevel : ∀ pair ∈ levelPairs first, pair ∈ pairs := fun pair member =>
    firstIn pair (by
      rw [combinedPairs_step combine firstSeveral]
      exact List.mem_append_left _ member)
  have firstLast : ∀ level, Ascends combine second level → 1 < level.length →
      nextLevel combine first = nextLevel combine level → first = level := by
    intro level reached several same
    obtain ⟨free, within⟩ := reached.keeps combine injective secondFree secondIn
    rw [combinedPairs_step combine several] at within
    exact nextLevel_inj_of_squareFree combine injective firstFree free firstLevel
      (fun pair member => within pair (List.mem_append_left _ member)) same
  rcases ascends.cases_tail with same | ⟨level, before, several, same⟩
  · rw [firstLast second .refl secondSeveral same]
    exact .refl
  · have reached : Ascends combine second level := .head up before
    rw [firstLast level reached several same]
    exact reached

theorem ascends_of_same_root (empty : α) {first second : List α} (firstSome : first ≠ [])
    (secondSome : second ≠ []) (firstFree : SquareFree first) (secondFree : SquareFree second)
    (firstIn : ∀ pair ∈ combinedPairs combine first, pair ∈ pairs)
    (secondIn : ∀ pair ∈ combinedPairs combine second, pair ∈ pairs)
    (same : pairRoot combine empty first = pairRoot combine empty second) :
    Ascends combine second first ∨ Ascends combine first second := by
  induction size : first.length using Nat.strong_induction_on generalizing first second with
  | _ size_ ih =>
      by_cases firstSeveral : 1 < first.length
      · by_cases secondSeveral : 1 < second.length
        · have shorter : (nextLevel combine first).length < size_ := by
            rw [nextLevel_length]
            omega
          have firstAbove : Ascends combine first (nextLevel combine first) :=
            .single ⟨firstSeveral, rfl⟩
          have secondAbove : Ascends combine second (nextLevel combine second) :=
            .single ⟨secondSeveral, rfl⟩
          obtain ⟨firstNext, firstNextIn⟩ :=
            firstAbove.keeps combine injective firstFree firstIn
          obtain ⟨secondNext, secondNextIn⟩ :=
            secondAbove.keeps combine injective secondFree secondIn
          have nonempty : ∀ level : List α, 1 < level.length → nextLevel combine level ≠ [] := by
            intro level several none
            have noNodes := congrArg List.length none
            rw [nextLevel_length, List.length_nil] at noNodes
            omega
          rw [pairRoot_step combine empty firstSeveral, pairRoot_step combine empty secondSeveral]
            at same
          rcases ih _ shorter (nonempty first firstSeveral) (nonempty second secondSeveral)
            firstNext secondNext firstNextIn secondNextIn same rfl with lower | lower
          · exact .inl (Ascends.below combine injective firstSeveral secondSeveral firstFree
              secondFree firstIn secondIn lower)
          · exact .inr (Ascends.below combine injective secondSeveral firstSeveral secondFree
              firstFree secondIn firstIn lower)
        · obtain ⟨root, rfl⟩ : ∃ root, second = [root] :=
            List.length_eq_one_iff.mp
              (by have := List.length_pos_iff.mpr secondSome; omega)
          have up := ascends_to_root combine empty firstSome
          rw [same] at up
          exact .inr up
      · obtain ⟨root, rfl⟩ : ∃ root, first = [root] :=
          List.length_eq_one_iff.mp
            (by have := List.length_pos_iff.mpr firstSome; omega)
        have up := ascends_to_root combine empty secondSome
        rw [← same] at up
        exact .inl up

/-- No leaf is a combined node: the root determines leaves without a repeated
stretch, however many there are. -/
theorem pairRoot_inj_of_squareFree (empty : α) {first second : List α} (firstSome : first ≠ [])
    (secondSome : second ≠ []) (firstFree : SquareFree first) (secondFree : SquareFree second)
    (firstIn : ∀ pair ∈ combinedPairs combine first, pair ∈ pairs)
    (secondIn : ∀ pair ∈ combinedPairs combine second, pair ∈ pairs)
    (apart : ∀ leaf, leaf ∈ first ∨ leaf ∈ second → ∀ pair ∈ pairs, leaf ≠ combine pair.1 pair.2)
    (same : pairRoot combine empty first = pairRoot combine empty second) : first = second := by
  have same_level : ∀ lower upper : List α, upper ≠ [] → SquareFree lower →
      (∀ pair ∈ combinedPairs combine lower, pair ∈ pairs) →
      (∀ leaf ∈ upper, ∀ pair ∈ pairs, leaf ≠ combine pair.1 pair.2) →
      Ascends combine lower upper → upper = lower := by
    intro lower upper nonempty free within notNodes ascends
    rcases ascends.cases_tail with same | ⟨level, before, several, rfl⟩
    · exact same
    · have inLevel := (Ascends.keeps combine injective before free within).2
      rw [combinedPairs_step combine several] at inLevel
      obtain ⟨node, isNode⟩ := List.exists_mem_of_ne_nil _ nonempty
      obtain ⟨pair, isPair, rfl⟩ := List.mem_map.mp isNode
      exact absurd rfl (notNodes _ isNode pair (inLevel pair (List.mem_append_left _ isPair)))
  rcases ascends_of_same_root combine injective empty firstSome secondSome firstFree
    secondFree firstIn secondIn same with lower | lower
  · exact same_level second first firstSome secondFree secondIn
      (fun leaf member => apart leaf (.inl member)) lower
  · exact (same_level first second secondSome firstFree firstIn
      (fun leaf member => apart leaf (.inr member)) lower).symm

theorem pairRoot_inj_of_nodup (empty : α) {first second : List α} (firstSome : first ≠ [])
    (secondSome : second ≠ []) (firstDistinct : first.Nodup) (secondDistinct : second.Nodup)
    (firstIn : ∀ pair ∈ combinedPairs combine first, pair ∈ pairs)
    (secondIn : ∀ pair ∈ combinedPairs combine second, pair ∈ pairs)
    (apart : ∀ leaf, leaf ∈ first ∨ leaf ∈ second → ∀ pair ∈ pairs, leaf ≠ combine pair.1 pair.2)
    (same : pairRoot combine empty first = pairRoot combine empty second) : first = second :=
  pairRoot_inj_of_squareFree combine injective empty firstSome secondSome
    (squareFree_of_nodup firstDistinct) (squareFree_of_nodup secondDistinct) firstIn secondIn apart
    same

end Injective

/-! ## Paths

The neighbours on the way from a leaf to the root, each with whether it is on the right.
-/

def buildPath : Nat → List α → Nat → List (α × Bool)
  | 0, _, _ => []
  | fuel + 1, level, index =>
      if level.length ≤ 1 then []
      else
        match (levelPairs level)[index / 2]? with
        | none => []
        | some (left, right) =>
            (if index % 2 = 0 then (right, true) else (left, false)) ::
              buildPath fuel (nextLevel combine level) (index / 2)

def siblingPath (leaves : List α) (index : Nat) : List (α × Bool) :=
  buildPath combine leaves.length leaves index

def climbStep (node : α) (sibling : α × Bool) : α :=
  if sibling.2 then combine node sibling.1 else combine sibling.1 node

def climb (leaf : α) (path : List (α × Bool)) : α := path.foldl (climbStep combine) leaf

/-- A node is one half of its pair. -/
theorem levelPairs_getElem {level : List α} {index : Nat} (inside : index < level.length) :
    ∃ left right, (levelPairs level)[index / 2]? = some (left, right) ∧
      level[index] = if index % 2 = 0 then left else right := by
  induction level using levelPairs.induct generalizing index with
  | case1 => simp at inside
  | case2 last =>
      obtain rfl : index = 0 := by simpa using inside
      exact ⟨last, last, rfl, rfl⟩
  | case3 left right rest ih =>
      match index with
      | 0 => exact ⟨left, right, rfl, rfl⟩
      | 1 => exact ⟨left, right, rfl, rfl⟩
      | index + 2 =>
          have insideRest : index < rest.length := by simpa using inside
          obtain ⟨restLeft, restRight, isPair, isNode⟩ := ih insideRest
          have half : (index + 2) / 2 = index / 2 + 1 := by omega
          have parity : (index + 2) % 2 = index % 2 := by omega
          refine ⟨restLeft, restRight, ?_, ?_⟩
          · rw [half]
            exact isPair
          · rw [parity]
            exact isNode

theorem climb_buildPath (empty : α) {fuel : Nat} {level : List α} (enough : level.length ≤ fuel)
    {index : Nat} (inside : index < level.length) :
    climb combine level[index] (buildPath combine fuel level index) =
      pairRoot combine empty level := by
  induction fuel generalizing level index with
  | zero => omega
  | succ fuel ih =>
      by_cases single : level.length ≤ 1
      · obtain ⟨leaf, rfl⟩ : ∃ leaf, level = [leaf] := List.length_eq_one_iff.mp (by omega)
        obtain rfl : index = 0 := by simpa using inside
        rfl
      · obtain ⟨left, right, isPair, isNode⟩ := levelPairs_getElem inside
        have shorter : (nextLevel combine level).length ≤ fuel := by
          rw [nextLevel_length]
          omega
        have insideNext : index / 2 < (nextLevel combine level).length := by
          rw [nextLevel_length]
          omega
        have parent : (nextLevel combine level)[index / 2] = combine left right := by
          have above : (nextLevel combine level)[index / 2]? = some (combine left right) := by
            simp only [nextLevel, List.getElem?_map, isPair, Option.map_some]
          exact (List.getElem?_eq_some_iff.mp above).2
        have rest := ih shorter insideNext
        rw [parent] at rest
        rw [buildPath, if_neg single, isPair, pairRoot_step combine empty (by omega), ← rest, isNode]
        by_cases even : index % 2 = 0
        · simp [climb, climbStep, even]
        · simp [climb, climbStep, even]

theorem climb_siblingPath (empty : α) {leaves : List α} {index : Nat}
    (inside : index < leaves.length) :
    climb combine leaves[index] (siblingPath combine leaves index) =
      pairRoot combine empty leaves :=
  climb_buildPath combine empty (Nat.le_refl _) inside

theorem siblingPath_eq_nil_iff {leaves : List α} {index : Nat} (inside : index < leaves.length) :
    siblingPath combine leaves index = [] ↔ leaves.length = 1 := by
  obtain ⟨left, right, isPair, _⟩ := levelPairs_getElem inside
  obtain ⟨fuel, isFuel⟩ : ∃ fuel, leaves.length = fuel + 1 := ⟨leaves.length - 1, by omega⟩
  rw [siblingPath, isFuel, buildPath, isPair]
  by_cases single : leaves.length ≤ 1
  · rw [if_pos single]
    simp only [true_iff]
    omega
  · rw [if_neg single]
    simp only [reduceCtorEq, false_iff]
    omega

end Parthenon.Library
