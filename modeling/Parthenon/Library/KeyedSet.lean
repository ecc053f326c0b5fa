import Parthenon.Library.OrderedMap
import Mathlib.Data.List.Nodup

namespace Parthenon.Library

open Std

/-! # Ordered sets that compare keys

A set whose comparator looks at a key of its elements only.  Elements with one
key are one element to it: inserting the second changes nothing, and erasing one
erases whichever is there.
-/

variable {α : Type u} {κ : Type v} [Ord κ] [TransOrd κ] [LawfulEqOrd κ]

/-- The elements by their keys. -/
@[ext] structure KeyedSet (key : α → κ) where
  entries : ExtTreeMap κ α compare
  keyed : ∀ (place : κ) element, entries[place]? = some element → key element = place

namespace KeyedSet

variable {key : α → κ}

def empty : KeyedSet key where
  entries := ∅
  keyed := by
    intro place element found
    rw [ExtTreeMap.getElem?_empty] at found
    cases found

instance : Membership α (KeyedSet key) where
  mem set element := set.entries[key element]? = some element

omit [LawfulEqOrd κ] in
theorem mem_iff {set : KeyedSet key} {element : α} :
    element ∈ set ↔ set.entries[key element]? = some element := Iff.rfl

omit [LawfulEqOrd κ] in
theorem not_mem_empty (element : α) : element ∉ (empty : KeyedSet key) := by
  intro member
  have found : (∅ : ExtTreeMap κ α compare)[key element]? = some element := member
  rw [ExtTreeMap.getElem?_empty] at found
  cases found

omit [LawfulEqOrd κ] in
theorem mem_of_entry {set : KeyedSet key} {place : κ} {element : α}
    (found : set.entries[place]? = some element) : element ∈ set := by
  rw [mem_iff, set.keyed place element found]
  exact found

omit [LawfulEqOrd κ] in
theorem eq_of_key_eq {set : KeyedSet key} {left right : α} (leftIn : left ∈ set)
    (rightIn : right ∈ set) (same : key left = key right) : left = right := by
  rw [mem_iff] at leftIn rightIn
  rw [same, rightIn] at leftIn
  exact (Option.some.inj leftIn).symm

variable [DecidableEq κ]

/-- An element with a key that is taken is not inserted. -/
def insert (set : KeyedSet key) (element : α) : KeyedSet key where
  entries := set.entries.insertIfNew (key element) element
  keyed := by
    intro place other found
    rw [ExtTreeMap.getElem?_insertIfNew] at found
    split at found
    · rename_i new
      cases found
      exact LawfulEqCmp.compare_eq_iff_eq.mp new.1
    · exact set.keyed place other found

/-- Erase the element with the key of the given one. -/
def erase (set : KeyedSet key) (element : α) : KeyedSet key where
  entries := set.entries.erase (key element)
  keyed := by
    intro place other found
    rw [getElem?_erase_eq] at found
    split at found
    · cases found
    · exact set.keyed place other found

def isEmpty (set : KeyedSet key) : Bool := set.entries.isEmpty

/-- The elements in the order of their keys. -/
def toList (set : KeyedSet key) : List α := set.entries.toList.map Prod.snd

/-- The element with the greatest key. -/
def last? (set : KeyedSet key) : Option α := set.toList.getLast?

theorem mem_insert_of_free {set : KeyedSet key} {element : α}
    (free : ∀ other ∈ set, key other ≠ key element) (other : α) :
    other ∈ set.insert element ↔ other = element ∨ other ∈ set := by
  have absent : set.entries[key element]? = none := by
    cases found : set.entries[key element]? with
    | none => rfl
    | some taken =>
        exact absurd (set.keyed _ _ found) (free taken (mem_of_entry found))
  have missing : ¬ key element ∈ set.entries := by
    rw [ExtTreeMap.mem_iff_isSome_getElem?, absent]
    exact Bool.false_ne_true
  rw [mem_iff, mem_iff, insert, ExtTreeMap.getElem?_insertIfNew]
  by_cases same : key element = key other
  · rw [if_pos ⟨LawfulEqCmp.compare_eq_iff_eq.mpr same, missing⟩, ← same, absent]
    simp [eq_comm]
  · have different : ¬ (compare (key element) (key other) = .eq ∧ ¬ key element ∈ set.entries) :=
      fun new => same (LawfulEqCmp.compare_eq_iff_eq.mp new.1)
    rw [if_neg different]
    constructor
    · exact .inr
    · intro either
      cases either with
      | inl isElement => exact absurd (congrArg key isElement.symm) same
      | inr found => exact found

omit [DecidableEq κ] in
theorem mem_of_mem_insert {set : KeyedSet key} {element other : α}
    (member : other ∈ set.insert element) : other = element ∨ other ∈ set := by
  rw [mem_iff, insert, ExtTreeMap.getElem?_insertIfNew] at member
  split at member
  · exact .inl (Option.some.inj member).symm
  · exact .inr member

theorem mem_erase (set : KeyedSet key) (element other : α) :
    other ∈ set.erase element ↔ other ∈ set ∧ key element ≠ key other := by
  rw [mem_iff, mem_iff, erase, getElem?_erase_eq]
  by_cases same : key element = key other
  · simp [same]
  · simp [same]

omit [DecidableEq κ] in
theorem mem_toList {set : KeyedSet key} {element : α} : element ∈ set.toList ↔ element ∈ set := by
  rw [toList, List.mem_map]
  constructor
  · intro listed
    obtain ⟨entry, member, rfl⟩ := listed
    exact mem_of_entry (ExtTreeMap.mem_toList_iff_getElem?_eq_some.mp member)
  · intro member
    exact ⟨(key element, element), ExtTreeMap.mem_toList_iff_getElem?_eq_some.mpr member, rfl⟩

omit [DecidableEq κ] in
theorem last?_eq_none {set : KeyedSet key} (empty : set.last? = none) (element : α) :
    element ∉ set := by
  intro member
  rw [last?, List.getLast?_eq_none_iff] at empty
  have listed := mem_toList.mpr member
  rw [empty] at listed
  cases listed

omit [DecidableEq κ] in
theorem last?_greatest {set : KeyedSet key} {element other : α} (last : set.last? = some element)
    (member : other ∈ set) : (compare (key other) (key element)).isLE = true := by
  have ordered : set.toList.Pairwise fun left right => compare (key left) (key right) = .lt := by
    rw [toList, List.pairwise_map]
    refine set.entries.ordered_keys_toList.imp_of_mem ?_
    intro left right leftIn rightIn before
    rw [set.keyed _ _ (ExtTreeMap.mem_toList_iff_getElem?_eq_some.mp leftIn),
      set.keyed _ _ (ExtTreeMap.mem_toList_iff_getElem?_eq_some.mp rightIn)]
    exact before
  obtain ⟨front, listed⟩ := List.getLast?_eq_some_iff.mp last
  have position := mem_toList.mpr member
  rw [listed] at ordered position
  rcases List.mem_append.mp position with earlier | isLast
  · have before := (List.pairwise_append.mp ordered).2.2 other earlier element (List.mem_singleton_self _)
    rw [before]
    rfl
  · obtain rfl := List.mem_singleton.mp isLast
    have same : compare (key other) (key other) = .eq := ReflCmp.compare_self
    rw [same]
    rfl

/-- An element with the rest of the set. -/
theorem toList_perm_erase {set : KeyedSet key} {element : α} (member : element ∈ set) :
    set.toList.Perm (element :: (set.erase element).toList) :=
  (toList_perm_of_found member).map Prod.snd

theorem erase_of_key_eq (set : KeyedSet key) {left right : α} (same : key left = key right) :
    set.erase left = set.erase right := by
  have entries : set.entries.erase (key left) = set.entries.erase (key right) := by rw [same]
  exact KeyedSet.ext entries

omit [DecidableEq κ] in
theorem toList_nodup (set : KeyedSet key) : set.toList.Nodup := by
  apply List.Nodup.map_on _ (Library.toList_nodup set.entries)
  intro left leftIn right rightIn same
  have leftKey := set.keyed _ _ (ExtTreeMap.mem_toList_iff_getElem?_eq_some.mp leftIn)
  have rightKey := set.keyed _ _ (ExtTreeMap.mem_toList_iff_getElem?_eq_some.mp rightIn)
  exact Prod.ext (by rw [← leftKey, ← rightKey, same]) same

omit [DecidableEq κ] in
theorem last?_mem {set : KeyedSet key} {element : α} (last : set.last? = some element) :
    element ∈ set := mem_toList.mp (List.mem_of_getLast? last)

end KeyedSet

end Parthenon.Library
