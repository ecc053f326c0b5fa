import Std.Data.ExtTreeMap
import Mathlib.Algebra.BigOperators.Group.List.Basic
import Mathlib.Algebra.Order.BigOperators.Group.List
import Mathlib.Algebra.Order.Ring.Nat
import Mathlib.Data.List.Perm.Basic

namespace Parthenon.Library

open Std

/-! # Ordered maps

Finite maps with a fixed iteration order.  Two maps are equal when they agree
at every key, so a sequence of writes is determined by the last write to each
key, and a weighted sum over the entries changes only at the written key.
-/

variable {κ : Type u} {β : Type v} {cmp : κ → κ → Ordering}

section Lookup

variable [TransCmp cmp] [LawfulEqCmp cmp]

theorem getElem?_insert_eq [DecidableEq κ] (map : ExtTreeMap κ β cmp) (key other : κ) (value : β) :
    (map.insert key value)[other]? = if key = other then some value else map[other]? := by
  rw [ExtTreeMap.getElem?_insert]
  simp only [LawfulEqCmp.compare_eq_iff_eq]

/-- What holds of every entry holds of every entry after one more is written of which it holds. -/
theorem forall_insert [DecidableEq κ] {holds : κ → β → Prop} {map : ExtTreeMap κ β cmp} {key : κ}
    {value : β} (all : ∀ (other : κ) stored, map[other]? = some stored → holds other stored)
    (here : holds key value) :
    ∀ (other : κ) stored, (map.insert key value)[other]? = some stored → holds other stored := by
  intro other stored found
  rw [getElem?_insert_eq] at found
  split at found
  · rename_i same
    cases found
    exact same ▸ here
  · exact all other stored found

/-- The lookups of a map after one entry is written. -/
theorem getElem?_insert_update [DecidableEq κ] (map : ExtTreeMap κ β cmp) (key : κ) (value : β) :
    (fun other => (map.insert key value)[other]?) =
      Function.update (fun other => map[other]?) key (some value) := by
  funext other
  rw [getElem?_insert_eq, Function.update_apply]
  simp only [eq_comm]

theorem getElem?_erase_eq [DecidableEq κ] (map : ExtTreeMap κ β cmp) (key other : κ) :
    (map.erase key)[other]? = if key = other then none else map[other]? := by
  rw [ExtTreeMap.getElem?_erase]
  simp only [LawfulEqCmp.compare_eq_iff_eq]

omit [LawfulEqCmp cmp] in
theorem not_found_empty {key : κ} {value : β} : ¬ (∅ : ExtTreeMap κ β cmp)[key]? = some value := by
  rw [ExtTreeMap.getElem?_empty]
  exact nofun

theorem getElem?_foldl_erase [DecidableEq κ] (keys : List κ) (map : ExtTreeMap κ β cmp) (key : κ) :
    (keys.foldl (fun map erased => map.erase erased) map)[key]? =
      if key ∈ keys then none else map[key]? := by
  induction keys generalizing map with
  | nil => simp
  | cons erased rest ih =>
      rw [List.foldl_cons, ih, getElem?_erase_eq]
      by_cases later : key ∈ rest
      · simp [later]
      · simp [later, eq_comm]

theorem getElem?_foldl_insert [DecidableEq κ] (keys : List κ) (value : β)
    (map : ExtTreeMap κ β cmp) (key : κ) :
    (keys.foldl (fun map inserted => map.insert inserted value) map)[key]? =
      if key ∈ keys then some value else map[key]? := by
  induction keys generalizing map with
  | nil => simp
  | cons inserted rest ih =>
      rw [List.foldl_cons, ih, getElem?_insert_eq]
      by_cases later : key ∈ rest
      · simp [later]
      · simp [later, eq_comm]

theorem insert_erase_of_found [DecidableEq κ] {map : ExtTreeMap κ β cmp} {key : κ} {value : β}
    (found : map[key]? = some value) : (map.erase key).insert key value = map := by
  apply ExtTreeMap.ext_getElem?
  intro other
  rw [getElem?_insert_eq, getElem?_erase_eq]
  split
  · subst other
    exact found.symm
  · rfl

theorem insert_of_found [DecidableEq κ] {map : ExtTreeMap κ β cmp} {key : κ} {value : β}
    (found : map[key]? = some value) : map.insert key value = map := by
  apply ExtTreeMap.ext_getElem?
  intro other
  rw [getElem?_insert_eq]
  split
  · subst other
    exact found.symm
  · rfl

/-- The entries of a map form a list without repetitions. -/
theorem toList_nodup (map : ExtTreeMap κ β cmp) : map.toList.Nodup := by
  apply List.Pairwise.imp _ map.distinct_keys_toList
  intro left right different same
  subst same
  exact different ReflCmp.compare_self

/-- An inserted entry is the one new member of the entry list, and the entries
at the other keys are the ones of the map without that key. -/
theorem toList_insert_perm (map : ExtTreeMap κ β cmp) (key : κ) (value : β) :
    (map.insert key value).toList.Perm ((key, value) :: (map.erase key).toList) := by
  classical
  apply (List.perm_ext_iff_of_nodup (toList_nodup _) _).mpr
  · intro entry
    obtain ⟨other, stored⟩ := entry
    rw [ExtTreeMap.mem_toList_iff_getElem?_eq_some, getElem?_insert_eq, List.mem_cons,
      ExtTreeMap.mem_toList_iff_getElem?_eq_some, getElem?_erase_eq]
    by_cases same : key = other
    · subst other
      simp [eq_comm]
    · simp [same, Ne.symm same]
  · apply List.nodup_cons.mpr
    refine ⟨?_, toList_nodup _⟩
    rw [ExtTreeMap.mem_toList_iff_getElem?_eq_some, getElem?_erase_eq, if_pos rfl]
    simp

theorem toList_perm_of_found [DecidableEq κ] {map : ExtTreeMap κ β cmp} {key : κ} {value : β}
    (found : map[key]? = some value) : map.toList.Perm ((key, value) :: (map.erase key).toList) := by
  have restored := toList_insert_perm (map.erase key) key value
  rw [insert_erase_of_found found] at restored
  have again : (map.erase key).erase key = map.erase key := by
    apply ExtTreeMap.ext_getElem?
    intro other
    simp only [getElem?_erase_eq]
    split <;> rfl
  rwa [again] at restored

end Lookup

section Totals

variable [TransCmp cmp]

/-- The weighted sum over the entries of a map. -/
def total (weight : κ → β → Nat) (map : ExtTreeMap κ β cmp) : Nat :=
  (map.toList.map fun entry => weight entry.1 entry.2).sum

@[simp] theorem total_empty (weight : κ → β → Nat) : total weight (∅ : ExtTreeMap κ β cmp) = 0 := by
  rw [total, ExtTreeMap.toList_eq_nil_iff.mpr rfl]
  rfl

variable [LawfulEqCmp cmp] (weight : κ → β → Nat)

theorem total_insert (map : ExtTreeMap κ β cmp) (key : κ) (value : β) :
    total weight (map.insert key value) = weight key value + total weight (map.erase key) := by
  unfold total
  rw [((toList_insert_perm map key value).map _).sum_eq]
  simp

theorem total_of_found {map : ExtTreeMap κ β cmp} {key : κ} {value : β}
    (found : map[key]? = some value) :
    total weight map = weight key value + total weight (map.erase key) := by
  classical
  unfold total
  rw [((toList_perm_of_found found).map _).sum_eq]
  simp

theorem erase_of_missing {map : ExtTreeMap κ β cmp} {key : κ}
    (missing : map[key]? = none) : map.erase key = map := by
  classical
  apply ExtTreeMap.ext_getElem?
  intro other
  rw [getElem?_erase_eq]
  split
  · subst other
    exact missing.symm
  · rfl

/-- An insertion exchanges the weight of what was at the key for the new one. -/
theorem total_insert_exchange (map : ExtTreeMap κ β cmp) (key : κ) (value : β) :
    total weight (map.insert key value) + (map[key]?.map (weight key)).getD 0 =
      total weight map + weight key value := by
  rw [total_insert]
  cases found : map[key]? with
  | none =>
      rw [erase_of_missing found]
      simp only [Option.map_none, Option.getD_none]
      omega
  | some old =>
      rw [total_of_found weight found]
      simp only [Option.map_some, Option.getD_some]
      omega

theorem total_erase_le (map : ExtTreeMap κ β cmp) (key : κ) :
    total weight (map.erase key) ≤ total weight map := by
  cases found : map[key]? with
  | none => rw [erase_of_missing found]
  | some value =>
      rw [total_of_found weight found]
      exact Nat.le_add_left _ _

theorem total_insert_le (map : ExtTreeMap κ β cmp) (key : κ) (value : β) :
    total weight (map.insert key value) ≤ weight key value + total weight map := by
  rw [total_insert]
  exact Nat.add_le_add_left (total_erase_le weight map key) _

theorem weight_le_total {map : ExtTreeMap κ β cmp} {key : κ} {value : β}
    (found : map[key]? = some value) : weight key value ≤ total weight map := by
  rw [total_of_found weight found]
  exact Nat.le_add_right _ _

theorem total_mono {smaller larger : ExtTreeMap κ β cmp}
    (contained : ∀ (key : κ) value, smaller[key]? = some value → larger[key]? = some value) :
    total weight smaller ≤ total weight larger := by
  have subset : smaller.toList ⊆ larger.toList := by
    intro entry member
    obtain ⟨key, value⟩ := entry
    rw [ExtTreeMap.mem_toList_iff_getElem?_eq_some] at member ⊢
    exact contained key value member
  obtain ⟨permuted, same, sublist⟩ := (List.subperm_of_subset (toList_nodup smaller) subset)
  unfold total
  rw [← (same.map _).sum_eq]
  exact (sublist.map _).sum_le_sum fun _ _ => Nat.zero_le _

end Totals

section Updates

/-- A write to a map: a value to store at a key, or a key to remove. -/
abbrev Update (κ : Type u) (β : Type v) := κ × Option β

def applyUpdate [TransCmp cmp] (map : ExtTreeMap κ β cmp) (update : Update κ β) :
    ExtTreeMap κ β cmp :=
  match update.2 with
  | some value => map.insert update.1 value
  | none => map.erase update.1

def applyUpdates [TransCmp cmp] (map : ExtTreeMap κ β cmp) (updates : List (Update κ β)) :
    ExtTreeMap κ β cmp :=
  updates.foldl applyUpdate map

@[simp] theorem applyUpdates_nil [TransCmp cmp] (map : ExtTreeMap κ β cmp) :
    applyUpdates map [] = map := rfl

@[simp] theorem applyUpdates_cons [TransCmp cmp] (map : ExtTreeMap κ β cmp) (update : Update κ β)
    (rest : List (Update κ β)) :
    applyUpdates map (update :: rest) = applyUpdates (applyUpdate map update) rest := rfl

theorem applyUpdates_append [TransCmp cmp] (map : ExtTreeMap κ β cmp)
    (first second : List (Update κ β)) :
    applyUpdates map (first ++ second) = applyUpdates (applyUpdates map first) second :=
  List.foldl_append

variable [DecidableEq κ]

/-- The last write to a key, if a list of writes touches it at all. -/
def lastWrite : List (Update κ β) → κ → Option (Option β)
  | [], _ => none
  | update :: rest, key =>
      (lastWrite rest key).or (if update.1 = key then some update.2 else none)

/-- The first write to a key, if a list of writes touches it at all. -/
def firstWrite : List (Update κ β) → κ → Option (Option β)
  | [], _ => none
  | update :: rest, key => if update.1 = key then some update.2 else firstWrite rest key

@[simp] theorem lastWrite_nil (key : κ) : lastWrite ([] : List (Update κ β)) key = none := rfl

@[simp] theorem firstWrite_nil (key : κ) : firstWrite ([] : List (Update κ β)) key = none := rfl

theorem lastWrite_append (first second : List (Update κ β)) (key : κ) :
    lastWrite (first ++ second) key = (lastWrite second key).or (lastWrite first key) := by
  induction first with
  | nil => simp
  | cons update rest ih => simp only [List.cons_append, lastWrite, ih, Option.or_assoc]

theorem firstWrite_append (first second : List (Update κ β)) (key : κ) :
    firstWrite (first ++ second) key = (firstWrite first key).or (firstWrite second key) := by
  induction first with
  | nil => simp
  | cons update rest ih =>
      simp only [List.cons_append, firstWrite, ih]
      split <;> rfl

theorem lastWrite_reverse (updates : List (Update κ β)) (key : κ) :
    lastWrite updates.reverse key = firstWrite updates key := by
  induction updates with
  | nil => rfl
  | cons update rest ih =>
      rw [List.reverse_cons, lastWrite_append, ih]
      simp only [lastWrite, firstWrite]
      split <;> simp

theorem lastWrite_eq_none {updates : List (Update κ β)} {key : κ} :
    lastWrite updates key = none ↔ ∀ update ∈ updates, update.1 ≠ key := by
  induction updates with
  | nil => simp
  | cons update rest ih =>
      simp only [lastWrite, Option.or_eq_none_iff, ih, List.forall_mem_cons]
      by_cases same : update.1 = key <;> simp [same]

theorem firstWrite_eq_none {updates : List (Update κ β)} {key : κ} :
    firstWrite updates key = none ↔ ∀ update ∈ updates, update.1 ≠ key := by
  rw [← lastWrite_reverse, lastWrite_eq_none]
  simp only [List.mem_reverse]

theorem mem_of_lastWrite {updates : List (Update κ β)} {key : κ} {written : Option β}
    (wrote : lastWrite updates key = some written) : (key, written) ∈ updates := by
  induction updates with
  | nil => simp at wrote
  | cons update rest ih =>
      simp only [lastWrite, Option.or_eq_some_iff] at wrote
      rcases wrote with later | ⟨_, here⟩
      · exact List.mem_cons_of_mem _ (ih later)
      · split at here
        · rename_i same
          cases here
          subst same
          exact List.mem_cons_self
        · contradiction

variable [TransCmp cmp] [LawfulEqCmp cmp]

theorem getElem?_applyUpdate (map : ExtTreeMap κ β cmp) (update : Update κ β) (key : κ) :
    (applyUpdate map update)[key]? = if update.1 = key then update.2 else map[key]? := by
  obtain ⟨written, value⟩ := update
  cases value with
  | none => exact getElem?_erase_eq map written key
  | some value => exact getElem?_insert_eq map written key value

/-- Every key holds what the last write to it left, or its old value. -/
theorem getElem?_applyUpdates (map : ExtTreeMap κ β cmp) (updates : List (Update κ β)) (key : κ) :
    (applyUpdates map updates)[key]? = (lastWrite updates key).getD map[key]? := by
  induction updates generalizing map with
  | nil => rfl
  | cons update rest ih =>
      rw [applyUpdates_cons, ih, getElem?_applyUpdate]
      simp only [lastWrite]
      cases lastWrite rest key with
      | some written => rfl
      | none => split <;> simp_all

/-- A list of writes leaves a map as it was exactly when the last write to each
key repeats what the key already holds. -/
theorem applyUpdates_eq_self_iff (map : ExtTreeMap κ β cmp) (updates : List (Update κ β)) :
    applyUpdates map updates = map ↔
      ∀ (key : κ) written, lastWrite updates key = some written → map[key]? = written := by
  constructor
  · intro same key written wrote
    have looked := getElem?_applyUpdates map updates key
    rw [same, wrote] at looked
    exact looked
  · intro repeats
    apply ExtTreeMap.ext_getElem?
    intro key
    rw [getElem?_applyUpdates]
    cases wrote : lastWrite updates key with
    | none => rfl
    | some written => exact (repeats key written wrote).symm

end Updates

section Adjust

variable {γ : Type w} [TransCmp cmp]

/-- Change the value at every key of `changes`, reading an absent value as `default`. -/
def adjustAll (step : β → γ → β) (default : β) (map : ExtTreeMap κ β cmp)
    (changes : ExtTreeMap κ γ cmp) : ExtTreeMap κ β cmp :=
  changes.toList.foldl
    (fun adjusted change => adjusted.insert change.1 (step (adjusted.getD change.1 default) change.2))
    map

variable [LawfulEqCmp cmp] (step : β → γ → β) (default : β)

theorem getD_insert_eq [DecidableEq κ] (map : ExtTreeMap κ β cmp) (key other : κ) (value : β) :
    (map.insert key value).getD other default =
      if key = other then value else map.getD other default := by
  rw [ExtTreeMap.getD_insert]
  simp only [LawfulEqCmp.compare_eq_iff_eq]

private theorem getD_foldl_adjust_of_notMem {changes : List (κ × γ)} {key : κ}
    (untouched : ∀ change ∈ changes, change.1 ≠ key) (map : ExtTreeMap κ β cmp) :
    (changes.foldl (fun adjusted change =>
      adjusted.insert change.1 (step (adjusted.getD change.1 default) change.2)) map).getD key default =
      map.getD key default := by
  classical
  induction changes generalizing map with
  | nil => rfl
  | cons change rest ih =>
      obtain ⟨here, later⟩ := List.forall_mem_cons.mp untouched
      rw [List.foldl_cons, ih later, getD_insert_eq, if_neg here]

private theorem getD_foldl_adjust_of_mem {changes : List (κ × γ)} {key : κ} {change : γ}
    (distinct : changes.Pairwise fun left right => left.1 ≠ right.1) (listed : (key, change) ∈ changes)
    (map : ExtTreeMap κ β cmp) :
    (changes.foldl (fun adjusted change =>
      adjusted.insert change.1 (step (adjusted.getD change.1 default) change.2)) map).getD key default =
      step (map.getD key default) change := by
  classical
  induction changes generalizing map with
  | nil => contradiction
  | cons first rest ih =>
      obtain ⟨apart, restDistinct⟩ := List.pairwise_cons.mp distinct
      rw [List.foldl_cons]
      rcases List.mem_cons.mp listed with here | later
      · subst here
        have untouched : ∀ other ∈ rest, other.1 ≠ key := fun other member =>
          (apart other member).symm
        rw [getD_foldl_adjust_of_notMem step default untouched, getD_insert_eq, if_pos rfl]
      · rw [ih restDistinct later, getD_insert_eq, if_neg (apart _ later)]

/-- Each key is changed once, by the change listed for it. -/
theorem getD_adjustAll (map : ExtTreeMap κ β cmp) (changes : ExtTreeMap κ γ cmp) (key : κ) :
    (adjustAll step default map changes).getD key default =
      match changes[key]? with
      | some change => step (map.getD key default) change
      | none => map.getD key default := by
  have distinct : changes.toList.Pairwise fun left right => left.1 ≠ right.1 := by
    apply List.Pairwise.imp _ changes.distinct_keys_toList
    intro left right different same
    exact different (LawfulEqCmp.compare_eq_iff_eq.mpr same)
  cases found : changes[key]? with
  | some change =>
      apply getD_foldl_adjust_of_mem step default distinct
      exact ExtTreeMap.mem_toList_iff_getElem?_eq_some.mpr found
  | none =>
      apply getD_foldl_adjust_of_notMem step default
      intro other member same
      subst same
      rw [ExtTreeMap.mem_toList_iff_getElem?_eq_some.mp (a := _) member] at found
      contradiction

private theorem isSome_foldl_adjust [DecidableEq κ] (changes : List (κ × γ)) (map : ExtTreeMap κ β cmp)
    (key : κ) :
    (changes.foldl (fun adjusted change =>
      adjusted.insert change.1 (step (adjusted.getD change.1 default) change.2)) map)[key]?.isSome =
      (map[key]?.isSome || changes.any fun change => decide (change.1 = key)) := by
  induction changes generalizing map with
  | nil => exact (Bool.or_false _).symm
  | cons change rest ih =>
      rw [List.foldl_cons, ih, getElem?_insert_eq, List.any_cons]
      by_cases same : change.1 = key
      · rw [if_pos same, decide_eq_true same]
        simp
      · rw [if_neg same, decide_eq_false same, Bool.false_or]

/-- The keys of an adjusted map are the old ones and the changed ones. -/
theorem isSome_adjustAll [DecidableEq κ] (map : ExtTreeMap κ β cmp) (changes : ExtTreeMap κ γ cmp)
    (key : κ) :
    (adjustAll step default map changes)[key]?.isSome =
      (map[key]?.isSome || changes[key]?.isSome) := by
  rw [adjustAll, isSome_foldl_adjust]
  congr 1
  rw [Bool.eq_iff_iff, List.any_eq_true, Option.isSome_iff_exists]
  constructor
  · rintro ⟨⟨other, value⟩, member, same⟩
    obtain rfl := of_decide_eq_true same
    exact ⟨value, ExtTreeMap.mem_toList_iff_getElem?_eq_some.mp member⟩
  · rintro ⟨value, found⟩
    exact ⟨(key, value), ExtTreeMap.mem_toList_iff_getElem?_eq_some.mpr found, decide_eq_true rfl⟩

end Adjust

section Entries

variable [TransCmp cmp] [LawfulEqCmp cmp]

theorem all_toList_iff {map : ExtTreeMap κ β cmp} {test : κ × β → Bool} :
    map.toList.all test = true ↔ ∀ (key : κ) value, map[key]? = some value → test (key, value) = true := by
  rw [List.all_eq_true]
  constructor
  · intro passed key value found
    exact passed _ (ExtTreeMap.mem_toList_iff_getElem?_eq_some.mpr found)
  · intro passed entry member
    obtain ⟨key, value⟩ := entry
    exact passed key value (ExtTreeMap.mem_toList_iff_getElem?_eq_some.mp member)

/-- The keys in order depend only on which keys there are. -/
theorem keys_eq {γ : Type*} {first : ExtTreeMap κ β cmp} {second : ExtTreeMap κ γ cmp}
    (same : ∀ key : κ, first[key]?.isSome = second[key]?.isSome) : first.keys = second.keys := by
  have bare : first.map (fun _ _ => ()) = second.map (fun _ _ => ()) := by
    apply ExtTreeMap.ext_getElem?
    intro key
    rw [ExtTreeMap.getElem?_map, ExtTreeMap.getElem?_map]
    have here := same key
    cases inFirst : first[key]? <;> cases inSecond : second[key]? <;> simp_all
  rw [← ExtTreeMap.keys_map (t := first) (f := fun _ _ => ()), bare, ExtTreeMap.keys_map]

theorem found_of_head {map : ExtTreeMap κ β cmp} {key : κ} {value : β}
    (isFirst : map.toList.head? = some (key, value)) :
    map[key]? = some value ∧
      ∀ (other : κ) found, map[other]? = some found → (cmp key other).isLE = true := by
  obtain ⟨rest, isList⟩ := List.head?_eq_some_iff.mp isFirst
  have sorted := ExtTreeMap.ordered_keys_toList (t := map)
  rw [isList] at sorted
  refine ⟨ExtTreeMap.mem_toList_iff_getElem?_eq_some.mp
    (by rw [isList]; exact List.mem_cons_self), fun other found there => ?_⟩
  have member := ExtTreeMap.mem_toList_iff_getElem?_eq_some.mpr there
  rw [isList] at member
  rcases List.mem_cons.mp member with same | later
  · cases same
    rw [(ReflCmp.compare_self : cmp key key = .eq)]
    rfl
  · rw [(List.pairwise_cons.mp sorted).1 _ later]
    rfl

theorem found_of_getLast {map : ExtTreeMap κ β cmp} {key : κ} {value : β}
    (isLast : map.toList.getLast? = some (key, value)) :
    map[key]? = some value ∧
      ∀ (other : κ) found, map[other]? = some found → (cmp other key).isLE = true := by
  obtain ⟨front, isList⟩ := List.getLast?_eq_some_iff.mp isLast
  have sorted := ExtTreeMap.ordered_keys_toList (t := map)
  rw [isList] at sorted
  refine ⟨ExtTreeMap.mem_toList_iff_getElem?_eq_some.mp
    (by rw [isList]; exact List.mem_append_right _ List.mem_cons_self), fun other found there => ?_⟩
  have member := ExtTreeMap.mem_toList_iff_getElem?_eq_some.mpr there
  rw [isList] at member
  rcases List.mem_append.mp member with earlier | same
  · rw [(List.pairwise_append.mp sorted).2.2 _ earlier _ List.mem_cons_self]
    rfl
  · cases List.mem_singleton.mp same
    rw [(ReflCmp.compare_self : cmp key key = .eq)]
    rfl

theorem head?_toList_eq_none_iff {map : ExtTreeMap κ β cmp} :
    map.toList.head? = none ↔ ∀ key : κ, map[key]? = none := by
  rw [List.head?_eq_none_iff, ExtTreeMap.toList_eq_nil_iff]
  constructor
  · intro empty key
    rw [empty]
    exact ExtTreeMap.getElem?_empty
  · intro missing
    apply ExtTreeMap.ext_getElem?
    intro key
    rw [missing key, ExtTreeMap.getElem?_empty]

theorem getLast?_toList_eq_none_iff {map : ExtTreeMap κ β cmp} :
    map.toList.getLast? = none ↔ ∀ key : κ, map[key]? = none := by
  rw [List.getLast?_eq_none_iff, ← List.head?_eq_none_iff, head?_toList_eq_none_iff]

end Entries

/-! ## Scans

An iterator that is moved to the first entry of a range and followed to the end
of it visits exactly the entries of the range.
-/

section Scan

variable {α : Type u} {order : α → α → Prop}

/-- Skipping what comes before a range leaves what does not. -/
theorem dropWhile_eq_filter {before : α → Bool} {entries : List α} (sorted : entries.Pairwise order)
    (downward : ∀ first second, order first second → before second = true → before first = true) :
    entries.dropWhile before = entries.filter fun entry => !before entry := by
  induction entries with
  | nil => rfl
  | cons entry rest ih =>
      obtain ⟨later, sortedRest⟩ := List.pairwise_cons.mp sorted
      cases here : before entry with
      | true => rw [List.dropWhile_cons_of_pos here, List.filter_cons_of_neg (by simp [here]), ih sortedRest]
      | false =>
          have all : rest.filter (fun entry => !before entry) = rest := by
            apply List.filter_eq_self.mpr
            intro other member
            cases beyond : before other with
            | false => rfl
            | true => rw [downward entry other (later other member) beyond] at here; cases here
          rw [List.dropWhile_cons_of_neg (by simp [here]), List.filter_cons_of_pos (by simp [here]), all]

/-- What comes first in the order is all there is of a downward closed property. -/
theorem takeWhile_eq_filter {inside : α → Bool} {entries : List α} (sorted : entries.Pairwise order)
    (downward : ∀ first ∈ entries, ∀ second ∈ entries, order first second →
      inside second = true → inside first = true) :
    entries.takeWhile inside = entries.filter inside := by
  induction entries with
  | nil => rfl
  | cons entry rest ih =>
      obtain ⟨later, sortedRest⟩ := List.pairwise_cons.mp sorted
      cases here : inside entry with
      | true =>
          rw [List.takeWhile_cons_of_pos here, List.filter_cons_of_pos here, ih sortedRest]
          exact fun first firstIn second secondIn =>
            downward first (List.mem_cons_of_mem entry firstIn) second (List.mem_cons_of_mem entry secondIn)
      | false =>
          have none_ : rest.filter inside = [] := by
            apply List.filter_eq_nil_iff.mpr
            intro other member beyond
            rw [downward entry List.mem_cons_self other (List.mem_cons_of_mem entry member)
              (later other member) beyond] at here
            cases here
          rw [List.takeWhile_cons_of_neg (by simp [here]), List.filter_cons_of_neg (by simp [here]), none_]

/-- A scan of a range visits its entries, in their order. -/
theorem scan_eq_filter {before inside : α → Bool} {entries : List α} (sorted : entries.Pairwise order)
    (beforeDownward : ∀ first second, order first second → before second = true →
      before first = true)
    (insideDownward : ∀ first second, order first second → before first = false →
      inside second = true → inside first = true) :
    (entries.dropWhile before).takeWhile inside =
      entries.filter fun entry => inside entry && !before entry := by
  rw [dropWhile_eq_filter sorted beforeDownward, takeWhile_eq_filter (sorted.filter _)]
  · rw [List.filter_filter]
  · intro first firstIn second _ ordered
    have notBefore := (List.mem_filter.mp firstIn).2
    rw [Bool.not_eq_true'] at notBefore
    exact insideDownward first second ordered notBefore

/-- A list in order is what is inside a downward closed property, and then the rest. -/
theorem filter_append_filter {inside : α → Bool} {entries : List α}
    (sorted : entries.Pairwise order)
    (downward : ∀ first second, order first second → inside second = true → inside first = true) :
    entries.filter inside ++ entries.filter (fun entry => !inside entry) = entries := by
  rw [← dropWhile_eq_filter sorted downward,
    ← takeWhile_eq_filter sorted fun first _ second _ => downward first second]
  exact List.takeWhile_append_dropWhile

end Scan

/-- The first entry of a key is its only one when no key is repeated. -/
theorem lookup_eq_some_iff_mem [BEq κ] [LawfulBEq κ] {entries : List (κ × β)}
    (distinct : (entries.map Prod.fst).Nodup) {key : κ} {value : β} :
    entries.lookup key = some value ↔ (key, value) ∈ entries := by
  induction entries with
  | nil => simp
  | cons entry rest ih =>
      obtain ⟨first, held⟩ := entry
      obtain ⟨newKey, distinctRest⟩ := List.nodup_cons.mp distinct
      rw [List.lookup_cons, List.mem_cons]
      cases here : key == first with
      | true =>
          obtain rfl := eq_of_beq here
          have elsewhere : (key, value) ∉ rest := fun member =>
            newKey (List.mem_map.mpr ⟨_, member, rfl⟩)
          simp [elsewhere, eq_comm]
      | false =>
          have differs : key ≠ first := ne_of_beq_false here
          simp [ih distinctRest, differs]

section Keep

variable [TransCmp cmp] [LawfulEqCmp cmp] {γ : Type w} {keep : κ → β → Option γ}

/-- An entry is inserted with what is kept of it, if anything is. -/
def insertKept (keep : κ → β → Option γ) (map : ExtTreeMap κ γ cmp) (entry : κ × β) :
    ExtTreeMap κ γ cmp :=
  match keep entry.1 entry.2 with
  | some value => map.insert entry.1 value
  | none => map

theorem getElem?_foldl_insertKept {entries : List (κ × β)} {map : ExtTreeMap κ γ cmp}
    (distinct : (entries.map Prod.fst).Nodup) (absent : ∀ entry ∈ entries, map[entry.1]? = none)
    {key : κ} {value : γ} :
    (entries.foldl (insertKept keep) map)[key]? = some value ↔
      map[key]? = some value ∨ ∃ held, (key, held) ∈ entries ∧ keep key held = some value := by
  classical
  induction entries generalizing map with
  | nil => simp
  | cons entry rest ih =>
      obtain ⟨first, held⟩ := entry
      obtain ⟨newKey, distinctRest⟩ := List.nodup_cons.mp distinct
      obtain ⟨absentHere, absentRest⟩ := List.forall_mem_cons.mp absent
      rw [List.foldl_cons]
      cases kept : keep first held with
      | none =>
          rw [insertKept, kept, ih distinctRest absentRest]
          refine or_congr_right ⟨fun ⟨other, member, isKept⟩ =>
            ⟨other, List.mem_cons_of_mem _ member, isKept⟩, fun ⟨other, member, isKept⟩ => ?_⟩
          rcases List.mem_cons.mp member with same | later
          · cases same
            rw [kept] at isKept
            cases isKept
          · exact ⟨other, later, isKept⟩
      | some inserted =>
          have stillAbsent : ∀ entry ∈ rest, (map.insert first inserted)[entry.1]? = none := by
            intro entry member
            have differs : first ≠ entry.1 := fun same =>
              newKey (List.mem_map.mpr ⟨entry, member, same.symm⟩)
            rw [getElem?_insert_eq, if_neg differs]
            exact absentRest entry member
          rw [insertKept, kept, ih distinctRest stillAbsent, getElem?_insert_eq]
          by_cases here : first = key
          · subst here
            have elsewhere : ∀ other, (first, other) ∉ rest := fun other member =>
              newKey (List.mem_map.mpr ⟨_, member, rfl⟩)
            simp [elsewhere, absentHere, kept]
          · simp [here, Ne.symm here]

/-- What is kept of a map, entry by entry. -/
theorem getElem?_keep (map : ExtTreeMap κ β cmp) (key : κ) :
    (map.toList.foldl (insertKept keep) (∅ : ExtTreeMap κ γ cmp))[key]? =
      map[key]?.bind (keep key) := by
  have distinct : (map.toList.map Prod.fst).Nodup := by
    rw [List.Nodup, List.pairwise_map]
    exact map.distinct_keys_toList.imp fun different same =>
      different (LawfulEqCmp.compare_eq_iff_eq.mpr same)
  apply Option.ext
  intro value
  rw [getElem?_foldl_insertKept distinct fun _ _ => ExtTreeMap.getElem?_empty,
    Option.bind_eq_some_iff, or_iff_right not_found_empty]
  simp only [ExtTreeMap.mem_toList_iff_getElem?_eq_some]

end Keep

/-! ## Grounded writes

Writes to a map in which nothing is removed that is not there.  A removal may ask
something of the value it takes away, by the mark the write carries.
-/

section Marked

variable {τ : Type w} [TransCmp cmp]

def Grounded (permits : τ → β → Prop) : ExtTreeMap κ β cmp → List (τ × Update κ β) → Prop
  | _, [] => True
  | map, write :: rest =>
      (write.2.2 = none → ∃ value, map[write.2.1]? = some value ∧ permits write.1 value) ∧
        Grounded permits (applyUpdate map write.2) rest

namespace Grounded

variable {permits : τ → β → Prop}

theorem append_iff {map : ExtTreeMap κ β cmp} {first second : List (τ × Update κ β)} :
    Grounded permits map (first ++ second) ↔
      Grounded permits map first ∧
        Grounded permits (applyUpdates map (first.map Prod.snd)) second := by
  induction first generalizing map with
  | nil => exact (true_and _).symm.to_iff
  | cons write rest ih =>
      rw [List.cons_append, Grounded, Grounded, ih, List.map_cons, applyUpdates_cons, and_assoc]

/-- Storing is always grounded. -/
theorem of_stores {map : ExtTreeMap κ β cmp} {writes : List (τ × Update κ β)}
    (allStores : ∀ write ∈ writes, write.2.2 ≠ none) : Grounded permits map writes := by
  induction writes generalizing map with
  | nil => trivial
  | cons write rest ih =>
      obtain ⟨here, later⟩ := List.forall_mem_cons.mp allStores
      exact ⟨fun removes => absurd removes here, ih later⟩

variable [DecidableEq κ] [LawfulEqCmp cmp]

/-- Removing different keys that are there is grounded. -/
theorem of_removals {map : ExtTreeMap κ β cmp} {mark : τ} {keys : List κ} (different : keys.Nodup)
    (there : ∀ key ∈ keys, ∃ value, map[key]? = some value ∧ permits mark value) :
    Grounded permits map (keys.map fun key => (mark, (key, none))) := by
  induction keys generalizing map with
  | nil => trivial
  | cons key rest ih =>
      obtain ⟨fresh, others⟩ := List.nodup_cons.mp different
      obtain ⟨here, later⟩ := List.forall_mem_cons.mp there
      refine ⟨fun _ => here, ih others fun other member => ?_⟩
      obtain ⟨value, found, permitted⟩ := later other member
      have unlike : key ≠ other := fun same => fresh (same ▸ member)
      exact ⟨value, by rw [getElem?_applyUpdate, if_neg unlike, found], permitted⟩

/-- From an empty map, what a removal takes away is the value last stored there. -/
theorem removes_stored {writes earlier later : List (τ × Update κ β)} {mark : τ} {key : κ}
    (grounded : Grounded permits (∅ : ExtTreeMap κ β cmp) writes)
    (split : writes = earlier ++ (mark, (key, none)) :: later) :
    ∃ value, lastWrite (earlier.map Prod.snd) key = some (some value) ∧ permits mark value := by
  rw [split] at grounded
  obtain ⟨value, found, permitted⟩ := (append_iff.mp grounded).2.1 rfl
  rw [getElem?_applyUpdates, ExtTreeMap.getElem?_empty] at found
  refine ⟨value, ?_, permitted⟩
  cases last : lastWrite (earlier.map Prod.snd) key with
  | none =>
      rw [last] at found
      cases found
  | some written =>
      rw [last] at found
      exact congrArg some found

end Grounded

variable [DecidableEq κ]

/-- How often a key is removed. -/
def timesRemoved (key : κ) (writes : List (τ × Update κ β)) : Nat :=
  writes.countP fun write => write.2.1 = key ∧ write.2.2.isNone

def timesStored (key : κ) (writes : List (τ × Update κ β)) : Nat :=
  writes.countP fun write => write.2.1 = key ∧ write.2.2.isSome

/-- Each removal of a key has a store of its own. -/
theorem Grounded.balance [LawfulEqCmp cmp] {permits : τ → β → Prop} {map : ExtTreeMap κ β cmp}
    {writes : List (τ × Update κ β)} (grounded : Grounded permits map writes) (key : κ) :
    timesRemoved key writes + ((applyUpdates map (writes.map Prod.snd))[key]?).toList.length ≤
      timesStored key writes + (map[key]?).toList.length := by
  induction writes generalizing map with
  | nil => exact Nat.le_refl _
  | cons write rest ih =>
      obtain ⟨mark, written, value⟩ := write
      obtain ⟨here, later⟩ := grounded
      have rests := ih later
      rw [getElem?_applyUpdate] at rests
      rw [List.map_cons, applyUpdates_cons, timesRemoved, timesStored, List.countP_cons, List.countP_cons]
      rw [timesRemoved, timesStored] at rests
      by_cases same : written = key
      · subst same
        cases value with
        | none =>
            obtain ⟨value, found, _⟩ := here rfl
            simp only [if_true, Option.toList_none, List.length_nil, Option.isNone_none,
              Option.isSome_none, and_self, and_false, decide_true, decide_false,
              Bool.false_eq_true, if_false, found, Option.toList_some, List.length_singleton] at rests ⊢
            omega
        | some value =>
            simp only [if_true, Option.toList_some, List.length_singleton, Option.isNone_some,
              Option.isSome_some, and_self, Bool.false_eq_true, and_false, decide_true, decide_false,
              if_false] at rests ⊢
            omega
      · simp only [same, if_false, false_and, decide_false, Bool.false_eq_true] at rests ⊢
        omega

theorem Grounded.removals_le [LawfulEqCmp cmp] {permits : τ → β → Prop}
    {writes : List (τ × Update κ β)}
    (grounded : Grounded permits (∅ : ExtTreeMap κ β cmp) writes) (key : κ) :
    timesRemoved key writes ≤ timesStored key writes := by
  have balance := grounded.balance key
  rw [ExtTreeMap.getElem?_empty, Option.toList_none, List.length_nil] at balance
  omega

end Marked

end Parthenon.Library
