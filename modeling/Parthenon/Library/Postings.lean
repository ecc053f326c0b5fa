import Parthenon.Library.OrderedMap
import Mathlib.Data.List.Basic

namespace Parthenon.Library

open Std

/-! # Postings

A log of items, and an index that keeps for every key the places of the items that carry
it: once for every time an item carries the key, in the order of the log.
-/

variable {κ : Type u} {β : Type v} {α : Type w} {cmp : κ → κ → Ordering} [TransCmp cmp]

abbrev Postings (κ : Type u) (β : Type v) (cmp : κ → κ → Ordering) [TransCmp cmp] :=
  ExtTreeMap κ (List β) cmp

namespace Postings

/-- One more posting at the end of the list of a key. -/
def post (index : Postings κ β cmp) (posting : β) (key : κ) : Postings κ β cmp :=
  index.insert key (index.getD key [] ++ [posting])

def postAll (index : Postings κ β cmp) (posting : β) (keys : List κ) : Postings κ β cmp :=
  keys.foldl (fun index key => index.post posting key) index

theorem postAll_append (index : Postings κ β cmp) (posting : β) (first second : List κ) :
    index.postAll posting (first ++ second) = (index.postAll posting first).postAll posting second :=
  List.foldl_append

variable [LawfulEqCmp cmp] [DecidableEq κ]

theorem getD_post (index : Postings κ β cmp) (posting : β) (key other : κ) :
    (index.post posting key).getD other [] =
      if key = other then index.getD other [] ++ [posting] else index.getD other [] := by
  rw [post, getD_insert_eq]
  split
  · rename_i same
    rw [same]
  · rfl

theorem getD_postAll (index : Postings κ β cmp) (posting : β) (keys : List κ) (other : κ) :
    (index.postAll posting keys).getD other [] =
      index.getD other [] ++ List.replicate (keys.count other) posting := by
  induction keys generalizing index with
  | nil => exact (List.append_nil _).symm
  | cons key rest ih =>
      rw [postAll, List.foldl_cons, ← postAll, ih, getD_post, List.count_cons]
      by_cases same : key = other
      · rw [if_pos same, if_pos (beq_iff_eq.mpr same), List.append_assoc, List.singleton_append,
          List.replicate_succ]
      · rw [if_neg same, if_neg (mt beq_iff_eq.mp same), Nat.add_zero]

end Postings

/-- The items of a log that carry a key, as often as they carry it. -/
def hits [DecidableEq κ] (keys : α → List κ) (items : List α) (key : κ) : List α :=
  items.flatMap fun item => List.replicate ((keys item).count key) item

section Hits

variable [DecidableEq κ] (keys : α → List κ)

theorem hits_snoc (items : List α) (item : α) (key : κ) :
    hits keys (items ++ [item]) key =
      hits keys items key ++ List.replicate ((keys item).count key) item := by
  rw [hits, List.flatMap_append, List.flatMap_singleton]
  rfl

theorem mem_of_hits {items : List α} {key : κ} {item : α} (hit : item ∈ hits keys items key) :
    item ∈ items := by
  obtain ⟨other, member, repeated⟩ := List.mem_flatMap.mp hit
  rw [List.eq_of_mem_replicate repeated]
  exact member

/-- Where every item carries one key, the hits are the items with that key. -/
theorem hits_singleton (name : α → κ) (items : List α) (key : κ) :
    hits (fun item => [name item]) items key = items.filter fun item => name item = key := by
  induction items with
  | nil => rfl
  | cons item rest ih =>
      rw [hits, List.flatMap_cons, ← hits, ih, List.filter_cons, List.count_singleton]
      by_cases same : name item = key
      · simp [same]
      · simp [same]

end Hits

section Locates

variable [LawfulEqCmp cmp] [DecidableEq κ]

/-- The postings of every key are the names of its hits. -/
def Names (name : α → β) (keys : α → List κ) (items : List α) (index : Postings κ β cmp) : Prop :=
  ∀ key, index.getD key [] = (hits keys items key).map name

/-- The postings of every key lead to its hits in the log. -/
def Locates (keys : α → List κ) (items : List α) (index : Postings κ Nat cmp) : Prop :=
  ∀ key, (index.getD key []).map (items[·]?) = (hits keys items key).map some

omit [LawfulEqCmp cmp] in
theorem names_nil (name : α → β) (keys : α → List κ) :
    Names name keys [] (∅ : Postings κ β cmp) :=
  fun _ => ExtTreeMap.getD_empty

omit [LawfulEqCmp cmp] in
theorem locates_nil (keys : α → List κ) : Locates keys ([] : List α) (∅ : Postings κ Nat cmp) := by
  intro key
  rw [ExtTreeMap.getD_empty]
  rfl

theorem Names.snoc {name : α → β} {keys : α → List κ} {items : List α} {index : Postings κ β cmp}
    (names : Names name keys items index) (item : α) :
    Names name keys (items ++ [item]) (index.postAll (name item) (keys item)) := by
  intro key
  rw [Postings.getD_postAll, hits_snoc, List.map_append, List.map_replicate, names key]

theorem Locates.snoc {keys : α → List κ} {items : List α} {index : Postings κ Nat cmp}
    (locates : Locates keys items index) (item : α) :
    Locates keys (items ++ [item]) (index.postAll items.length (keys item)) := by
  intro key
  have here : (items ++ [item])[items.length]? = some item := by
    rw [List.getElem?_append_right le_rfl, Nat.sub_self]
    rfl
  rw [Postings.getD_postAll, hits_snoc, List.map_append, List.map_append, List.map_replicate,
    List.map_replicate, here, ← locates key]
  congr 1
  apply List.map_congr_left
  intro place member
  -- every place that was posted is inside of the log
  have found : items[place]? ∈ (hits keys items key).map some := by
    rw [← locates key]
    exact List.mem_map_of_mem member
  obtain ⟨kept, _, isKept⟩ := List.mem_map.mp found
  exact List.getElem?_append_left (List.getElem?_eq_some_iff.mp isKept.symm).1

omit [LawfulEqCmp cmp] in
/-- The first hits, read through their places. -/
theorem Locates.filterMap_take {keys : α → List κ} {items : List α} {index : Postings κ Nat cmp}
    (locates : Locates keys items index) (key : κ) (limit : Nat) :
    ((index.getD key []).take limit).filterMap (items[·]?) = (hits keys items key).take limit := by
  calc ((index.getD key []).take limit).filterMap (items[·]?)
      = (((index.getD key []).take limit).map (items[·]?)).filterMap id := by
        rw [List.filterMap_map]
        rfl
    _ = (((hits keys items key).take limit).map some).filterMap id := by
        rw [List.map_take, locates key, ← List.map_take]
    _ = (hits keys items key).take limit := by
        rw [List.filterMap_map]
        exact List.filterMap_some

end Locates

/-! ## Last writes

Named values are written into slots, the newest write first in the list.  A slot
keeps the last value written to it, and an index keeps for every name the slot
that was last given a value of the name.
-/

section LastWrites

variable {β : Type u} {σ : Type v} {ν : Type w} [DecidableEq ν]

def slotOf (name : β → ν) (wanted : ν) (writes : List (β × σ)) : Option σ :=
  (writes.find? fun entry => name entry.1 = wanted).map Prod.snd

theorem slotOf_cons (name : β → ν) (wanted : ν) (value : β) (slot : σ) (writes : List (β × σ)) :
    slotOf name wanted ((value, slot) :: writes) =
      if name value = wanted then some slot else slotOf name wanted writes := by
  rw [slotOf, slotOf, List.find?_cons]
  by_cases same : name value = wanted <;> simp [same]

/-- Where the last value of a name was put, nothing was put later. -/
def Standing (name : β → ν) (writes : List (β × σ)) : Prop :=
  ∀ later value slot earlier, writes = later ++ (value, slot) :: earlier →
    (∀ entry ∈ later, name entry.1 ≠ name value) → ∀ entry ∈ later, entry.2 ≠ slot

theorem slotOf_eq_some {name : β → ν} {wanted : ν} {slot : σ} {writes : List (β × σ)} :
    slotOf name wanted writes = some slot ↔ ∃ later value earlier,
      writes = later ++ (value, slot) :: earlier ∧ name value = wanted ∧
        ∀ entry ∈ later, name entry.1 ≠ wanted := by
  rw [slotOf, Option.map_eq_some_iff]
  constructor
  · intro written
    obtain ⟨⟨value, _⟩, first, rfl⟩ := written
    obtain ⟨here, later, earlier, split, others⟩ := List.find?_eq_some_iff_append.mp first
    exact ⟨later, value, earlier, split, by simpa using here,
      fun entry member => by simpa using others entry member⟩
  · intro written
    obtain ⟨later, value, earlier, split, named, others⟩ := written
    refine ⟨(value, slot),
      List.find?_eq_some_iff_append.mpr ⟨by simpa using named, later, earlier, split, ?_⟩, rfl⟩
    intro entry member
    simpa using others entry member

variable [DecidableEq σ]

def inSlot (slot : σ) (writes : List (β × σ)) : Option β :=
  (writes.find? fun entry => entry.2 = slot).map Prod.fst

theorem inSlot_cons (slot : σ) (value : β) (written : σ) (writes : List (β × σ)) :
    inSlot slot ((value, written) :: writes) =
      if written = slot then some value else inSlot slot writes := by
  rw [inSlot, inSlot, List.find?_cons]
  by_cases same : written = slot <;> simp [same]

theorem inSlot_eq_some {slot : σ} {value : β} {writes : List (β × σ)} :
    inSlot slot writes = some value ↔ ∃ later earlier,
      writes = later ++ (value, slot) :: earlier ∧ ∀ entry ∈ later, entry.2 ≠ slot := by
  rw [inSlot, Option.map_eq_some_iff]
  constructor
  · intro kept
    obtain ⟨⟨_, written⟩, first, rfl⟩ := kept
    obtain ⟨here, later, earlier, split, others⟩ := List.find?_eq_some_iff_append.mp first
    obtain rfl : written = slot := by simpa using here
    exact ⟨later, earlier, split, fun entry member => by simpa using others entry member⟩
  · intro kept
    obtain ⟨later, earlier, split, others⟩ := kept
    refine ⟨(value, slot), List.find?_eq_some_iff_append.mpr ⟨by simp, later, earlier, split, ?_⟩, rfl⟩
    intro entry member
    simpa using others entry member

/-- A name that was written has a slot. -/
theorem slotOf_of_inSlot (name : β → ν) {slot : σ} {value : β} {writes : List (β × σ)}
    (kept : inSlot slot writes = some value) : ∃ last, slotOf name (name value) writes = some last := by
  obtain ⟨later, earlier, split, _⟩ := inSlot_eq_some.mp kept
  cases unseen : slotOf name (name value) writes with
  | some last => exact ⟨last, rfl⟩
  | none =>
      rw [slotOf, Option.map_eq_none_iff, List.find?_eq_none] at unseen
      have member : (value, slot) ∈ writes := by simp [split]
      exact absurd (by simp) (unseen _ member)

theorem inSlot_of_slotOf {name : β → ν} {wanted : ν} {slot : σ} {writes : List (β × σ)}
    (indexed : slotOf name wanted writes = some slot) : ∃ value, inSlot slot writes = some value := by
  obtain ⟨later, value, earlier, split, _⟩ := slotOf_eq_some.mp indexed
  cases unseen : inSlot slot writes with
  | some value => exact ⟨value, rfl⟩
  | none =>
      rw [inSlot, Option.map_eq_none_iff, List.find?_eq_none] at unseen
      have member : (value, slot) ∈ writes := by simp [split]
      exact absurd (by simp) (unseen _ member)

/-- The index leads from every name to a value of the name exactly when the last
value of every name stands. -/
theorem standing_iff {name : β → ν} {writes : List (β × σ)} :
    Standing name writes ↔ ∀ wanted slot value, slotOf name wanted writes = some slot →
      inSlot slot writes = some value → name value = wanted := by
  constructor
  · intro standing wanted slot value indexed kept
    obtain ⟨later, last, earlier, split, named, others⟩ := slotOf_eq_some.mp indexed
    have unwritten := standing later last slot earlier split (by rwa [named])
    have same : inSlot slot writes = some last := inSlot_eq_some.mpr ⟨later, earlier, split, unwritten⟩
    rw [kept] at same
    cases same
    exact named
  · intro leads later value slot earlier split others entry member written
    have indexed : slotOf name (name value) writes = some slot :=
      slotOf_eq_some.mpr ⟨later, value, earlier, split, rfl, others⟩
    obtain ⟨kept, inPlace⟩ := inSlot_of_slotOf indexed
    obtain ⟨before, after, splitKept, unwritten⟩ := inSlot_eq_some.mp inPlace
    have named := leads _ _ _ indexed inPlace
    -- The value in the slot was written before the last value of its name, or is it.
    rcases List.append_eq_append_iff.mp (split.symm.trans splitKept) with
      ⟨between, later_eq, rest⟩ | ⟨between, later_eq, rest⟩
    · rw [later_eq] at unwritten
      exact unwritten entry (List.mem_append_left _ member) written
    · cases between with
      | nil =>
          rw [List.append_nil] at later_eq
          exact unwritten entry (later_eq ▸ member) written
      | cons first between =>
          obtain ⟨rfl, _⟩ := List.cons.inj rest
          exact others (kept, slot) (by simp [later_eq]) named

end LastWrites

end Parthenon.Library
