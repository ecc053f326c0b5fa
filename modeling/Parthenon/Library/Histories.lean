import Mathlib.Data.List.Basic
import Mathlib.Data.List.Induction
import Mathlib.Order.WellFounded

namespace Parthenon.Library

/-! # Histories

Items that come one after another and refer to what came before them: each to the one
right before it, or each to any of the earlier ones, by name.
-/

section Linked

variable {β : Type u} {ν : Type v} (name previous : β → ν)

/-- Each item refers to the one before it, and the first one to `start`. -/
def Linked : ν → List β → Prop
  | _, [] => True
  | start, item :: rest => previous item = start ∧ Linked (name item) rest

def lastName (start : ν) (items : List β) : ν := items.foldl (fun _ item => name item) start

@[simp] theorem lastName_concat (start : ν) (items : List β) (item : β) :
    lastName name start (items ++ [item]) = name item := by
  rw [lastName, List.foldl_append]
  rfl

theorem linked_append {start : ν} {first second : List β} :
    Linked name previous start (first ++ second) ↔
      Linked name previous start first ∧ Linked name previous (lastName name start first) second := by
  induction first generalizing start with
  | nil => exact (true_and _).symm.to_iff
  | cons item rest ih => rw [List.cons_append, Linked, Linked, ih, and_assoc]; rfl

theorem linked_concat {start : ν} {items : List β} {item : β} :
    Linked name previous start (items ++ [item]) ↔
      Linked name previous start items ∧ previous item = lastName name start items := by
  rw [linked_append, Linked, Linked, and_true]

variable {name previous} {start : ν} {first second : List β}

/-- The last name commits to the whole history, where no two items share a name. -/
theorem Linked.eq_of_lastName (linked : Linked name previous start first)
    (linkedOther : Linked name previous start second)
    (injective : ∀ one ∈ first, ∀ other ∈ second, name one = name other → one = other)
    (fresh : ∀ item, item ∈ first ∨ item ∈ second → name item ≠ start)
    (same : lastName name start first = lastName name start second) : first = second := by
  induction first using List.reverseRecOn generalizing second with
  | nil =>
      rcases List.eq_nil_or_concat' second with rfl | ⟨others, last, rfl⟩
      · rfl
      · rw [lastName_concat] at same
        exact absurd same.symm (fresh last (.inr List.mem_concat_self))
  | append_singleton items item ih =>
      rw [lastName_concat] at same
      rcases List.eq_nil_or_concat' second with rfl | ⟨others, last, rfl⟩
      · exact absurd same (fresh item (.inl List.mem_concat_self))
      · rw [lastName_concat] at same
        obtain ⟨linked, here⟩ := (linked_concat name previous).mp linked
        obtain ⟨linkedOther, there⟩ := (linked_concat name previous).mp linkedOther
        have sameItem := injective item List.mem_concat_self last List.mem_concat_self same
        have sameRest := ih linked linkedOther
          (fun one inItems other inOthers => injective one (List.mem_append_left _ inItems) other
            (List.mem_append_left _ inOthers))
          (fun other member => fresh other
            (member.imp (List.mem_append_left _) (List.mem_append_left _)))
          (by rw [← here, ← there, sameItem])
        rw [sameItem, sameRest]

/-- A history whose last name occurs in another one is the beginning of that one. -/
theorem Linked.prefix_of_named (linked : Linked name previous start first)
    (linkedOther : Linked name previous start second)
    (injective : ∀ one ∈ first, ∀ other ∈ second, name one = name other → one = other)
    (fresh : ∀ item, item ∈ first ∨ item ∈ second → name item ≠ start) {item : β}
    (member : item ∈ second) (named : name item = lastName name start first) :
    first <+: second := by
  obtain ⟨before, after, rfl⟩ := List.append_of_mem member
  rw [← List.singleton_append, ← List.append_assoc] at linkedOther injective fresh ⊢
  have same : first = before ++ [item] := by
    refine linked.eq_of_lastName (linked_append name previous |>.mp linkedOther).1
      (fun one inFirst other inBefore => injective one inFirst other (List.mem_append_left _ inBefore))
      (fun other listed => fresh other (listed.imp_right (List.mem_append_left _))) ?_
    rw [lastName_concat, named]
  rw [same]
  exact List.prefix_append _ _

end Linked

section Rooted

variable {τ : Type u} {ν : Type v} (name : τ → ν) (needs : τ → List ν)

/-- Each item needs names of earlier items only. -/
def Rooted (history : List τ) : Prop :=
  ∀ earlier item later, history = earlier ++ item :: later →
    ∀ needed ∈ needs item, needed ∈ earlier.map name

theorem rooted_nil : Rooted name needs [] := by
  intro earlier item later split
  simp at split

theorem idxOf_lt_of_mem_take [DecidableEq ν] {names : List ν} {count : Nat} {wanted : ν}
    (member : wanted ∈ names.take count) : names.idxOf wanted < count := by
  have placed : names.idxOf wanted = (names.take count).idxOf wanted := by
    conv_lhs => rw [← List.take_append_drop count names]
    exact List.idxOf_append_of_mem member
  rw [placed]
  exact (List.idxOf_lt_length_of_mem member).trans_le (List.length_take_le count names)

variable {name needs}

theorem Rooted.concat {history : List τ} {item : τ} (rooted : Rooted name needs history)
    (there : ∀ needed ∈ needs item, needed ∈ history.map name) :
    Rooted name needs (history ++ [item]) := by
  intro earlier other later split
  rcases List.eq_nil_or_concat' later with rfl | ⟨others, last, rfl⟩
  · obtain ⟨rfl, same⟩ := List.append_inj' split rfl
    obtain ⟨rfl, _⟩ := List.cons.inj same
    exact there
  · rw [← List.cons_append, ← List.append_assoc] at split
    obtain ⟨rfl, _⟩ := List.append_inj' split rfl
    exact rooted earlier other others rfl

/-- In any part of a history some item needs nothing of that part: the one that came first. -/
theorem Rooted.exists_free {history part : List τ} (rooted : Rooted name needs history)
    (injective : ∀ one ∈ history, ∀ other ∈ history, name one = name other → one = other)
    (within : ∀ item ∈ part, item ∈ history) (some_ : part ≠ []) :
    ∃ item ∈ part, ∀ needed ∈ needs item, needed ∉ part.map name := by
  classical
  let place (item : τ) : Nat := (history.map name).idxOf (name item)
  obtain ⟨item, member, first⟩ :=
    (measure place).wf.has_min {item | item ∈ part} (List.exists_mem_of_ne_nil part some_)
  refine ⟨item, member, fun needed isNeeded inPart => ?_⟩
  obtain ⟨other, otherMember, rfl⟩ := List.mem_map.mp inPart
  have inside : place item < history.length := by
    have listed := List.idxOf_lt_length_of_mem (List.mem_map_of_mem (f := name) (within item member))
    rwa [List.length_map] at listed
  have found : history[place item] = item := by
    refine injective _ (List.getElem_mem inside) item (within item member) ?_
    have listed : place item < (history.map name).length := by rwa [List.length_map]
    have named : (history.map name)[place item] = name item := List.getElem_idxOf listed
    rwa [List.getElem_map] at named
  have split : history = history.take (place item) ++ item :: history.drop (place item + 1) := by
    have rest := List.drop_eq_getElem_cons inside
    rw [found] at rest
    rw [← rest, List.take_append_drop]
  have earlier := rooted _ item _ split _ isNeeded
  rw [List.map_take] at earlier
  exact first other otherMember (idxOf_lt_of_mem_take earlier)

end Rooted

end Parthenon.Library
