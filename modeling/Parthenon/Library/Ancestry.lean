import Mathlib.Algebra.BigOperators.Group.Finset.Basic
import Mathlib.Algebra.GroupWithZero.Nat
import Mathlib.Data.Finset.Union
import Mathlib.Logic.Relation
import Mathlib.Data.List.Basic

namespace Parthenon.Library

open Relation

/-! # Ancestors

A graph that grows by nodes without children and shrinks by nodes without children
that stay keeps the ancestors of every other node, and what ancestors weigh together
is the sum over the families of the parents where these are disjoint.
-/

section Ancestors

variable {α : Type u} {before after : α → α → Prop}

/-- A node without children is an ancestor of nothing. -/
theorem transGen_extend {new : α} (old : ∀ parent child, child ≠ new →
      (after parent child ↔ before parent child))
    (childless : ∀ child, ¬ after new child) {ancestor node : α} (different : node ≠ new) :
    TransGen after ancestor node ↔ TransGen before ancestor node := by
  constructor
  · intro path
    induction path with
    | single edge => exact .single ((old _ _ different).mp edge)
    | @tail middle last _ edge ih =>
        have apart : middle ≠ new := by
          intro same
          exact childless last (same ▸ edge)
        exact (ih apart).tail ((old _ _ different).mp edge)
  · intro path
    induction path with
    | single edge => exact .single ((old _ _ different).mpr edge)
    | @tail middle last _ edge ih =>
        have grown := (old _ _ different).mpr edge
        have apart : middle ≠ new := by
          intro same
          exact childless last (same ▸ grown)
        exact (ih apart).tail grown

/-- The ancestors of a new node are its parents with their ancestors. -/
theorem transGen_new_iff {new : α} (old : ∀ parent child, child ≠ new →
      (after parent child ↔ before parent child))
    (childless : ∀ child, ¬ after new child) {ancestor : α} :
    TransGen after ancestor new ↔
      ∃ parent, after parent new ∧ (ancestor = parent ∨ TransGen before ancestor parent) := by
  rw [TransGen.tail'_iff]
  constructor
  · intro path
    obtain ⟨parent, reaches, edge⟩ := path
    have apart : parent ≠ new := by
      intro same
      exact childless new (same ▸ edge)
    refine ⟨parent, edge, ?_⟩
    cases reflTransGen_iff_eq_or_transGen.mp reaches with
    | inl same => exact .inl same.symm
    | inr path => exact .inr ((transGen_extend old childless apart).mp path)
  · intro family
    obtain ⟨parent, edge, own⟩ := family
    have apart : parent ≠ new := by
      intro same
      exact childless new (same ▸ edge)
    refine ⟨parent, ?_, edge⟩
    cases own with
    | inl same => exact same ▸ .refl
    | inr path => exact ((transGen_extend old childless apart).mpr path).to_reflTransGen

/-- Taking out nodes none of whose children stay. -/
theorem transGen_restrict {kept : α → Prop}
    (same : ∀ parent child, after parent child ↔ before parent child ∧ kept parent ∧ kept child)
    (closed : ∀ parent child, before parent child → kept child → kept parent) {ancestor node : α}
    (stays : kept node) : TransGen after ancestor node ↔ TransGen before ancestor node := by
  constructor
  · intro path
    exact TransGen.mono (fun parent child edge => ((same parent child).mp edge).1) _ _ path
  · intro path
    induction path with
    | single edge => exact .single ((same _ _).mpr ⟨edge, closed _ _ edge stays, stays⟩)
    | tail _ edge ih =>
        have parentStays := closed _ _ edge stays
        exact (ih parentStays).tail ((same _ _).mpr ⟨edge, parentStays, stays⟩)

/-- Who stays has all its ancestors. -/
theorem kept_of_transGen {kept : α → Prop}
    (closed : ∀ parent child, before parent child → kept child → kept parent) {ancestor node : α}
    (path : TransGen before ancestor node) (stays : kept node) : kept ancestor := by
  induction path with
  | single edge => exact closed _ _ edge stays
  | tail _ edge ih => exact ih (closed _ _ edge stays)

/-- Disjoint families weigh what each of them weighs. -/
theorem sum_families [DecidableEq α] (weight : α → Nat) (family : α → Finset α) {parents : List α}
    (disjoint : parents.Pairwise fun left right => Disjoint (family left) (family right)) :
    ∑ member ∈ parents.toFinset.biUnion family, weight member =
      (parents.map fun parent => ∑ member ∈ family parent, weight member).sum := by
  induction parents with
  | nil => rfl
  | cons parent rest ih =>
      obtain ⟨apart, restDisjoint⟩ := List.pairwise_cons.mp disjoint
      have separate : Disjoint (family parent) (rest.toFinset.biUnion family) := by
        rw [Finset.disjoint_biUnion_right]
        intro other member
        exact apart other (List.mem_toFinset.mp member)
      rw [List.toFinset_cons, Finset.biUnion_insert, Finset.sum_union separate, ih restDisjoint,
        List.map_cons, List.sum_cons]

end Ancestors

section Walks

/-! ## Depth-first walks

A walk over lists of children with a stack: the node on top is passed, its children
are recorded, and the last of them comes out on top.  Where the children of a node
have a lower rank the walk ends, and it records the children of the nodes of a
preorder, some of them more than once.
-/

variable {α : Type u}

/-- The walk, with the top of the stack first.  `none` is a walk longer than the fuel. -/
def walkFrom (children : α → List α) : Nat → List α → List α → Option (List α)
  | 0, _, _ => none
  | _ + 1, [], recorded => some recorded
  | fuel + 1, node :: rest, recorded =>
      walkFrom children fuel ((children node).reverse ++ rest) (recorded ++ children node)

/-- The nodes a walk from the given one passes, down to a depth. -/
def passed (children : α → List α) : Nat → α → List α
  | 0, _ => []
  | depth + 1, node => node :: (children node).reverse.flatMap (passed children depth)

/-- The children that are recorded as their parents are passed. -/
def listing (children : α → List α) (depth : Nat) (node : α) : List α :=
  (passed children depth node).flatMap children

section Ranked

variable {children : α → List α} {rank : α → Nat}
  (ranked : ∀ node, ∀ child ∈ children node, rank child < rank node)
include ranked

theorem passed_stable {depth deeper : Nat} {node : α} (enough : rank node < depth)
    (enoughToo : rank node < deeper) : passed children depth node = passed children deeper node := by
  induction depth generalizing deeper node with
  | zero => cases enough
  | succ depth ih =>
      cases deeper with
      | zero => cases enoughToo
      | succ deeper =>
          rw [passed, passed]
          congr 1
          apply List.flatMap_congr
          intro child member
          have lower := ranked node child (List.mem_reverse.mp member)
          exact ih (by omega) (by omega)

/-- What is passed after the top of the stack is what its children lead to. -/
theorem passed_turn {depth : Nat} {node : α} {rest : List α} (enough : rank node < depth) :
    (node :: rest).flatMap (passed children depth) =
      node :: ((children node).reverse ++ rest).flatMap (passed children depth) := by
  cases depth with
  | zero => cases enough
  | succ depth =>
      have same : (children node).reverse.flatMap (passed children depth) =
          (children node).reverse.flatMap (passed children (depth + 1)) := by
        apply List.flatMap_congr
        intro child member
        have lower := ranked node child (List.mem_reverse.mp member)
        exact passed_stable ranked (by omega) (by omega)
      rw [List.flatMap_cons, List.flatMap_append, ← same]
      rfl

/-- A walk that ends has recorded the children of all that it passed, and with more fuel
than it passes nodes it ends. -/
theorem walkFrom_eq (fuel : Nat) {depth : Nat} {stack : List α} (recorded : List α)
    (enough : ∀ node ∈ stack, rank node < depth) :
    (∀ result, walkFrom children fuel stack recorded = some result →
      result = recorded ++ (stack.flatMap (passed children depth)).flatMap children) ∧
    ((stack.flatMap (passed children depth)).length < fuel →
      ∃ result, walkFrom children fuel stack recorded = some result) := by
  induction fuel generalizing stack recorded with
  | zero =>
      constructor
      · intro result done
        cases done
      · intro impossible
        cases impossible
  | succ fuel ih =>
      cases stack with
      | nil =>
          constructor
          · intro result done
            cases done
            exact (List.append_nil recorded).symm
          · intro _
            exact ⟨recorded, rfl⟩
      | cons node rest =>
          have top := enough node List.mem_cons_self
          have next : ∀ other ∈ (children node).reverse ++ rest, rank other < depth := by
            intro other member
            cases List.mem_append.mp member with
            | inl child => exact Nat.lt_trans (ranked node other (List.mem_reverse.mp child)) top
            | inr later => exact enough other (List.mem_cons_of_mem node later)
          obtain ⟨correct, ends⟩ := ih (recorded ++ children node) next
          rw [passed_turn ranked top, List.flatMap_cons, List.length_cons, ← List.append_assoc]
          constructor
          · intro result done
            exact correct result done
          · intro more
            exact ends (by omega)

theorem mem_passed {depth : Nat} {node other : α} (enough : rank node < depth) :
    other ∈ passed children depth node ↔
      ReflTransGen (fun parent child => child ∈ children parent) node other := by
  induction depth generalizing node with
  | zero => cases enough
  | succ depth ih =>
      rw [passed, List.mem_cons, List.mem_flatMap, ReflTransGen.cases_head_iff]
      constructor
      · intro either
        cases either with
        | inl same => exact .inl same.symm
        | inr below =>
            obtain ⟨child, member, reaches⟩ := below
            have isChild := List.mem_reverse.mp member
            have lower := ranked node child isChild
            exact .inr ⟨child, isChild, (ih (by omega)).mp reaches⟩
      · intro either
        cases either with
        | inl same => exact .inl same.symm
        | inr below =>
            obtain ⟨child, isChild, path⟩ := below
            have lower := ranked node child isChild
            exact .inr ⟨child, List.mem_reverse.mpr isChild, (ih (by omega)).mpr path⟩

/-- Exactly the descendants of a node are listed. -/
theorem mem_listing {depth : Nat} {node other : α} (enough : rank node < depth) :
    other ∈ listing children depth node ↔
      TransGen (fun parent child => child ∈ children parent) node other := by
  rw [listing, List.mem_flatMap, TransGen.tail'_iff]
  simp only [mem_passed ranked enough]

end Ranked

end Walks

end Parthenon.Library
