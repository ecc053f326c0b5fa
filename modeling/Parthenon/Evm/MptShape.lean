import Parthenon.Evm.MptMap

namespace Parthenon.Evm

open Library

/-! # The shape of a trie

Over keys of one length a map has one trie in which every branch has two
children and every extension has a path and a branch below it.  Calls that keep
this shape make the root hash a function of the map.
-/

namespace MerklePatriciaTrie

namespace Node

def isBranch : Node → Bool
  | branch .. => true
  | _ => false

/-- The shape of a trie over keys with `left` nibbles to go.  In a compact one no
extension has an empty path. -/
def Shaped (compact : Bool) : Node → Nat → Prop
  | null, _ => True
  | empty, _ => True
  | leaf path value, left => path.length = left ∧ value ≠ []
  | extension path held child, left =>
      (compact = true → path ≠ []) ∧ held = [] ∧ child.isBranch = true ∧
        ∃ below, left = path.length + below ∧ child.Shaped compact below
  | childless .., _ => False
  | branch value children, left =>
      value = [] ∧
        (∃ first second, first ≠ second ∧ (children first).isEmpty = false ∧
          (children second).isEmpty = false) ∧
        ∃ below, left = below + 1 ∧ ∀ nibble, (children nibble).Shaped compact below

variable {compact : Bool}

theorem isEmpty_of_isBranch {node : Node} (isBranch : node.isBranch = true) :
    node.isEmpty = false := by
  cases node with
  | branch => rfl
  | null => cases isBranch
  | empty => cases isBranch
  | leaf => cases isBranch
  | extension => cases isBranch
  | childless => cases isBranch

theorem Shaped.sound {node : Node} {left : Nat} (shaped : node.Shaped compact left) :
    node.Sound := by
  induction node generalizing left with
  | null => exact trivial
  | empty => exact trivial
  | leaf path value => exact shaped.2
  | extension path held child ih =>
      obtain ⟨-, -, isBranch, below, -, childShaped⟩ := shaped
      exact ⟨isEmpty_of_isBranch isBranch, ih childShaped⟩
  | childless => exact shaped.elim
  | branch value children ih =>
      obtain ⟨-, -, below, -, childrenShaped⟩ := shaped
      exact fun nibble => ih nibble (childrenShaped nibble)

theorem Shaped.hasLength {node : Node} {left : Nat} (shaped : node.Shaped compact left) :
    node.entries.HasLength left := by
  induction node generalizing left with
  | null => intro key value found; cases found
  | empty => intro key value found; cases found
  | leaf path held =>
      intro key value found
      rw [entries, PathMap.single_apply] at found
      by_cases same : path = key
      · rw [← same, shaped.1]
      · rw [if_neg same] at found
        cases found
  | extension path held child ih =>
      obtain ⟨-, -, -, below, rfl, childShaped⟩ := shaped
      exact (ih childShaped).under path
  | childless => exact shaped.elim
  | branch held children ih =>
      obtain ⟨rfl, -, below, rfl, childrenShaped⟩ := shaped
      intro key value found
      cases key with
      | nil => cases found
      | cons nibble rest =>
          rw [List.length_cons, ih nibble (childrenShaped nibble) rest value found]

/-- A node of the shape that is there holds something. -/
theorem Shaped.inhabited {node : Node} {left : Nat} (shaped : node.Shaped compact left)
    (present : node.isEmpty = false) : ∃ key, node.entries key ≠ none := by
  induction node generalizing left with
  | null => cases present
  | empty => cases present
  | leaf path value =>
      refine ⟨path, ?_⟩
      rw [entries, PathMap.single_apply, if_pos rfl]
      exact Option.some_ne_none value
  | extension path held child ih =>
      obtain ⟨-, -, isBranch, below, -, childShaped⟩ := shaped
      obtain ⟨key, found⟩ := ih childShaped (isEmpty_of_isBranch isBranch)
      refine ⟨path ++ key, ?_⟩
      rwa [entries, PathMap.under_at]
  | childless => exact shaped.elim
  | branch value children ih =>
      obtain ⟨-, ⟨first, -, -, firstPresent, -⟩, below, -, childrenShaped⟩ := shaped
      obtain ⟨key, found⟩ := ih first (childrenShaped first) firstPresent
      exact ⟨first :: key, found⟩

theorem Shaped.forks {value : Value} {children : Nibble → Node} {left : Nat}
    (shaped : (branch value children).Shaped compact left) :
    (branch value children).entries.Forks := by
  obtain ⟨-, ⟨first, second, apart, firstPresent, secondPresent⟩, below, -, each⟩ := shaped
  obtain ⟨firstKey, firstFound⟩ := (each first).inhabited firstPresent
  obtain ⟨secondKey, secondFound⟩ := (each second).inhabited secondPresent
  exact ⟨first, second, firstKey, secondKey, apart, firstFound, secondFound⟩

theorem forks_of_isBranch {node : Node} {left : Nat} (shaped : node.Shaped compact left)
    (isBranch : node.isBranch = true) : node.entries.Forks := by
  cases node with
  | branch => exact shaped.forks
  | null => cases isBranch
  | empty => cases isBranch
  | leaf => cases isBranch
  | extension => cases isBranch
  | childless => cases isBranch

theorem encodeNode_of_isEmpty {node : Node} (gone : node.isEmpty = true) : node.encodeNode = [] := by
  cases node with
  | null => rfl
  | empty => rfl
  | leaf => cases gone
  | extension => cases gone
  | childless => cases gone
  | branch => cases gone

theorem Shaped.isEmpty_of_entries {node : Node} {left : Nat} (shaped : node.Shaped compact left)
    (nothing : node.entries = .empty) : node.isEmpty = true := by
  cases present : node.isEmpty with
  | true => rfl
  | false =>
      obtain ⟨key, found⟩ := shaped.inhabited present
      exact absurd (congrFun nothing key) found

/-- The trie of one key is its leaf. -/
theorem Shaped.eq_leaf {node : Node} {left : Nat} (shaped : node.Shaped compact left)
    {path : List Nibble} {value : Value} (one : node.entries = .single path value) :
    node = leaf path value := by
  have found := congrFun one path
  rw [PathMap.single_apply, if_pos rfl] at found
  cases node with
  | null => cases found
  | empty => cases found
  | leaf otherPath otherValue =>
      rw [entries, PathMap.single_apply] at found
      by_cases same : otherPath = path
      · rw [if_pos same] at found
        cases found
        rw [same]
      · rw [if_neg same] at found
        cases found
  | extension otherPath held child =>
      obtain ⟨-, -, isBranch, below, -, childShaped⟩ := shaped
      exact absurd one ((forks_of_isBranch childShaped isBranch).not_single otherPath path value)
  | childless => exact shaped.elim
  | branch held children => exact absurd one (shaped.forks.not_single [] path value)

/-- Compact nodes that hold one map have one encoding. -/
theorem Shaped.encodeNode_eq {node other : Node} {left : Nat} (shaped : node.Shaped true left)
    (otherShaped : other.Shaped true left) (same : node.entries = other.entries) :
    node.encodeNode = other.encodeNode := by
  induction node generalizing other left with
  | null =>
      rw [encodeNode_of_isEmpty (otherShaped.isEmpty_of_entries same.symm)]
      rfl
  | empty =>
      rw [encodeNode_of_isEmpty (otherShaped.isEmpty_of_entries same.symm)]
      rfl
  | leaf path value => rw [otherShaped.eq_leaf same.symm]
  | childless => exact shaped.elim
  | extension path held child ih =>
      obtain ⟨-, rfl, isBranch, below, rfl, childShaped⟩ := id shaped
      have forks := forks_of_isBranch childShaped isBranch
      cases other with
      | null => cases shaped.isEmpty_of_entries same
      | empty => cases shaped.isEmpty_of_entries same
      | leaf => cases shaped.eq_leaf same
      | childless => exact otherShaped.elim
      | extension otherPath held otherChild =>
          obtain ⟨-, rfl, otherIsBranch, otherBelow, lengths, otherChildShaped⟩ := otherShaped
          obtain ⟨rfl, sameBelow⟩ :=
            PathMap.under_injective forks (forks_of_isBranch otherChildShaped otherIsBranch) same
          obtain rfl : below = otherBelow := Nat.add_left_cancel lengths
          rw [encodeNode, encodeNode, ih childShaped otherChildShaped sameBelow,
            isNull_of_present (isEmpty_of_isBranch isBranch),
            isNull_of_present (isEmpty_of_isBranch otherIsBranch)]
      | branch otherValue otherChildren =>
          exact absurd (otherShaped.forks.path_nil same) (shaped.1 rfl)
  | branch value children ih =>
      cases other with
      | null => cases shaped.isEmpty_of_entries same
      | empty => cases shaped.isEmpty_of_entries same
      | leaf => cases shaped.eq_leaf same
      | childless => exact otherShaped.elim
      | extension otherPath held otherChild =>
          exact absurd (shaped.forks.path_nil same.symm) (otherShaped.1 rfl)
      | branch otherValue otherChildren =>
          obtain ⟨rfl, -, below, rfl, each⟩ := shaped
          obtain ⟨rfl, -, otherBelow, lengths, otherEach⟩ := otherShaped
          obtain rfl : below = otherBelow := Nat.succ.inj lengths
          have sameChild (nibble : Nibble) :
              (children nibble).encodeNode = (otherChildren nibble).encodeNode := by
            apply ih nibble (each nibble) (otherEach nibble)
            funext key
            exact congrFun same (nibble :: key)
          rw [encodeNode, encodeNode]
          simp only [sameChild]

/-! ## Calls that keep the shape -/

/-- The key is not the one of a leaf without path and, for a compact trie, does
not leave an extension at the last nibble of its path. -/
def writeKeepsShape (compact : Bool) : Node → List Nibble → Bool
  | leaf .., [] => false
  | extension path _ child, nibbles =>
      if commonPrefixLength nibbles path = path.length then
        child.writeKeepsShape compact (nibbles.drop path.length)
      else !compact || decide (commonPrefixLength nibbles path + 1 < path.length)
  | branch _ children, nibble :: rest => (children nibble).writeKeepsShape compact rest
  | _, _ => true

/-- A branch that keeps one child keeps an extension, and is not itself the child
of an extension. -/
def removeKeepsShape : Node → List Nibble → Bool
  | extension path _ child, nibbles =>
      !decide (path <+: nibbles) || (child.removeKeepsShape (nibbles.drop path.length) &&
        !child.leavesExtension (nibbles.drop path.length))
  | branch _ children, nibble :: rest =>
      (children nibble).removeKeepsShape rest &&
        decide (∀ other, kept children nibble rest = [other] →
          (if other = nibble then (children nibble).leavesExtension rest
            else (children other).isExtension) = true)
  | _, _ => true

theorem Shaped.pos_of_isBranch {node : Node} {left : Nat} (shaped : node.Shaped compact left)
    (isBranch : node.isBranch = true) : 0 < left := by
  cases node with
  | branch value children =>
      obtain ⟨-, -, below, rfl, -⟩ := shaped
      exact Nat.succ_pos below
  | null => cases isBranch
  | empty => cases isBranch
  | leaf => cases isBranch
  | extension => cases isBranch
  | childless => cases isBranch

/-- No key of the right length ends at an extension. -/
theorem Shaped.some_nibble {path : List Nibble} {held : Value} {child : Node} {left : Nat}
    (shaped : (extension path held child).Shaped compact left) {nibbles : List Nibble}
    (length : nibbles.length = left) : ∃ nibble rest, nibbles = nibble :: rest := by
  obtain ⟨-, -, isBranch, below, rfl, childShaped⟩ := shaped
  cases nibbles with
  | cons nibble rest => exact ⟨nibble, rest, rfl⟩
  | nil =>
      have more := childShaped.pos_of_isBranch isBranch
      rw [List.length_nil] at length
      omega

theorem Shaped.writesClear {node : Node} {left : Nat} (shaped : node.Shaped compact left)
    {nibbles : List Nibble} (length : nibbles.length = left) : node.writesClear nibbles = true := by
  induction node generalizing left nibbles with
  | null => rfl
  | empty => rfl
  | leaf path value =>
      cases nibbles with
      | nil =>
          obtain rfl : path = [] := List.eq_nil_of_length_eq_zero (shaped.1.trans length.symm)
          rfl
      | cons => rfl
  | extension path held child ih =>
      obtain ⟨nibble, rest, rfl⟩ := shaped.some_nibble length
      obtain ⟨-, -, -, below, rfl, childShaped⟩ := shaped
      rw [Node.writesClear]
      by_cases inside : path <+: nibble :: rest
      · rw [ih childShaped (by rw [List.length_drop, length]; omega), Bool.or_true]
      · simp [inside]
  | childless => rfl
  | branch value children ih =>
      obtain ⟨-, -, below, rfl, each⟩ := shaped
      cases nibbles with
      | nil => rfl
      | cons nibble rest => exact ih nibble (each nibble) (Nat.succ.inj length)

/-- A key without a value can be written into a trie that need not be compact. -/
theorem Shaped.writeKeepsShape_of_missing {node : Node} {left : Nat}
    (shaped : node.Shaped false left) {nibbles : List Nibble} (length : nibbles.length = left)
    (missing : node.entries nibbles = none) : node.writeKeepsShape false nibbles = true := by
  induction node generalizing left nibbles with
  | null => rfl
  | empty => rfl
  | leaf path value =>
      cases nibbles with
      | nil =>
          obtain rfl : path = [] := List.eq_nil_of_length_eq_zero (shaped.1.trans length.symm)
          cases missing
      | cons => rfl
  | extension path held child ih =>
      obtain ⟨-, -, -, below, rfl, childShaped⟩ := shaped
      rw [writeKeepsShape]
      split
      · rename_i whole
        obtain ⟨shared, rest, pathRest, rfl, rfl, common, -⟩ := commonPrefixLength_spec nibbles path
        rw [common, List.length_append, Nat.left_eq_add] at whole
        obtain rfl : pathRest = [] := List.eq_nil_of_length_eq_zero whole
        rw [List.append_nil] at length missing ⊢
        rw [entries, PathMap.under_at] at missing
        rw [List.drop_left]
        rw [List.length_append] at length
        exact ih childShaped (Nat.add_left_cancel length) missing
      · rfl
  | childless => exact shaped.elim
  | branch value children ih =>
      obtain ⟨-, -, below, rfl, each⟩ := shaped
      cases nibbles with
      | nil => rfl
      | cons nibble rest => exact ih nibble (each nibble) (Nat.succ.inj length) missing

theorem Shaped.removesClear {node : Node} {left : Nat} (shaped : node.Shaped compact left)
    {nibbles : List Nibble} (length : nibbles.length = left)
    (keeps : node.removeKeepsShape nibbles = true) : node.removesClear nibbles = true := by
  induction node generalizing left nibbles with
  | null => rfl
  | empty => rfl
  | leaf path value =>
      cases nibbles with
      | nil =>
          obtain rfl : path = [] := List.eq_nil_of_length_eq_zero (shaped.1.trans length.symm)
          rfl
      | cons => rfl
  | extension path held child ih =>
      obtain ⟨nibble, rest, rfl⟩ := shaped.some_nibble length
      obtain ⟨-, -, -, below, rfl, childShaped⟩ := shaped
      rw [Node.removesClear]
      rw [removeKeepsShape] at keeps
      by_cases inside : path <+: nibble :: rest
      · simp only [inside, decide_true, Bool.not_true, Bool.false_or, Bool.and_eq_true] at keeps
        rw [ih childShaped (by rw [List.length_drop, length]; omega) keeps.1, Bool.or_true]
      · simp [inside]
  | childless => rfl
  | branch value children ih =>
      obtain ⟨rfl, -, below, rfl, each⟩ := shaped
      cases nibbles with
      | nil => rfl
      | cons nibble rest =>
          rw [removeKeepsShape, Bool.and_eq_true] at keeps
          rw [Node.removesClear, ih nibble (each nibble) (Nat.succ.inj length) keeps.1, keeps.2]
          rfl

theorem noChildren_shaped (below : Nat) (nibble : Nibble) : (noChildren nibble).Shaped compact below :=
  trivial

theorem shaped_update {children : Nibble → Node} {below : Nat}
    (each : ∀ nibble, (children nibble).Shaped compact below) (nibble : Nibble) (child : Node)
    (childShaped : child.Shaped compact below) (other : Nibble) :
    (Function.update children nibble child other).Shaped compact below := by
  rw [Function.update_apply]
  split
  · exact childShaped
  · exact each other

theorem present_update {children : Nibble → Node} {child : Node} (present : child.isEmpty = false)
    (nibble : Nibble) {other : Nibble} (otherPresent : (children other).isEmpty = false) :
    (Function.update children nibble child other).isEmpty = false := by
  rw [Function.update_apply]
  split
  · exact present
  · exact otherPresent

theorem extend_shaped {child : Node} {below : Nat} (shaped : child.Shaped compact below)
    (isBranch : child.isBranch = true) (path : List Nibble) :
    (extend path child).Shaped compact (path.length + below) ∧ (extend path child).isEmpty = false := by
  cases path with
  | nil => exact ⟨(Nat.zero_add below).symm ▸ shaped, isEmpty_of_isBranch isBranch⟩
  | cons nibble path =>
      exact ⟨⟨fun _ => List.cons_ne_nil nibble path, rfl, isBranch, below, rfl, shaped⟩, rfl⟩

theorem split_shaped (shared : List Nibble) {step nibble : Nibble} (apart : nibble ≠ step)
    (oldChild : List Nibble → Node) {pathRest rest : List Nibble} {below : Nat}
    (oldShaped : (oldChild pathRest).Shaped compact below)
    (oldPresent : (oldChild pathRest).isEmpty = false) (length : rest.length = below)
    {value : Value} (some_ : value ≠ []) :
    ∃ after, split (shared ++ step :: pathRest) (shared ++ nibble :: rest) shared.length value
        oldChild = after ∧ after.Shaped compact (shared.length + (below + 1)) ∧
      after.isEmpty = false := by
  simp only [split, List.drop_left, List.take_left]
  let old := Function.update noChildren step (oldChild pathRest)
  have each : ∀ other, (Function.update old nibble (leaf rest value) other).Shaped compact below :=
    shaped_update (shaped_update (noChildren_shaped below) step _ oldShaped) nibble _
      ⟨length, some_⟩
  have shaped : (branch [] (Function.update old nibble (leaf rest value))).Shaped compact (below + 1) :=
    ⟨rfl, ⟨nibble, step, apart, by simp [isEmpty],
      by simpa [apart.symm, old] using oldPresent⟩, below, rfl, each⟩
  obtain ⟨extended, present⟩ := extend_shaped shaped rfl shared
  exact ⟨_, rfl, extended, present⟩

/-- An insertion returns a node of the same shape, and a branch stays one. -/
def InsertsShaped (compact : Bool) (left : Nat) (node : Node) (nibbles : List Nibble)
    (value : Value) : Prop :=
  ∃ after, node.insert nibbles value = some after ∧ after.Shaped compact left ∧
    after.isEmpty = false ∧ (node.isBranch = true → after.isBranch = true)

theorem Shaped.leaf_inserts {path : List Nibble} {old : Value} {left : Nat}
    (shaped : (leaf path old).Shaped compact left) {nibbles : List Nibble}
    (length : nibbles.length = left)
    (keeps : (leaf path old).writeKeepsShape compact nibbles = true) {value : Value}
    (some_ : value ≠ []) : InsertsShaped compact left (leaf path old) nibbles value := by
  cases nibbles with
  | nil => cases keeps
  | cons nibble rest =>
      rw [InsertsShaped, insert_leaf_cons]
      obtain ⟨shared, nibblesRest, pathRest, whole, rfl, common, apart⟩ :=
        commonPrefixLength_spec (nibble :: rest) path
      rw [common]
      rw [whole] at length ⊢
      obtain ⟨pathLength, oldSome⟩ := shaped
      rw [List.length_append] at length pathLength
      cases pathRest with
      | nil =>
          obtain rfl : nibblesRest = [] :=
            List.eq_nil_of_length_eq_zero (by rw [List.length_nil] at pathLength; omega)
          rw [if_pos (by simp), List.drop_left]
          exact ⟨_, rfl, ⟨by rw [List.length_append, pathLength], some_⟩, rfl, fun isBranch => isBranch⟩
      | cons step pathRest =>
          rw [if_neg (by simp)]
          cases nibblesRest with
          | nil =>
              rw [List.length_cons] at pathLength
              rw [List.length_nil] at length
              omega
          | cons next rest =>
              rw [List.length_cons] at length pathLength
              have oldShaped : (leaf pathRest old).Shaped compact pathRest.length := ⟨rfl, oldSome⟩
              obtain ⟨after, splits, afterShaped, afterPresent⟩ :=
                split_shaped shared (fun same => other_head apart (congrArg some same))
                  (fun rest => leaf rest old) oldShaped rfl (by omega : rest.length = _) some_
              rw [pathLength] at afterShaped
              exact ⟨after, congrArg some splits, afterShaped, afterPresent,
                fun isBranch => nomatch isBranch⟩

/-- An extension inserts below its path, or is split where the key leaves the path. -/
theorem Shaped.extension_inserts {path : List Nibble} {held : Value} {child : Node} {left : Nat}
    (shaped : (extension path held child).Shaped compact left) {nibbles : List Nibble}
    (length : nibbles.length = left)
    (keeps : (extension path held child).writeKeepsShape compact nibbles = true) {value : Value}
    (some_ : value ≠ [])
    (inner : ∀ {below : Nat}, child.Shaped compact below → child.isNull = false →
      ∀ {rest : List Nibble}, rest.length = below → child.writeKeepsShape compact rest = true →
        InsertsShaped compact below child rest value) :
    InsertsShaped compact left (extension path held child) nibbles value := by
  obtain ⟨nibble, rest, rfl⟩ := shaped.some_nibble length
  obtain ⟨somePath, rfl, isBranch, below, rfl, childShaped⟩ := shaped
  rw [InsertsShaped, insert_extension_cons]
  rw [writeKeepsShape] at keeps
  obtain ⟨shared, nibblesRest, pathRest, whole, rfl, common, apart⟩ :=
    commonPrefixLength_spec (nibble :: rest) path
  rw [common] at keeps ⊢
  rw [whole] at keeps length ⊢
  rw [List.length_append, List.length_append] at length
  cases pathRest with
  | nil =>
      rw [List.append_nil] at keeps ⊢
      rw [if_pos rfl, List.drop_left] at keeps
      rw [if_pos rfl, List.drop_left]
      obtain ⟨after, inserted, afterShaped, -, keepsBranch⟩ :=
        inner childShaped (isNull_of_present (isEmpty_of_isBranch isBranch)) (by simpa using length)
          keeps
      rw [inserted]
      exact ⟨_, rfl, ⟨by simpa using somePath, rfl, keepsBranch isBranch, below, rfl, afterShaped⟩, rfl,
        fun isBranch => nomatch isBranch⟩
  | cons step pathRest =>
      rw [if_neg (by simp), Bool.or_eq_true, decide_eq_true_eq, Bool.not_eq_true'] at keeps
      rw [if_neg (by simp)]
      cases nibblesRest with
      | nil =>
          rw [List.length_cons, List.length_nil] at length
          omega
      | cons next rest =>
          simp only [List.length_cons, List.length_append] at length keeps
          have somePathRest : compact = true → pathRest ≠ [] := by
            intro isCompact none_
            rw [isCompact, none_, List.length_nil] at keeps
            rcases keeps with absurd_ | keeps
            · cases absurd_
            · omega
          have oldShaped : (extension pathRest [] child).Shaped compact (pathRest.length + below) :=
            ⟨somePathRest, rfl, isBranch, below, rfl, childShaped⟩
          obtain ⟨after, splits, afterShaped, afterPresent⟩ :=
            split_shaped shared (fun same => other_head apart (congrArg some same))
              (fun rest => extension rest [] child) oldShaped rfl
              (by omega : rest.length = _) some_
          have lengths : (shared ++ step :: pathRest).length + below =
              shared.length + (pathRest.length + below + 1) := by
            rw [List.length_append, List.length_cons]
            omega
          rw [lengths]
          exact ⟨after, congrArg some splits, afterShaped, afterPresent,
            fun isBranch => nomatch isBranch⟩

theorem Shaped.insert {node : Node} {left : Nat} (shaped : node.Shaped compact left)
    (present : node.isNull = false) {nibbles : List Nibble} (length : nibbles.length = left)
    (keeps : node.writeKeepsShape compact nibbles = true) {value : Value} (some_ : value ≠ []) :
    ∃ after, node.insert nibbles value = some after ∧ after.Shaped compact left ∧
      after.isEmpty = false ∧ (node.isBranch = true → after.isBranch = true) := by
  induction node generalizing left nibbles with
  | null => cases present
  | empty => exact ⟨_, rfl, ⟨length, some_⟩, rfl, fun isBranch => isBranch⟩
  | leaf path old => exact shaped.leaf_inserts length keeps some_
  | extension path held child ih =>
      exact shaped.extension_inserts length keeps some_
        fun childShaped childPresent _ restLength restKeeps =>
          ih childShaped childPresent restLength restKeeps
  | childless => exact shaped.elim
  | branch held children ih =>
      obtain ⟨rfl, ⟨first, second, apart, firstPresent, secondPresent⟩, below, rfl, each⟩ := shaped
      cases nibbles with
      | nil => cases length
      | cons nibble rest =>
          have restLength : rest.length = below := Nat.succ.inj length
          have inserts : ∃ child, (if (children nibble).isNull then some (leaf rest value)
              else (children nibble).insert rest value) = some child ∧ child.Shaped compact below ∧
              child.isEmpty = false := by
            cases isNull : (children nibble).isNull with
            | true => exact ⟨leaf rest value, rfl, ⟨restLength, some_⟩, rfl⟩
            | false =>
                obtain ⟨child, inserted, childShaped, childPresent, -⟩ :=
                  ih nibble (each nibble) isNull restLength keeps
                exact ⟨child, inserted, childShaped, childPresent⟩
          obtain ⟨child, inserted, childShaped, childPresent⟩ := inserts
          refine ⟨branch [] (Function.update children nibble child), ?_,
            ⟨rfl, ⟨first, second, apart, present_update childPresent nibble firstPresent,
              present_update childPresent nibble secondPresent⟩, below, rfl,
              shaped_update each nibble child childShaped⟩, rfl, fun _ => rfl⟩
          rw [Node.insert, inserted]
          rfl

theorem remaining_nodup (children : Nibble → Node) : (remaining children).Nodup :=
  (List.nodup_finRange 16).filter _

theorem collapse_shaped {children : Nibble → Node} {below : Nat}
    (each : ∀ nibble, (children nibble).Shaped compact below)
    (mergeable : ∀ nibble, remaining children = [nibble] →
      (children nibble).isExtension = true) :
    (collapse [] children).Shaped compact (below + 1) ∧
      ((collapse [] children).isEmpty = true ∨ (collapse [] children).isExtension = true ∨
        (collapse [] children).isBranch = true) := by
  match left : remaining children with
  | [] =>
      have emptied : collapse [] children = empty := by simp [collapse, left]
      rw [emptied]
      exact ⟨trivial, .inl rfl⟩
  | [nibble] =>
      obtain ⟨path, held, child, node⟩ :=
        extension_of_isExtension (each nibble).sound (mergeable nibble left)
      have last : (extension path held child).Shaped compact below := node ▸ each nibble
      have merged : collapse [] children = extension (nibble :: path) held child := by
        simp [collapse, left, node, mergeChild]
      obtain ⟨-, noValue, isBranch, lower, lengths, childShaped⟩ := last
      rw [merged]
      refine ⟨⟨fun _ => List.cons_ne_nil nibble path, noValue, isBranch, lower, ?_, childShaped⟩,
        .inr (.inl rfl)⟩
      rw [lengths, List.length_cons]
      omega
  | first :: second :: others =>
      have unmerged : collapse [] children = branch [] children := by simp [collapse, left]
      have nodup := remaining_nodup children
      rw [left] at nodup
      have apart : first ≠ second := fun same => by simp [same] at nodup
      have firstPresent : first ∈ remaining children := by simp [left]
      have secondPresent : second ∈ remaining children := by simp [left]
      rw [unmerged]
      exact ⟨⟨rfl, ⟨first, second, apart, mem_remaining.mp firstPresent,
        mem_remaining.mp secondPresent⟩, below, rfl, each⟩, .inr (.inr rfl)⟩

/-- What a removal leaves: a shaped node, and no leaf where a branch was. -/
def RemovesShaped (compact : Bool) (left : Nat) (node after : Node) : Prop :=
  after.Shaped compact left ∧ (node.isBranch = true →
    after.isEmpty = true ∨ after.isExtension = true ∨ after.isBranch = true)

theorem Shaped.extension_removes {path : List Nibble} {held : Value} {child : Node} {left : Nat}
    (shaped : (extension path held child).Shaped compact left) {nibbles : List Nibble}
    (length : nibbles.length = left)
    (keeps : (extension path held child).removeKeepsShape nibbles = true) {after : Node}
    (removed : (extension path held child).remove nibbles = some after)
    (removes : ∀ {childAfter : Node} {below : Nat}, child.Shaped compact below →
      ∀ {rest : List Nibble}, rest.length = below → child.removeKeepsShape rest = true →
      child.remove rest = some childAfter → RemovesShaped compact below child childAfter) :
    after.Shaped compact left := by
  obtain ⟨nibble, rest, rfl⟩ := shaped.some_nibble length
  rw [remove_extension_cons] at removed
  rw [removeKeepsShape] at keeps
  by_cases inside : path <+: nibble :: rest
  · obtain ⟨somePath, rfl, isBranch, below, rfl, childShaped⟩ := shaped
    simp only [inside, decide_true, Bool.not_true, Bool.false_or, Bool.and_eq_true,
      Bool.not_eq_true'] at keeps
    rw [if_pos inside] at removed
    obtain ⟨childAfter, childRemoved, done⟩ := Option.bind_eq_some_iff.mp removed
    cases done
    have dropLength : ((nibble :: rest).drop path.length).length = below := by
      rw [List.length_drop, length]
      omega
    obtain ⟨afterShaped, shape⟩ := removes childShaped dropLength keeps.1 childRemoved
    obtain ⟨same, known, -, -, isExtension, -⟩ := remove_spec childShaped.sound
      (childShaped.removesClear dropLength keeps.1)
    obtain rfl : childAfter = same := Option.some.inj (childRemoved.symm.trans known)
    cases isGone : childAfter.isEmpty with
    | true => exact trivial
    | false =>
        -- A branch that is no branch any more would have to be merged into the path.
        rcases shape isBranch with gone | extends_ | branches
        · rw [isGone] at gone
          cases gone
        · rw [isExtension, keeps.2] at extends_
          cases extends_
        · exact ⟨somePath, rfl, branches, below, rfl, afterShaped⟩
  · rw [if_neg inside] at removed
    cases removed
    exact shaped

theorem Shaped.branch_removes {value : Value} {children : Nibble → Node} {left : Nat}
    (shaped : (branch value children).Shaped compact left) {nibbles : List Nibble}
    (length : nibbles.length = left)
    (keeps : (branch value children).removeKeepsShape nibbles = true) {after : Node}
    (removed : (branch value children).remove nibbles = some after)
    (removes : ∀ (nibble : Nibble) {child : Node} {below : Nat},
      (children nibble).Shaped compact below → ∀ {rest : List Nibble}, rest.length = below →
      (children nibble).removeKeepsShape rest = true → (children nibble).remove rest = some child →
      RemovesShaped compact below (children nibble) child) :
    RemovesShaped compact left (branch value children) after := by
  obtain ⟨rfl, -, below, rfl, each⟩ := shaped
  cases nibbles with
  | nil => cases length
  | cons nibble rest =>
      have restLength : rest.length = below := Nat.succ.inj length
      rw [removeKeepsShape, Bool.and_eq_true, decide_eq_true_eq] at keeps
      rw [Node.remove] at removed
      obtain ⟨child, childRemoved, done⟩ := Option.bind_eq_some_iff.mp removed
      cases done
      obtain ⟨childShaped, -⟩ := removes nibble (each nibble) restLength keeps.1 childRemoved
      obtain ⟨same, known, -, gone, isExtension, -⟩ := remove_spec (each nibble).sound
        ((each nibble).removesClear restLength keeps.1)
      obtain rfl : child = same := Option.some.inj (childRemoved.symm.trans known)
      obtain ⟨afterShaped, shape⟩ := collapse_shaped
        (shaped_update each nibble child childShaped)
        (merges_extension gone isExtension keeps.2)
      exact ⟨afterShaped, fun _ => shape⟩

theorem Shaped.remove {node after : Node} {left : Nat} (shaped : node.Shaped compact left)
    {nibbles : List Nibble} (length : nibbles.length = left)
    (keeps : node.removeKeepsShape nibbles = true) (removed : node.remove nibbles = some after) :
    RemovesShaped compact left node after := by
  induction node generalizing left nibbles after with
  | null => cases removed; exact ⟨trivial, fun isBranch => nomatch isBranch⟩
  | empty => cases removed; exact ⟨trivial, fun isBranch => nomatch isBranch⟩
  | leaf path value =>
      refine ⟨?_, fun isBranch => nomatch isBranch⟩
      cases nibbles with
      | nil => cases removed; exact trivial
      | cons nibble rest =>
          rw [remove_leaf_cons, Option.some.injEq] at removed
          rw [← removed]
          split
          · exact trivial
          · exact shaped
  | extension path held child ih =>
      exact ⟨shaped.extension_removes length keeps removed ih, fun isBranch => nomatch isBranch⟩
  | childless => exact shaped.elim
  | branch value children ih => exact shaped.branch_removes length keeps removed ih

end Node

end MerklePatriciaTrie

namespace TrieCall

open MerklePatriciaTrie

def key : TrieCall → Bytes
  | put key _ => key
  | delete key => key

/-- The call keeps a compact trie compact. -/
def KeepsShape (trie : MerklePatriciaTrie) : TrieCall → Prop
  | put key value =>
      (if value.isEmpty then trie.root.removeKeepsShape (toNibbles key)
        else trie.root.writeKeepsShape true (toNibbles key)) = true
  | delete key => trie.root.removeKeepsShape (toNibbles key) = true

end TrieCall

namespace MerklePatriciaTrie

theorem toNibbles_length (key : Bytes) : (toNibbles key).length = 2 * key.length := by
  induction key with
  | nil => rfl
  | cons byte key ih =>
      rw [toNibbles, List.flatMap_cons, List.length_append, ← toNibbles, ih, List.length_cons]
      simp
      omega

theorem byte_of_nibbles : ∀ high low : Nibble, ∃ byte : UInt8,
    Fin.ofNat 16 (byte >>> 4).toNat = high ∧ Fin.ofNat 16 (byte &&& 0x0F).toNat = low := by
  intro high low
  refine ⟨UInt8.ofNat (16 * high.val + low.val), ?_⟩
  revert high low
  decide

theorem toNibbles_of_length {nibbles : List Nibble} {length : Nat}
    (even : nibbles.length = 2 * length) : ∃ key, toNibbles key = nibbles := by
  induction length generalizing nibbles with
  | zero => exact ⟨[], (List.eq_nil_of_length_eq_zero even).symm⟩
  | succ length ih =>
      match nibbles, even with
      | high :: low :: rest, even =>
          have restEven : rest.length = 2 * length := by
            simp only [List.length_cons] at even
            omega
          obtain ⟨key, rfl⟩ := ih restEven
          obtain ⟨byte, rfl, rfl⟩ := byte_of_nibbles high low
          exact ⟨byte :: key, rfl⟩

/-- The trie holds a map with keys of one length and is shaped for it. -/
structure Commits (compact : Bool) (length : Nat) (trie : MerklePatriciaTrie)
    (map : Bytes → Option Value) : Prop where
  shaped : trie.root.Shaped compact (2 * length)
  holds : trie.Holds map

variable {compact : Bool} {length : Nat} {trie : MerklePatriciaTrie} {map : Bytes → Option Value}

theorem Commits.fresh (compact : Bool) (length : Nat) :
    Commits compact length fresh fun _ => none where
  shaped := trivial
  holds := Holds.fresh

theorem delete_commits (commits : Commits compact length trie map) {key : Bytes} (keyLength : key.length = length)
    (keeps : trie.root.removeKeepsShape (toNibbles key) = true) :
    ∃ after, trie.delete key = some after ∧
      Commits compact length after (Function.update map key none) := by
  have nibbles : (toNibbles key).length = 2 * length := by rw [toNibbles_length, keyLength]
  obtain ⟨after, deleted, holds⟩ :=
    delete_holds commits.holds (commits.shaped.removesClear nibbles keeps)
  refine ⟨after, deleted, ?_, holds⟩
  obtain ⟨root, removed, done⟩ := Option.bind_eq_some_iff.mp deleted
  cases done
  exact (commits.shaped.remove nibbles keeps removed).1

theorem put_commits (commits : Commits compact length trie map) {key : Bytes}
    (keyLength : key.length = length)
    (keeps : trie.root.writeKeepsShape compact (toNibbles key) = true) {value : Value}
    (some_ : value ≠ []) :
    ∃ after, trie.put key value = some after ∧
      Commits compact length after (Function.update map key (some value)) := by
  have nibbles : (toNibbles key).length = 2 * length := by rw [toNibbles_length, keyLength]
  obtain ⟨after, put_, holds⟩ :=
    put_holds commits.holds (commits.shaped.writesClear nibbles) some_
  obtain ⟨root, inserted, shaped, -⟩ :=
    commits.shaped.insert commits.holds.present nibbles keeps some_
  have done : trie.put key value = some ⟨root⟩ := by simp [put, some_, inserted]
  rw [done] at put_
  cases put_
  exact ⟨⟨root⟩, done, shaped, holds⟩

theorem apply_commits (commits : Commits true length trie map) {call : TrieCall}
    (keyLength : call.key.length = length)
    (keeps : TrieCall.KeepsShape trie call) :
    ∃ after, TrieCall.apply trie call = some after ∧
      Commits true length after (TrieCall.mapped map call) := by
  cases call with
  | delete key => exact delete_commits commits keyLength keeps
  | put key value =>
      cases value with
      | nil => exact delete_commits commits keyLength keeps
      | cons byte bytes => exact put_commits commits keyLength keeps (List.cons_ne_nil byte bytes)

/-- Two compact tries of one map have one root hash. -/
theorem Commits.getRootHash_eq {first second : MerklePatriciaTrie}
    (firstCommits : Commits true length first map) (secondCommits : Commits true length second map) :
    first.getRootHash = second.getRootHash := by
  have same : first.root.entries = second.root.entries := by
    funext nibbles
    by_cases even : nibbles.length = 2 * length
    · obtain ⟨key, rfl⟩ := toNibbles_of_length even
      rw [firstCommits.holds.entries_eq, secondCommits.holds.entries_eq]
    · rw [firstCommits.shaped.hasLength.missing even,
        secondCommits.shaped.hasLength.missing even]
  rw [getRootHash, getRootHash, Node.hashNode, Node.hashNode,
    firstCommits.shaped.encodeNode_eq secondCommits.shaped same]

theorem commits_after {calls : List TrieCall}
    (keyLength : ∀ call ∈ calls, call.key.length = length)
    (keeps : EachInTurn TrieCall.apply TrieCall.KeepsShape fresh calls) :
    ∃ trie, calls.foldlM TrieCall.apply fresh = some trie ∧
      Commits true length trie (lastPut calls) := by
  have follows (trie : MerklePatriciaTrie) (map : Bytes → Option Value) (call : TrieCall)
      (commits : Commits true length trie map)
      (meets : call.key.length = length ∧ TrieCall.KeepsShape trie call) :
      ∃ after, TrieCall.apply trie call = some after ∧
        Commits true length after (TrieCall.mapped map call) :=
    apply_commits commits meets.1 meets.2
  exact EachInTurn.simulates follows (keeps.with_forall keyLength) (Commits.fresh true length)

/-- Over keys of one length, calls that keep the shape make the root hash a
function of the mapping they leave. -/
theorem root_hash_of_mapping {first second : List TrieCall}
    (firstLength : ∀ call ∈ first, call.key.length = length)
    (secondLength : ∀ call ∈ second, call.key.length = length)
    (firstKeeps : EachInTurn TrieCall.apply TrieCall.KeepsShape fresh first)
    (secondKeeps : EachInTurn TrieCall.apply TrieCall.KeepsShape fresh second)
    (same : lastPut first = lastPut second) :
    ∃ firstTrie secondTrie, first.foldlM TrieCall.apply fresh = some firstTrie ∧
      second.foldlM TrieCall.apply fresh = some secondTrie ∧
      firstTrie.getRootHash = secondTrie.getRootHash := by
  obtain ⟨firstTrie, firstDone, firstCommits⟩ := commits_after firstLength firstKeeps
  obtain ⟨secondTrie, secondDone, secondCommits⟩ := commits_after secondLength secondKeeps
  rw [← same] at secondCommits
  exact ⟨firstTrie, secondTrie, firstDone, secondDone,
    firstCommits.getRootHash_eq secondCommits⟩

/-- Two keys put in one order and in the other. -/
def putsInOrder : List TrieCall := [.put [0x11] [1], .put [0x21] [2]]

theorem root_hash_of_mapping_swapped : ∃ firstTrie secondTrie,
    putsInOrder.foldlM TrieCall.apply fresh = some firstTrie ∧
      putsInOrder.reverse.foldlM TrieCall.apply fresh = some secondTrie ∧
      firstTrie.getRootHash = secondTrie.getRootHash := by
  have lengths : ∀ call ∈ putsInOrder, call.key.length = 1 := by simp [putsInOrder, TrieCall.key]
  have reversed : ∀ call ∈ putsInOrder.reverse, call.key.length = 1 := by
    simp [putsInOrder, TrieCall.key]
  refine root_hash_of_mapping lengths reversed ⟨rfl, fun _ done => ?_⟩ ⟨rfl, fun _ done => ?_⟩ ?_
  · cases done
    exact ⟨rfl, fun _ _ => trivial⟩
  · cases done
    exact ⟨rfl, fun _ _ => trivial⟩
  · exact Function.update_comm (by decide) _ _ _

/-- A key put and deleted again, next to one that stays. -/
def putAndDeleted : List TrieCall := [.put [0x11] [1], .put [0x21] [2], .delete [0x21]]

theorem root_hash_after_putAndDeleted :
    lastPut putAndDeleted = lastPut [.put [0x11] [1]] ∧
      (putAndDeleted.foldlM TrieCall.apply fresh).isSome = true ∧
      ([TrieCall.put [0x11] [1]].foldlM TrieCall.apply fresh).isSome = true ∧
      (putAndDeleted.foldlM TrieCall.apply fresh).map getRootHash ≠
        ([TrieCall.put [0x11] [1]].foldlM TrieCall.apply fresh).map getRootHash := by
  refine ⟨?_, rfl, rfl, by decide +kernel⟩
  funext key
  by_cases first : key = [0x11]
  · subst first
    rfl
  · by_cases second : key = [0x21]
    · subst second
      rfl
    · simp [lastPut, putAndDeleted, TrieCall.mapped, first, second]

end MerklePatriciaTrie

end Parthenon.Evm
