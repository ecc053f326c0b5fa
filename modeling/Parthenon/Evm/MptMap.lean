import Parthenon.Evm.Mpt
import Parthenon.Library.PathMap
import Parthenon.Library.Runs

namespace Parthenon.Evm

open Library

/-! # The trie as a map

The map a trie holds, and the calls that do to it what they are meant to.  The
code goes wrong at the end of a key, where it does not look at the path of the
leaf or extension it stands on, and where it merges a branch with its last child.
-/

namespace MerklePatriciaTrie

theorem commonPrefixLength_spec (nibbles path : List Nibble) :
    ∃ shared nibblesRest pathRest,
      nibbles = shared ++ nibblesRest ∧ path = shared ++ pathRest ∧
        commonPrefixLength nibbles path = shared.length ∧
        (nibblesRest = [] ∨ pathRest = [] ∨ nibblesRest.head? ≠ pathRest.head?) := by
  induction nibbles generalizing path with
  | nil => exact ⟨[], [], path, rfl, rfl, by simp [commonPrefixLength], .inl rfl⟩
  | cons nibble nibbles ih =>
      cases path with
      | nil => exact ⟨[], _, [], rfl, rfl, by simp [commonPrefixLength], .inr (.inl rfl)⟩
      | cons step path =>
          by_cases same : nibble = step
          · subst same
            obtain ⟨shared, nibblesRest, pathRest, rfl, rfl, length, apart⟩ := ih path
            refine ⟨nibble :: shared, nibblesRest, pathRest, rfl, rfl, ?_, apart⟩
            simp [commonPrefixLength, length]
          · exact ⟨[], _, _, rfl, rfl, by simp [commonPrefixLength, same],
              .inr (.inr (by simpa using same))⟩

namespace Node

/-- The map a node holds. -/
def entries : Node → PathMap Nibble Value
  | null => .empty
  | empty => .empty
  | leaf path value => .single path value
  | extension path _ child => .under path child.entries
  | childless .. => .empty
  | branch value children => .fork (stored value) fun nibble => (children nibble).entries

/-- Values are not empty and every extension leads somewhere. -/
def Sound : Node → Prop
  | null => True
  | empty => True
  | leaf _ value => value ≠ []
  | extension _ _ child => child.isEmpty = false ∧ child.Sound
  | childless .. => False
  | branch _ children => ∀ nibble, (children nibble).Sound

/-- The key does not end at a leaf with some path left, nor at an extension
without a path above a value. -/
def readsClear : Node → List Nibble → Bool
  | leaf path _, [] => path.isEmpty
  | extension path _ child, [] => !path.isEmpty || (child.entries []).isNone
  | extension path _ child, nibble :: rest =>
      !decide (path <+: nibble :: rest) || child.readsClear ((nibble :: rest).drop path.length)
  | branch _ children, nibble :: rest => (children nibble).readsClear rest
  | _, _ => true

/-- The key does not end at a leaf with some path left, nor at an extension. -/
def writesClear : Node → List Nibble → Bool
  | leaf path _, [] => path.isEmpty
  | extension .., [] => false
  | extension path _ child, nibble :: rest =>
      !decide (path <+: nibble :: rest) || child.writesClear ((nibble :: rest).drop path.length)
  | branch _ children, nibble :: rest => (children nibble).writesClear rest
  | _, _ => true

/-- Removing the key leaves nothing of the node. -/
def vanishes : Node → List Nibble → Bool
  | null, _ => true
  | empty, _ => true
  | leaf .., [] => true
  | leaf path _, nibble :: rest => decide (path = nibble :: rest)
  | extension path _ child, nibble :: rest =>
      decide (path <+: nibble :: rest) && child.vanishes ((nibble :: rest).drop path.length)
  | branch value children, nibble :: rest =>
      value.isEmpty && (children nibble).vanishes rest &&
        decide (∀ other, other ≠ nibble → (children other).isEmpty = true)
  | _, _ => false

/-- The children a branch keeps when the key is removed below it. -/
def kept (children : Nibble → Node) (nibble : Nibble) (rest : List Nibble) : List Nibble :=
  (List.finRange 16).filter fun other =>
    if other = nibble then !(children nibble).vanishes rest else !(children other).isEmpty

/-- Removing the key leaves an extension in place of the node. -/
def leavesExtension : Node → List Nibble → Bool
  | extension path held child, nibbles => !(extension path held child).vanishes nibbles
  | branch value children, nibble :: rest =>
      value.isEmpty && decide ((kept children nibble rest).length = 1)
  | _, _ => false

/-- The key does not end at a leaf with some path left, nor at an extension
without a path above a value, and a branch without value that keeps one child on
the way keeps an extension. -/
def removesClear : Node → List Nibble → Bool
  | leaf path _, [] => path.isEmpty
  | extension path _ child, [] => !path.isEmpty || (child.entries []).isNone
  | extension path _ child, nibble :: rest =>
      !decide (path <+: nibble :: rest) || child.removesClear ((nibble :: rest).drop path.length)
  | branch value children, nibble :: rest =>
      (children nibble).removesClear rest &&
        (!value.isEmpty || decide (∀ other, kept children nibble rest = [other] →
          (if other = nibble then (children nibble).leavesExtension rest
            else (children other).isExtension) = true))
  | _, _ => true

theorem stored_of_ne_nil {value : Value} (some_ : value ≠ []) : stored value = some value := by
  cases value with
  | nil => exact absurd rfl some_
  | cons => rfl

theorem entries_of_isEmpty {node : Node} (gone : node.isEmpty = true) : node.entries = .empty := by
  cases node with
  | null => rfl
  | empty => rfl
  | leaf => cases gone
  | extension => cases gone
  | childless => cases gone
  | branch => cases gone

theorem isEmpty_of_isNull {node : Node} (isNull : node.isNull = true) : node.isEmpty = true := by
  cases node with
  | null => rfl
  | empty => rfl
  | leaf => cases isNull
  | extension => cases isNull
  | childless => cases isNull
  | branch => cases isNull

theorem isNull_of_present {node : Node} (present : node.isEmpty = false) : node.isNull = false := by
  cases isNull : node.isNull with
  | true => rw [isEmpty_of_isNull isNull] at present; cases present
  | false => rfl

/-! ## Lookup -/

theorem lookup_extension_cons (path : List Nibble) (held : Value) (child : Node) (nibble : Nibble)
    (rest : List Nibble) : (extension path held child).lookup (nibble :: rest) =
      if path <+: nibble :: rest then child.lookup ((nibble :: rest).drop path.length)
      else some none := rfl

/-- A lookup reads the map exactly when the key is clear. -/
theorem lookup_eq_iff {node : Node} (sound : node.Sound) (nibbles : List Nibble) :
    node.lookup nibbles = some (node.entries nibbles) ↔ node.readsClear nibbles = true := by
  induction node generalizing nibbles with
  | null => simp [lookup, entries, readsClear]
  | empty => simp [lookup, entries, readsClear]
  | leaf path value =>
      rw [entries, PathMap.single_apply]
      cases nibbles with
      | nil =>
          rw [lookup, stored_of_ne_nil sound]
          cases path with
          | nil => simp [readsClear]
          | cons => simp [readsClear]
      | cons nibble rest => simp [lookup, readsClear]
  | extension path held child ih =>
      cases nibbles with
      | nil =>
          cases path with
          | nil => simp [lookup, entries, readsClear, eq_comm (a := none)]
          | cons => simp [lookup, entries, readsClear, PathMap.under]
      | cons nibble rest =>
          rw [lookup_extension_cons, readsClear, entries]
          by_cases inside : path <+: nibble :: rest
          · obtain ⟨tail, whole⟩ := inside
            rw [← whole, List.drop_left, if_pos (List.prefix_append path tail), PathMap.under_at,
              ih sound.2]
            simp
          · rw [if_neg inside, PathMap.under_outside inside]
            simp [inside]
  | childless => exact sound.elim
  | branch value children ih =>
      cases nibbles with
      | nil => simp [lookup, entries, readsClear]
      | cons nibble rest => exact ih nibble (sound nibble) rest

/-! ## Insertion -/

@[simp] theorem entries_noChildren (nibble : Nibble) : (noChildren nibble).entries = .empty := rfl

theorem entries_update (children : Nibble → Node) (nibble : Nibble) (child : Node) :
    (fun other => (Function.update children nibble child other).entries) =
      Function.update (fun other => (children other).entries) nibble child.entries := by
  funext other
  by_cases same : other = nibble
  · subst same
    simp
  · simp [same]

theorem noChildren_sound (nibble : Nibble) : (noChildren nibble).Sound := trivial

theorem sound_update {children : Nibble → Node} (sound : ∀ nibble, (children nibble).Sound)
    (nibble : Nibble) (child : Node) (childSound : child.Sound) (other : Nibble) :
    (Function.update children nibble child other).Sound := by
  rw [Function.update_apply]
  split
  · exact childSound
  · exact sound other

theorem entries_extend (path : List Nibble) (child : Node) :
    (extend path child).entries = .under path child.entries := by
  cases path with
  | nil => rfl
  | cons => rfl

theorem extend_sound {child : Node} (sound : child.Sound) (present : child.isEmpty = false)
    (path : List Nibble) : (extend path child).Sound ∧ (extend path child).isEmpty = false := by
  cases path with
  | nil => exact ⟨sound, present⟩
  | cons => exact ⟨⟨present, sound⟩, rfl⟩

theorem under_single (path key : List Nibble) (value : Value) :
    PathMap.under path (.single key value) = .single (path ++ key) value :=
  (PathMap.under_append path key _).symm

theorem entries_branch_over (old : Node) (step : Nibble) :
    (branch [] (Function.update noChildren step old)).entries = .under [step] old.entries := by
  rw [entries, entries_update, PathMap.under]
  rfl

theorem entries_branch_update (held : Value) (children : Nibble → Node) (nibble : Nibble)
    (rest : List Nibble) {child : Node} {value : Option Value}
    (changed : child.entries = Function.update (children nibble).entries rest value) :
    (branch held (Function.update children nibble child)).entries =
      Function.update (branch held children).entries (nibble :: rest) value := by
  rw [entries, entries, entries_update, PathMap.update_fork_cons, changed]

theorem entries_branch_value (children : Nibble → Node) (held : Value) {value : Value}
    (some_ : value ≠ []) : (branch value children).entries =
      Function.update (branch held children).entries [] (some value) := by
  rw [entries, entries, PathMap.update_fork_nil, stored_of_ne_nil some_]

theorem entries_new_leaf {old : Node} (free : old.entries = .empty) (path : List Nibble)
    (value : Value) : (leaf path value).entries =
      Function.update old.entries path (some value) := by
  rw [free, PathMap.update_empty, entries]

/-- What a walk that stands at a leaf or an extension leaves below the shared part. -/
theorem split_spec (shared pathRest nibblesRest : List Nibble) (oldChild : List Nibble → Node)
    {step : Nibble} {value : Value} (apart : nibblesRest.head? ≠ some step) (some_ : value ≠ [])
    (oldSound : (oldChild pathRest).Sound) :
    ∃ after, split (shared ++ step :: pathRest) (shared ++ nibblesRest) shared.length value oldChild
        = after ∧ after.Sound ∧ after.isEmpty = false ∧
      after.entries = Function.update (PathMap.under (shared ++ [step]) (oldChild pathRest).entries)
        (shared ++ nibblesRest) (some value) := by
  let children := Function.update noChildren step (oldChild pathRest)
  have childrenSound (nibble : Nibble) : (children nibble).Sound :=
    sound_update noChildren_sound step _ oldSound nibble
  have before : PathMap.under (shared ++ [step]) (oldChild pathRest).entries =
      .under shared (branch [] children).entries := by
    rw [PathMap.under_append, entries_branch_over]
  rw [before, PathMap.update_under]
  simp only [split, List.drop_left, List.take_left]
  cases nibblesRest with
  | nil =>
      have sound : (branch value children).Sound := childrenSound
      obtain ⟨extended, present⟩ := extend_sound sound rfl shared
      exact ⟨_, rfl, extended, present, by rw [entries_extend, entries_branch_value _ [] some_]⟩
  | cons nibble rest =>
      have sound : (branch [] (Function.update children nibble (leaf rest value))).Sound :=
        sound_update childrenSound nibble (leaf rest value) some_
      obtain ⟨extended, present⟩ := extend_sound sound rfl shared
      refine ⟨_, rfl, extended, present, ?_⟩
      have free : (children nibble).entries = .empty := by
        have other : nibble ≠ step := fun same => apart (congrArg some same)
        rw [show children nibble = null by simp [children, other, noChildren]]
        rfl
      rw [entries_extend, entries_branch_update [] children nibble rest
        (entries_new_leaf free rest value)]

theorem other_head {nibblesRest pathRest : List Nibble} {step : Nibble}
    (apart : nibblesRest = [] ∨ step :: pathRest = [] ∨
      nibblesRest.head? ≠ (step :: pathRest).head?) : nibblesRest.head? ≠ some step := by
  rcases apart with rfl | none_ | apart
  · simp
  · cases none_
  · exact apart

theorem entries_leaf {path : List Nibble} {value : Value} (some_ : value ≠ []) :
    (leaf path value).entries = .under path (branch value noChildren).entries := by
  rw [entries, entries, stored_of_ne_nil some_]
  rfl

theorem insert_leaf_cons (path : List Nibble) (old : Value) (nibble : Nibble) (rest : List Nibble)
    (value : Value) : (leaf path old).insert (nibble :: rest) value =
      if commonPrefixLength (nibble :: rest) path = path.length then
        match (nibble :: rest).drop (commonPrefixLength (nibble :: rest) path) with
        | [] => some (leaf path value)
        | nibble :: rest =>
            some (extend path (branch old (Function.update noChildren nibble (leaf rest value))))
      else some (split path (nibble :: rest) (commonPrefixLength (nibble :: rest) path) value
        fun rest => leaf rest old) := rfl

theorem insert_extension_cons (path : List Nibble) (held : Value) (child : Node) (nibble : Nibble)
    (rest : List Nibble) (value : Value) :
    (extension path held child).insert (nibble :: rest) value =
      if commonPrefixLength (nibble :: rest) path = path.length then do
        let child ← child.insert ((nibble :: rest).drop (commonPrefixLength (nibble :: rest) path)) value
        some (extension path held child)
      else some (split path (nibble :: rest) (commonPrefixLength (nibble :: rest) path) value
        fun rest => extension rest held child) := rfl

/-- An insertion returns a sound node that stores the value under the key. -/
def InsertsSoundly (node : Node) (nibbles : List Nibble) (value : Value) : Prop :=
  ∃ after, node.insert nibbles value = some after ∧ after.Sound ∧ after.isEmpty = false ∧
    after.entries = Function.update node.entries nibbles (some value)

theorem leaf_insert_spec {path : List Nibble} {old : Value} (sound : (leaf path old).Sound)
    {nibbles : List Nibble} (clear : (leaf path old).writesClear nibbles = true) {value : Value}
    (some_ : value ≠ []) : InsertsSoundly (leaf path old) nibbles value := by
  cases nibbles with
  | nil =>
      obtain rfl : path = [] := by simpa [writesClear] using clear
      have afterSound : (branch value noChildren).Sound := fun _ => trivial
      refine ⟨_, rfl, afterSound, rfl, ?_⟩
      rw [entries_branch_value noChildren old some_, entries_leaf sound]
      rfl
  | cons nibble rest =>
      rw [InsertsSoundly, insert_leaf_cons]
      obtain ⟨shared, nibblesRest, pathRest, whole, rfl, length, apart⟩ :=
        commonPrefixLength_spec (nibble :: rest) path
      rw [length, whole]
      cases pathRest with
      | nil =>
          rw [if_pos (by simp), List.drop_left, List.append_nil]
          rw [entries_leaf sound, PathMap.update_under]
          cases nibblesRest with
          | nil =>
              refine ⟨_, rfl, some_, rfl, ?_⟩
              rw [entries_leaf some_, entries_branch_value noChildren old some_]
          | cons next tail =>
              have below : (branch old (Function.update noChildren next (leaf tail value))).Sound :=
                sound_update noChildren_sound next (leaf tail value) some_
              obtain ⟨afterSound, afterPresent⟩ := extend_sound below rfl shared
              refine ⟨_, rfl, afterSound, afterPresent, ?_⟩
              rw [entries_extend, entries_branch_update old noChildren next tail
                (entries_new_leaf rfl tail value)]
      | cons step pathRest =>
          rw [if_neg (by simp)]
          obtain ⟨after, splits, afterSound, afterPresent, changed⟩ :=
            split_spec shared pathRest nibblesRest (fun rest => leaf rest old)
              (other_head apart) some_ sound
          refine ⟨after, congrArg some splits, afterSound, afterPresent, ?_⟩
          rw [changed, entries, entries, under_single, List.append_assoc]
          rfl

theorem extension_insert_spec {path : List Nibble} {held : Value} {child : Node}
    (sound : (extension path held child).Sound) {nibbles : List Nibble}
    (clear : (extension path held child).writesClear nibbles = true) {value : Value}
    (some_ : value ≠ [])
    (inner : ∀ {rest : List Nibble}, child.writesClear rest = true →
      InsertsSoundly child rest value) :
    InsertsSoundly (extension path held child) nibbles value := by
  cases nibbles with
  | nil => cases clear
  | cons nibble rest =>
      rw [InsertsSoundly, insert_extension_cons]
      rw [writesClear] at clear
      obtain ⟨shared, nibblesRest, pathRest, whole, rfl, length, apart⟩ :=
        commonPrefixLength_spec (nibble :: rest) path
      rw [length]
      rw [whole] at clear ⊢
      cases pathRest with
      | nil =>
          simp only [List.append_nil, List.prefix_append, decide_true, Bool.not_true,
            Bool.false_or, List.drop_left] at clear
          rw [if_pos (by simp), List.drop_left, List.append_nil]
          obtain ⟨after, inserted, afterSound, afterPresent, changed⟩ := inner clear
          rw [inserted]
          refine ⟨_, rfl, ⟨afterPresent, afterSound⟩, rfl, ?_⟩
          rw [entries, entries, PathMap.update_under, changed]
      | cons step pathRest =>
          rw [if_neg (by simp)]
          obtain ⟨after, splits, afterSound, afterPresent, changed⟩ :=
            split_spec shared pathRest nibblesRest (fun rest => extension rest held child)
              (other_head apart) some_ sound
          refine ⟨after, congrArg some splits, afterSound, afterPresent, ?_⟩
          rw [changed, entries, entries, ← PathMap.under_append, List.append_assoc]
          rfl

theorem insert_spec {node : Node} (sound : node.Sound) (present : node.isNull = false)
    {nibbles : List Nibble} (clear : node.writesClear nibbles = true) {value : Value}
    (some_ : value ≠ []) :
    ∃ after, node.insert nibbles value = some after ∧ after.Sound ∧ after.isEmpty = false ∧
      after.entries = Function.update node.entries nibbles (some value) := by
  induction node generalizing nibbles with
  | null => cases present
  | empty => exact ⟨_, rfl, some_, rfl, (PathMap.update_empty nibbles value).symm⟩
  | leaf path old => exact leaf_insert_spec sound clear some_
  | extension path held child ih =>
      exact extension_insert_spec sound clear some_
        fun restClear => ih sound.2 (isNull_of_present sound.1) restClear
  | childless => exact sound.elim
  | branch held children ih =>
      cases nibbles with
      | nil => exact ⟨_, rfl, sound, rfl, entries_branch_value children held some_⟩
      | cons nibble rest =>
          have below : ∃ child, (if (children nibble).isNull then some (leaf rest value)
              else (children nibble).insert rest value) = some child ∧ child.Sound ∧
              child.isEmpty = false ∧
              child.entries = Function.update (children nibble).entries rest (some value) := by
            cases isNull : (children nibble).isNull with
            | true =>
                exact ⟨leaf rest value, rfl, some_, rfl,
                  entries_new_leaf (entries_of_isEmpty (isEmpty_of_isNull isNull)) rest value⟩
            | false => exact ih nibble (sound nibble) isNull clear
          obtain ⟨child, inserted, childSound, -, changed⟩ := below
          have afterSound : (branch held (Function.update children nibble child)).Sound :=
            sound_update sound nibble child childSound
          refine ⟨_, ?_, afterSound, rfl, entries_branch_update held children nibble rest changed⟩
          rw [insert, inserted]
          rfl

/-! ## Removal -/

theorem mem_remaining {children : Nibble → Node} {nibble : Nibble} :
    nibble ∈ remaining children ↔ (children nibble).isEmpty = false := by
  simp [remaining]

theorem branch_with_one {children : Nibble → Node} {nibble : Nibble}
    (one : remaining children = [nibble]) :
    (branch [] children).entries = .under [nibble] (children nibble).entries := by
  rw [entries, PathMap.under]
  congr 1
  funext other
  by_cases same : other = nibble
  · subst same
    simp
  · rw [Function.update_of_ne same]
    apply entries_of_isEmpty
    cases gone : (children other).isEmpty with
    | true => rfl
    | false =>
        have member := mem_remaining.mpr gone
        rw [one, List.mem_singleton] at member
        exact absurd member same

theorem branch_with_none {children : Nibble → Node} (none_ : remaining children = []) :
    (branch [] children).entries = .empty := by
  rw [entries]
  have gone : (fun nibble => (children nibble).entries) = fun _ => .empty := by
    funext nibble
    apply entries_of_isEmpty
    cases gone : (children nibble).isEmpty with
    | true => rfl
    | false =>
        have member := mem_remaining.mpr gone
        rw [none_] at member
        cases member
  rw [gone]
  exact PathMap.fork_none_empty

theorem extension_of_isExtension {node : Node} (sound : node.Sound)
    (isExtension : node.isExtension = true) :
    ∃ path held child, node = extension path held child := by
  cases node with
  | extension path held child => exact ⟨path, held, child, rfl⟩
  | childless => exact sound.elim
  | null => cases isExtension
  | empty => cases isExtension
  | leaf => cases isExtension
  | branch => cases isExtension

/-- A branch may be merged with its last child when that is an extension. -/
theorem collapse_spec (value : Value) {children : Nibble → Node}
    (sound : ∀ nibble, (children nibble).Sound)
    (mergeable : value = [] → ∀ nibble, remaining children = [nibble] →
      (children nibble).isExtension = true) :
    (collapse value children).Sound ∧
      (collapse value children).isEmpty = (value.isEmpty && (remaining children).isEmpty) ∧
      (collapse value children).isExtension =
        (value.isEmpty && decide ((remaining children).length = 1)) ∧
      (collapse value children).entries = (branch value children).entries := by
  cases value with
  | cons byte bytes =>
      have unmerged : collapse (byte :: bytes) children = branch (byte :: bytes) children := by
        unfold collapse
        split
        · rfl
        · rfl
        · rfl
      rw [unmerged]
      exact ⟨sound, rfl, rfl, rfl⟩
  | nil =>
      match left : remaining children with
      | [] =>
          have emptied : collapse [] children = empty := by simp [collapse, left]
          rw [emptied]
          exact ⟨trivial, rfl, rfl, (branch_with_none left).symm⟩
      | [nibble] =>
          obtain ⟨path, held, child, node⟩ :=
            extension_of_isExtension (sound nibble) (mergeable rfl nibble left)
          have last : (extension path held child).Sound := node ▸ sound nibble
          have merged : collapse [] children = extension (nibble :: path) held child := by
            simp [collapse, left, node, mergeChild]
          rw [merged, branch_with_one left, node]
          exact ⟨last, rfl, rfl, rfl⟩
      | _ :: _ :: _ =>
          have unmerged : collapse [] children = branch [] children := by simp [collapse, left]
          rw [unmerged]
          exact ⟨sound, rfl, by simp [isExtension], rfl⟩

theorem remaining_update {children : Nibble → Node} {nibble : Nibble} {rest : List Nibble}
    {child : Node} (gone : child.isEmpty = (children nibble).vanishes rest) :
    remaining (Function.update children nibble child) = kept children nibble rest := by
  unfold remaining kept
  congr 1
  funext other
  by_cases same : other = nibble
  · subst same
    simp [gone]
  · simp [same]

theorem merges_extension {children : Nibble → Node} {nibble : Nibble} {rest : List Nibble}
    {child : Node} (gone : child.isEmpty = (children nibble).vanishes rest)
    (extends_ : child.isExtension = (children nibble).leavesExtension rest)
    (keeps : ∀ other, kept children nibble rest = [other] →
      (if other = nibble then (children nibble).leavesExtension rest
        else (children other).isExtension) = true)
    (other : Nibble) (one : remaining (Function.update children nibble child) = [other]) :
    (Function.update children nibble child other).isExtension = true := by
  have isExtension := keeps other (by rw [← remaining_update gone, one])
  rw [Function.update_apply]
  by_cases same : other = nibble
  · rw [if_pos same] at isExtension ⊢
    rw [extends_, isExtension]
  · rw [if_neg same] at isExtension ⊢
    exact isExtension

theorem vanishes_branch_cons (value : Value) (children : Nibble → Node) (nibble : Nibble)
    (rest : List Nibble) : (branch value children).vanishes (nibble :: rest) =
      (value.isEmpty && (kept children nibble rest).isEmpty) := by
  rw [vanishes, Bool.and_assoc]
  congr 1
  rw [Bool.eq_iff_iff]
  simp only [Bool.and_eq_true, decide_eq_true_eq, List.isEmpty_iff, kept, List.filter_eq_nil_iff,
    List.mem_finRange, true_implies]
  refine ⟨fun ⟨here, others⟩ other => ?_, fun gone => ⟨?_, fun other differs => ?_⟩⟩
  · by_cases same : other = nibble
    · simp [same, here]
    · simp [same, others other same]
  · simpa using gone nibble
  · simpa [differs] using gone other

theorem remove_leaf_cons (path : List Nibble) (value : Value) (nibble : Nibble)
    (rest : List Nibble) : (leaf path value).remove (nibble :: rest) =
      some (if path = nibble :: rest then empty else leaf path value) := rfl

theorem remove_extension_cons (path : List Nibble) (held : Value) (child : Node) (nibble : Nibble)
    (rest : List Nibble) : (extension path held child).remove (nibble :: rest) =
      if path <+: nibble :: rest then do
        let child ← child.remove ((nibble :: rest).drop path.length)
        some (if child.isEmpty then empty else extension path held child)
      else some (extension path held child) := rfl

theorem update_single (key : List Nibble) (value : Value) :
    Function.update (PathMap.single key value) key none = PathMap.empty := by
  funext other
  rw [Function.update_apply, PathMap.single_apply]
  split
  · rfl
  · rw [if_neg (by grind)]
    rfl

/-- A removal returns a sound node without the key, and what is left of it is as foreseen. -/
def RemovesSoundly (node : Node) (nibbles : List Nibble) : Prop :=
  ∃ after, node.remove nibbles = some after ∧ after.Sound ∧
    after.isEmpty = node.vanishes nibbles ∧ after.isExtension = node.leavesExtension nibbles ∧
    after.entries = Function.update node.entries nibbles none

theorem leaf_remove_spec {path : List Nibble} {value : Value} (sound : (leaf path value).Sound)
    {nibbles : List Nibble} (clear : (leaf path value).removesClear nibbles = true) :
    RemovesSoundly (leaf path value) nibbles := by
  cases nibbles with
  | nil =>
      obtain rfl : path = [] := by simpa [removesClear] using clear
      exact ⟨_, rfl, trivial, rfl, rfl, (update_single [] value).symm⟩
  | cons nibble rest =>
      rw [RemovesSoundly, remove_leaf_cons, vanishes]
      by_cases same : path = nibble :: rest
      · refine ⟨empty, by rw [if_pos same], trivial, by simp [isEmpty, same], rfl, ?_⟩
        rw [entries, same]
        exact (update_single (nibble :: rest) value).symm
      · refine ⟨leaf path value, by rw [if_neg same], sound, by simp [isEmpty, same], rfl, ?_⟩
        rw [PathMap.update_missing]
        rw [entries, PathMap.single_apply, if_neg same]

theorem extension_remove_spec {path : List Nibble} {held : Value} {child : Node}
    (sound : (extension path held child).Sound) {nibbles : List Nibble}
    (clear : (extension path held child).removesClear nibbles = true)
    (inner : ∀ {rest : List Nibble}, child.removesClear rest = true → RemovesSoundly child rest) :
    RemovesSoundly (extension path held child) nibbles := by
  cases nibbles with
  | nil =>
      have afterSound : (extension path [] child).Sound := sound
      refine ⟨_, rfl, afterSound, rfl, rfl, ?_⟩
      rw [PathMap.update_missing]
      · rfl
      · rw [removesClear] at clear
        cases path with
        | nil => simpa [entries] using clear
        | cons => rfl
  | cons nibble rest =>
      rw [RemovesSoundly, remove_extension_cons, leavesExtension]
      rw [vanishes]
      rw [removesClear] at clear
      by_cases inside : path <+: nibble :: rest
      · obtain ⟨tail, whole⟩ := inside
        rw [← whole] at clear ⊢
        simp only [List.prefix_append, decide_true, Bool.not_true, Bool.false_or,
          List.drop_left, Bool.true_and, if_true] at clear ⊢
        obtain ⟨after, removed, afterSound, gone, -, changed⟩ := inner clear
        rw [removed, entries, PathMap.update_under, ← changed, ← gone]
        cases isGone : after.isEmpty with
        | true =>
            refine ⟨empty, by simp [isGone], trivial, rfl, rfl, ?_⟩
            rw [entries_of_isEmpty isGone, PathMap.under_empty, entries]
        | false =>
            exact ⟨extension path held after, by simp [isGone], ⟨isGone, afterSound⟩, rfl, rfl, rfl⟩
      · refine ⟨extension path held child, by rw [if_neg inside], sound, by simp [isEmpty, inside],
          by simp [isExtension, inside], ?_⟩
        rw [PathMap.update_missing]
        exact PathMap.under_outside inside _

theorem remove_spec {node : Node} (sound : node.Sound) {nibbles : List Nibble}
    (clear : node.removesClear nibbles = true) :
    ∃ after, node.remove nibbles = some after ∧ after.Sound ∧
      after.isEmpty = node.vanishes nibbles ∧ after.isExtension = node.leavesExtension nibbles ∧
      after.entries = Function.update node.entries nibbles none := by
  induction node generalizing nibbles with
  | null => exact ⟨_, rfl, trivial, rfl, rfl, (PathMap.update_missing rfl).symm⟩
  | empty => exact ⟨_, rfl, trivial, rfl, rfl, (PathMap.update_missing rfl).symm⟩
  | leaf path value => exact leaf_remove_spec sound clear
  | extension path held child ih =>
      exact extension_remove_spec sound clear fun restClear => ih sound.2 restClear
  | childless => exact sound.elim
  | branch value children ih =>
      cases nibbles with
      | nil =>
          have afterSound : (branch [] children).Sound := sound
          refine ⟨_, rfl, afterSound, rfl, rfl, ?_⟩
          rw [entries, entries, PathMap.update_fork_nil]
          rfl
      | cons nibble rest =>
          rw [removesClear, Bool.and_eq_true] at clear
          obtain ⟨child, removed, childSound, gone, extends_, changed⟩ :=
            ih nibble (sound nibble) clear.1
          obtain ⟨afterSound, isEmpty, isExtension, same⟩ := collapse_spec value
            (sound_update sound nibble child childSound) (by
              intro noValue
              have keeps := clear.2
              rw [noValue] at keeps
              simp only [List.isEmpty_nil, Bool.not_true, Bool.false_or, decide_eq_true_eq] at keeps
              exact merges_extension gone extends_ keeps)
          rw [remaining_update gone] at isEmpty isExtension
          refine ⟨_, ?_, afterSound, ?_, isExtension, ?_⟩
          · rw [remove, removed]
            rfl
          · rw [isEmpty, vanishes_branch_cons]
          · rw [same, entries_branch_update value children nibble rest changed]

end Node

/-! ## Runs of calls -/

theorem nibbles_injective {left right : UInt8}
    (high : Fin.ofNat 16 (left >>> 4).toNat = Fin.ofNat 16 (right >>> 4).toNat)
    (low : Fin.ofNat 16 (left &&& 0x0F).toNat = Fin.ofNat 16 (right &&& 0x0F).toNat) :
    left = right := by
  have highs := congrArg Fin.val high
  have lows := congrArg Fin.val low
  simp only [Fin.ofNat, UInt8.toNat_shiftRight, UInt8.toNat_and, UInt8.reduceToNat, Nat.reduceMod,
    Nat.shiftRight_eq_div_pow, Nat.and_two_pow_sub_one_eq_mod _ 4] at highs lows
  have lows : left.toNat % 16 = right.toNat % 16 := by
    have mask (n : Nat) : n &&& 15 = n % 16 := Nat.and_two_pow_sub_one_eq_mod n 4
    simpa [mask] using lows
  have leftSmall := left.toNat_lt
  have rightSmall := right.toNat_lt
  apply UInt8.toNat_inj.mp
  omega

theorem toNibbles_injective : Function.Injective toNibbles := by
  intro left right same
  induction left generalizing right with
  | nil =>
      cases right with
      | nil => rfl
      | cons byte right => cases same
  | cons byte left ih =>
      cases right with
      | nil => cases same
      | cons other right =>
          simp only [toNibbles, List.flatMap_cons, List.cons_append, List.nil_append,
            List.cons.injEq] at same
          obtain ⟨high, low, rest⟩ := same
          rw [nibbles_injective high low, ih rest]

end MerklePatriciaTrie

inductive TrieCall
  | put (key : Bytes) (value : Value)
  | delete (key : Bytes)

namespace TrieCall

open MerklePatriciaTrie

def apply (trie : MerklePatriciaTrie) : TrieCall → Option MerklePatriciaTrie
  | put key value => trie.put key value
  | delete key => trie.delete key

/-- What the call makes of a finite map. -/
def mapped (map : Bytes → Option Value) : TrieCall → Bytes → Option Value
  | put key value => Function.update map key (Node.stored value)
  | delete key => Function.update map key none

/-- The call meets none of the shapes the code mistakes. -/
def Clear (trie : MerklePatriciaTrie) : TrieCall → Prop
  | put key value =>
      (if value.isEmpty then trie.root.removesClear (toNibbles key)
        else trie.root.writesClear (toNibbles key)) = true
  | delete key => trie.root.removesClear (toNibbles key) = true

end TrieCall

namespace MerklePatriciaTrie

/-- The last value put for each key and not deleted since. -/
def lastPut (calls : List TrieCall) : Bytes → Option Value :=
  calls.foldl TrieCall.mapped fun _ => none

/-- The trie is sound and holds the map. -/
structure Holds (trie : MerklePatriciaTrie) (map : Bytes → Option Value) : Prop where
  sound : trie.root.Sound
  present : trie.root.isNull = false
  entries_eq : ∀ key, trie.root.entries (toNibbles key) = map key

theorem Holds.fresh : fresh.Holds fun _ => none where
  sound := trivial
  present := rfl
  entries_eq _ := rfl

theorem update_toNibbles {entries : PathMap Nibble Value} {map : Bytes → Option Value}
    (same : ∀ key, entries (toNibbles key) = map key) (changed key : Bytes) (value : Option Value) :
    Function.update entries (toNibbles changed) value (toNibbles key) =
      Function.update map changed value key := by
  simp only [Function.update_apply, toNibbles_injective.eq_iff, same]

theorem Node.mergeChild_isNull (nibble : Nibble) (child : Node) :
    (mergeChild nibble child).isNull = false := by
  cases child with
  | null => rfl
  | empty => rfl
  | leaf => rfl
  | extension => rfl
  | childless => rfl
  | branch => rfl

theorem Node.collapse_isNull (value : Value) (children : Nibble → Node) :
    (collapse value children).isNull = false := by
  unfold collapse
  split
  · split
    · rfl
    · rfl
  · split
    · exact mergeChild_isNull _ _
    · rfl
  · rfl

theorem Node.remove_isNull {node after : Node} {nibbles : List Nibble}
    (present : node.isNull = false) (removed : node.remove nibbles = some after) :
    after.isNull = false := by
  cases node with
  | null => cases present
  | empty => cases removed; rfl
  | leaf path value =>
      cases nibbles with
      | nil => cases removed; rfl
      | cons nibble rest =>
          rw [remove_leaf_cons, Option.some.injEq] at removed
          rw [← removed]
          split
          · rfl
          · rfl
  | extension path value child =>
      cases nibbles with
      | nil => cases removed; rfl
      | cons nibble rest =>
          rw [remove_extension_cons] at removed
          split at removed
          · obtain ⟨child, -, removed⟩ := Option.bind_eq_some_iff.mp removed
            cases removed
            split
            · rfl
            · rfl
          · cases removed; rfl
  | childless path value =>
      cases nibbles with
      | nil => cases removed; rfl
      | cons nibble rest =>
          rw [remove] at removed
          split at removed
          · cases removed
          · cases removed; rfl
          · intro absurd_; cases absurd_
  | branch value children =>
      cases nibbles with
      | nil => cases removed; rfl
      | cons nibble rest =>
          rw [remove] at removed
          obtain ⟨child, -, removed⟩ := Option.bind_eq_some_iff.mp removed
          cases removed
          exact collapse_isNull value _

theorem put_holds {trie : MerklePatriciaTrie} {map : Bytes → Option Value} (holds : trie.Holds map)
    {key : Bytes} (clear : trie.root.writesClear (toNibbles key) = true) {value : Value}
    (some_ : value ≠ []) :
    ∃ after, trie.put key value = some after ∧ after.Holds (Function.update map key (some value)) := by
  obtain ⟨root, inserted, sound, present, changed⟩ :=
    Node.insert_spec holds.sound holds.present clear some_
  refine ⟨⟨root⟩, ?_, sound, Node.isNull_of_present present, fun other => ?_⟩
  · simp [put, some_, inserted]
  · rw [changed, update_toNibbles holds.entries_eq]

theorem delete_holds {trie : MerklePatriciaTrie} {map : Bytes → Option Value}
    (holds : trie.Holds map) {key : Bytes}
    (clear : trie.root.removesClear (toNibbles key) = true) :
    ∃ after, trie.delete key = some after ∧ after.Holds (Function.update map key none) := by
  obtain ⟨root, removed, sound, -, -, changed⟩ := Node.remove_spec holds.sound clear
  refine ⟨⟨root⟩, ?_, sound, Node.remove_isNull holds.present removed, fun other => ?_⟩
  · simp [delete, removed]
  · rw [changed, update_toNibbles holds.entries_eq]

/-- A call that is clear does to the trie what it does to a map. -/
theorem apply_holds {trie : MerklePatriciaTrie} {map : Bytes → Option Value}
    (holds : trie.Holds map) {call : TrieCall} (clear : TrieCall.Clear trie call) :
    ∃ after, TrieCall.apply trie call = some after ∧ after.Holds (TrieCall.mapped map call) := by
  cases call with
  | delete key => exact delete_holds holds clear
  | put key value =>
      cases value with
      | nil => exact delete_holds holds clear
      | cons byte bytes => exact put_holds holds clear (List.cons_ne_nil byte bytes)

/-- After calls that were all clear, `get` reads the last value put exactly at the
keys that are clear to read. -/
theorem get_after_clear_calls {calls : List TrieCall}
    (clear : EachInTurn TrieCall.apply TrieCall.Clear
      fresh calls) :
    ∃ trie, calls.foldlM TrieCall.apply fresh = some trie ∧
      ∀ key, trie.get key = some (lastPut calls key) ↔
        trie.root.readsClear (toNibbles key) = true := by
  have follows (trie : MerklePatriciaTrie) (map : Bytes → Option Value) (call : TrieCall)
      (holds : trie.Holds map) (clear : TrieCall.Clear trie call) :
      ∃ after, TrieCall.apply trie call = some after ∧ after.Holds (TrieCall.mapped map call) :=
    apply_holds holds clear
  obtain ⟨trie, done, holds⟩ := EachInTurn.simulates follows clear Holds.fresh
  refine ⟨trie, done, fun key => ?_⟩
  rw [get, ← Node.lookup_eq_iff holds.sound, holds.entries_eq]
  rfl

/-- Deleting one of two keys merges the branch above them with the leaf of the
other, into an extension without children. -/
def deletedNeighbour : List TrieCall := [.put [0x11] [1], .put [0x12] [2], .delete [0x12]]

theorem get_after_clear_calls_pair : ∃ trie, [TrieCall.put [0x11] [1], .put [0x12] [2]].foldlM
      TrieCall.apply fresh = some trie ∧
    ∀ key, trie.get key = some (lastPut [.put [0x11] [1], .put [0x12] [2]] key) ↔
      trie.root.readsClear (toNibbles key) = true := by
  refine get_after_clear_calls ⟨rfl, fun first firstDone => ?_⟩
  cases firstDone
  refine ⟨rfl, fun second _ => trivial⟩

theorem get_after_deletedNeighbour :
    (deletedNeighbour.foldlM TrieCall.apply fresh).bind (fun trie => trie.get [0x11]) = none ∧
      (deletedNeighbour.foldlM TrieCall.apply fresh).isSome = true ∧
      lastPut deletedNeighbour [0x11] = some [1] := by
  decide

end MerklePatriciaTrie

end Parthenon.Evm
