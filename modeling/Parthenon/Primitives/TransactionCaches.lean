import Parthenon.Crypto.Sha256Laws
import Parthenon.Library.Runs
import Parthenon.Primitives.ParsedLengths

namespace Parthenon.Primitives

open Parthenon.Library Parthenon.Crypto

/-! # The caches of a transaction object

The fields of a transaction are public and its caches are not, so an assignment
leaves a cache as it stands.  A query answers for the fields an object has only
where nothing that a filled cache remembers was assigned away, and where a parsed
size is the size of the shortest form.
-/

/-- An assignment to a public field. -/
inductive Assignment
  | version (value : UInt32)
  | inputs (value : List TxInput)
  | outputs (value : List TxOutput)
  | locktime (value : UInt32)

def Assignment.assign (tx : Transaction) : Assignment → Transaction
  | .version value => { tx with version := value }
  | .inputs value => { tx with inputs := value }
  | .outputs value => { tx with outputs := value }
  | .locktime value => { tx with locktime := value }

namespace CachedTransaction

/-- The default constructor. -/
def constructed : CachedTransaction :=
  .ofTransaction { version := 1, inputs := [], outputs := [], locktime := 0 }

def assigned (object : CachedTransaction) (assignment : Assignment) : CachedTransaction :=
  { object with toTransaction := assignment.assign object.toTransaction }

/-- Both queries would answer for the fields as they are. -/
def Transparent (object : CachedTransaction) : Prop :=
  object.getTxID.1 = object.toTransaction.getTxID ∧
    object.getSerializedSize.1 = object.serialize.length

/-- An assignment keeps what the filled caches remember. -/
def Remembers (object : CachedTransaction) (assignment : Assignment) : Prop :=
  (object.cachedTxID ≠ none →
      (assignment.assign object.toTransaction).getTxID = object.toTransaction.getTxID) ∧
    (object.cachedSerializedSize ≠ none →
      (assignment.assign object.toTransaction).serialize.length = object.serialize.length)

theorem transparent_iff (object : CachedTransaction) :
    object.Transparent ↔
      (∀ txid, object.cachedTxID = some txid → txid = object.toTransaction.getTxID) ∧
        ∀ size, object.cachedSerializedSize = some size → size = object.serialize.length := by
  refine and_congr ?_ ?_
  · cases cached : object.cachedTxID with
    | none =>
        have computed : object.getTxID.1 = object.toTransaction.getTxID := by
          rw [getTxID, cached]
          rfl
        exact ⟨fun _ txid filled => (Option.some_ne_none txid filled.symm).elim, fun _ => computed⟩
    | some txid =>
        rw [getTxID_of_cached cached]
        exact ⟨fun right other filled => Option.some.inj filled ▸ right, fun all => all txid rfl⟩
  · cases cached : object.cachedSerializedSize with
    | none =>
        have computed : object.getSerializedSize.1 = object.serialize.length := by
          rw [getSerializedSize, cached]
        exact ⟨fun _ size filled => (Option.some_ne_none size filled.symm).elim, fun _ => computed⟩
    | some size =>
        have answered : object.getSerializedSize.1 = size := by rw [getSerializedSize, cached]
        rw [answered]
        exact ⟨fun right other filled => Option.some.inj filled ▸ right, fun all => all size rfl⟩

theorem ofTransaction_transparent (tx : Transaction) : (ofTransaction tx).Transparent := ⟨rfl, rfl⟩

theorem getTxID_transparent {object : CachedTransaction} (before : object.Transparent) :
    object.getTxID.2.Transparent := by
  cases cached : object.cachedTxID with
  | none =>
      rw [transparent_iff, getTxID, cached]
      refine ⟨fun txid filled => ?_, fun size filled => ?_⟩
      · exact (Option.some.inj filled).symm
      · exact (Option.some.inj filled).symm
  | some txid =>
      have kept : object.getTxID.2 = object := by rw [getTxID, cached]
      rw [kept]
      exact before

theorem getSerializedSize_transparent {object : CachedTransaction} (before : object.Transparent) :
    object.getSerializedSize.2.Transparent := by
  obtain ⟨txidRight, _⟩ := object.transparent_iff.mp before
  cases cached : object.cachedSerializedSize with
  | none =>
      rw [transparent_iff, getSerializedSize_cachedTxID, getSerializedSize_toTransaction,
        getSerializedSize, cached]
      exact ⟨txidRight, fun size filled => (Option.some.inj filled).symm⟩
  | some size =>
      have kept : object.getSerializedSize.2 = object := by rw [getSerializedSize, cached]
      rw [kept]
      exact before

/-- An assignment keeps an object transparent exactly when it keeps what is cached. -/
theorem assigned_transparent_iff {object : CachedTransaction} (before : object.Transparent)
    (assignment : Assignment) :
    (object.assigned assignment).Transparent ↔ object.Remembers assignment := by
  obtain ⟨txidRight, sizeRight⟩ := object.transparent_iff.mp before
  rw [transparent_iff]
  refine and_congr ?_ ?_
  · constructor
    · intro all filled
      obtain ⟨txid, cached⟩ := Option.ne_none_iff_exists'.mp filled
      rw [← txidRight txid cached]
      exact (all txid cached).symm
    · intro kept txid cached
      rw [txidRight txid cached]
      exact (kept (by rw [show object.cachedTxID = some txid from cached]; simp)).symm
  · constructor
    · intro all filled
      obtain ⟨size, cached⟩ := Option.ne_none_iff_exists'.mp filled
      rw [← sizeRight size cached]
      exact (all size cached).symm
    · intro kept size cached
      rw [sizeRight size cached]
      exact (kept (by rw [show object.cachedSerializedSize = some size from cached]; simp)).symm

/-- A parsed object is transparent exactly when its bytes had their shortest form. -/
theorem parsed_transparent_iff {input rest : Bytes} {object : CachedTransaction}
    (accepted : Transaction.deserializeFrontWith Transaction.readCompactSizeChecked input =
      .ok (object, rest)) : object.Transparent ↔ Transaction.ShortestFront input := by
  obtain ⟨_, _, uncached, size⟩ := Transaction.deserializeFront_ok.mp accepted
  rw [transparent_iff, ← Transaction.parsedSize_iff accepted]
  constructor
  · rintro ⟨_, sizeRight⟩
    rw [size, sizeRight _ size]
  · intro right
    refine ⟨fun txid filled => ?_, fun known filled => ?_⟩
    · rw [uncached] at filled
      contradiction
    · rw [right] at filled
      exact (Option.some.inj filled).symm

end CachedTransaction

/-! ## Objects and calls -/

/-- The transaction objects of a program, by name. -/
abbrev Objects := Nat → CachedTransaction

namespace Objects

inductive Call
  | construct (object : Nat)
  | assign (object : Nat) (assignment : Assignment)
  | copy (source target : Nat)
  | deserialize (target : Nat) (data : Bytes)
  | deserializeFront (target : Nat) (data : Bytes)
  | getTxID (object : Nat)
  | getSerializedSize (object : Nat)

def fresh : Objects := fun _ => .constructed

/-- A parser that gives no value back leaves its target as it was. -/
def store (objects : Objects) (target : Nat) : Except Fault CachedTransaction → Objects
  | .ok parsed => Function.update objects target parsed
  | .error _ => objects

def after (objects : Objects) : Call → Objects
  | .construct object => Function.update objects object .constructed
  | .assign object assignment =>
      Function.update objects object ((objects object).assigned assignment)
  | .copy source target => Function.update objects target (objects source)
  | .deserialize target data => objects.store target (Transaction.deserialize data)
  | .deserializeFront target data =>
      objects.store target
        ((Transaction.deserializeFrontWith Transaction.readCompactSizeChecked data).map Prod.fst)
  | .getTxID object => Function.update objects object (objects object).getTxID.2
  | .getSerializedSize object => Function.update objects object (objects object).getSerializedSize.2

def Transparent (objects : Objects) : Prop := ∀ object, (objects object).Transparent

/-- No filled cache is left behind: an assignment keeps what is cached, and bytes that
are accepted have every length prefix in its shortest form. -/
def KeepsCaches (objects : Objects) : Call → Prop
  | .assign object assignment => (objects object).Remembers assignment
  | .deserialize _ data =>
      ∀ parsed, Transaction.deserialize data = .ok parsed → Transaction.ShortestFront data
  | .deserializeFront _ data => ∀ parsed rest,
      Transaction.deserializeFrontWith Transaction.readCompactSizeChecked data = .ok (parsed, rest) →
        Transaction.ShortestFront data
  | .construct _ | .copy _ _ | .getTxID _ | .getSerializedSize _ => True

theorem fresh_transparent : fresh.Transparent :=
  fun _ => CachedTransaction.ofTransaction_transparent _

theorem update_transparent_iff {objects : Objects} (before : objects.Transparent) (target : Nat)
    (object : CachedTransaction) :
    Transparent (Function.update objects target object) ↔ object.Transparent := by
  constructor
  · intro all
    have here := all target
    rwa [Function.update_self] at here
  · intro right other
    by_cases same : other = target
    · rw [same, Function.update_self]
      exact right
    · rw [Function.update_of_ne same]
      exact before other

theorem store_transparent_iff {objects : Objects} (before : objects.Transparent) (target : Nat)
    (outcome : Except Fault CachedTransaction) :
    (objects.store target outcome).Transparent ↔
      ∀ parsed, outcome = .ok parsed → parsed.Transparent := by
  cases outcome with
  | error fault => exact ⟨fun _ parsed accepted => (nomatch accepted), fun _ => before⟩
  | ok parsed =>
      rw [store, update_transparent_iff before]
      exact ⟨fun right other accepted => Except.ok.inj accepted ▸ right, fun all => all parsed rfl⟩

/-- A call keeps every object transparent exactly when it leaves no filled cache behind. -/
theorem after_transparent_iff {objects : Objects} (before : objects.Transparent) (call : Call) :
    (objects.after call).Transparent ↔ objects.KeepsCaches call := by
  cases call with
  | construct object =>
      exact iff_of_true ((update_transparent_iff before object _).mpr
        (CachedTransaction.ofTransaction_transparent _)) trivial
  | assign object assignment =>
      exact (update_transparent_iff before object _).trans
        (CachedTransaction.assigned_transparent_iff (before object) assignment)
  | copy source target =>
      exact iff_of_true ((update_transparent_iff before target _).mpr (before source)) trivial
  | deserialize target data =>
      refine (store_transparent_iff before target _).trans ?_
      refine forall_congr' fun parsed => imp_congr_right fun accepted => ?_
      exact CachedTransaction.parsed_transparent_iff (Transaction.deserialize_ok.mp accepted)
  | deserializeFront target data =>
      refine (store_transparent_iff before target _).trans ?_
      constructor
      · intro all parsed rest accepted
        refine (CachedTransaction.parsed_transparent_iff accepted).mp (all parsed ?_)
        rw [accepted]
        rfl
      · intro shortest parsed mapped
        cases accepted : Transaction.deserializeFrontWith Transaction.readCompactSizeChecked data with
        | error fault =>
            rw [accepted] at mapped
            contradiction
        | ok result =>
            obtain ⟨object, rest⟩ := result
            rw [accepted] at mapped
            cases mapped
            exact (CachedTransaction.parsed_transparent_iff accepted).mpr (shortest _ _ accepted)
  | getTxID object =>
      exact iff_of_true ((update_transparent_iff before object _).mpr
        (CachedTransaction.getTxID_transparent (before object))) trivial
  | getSerializedSize object =>
      exact iff_of_true ((update_transparent_iff before object _).mpr
        (CachedTransaction.getSerializedSize_transparent (before object))) trivial

/-- Every query that could come next answers for the fields as they are, all through a
run, exactly when no call of the run leaves a filled cache behind. -/
theorem caches_transparent_iff (calls : List Call) :
    Obeys KeepsCaches after fresh calls ↔
      ∀ count object, CachedTransaction.Transparent ((calls.take count).foldl after fresh object) := by
  have exactly_ (objects : Objects) (call : Call) (_ : True) (before : objects.Transparent) :
      (objects.after call).Transparent ↔ objects.KeepsCaches call :=
    after_transparent_iff before call
  exact obeys_iff_prefixes (fun _ => True) (fun _ _ _ => trivial) exactly_ trivial
    fresh_transparent calls

/-- A transaction is hashed and then given its input. -/
def hashedThenFilled : List Call :=
  [.getTxID 0, .assign 0 (.inputs [⟨⟨zeroHash, 0⟩, .empty, 0⟩])]

/-- A transaction is parsed from a count in its three-byte form. -/
def parsedLong : List Call := [.deserialize 0 longInputCount]

/-- The object that was hashed answers its old hash and its old size, and the parsed one
answers twelve bytes for ten. -/
theorem hashedThenFilled_stale :
    (hashedThenFilled.foldl after fresh 0).getTxID.1 ≠
        (hashedThenFilled.foldl after fresh 0).toTransaction.getTxID ∧
      (hashedThenFilled.foldl after fresh 0).getSerializedSize.1 ≠
        (hashedThenFilled.foldl after fresh 0).serialize.length ∧
      (parsedLong.foldl after fresh 0).getSerializedSize.1 ≠
        (parsedLong.foldl after fresh 0).serialize.length := by
  decide +kernel

end Objects

end Parthenon.Primitives
