import Parthenon.Library.Postings
import Parthenon.Storage.UtxoStorage

namespace Parthenon.Storage

open Parthenon.Library Parthenon.Crypto Parthenon.Primitives

/-! # Blocks by hash

The hash index holds heights, and neither index is cleaned when the other is
overwritten, so a lookup by hash answers with whatever block was last stored at
the height of the hash.
-/

/-- A batch that is not written leaves every key as it was. -/
structure LevelDB.Atomic (db : LevelDB) : Prop extends db.Documented where
  get_refused : ∀ disk batch after, db.write disk batch = (false, after) →
    ∀ key, db.get after key = db.get disk key

theorem LevelDB.memory_atomic : LevelDB.memory.Atomic where
  toDocumented := LevelDB.memory_documented
  get_refused := by
    intro disk batch after refused
    cases refused

namespace BlockStorage

variable {db : LevelDB}

/-- `StoreBlock` calls one after another, with the blocks that were stored, the
newest first. -/
inductive Stores (start : BlockStorage db) : List (Block × UInt32) → BlockStorage db → Prop
  | start : Stores start [] start
  | stored (before : Stores start stores storage)
      (call : storage.storeBlock block height = (true, after)) :
      Stores start ((block, height) :: stores) after
  | refused (before : Stores start stores storage)
      (call : storage.storeBlock block height = (false, after)) : Stores start stores after

/-- A lookup by hash finds nothing or a block with the hash, and finds every block
at a height that was not overwritten. -/
structure AnswersByHash (storage : BlockStorage db) (stores : List (Block × UInt32)) : Prop where
  matching : ∀ hash, storage.getBlockByHash hash = .error .nullopt ∨
    ∃ found, storage.getBlockByHash hash = .ok found ∧ found.toBlock.getHash = hash
  complete : ∀ height block, inSlot height stores = some block →
    storage.getBlockByHash block.getHash = .ok block.parsedObject

/-- The last block stored with any hash still stands at its height, no two
different blocks in place share their hash, and the parser takes every block in place. -/
structure Undisturbed (stores : List (Block × UInt32)) : Prop where
  standing : Standing Block.getHash stores
  single : ∀ height block other twin, inSlot height stores = some block →
    inSlot other stores = some twin → block.getHash = twin.getHash → block = twin
  readable : ∀ height block, inSlot height stores = some block → block.WithinLimits

/-! ## Keys -/

theorem heightKey_injective {left right : UInt32} (same : heightKey left = heightKey right) :
    left = right := by
  have digits (height : UInt32) : parseDigits (heightKey height).tail = height.toNat := by
    rw [heightKey, text, List.map_cons, List.tail_cons]
    change parseDigits (text _) = _
    rw [parseDigits_text]
    · rw [Nat.ofDigitChars_append, Nat.ofDigitChars_replicate_zero, Nat.mul_zero,
        Nat.ofDigitChars_ten_toDigits]
    · intro character member
      rcases List.mem_append.mp member with zero | digit
      · rw [List.eq_of_mem_replicate zero]
        rfl
      · exact toDigits_isDigit height.toNat character digit
  exact UInt32.toNat_inj.mp ((digits left).symm.trans (same ▸ digits right))

theorem hashKey_injective {left right : Hash} (same : hashKey left = hashKey right) : left = right := by
  have parsed (hash : Hash) : UTXOStorage.tryParseHex 32 (hashKey hash).tail = some hash.bytes := by
    have read := UTXOStorage.tryParseHex_hexText hash.bytes []
    rw [hash.length_eq, List.append_nil] at read
    exact read
  have bytes := (parsed left).symm.trans (same ▸ parsed right)
  exact FixedBytes.ext (Option.some.inj bytes)

theorem heightKey_ne_hashKey (height : UInt32) (hash : Hash) : heightKey height ≠ hashKey hash := by
  intro same
  have heads := congrArg List.head? same
  rw [heightKey_head, hashKey_head] at heads
  cases heads

/-! ## What the two indices hold -/

theorem storeBlock_reads {storage after : BlockStorage db} {block : Block} {height : UInt32}
    (documented : db.Documented) (stored : storage.storeBlock block height = (true, after)) :
    (∀ other, after.get (heightKey other) =
      if height = other then some block.serialize else storage.get (heightKey other)) ∧
    ∀ hash, after.get (hashKey hash) =
      if block.getHash = hash then some (decimal height.toNat) else storage.get (hashKey hash) := by
  obtain ⟨_, _, reads⟩ := write_ok documented stored
  constructor
  · intro other
    have apart := beq_eq_false_iff_ne.mpr (heightKey_ne_hashKey other block.getHash)
    rw [reads]
    by_cases same : height = other
    · subst same
      simp [List.lookup_cons, apart]
    · have differ := beq_eq_false_iff_ne.mpr fun keys => same (heightKey_injective keys).symm
      simp [List.lookup_cons, apart, differ, same]
  · intro hash
    have apart := beq_eq_false_iff_ne.mpr (heightKey_ne_hashKey height hash).symm
    rw [reads]
    by_cases same : block.getHash = hash
    · subst same
      simp
    · have differ := beq_eq_false_iff_ne.mpr fun keys => same (hashKey_injective keys).symm
      simp [List.lookup_cons, apart, differ, same]

theorem write_refused {storage after : BlockStorage db} {batch : List (Bytes × Bytes)}
    (atomic : db.Atomic) (refused : storage.write batch = (false, after)) (key : Bytes) :
    after.get key = storage.get key := by
  rw [write] at refused
  cases isOpen : storage.isOpen with
  | false =>
      simp only [isOpen, Bool.not_false, if_true] at refused
      obtain ⟨_, rfl⟩ := Prod.mk.inj refused
      rfl
  | true =>
      simp only [isOpen, Bool.not_true, Bool.false_eq_true, if_false] at refused
      obtain ⟨failed, rfl⟩ := Prod.mk.inj refused
      simp only [get, isOpen, if_true]
      exact atomic.get_refused storage.disk batch _ (Prod.ext failed rfl) key

/-- After any calls a height reads as the last block stored there, and a hash as the
height where a block with the hash was last stored. -/
theorem Stores.reads {start storage : BlockStorage db} {stores : List (Block × UInt32)}
    (atomic : db.Atomic) (empty : ∀ key, start.get key = none) (run : Stores start stores storage) :
    (∀ height, storage.get (heightKey height) = (inSlot height stores).map Block.serialize) ∧
    ∀ hash, storage.get (hashKey hash) =
      (slotOf Block.getHash hash stores).map fun height => decimal height.toNat := by
  induction run with
  | start => exact ⟨fun _ => empty _, fun _ => empty _⟩
  | @stored stores storage block height after _ call ih =>
      obtain ⟨heights, hashes⟩ := storeBlock_reads atomic.toDocumented call
      constructor
      · intro other
        rw [heights, ih.1, inSlot_cons]
        by_cases same : height = other <;> simp [same]
      · intro hash
        rw [hashes, ih.2, slotOf_cons]
        by_cases same : block.getHash = hash <;> simp [same]
  | refused _ call ih =>
      exact ⟨fun height => (write_refused atomic call _).trans (ih.1 height),
        fun hash => (write_refused atomic call _).trans (ih.2 hash)⟩

/-- What a lookup by hash answers, from the history of the calls. -/
theorem Stores.getBlockByHash {start storage : BlockStorage db} {stores : List (Block × UInt32)}
    (atomic : db.Atomic) (empty : ∀ key, start.get key = none) (run : Stores start stores storage)
    (hash : Hash) :
    storage.getBlockByHash hash =
      match (slotOf Block.getHash hash stores).bind (inSlot · stores) with
      | none => .error .nullopt
      | some block => Block.deserialize block.serialize := by
  obtain ⟨heights, hashes⟩ := run.reads atomic empty
  rw [BlockStorage.getBlockByHash, hashes]
  cases slotOf Block.getHash hash stores with
  | none => rfl
  | some height =>
      simp only [Option.map_some, tryParseUint32_decimal, Option.bind_some]
      rw [getBlockByHeight, heights]
      cases inSlot height stores with
      | none => rfl
      | some block => rfl

/-- Lookups by hash are right after a run exactly when the run leaves every hash
undisturbed. -/
theorem answersByHash_iff (atomic : db.Atomic) {start storage : BlockStorage db}
    {stores : List (Block × UInt32)} (empty : ∀ key, start.get key = none)
    (run : Stores start stores storage) : storage.AnswersByHash stores ↔ Undisturbed stores := by
  have answers (hash : Hash) := run.getBlockByHash atomic empty hash
  constructor
  · intro right
    have indexed {height : UInt32} {block : Block} (inPlace : inSlot height stores = some block) :
        ∃ last, (slotOf Block.getHash block.getHash stores).bind (inSlot · stores) = some last ∧
          Block.deserialize last.serialize = .ok block.parsedObject := by
      have found := right.complete height block inPlace
      rw [answers] at found
      cases last : (slotOf Block.getHash block.getHash stores).bind (inSlot · stores) with
      | none => simp [last] at found
      | some block => exact ⟨block, rfl, by simpa only [last] using found⟩
    have readable (height : UInt32) (block : Block) (inPlace : inSlot height stores = some block) :
        block.WithinLimits := by
      obtain ⟨last, _, read⟩ := indexed inPlace
      simpa only [Block.parsedObject_toBlock] using Block.deserialize_withinLimits read
    refine ⟨standing_iff.mpr ?_, ?_, readable⟩
    · intro hash height block slot inPlace
      have read := Block.deserialize_serialize (readable height block inPlace)
      have found := answers hash
      rw [slot, Option.bind_some, inPlace] at found
      simp only [read] at found
      rcases right.matching hash with nothing | ⟨object, matched, named⟩
      · rw [found] at nothing
        cases nothing
      · rw [found] at matched
        cases matched
        rwa [Block.parsedObject_toBlock] at named
    · intro height block other twin inPlace twinInPlace same
      have found := right.complete height block inPlace
      rw [same, right.complete other twin twinInPlace] at found
      rw [← Block.parsedObject_toBlock block, ← Block.parsedObject_toBlock twin,
        Except.ok.inj found]
  · intro undisturbed
    have named := standing_iff.mp undisturbed.standing
    constructor
    · intro hash
      rw [answers]
      cases slot : slotOf Block.getHash hash stores with
      | none => exact .inl rfl
      | some height =>
          obtain ⟨block, inPlace⟩ := inSlot_of_slotOf slot
          refine .inr ⟨block.parsedObject, ?_, ?_⟩
          · rw [Option.bind_some, inPlace]
            exact Block.deserialize_serialize (undisturbed.readable height block inPlace)
          · rw [Block.parsedObject_toBlock]
            exact named hash height block slot inPlace
    · intro height block inPlace
      obtain ⟨last, slot⟩ := slotOf_of_inSlot Block.getHash inPlace
      obtain ⟨twin, twinInPlace⟩ := inSlot_of_slotOf slot
      have same := named _ _ _ slot twinInPlace
      have one := undisturbed.single last twin height block twinInPlace inPlace same
      rw [answers, slot, Option.bind_some, twinInPlace, one]
      exact Block.deserialize_serialize (undisturbed.readable height block inPlace)

end BlockStorage

/-! A reorganisation of one block. -/
namespace Reorganised

def blockAt (timestamp : UInt32) : Block :=
  let coinbase := Sample.coinbase [Sample.output 50 .empty]
  let block := Sample.block zeroHash zeroHash [coinbase]
  { block with header.timestamp := timestamp }

def old : Block := blockAt 1

def new : Block := blockAt 2

def start : BlockStorage LevelDB.memory := { disk := ([] : List (Bytes × Bytes)), isOpen := true }

def first : BlockStorage LevelDB.memory := (start.storeBlock old 5).2

def storage : BlockStorage LevelDB.memory := (first.storeBlock new 5).2

theorem once : BlockStorage.Stores start [(old, 5)] first := .stored .start rfl

theorem stored : BlockStorage.Stores start [(new, 5), (old, 5)] storage := .stored once rfl

theorem readable (timestamp : UInt32) : (blockAt timestamp).WithinLimits := by
  have listed : (blockAt timestamp).transactions = [Sample.coinbase [Sample.output 50 .empty]] := rfl
  rw [Block.WithinLimits, listed]
  unfold Block.CountWithinLimits Transaction.WithinLimits
  decide

theorem different : new.getHash ≠ old.getHash := by decide +kernel

end Reorganised

namespace BlockStorage

theorem answersByHash_iff_once :
    Reorganised.first.AnswersByHash [(Reorganised.old, 5)] ↔ Undisturbed [(Reorganised.old, 5)] :=
  answersByHash_iff LevelDB.memory_atomic (fun _ => rfl) Reorganised.once

/-- The hash of the block that was replaced leads to the block that replaced it. -/
theorem old_hash_answers_new :
    Stores Reorganised.start [(Reorganised.new, 5), (Reorganised.old, 5)] Reorganised.storage ∧
      Reorganised.storage.getBlockByHash Reorganised.old.getHash = .ok Reorganised.new.parsedObject ∧
      ¬ Reorganised.storage.AnswersByHash [(Reorganised.new, 5), (Reorganised.old, 5)] := by
  have answer : Reorganised.storage.getBlockByHash Reorganised.old.getHash =
      .ok Reorganised.new.parsedObject := by
    rw [Reorganised.stored.getBlockByHash LevelDB.memory_atomic (fun _ => rfl), slotOf_cons,
      if_neg Reorganised.different, slotOf_cons, if_pos rfl, Option.bind_some, inSlot_cons, if_pos rfl]
    exact Block.deserialize_serialize (Reorganised.readable 2)
  refine ⟨Reorganised.stored, answer, ?_⟩
  intro right
  rcases right.matching Reorganised.old.getHash with nothing | ⟨found, answered, named⟩
  · rw [answer] at nothing
    cases nothing
  · rw [answer] at answered
    cases answered
    rw [Block.parsedObject_toBlock] at named
    exact Reorganised.different named

end BlockStorage

end Parthenon.Storage
