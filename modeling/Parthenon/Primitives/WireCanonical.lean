import Parthenon.Primitives.WireLaws

namespace Parthenon.Primitives

open Parthenon.Library Parthenon.Crypto

/-! # Canonicity of the wire format

Serialized values always parse back.  A parsed byte string is the serialization
of its value exactly when every length prefix in it has its shortest form, the
form that the reader of `block.cpp` insists on.
-/

/-- Every length prefix the parser meets in `data` has its shortest form. -/
def Transaction.ShortestLengths (data : Bytes) : Prop :=
  ∃ object, Transaction.deserializeWith Block.readCompactSizeChecked data = .ok object

def Block.ShortestLengths (data : Bytes) : Prop :=
  ∃ block, Block.deserializeWith Block.readCompactSizeChecked data = .ok block

/-- The object a parser makes of a serialized transaction. -/
def Transaction.parsedObject (tx : Transaction) : CachedTransaction :=
  { tx with cachedTxID := none, cachedSerializedSize := some tx.serialize.length }

/-- A parsed transaction is canonical when serializing it gives back the input
and the size it reports is the size it serializes to. -/
def CachedTransaction.CanonicalFor (object : CachedTransaction) (data : Bytes) : Prop :=
  object.serialize = data ∧ object.getSerializedSize.1 = object.serialize.length

def CachedBlock.CanonicalFor (block : CachedBlock) (data : Bytes) : Prop :=
  block.toBlock.serialize = data ∧
    ∀ object ∈ block.transactions, object.getSerializedSize.1 = object.serialize.length

namespace Transaction

@[simp] theorem parsedObject_toTransaction (tx : Transaction) :
    tx.parsedObject.toTransaction = tx := rfl

theorem parsedObject_parsed {tx : Transaction} (limits : tx.WithinLimits) : Parsed tx.parsedObject :=
  ⟨limits, rfl, rfl⟩

theorem Parsed.size {object : CachedTransaction} (parsed : Parsed object) :
    object.getSerializedSize.1 = object.serialize.length := by
  obtain ⟨_, _, size⟩ := parsed
  simp only [CachedTransaction.getSerializedSize, size]

theorem strict_serialize {object : CachedTransaction} (parsed : Parsed object) :
    deserializeWith Block.readCompactSizeChecked object.serialize = .ok object := by
  refine deserialize_ok.mpr ((deserializeFront_parses _ _ _).mpr ⟨?_, parsed⟩)
  simp

theorem strict_sound {data : Bytes} {object : CachedTransaction}
    (accepted : deserializeWith Block.readCompactSizeChecked data = .ok object) :
    object.serialize = data ∧ Parsed object := by
  obtain ⟨written, parsed⟩ := (deserializeFront_parses _ _ _).mp (deserialize_ok.mp accepted)
  exact ⟨by simpa using written.symm, parsed⟩

/-- The source's parser agrees with the strict one wherever that one accepts. -/
theorem deserialize_of_strict {data : Bytes} {object : CachedTransaction}
    (accepted : deserializeWith Block.readCompactSizeChecked data = .ok object) :
    deserialize data = .ok object :=
  deserialize_ok.mpr (deserializeFront_extends _ _ (deserialize_ok.mp accepted))

theorem deserialize_serialize {tx : Transaction} (limits : tx.WithinLimits) :
    deserialize tx.serialize = .ok tx.parsedObject := by
  have strict := strict_serialize (parsedObject_parsed limits)
  rw [parsedObject_toTransaction] at strict
  exact deserialize_of_strict strict

theorem serialize_injective {left right : Transaction} (leftLimits : left.WithinLimits)
    (rightLimits : right.WithinLimits) (same : left.serialize = right.serialize) : left = right := by
  have leftParsed := deserialize_serialize leftLimits
  have rightParsed := deserialize_serialize rightLimits
  rw [same, rightParsed] at leftParsed
  exact congrArg CachedTransaction.toTransaction (Except.ok.inj leftParsed).symm

theorem canonical_iff {data : Bytes} {object : CachedTransaction}
    (accepted : deserialize data = .ok object) :
    object.CanonicalFor data ↔ ShortestLengths data := by
  constructor
  · rintro ⟨written, _⟩
    obtain ⟨_, fields, _⟩ := deserializeFront_ok.mp (deserialize_ok.mp accepted)
    have limits := readFields_withinLimits fields
    refine ⟨object.parsedObject, ?_⟩
    have strict := strict_serialize (parsedObject_parsed limits)
    rw [parsedObject_toTransaction, written] at strict
    exact strict
  · rintro ⟨other, strict⟩
    have same : object = other := by
      have agreed := deserialize_of_strict strict
      rw [accepted] at agreed
      exact Except.ok.inj agreed
    subst other
    obtain ⟨written, parsed⟩ := strict_sound strict
    exact ⟨written, parsed.size⟩

end Transaction

namespace Block

/-- The object a parser makes of a serialized block. -/
def parsedObject (block : Block) : CachedBlock :=
  { header := block.header, transactions := block.transactions.map Transaction.parsedObject }

theorem parsedObject_toBlock (block : Block) : block.parsedObject.toBlock = block := by
  have restored : (block.transactions.map Transaction.parsedObject).map
      CachedTransaction.toTransaction = block.transactions := by
    rw [List.map_map]
    exact List.map_id _
  rw [parsedObject, CachedBlock.toBlock, restored]

/-- The counts the parsers accept, for a block and for each of its transactions. -/
def WithinLimits (block : Block) : Prop :=
  CountWithinLimits block.transactions.length ∧ ∀ tx ∈ block.transactions, tx.WithinLimits

theorem strict_serialize {block : Block} (limits : block.WithinLimits) :
    deserializeWith readCompactSizeChecked block.serialize = .ok block.parsedObject := by
  refine deserialize_ok.mpr ⟨block.serialize_length_ge, (readFields_parses _ _ _).mpr ⟨?_, ?_, ?_⟩⟩
  · simp only [parsedObject_toBlock, List.append_nil]
  · simpa [parsedObject] using limits.1
  · intro object member
    obtain ⟨tx, listed, rfl⟩ := List.mem_map.mp member
    exact Transaction.parsedObject_parsed (limits.2 tx listed)

theorem strict_sound {data : Bytes} {block : CachedBlock}
    (accepted : deserializeWith readCompactSizeChecked data = .ok block) :
    block.toBlock.serialize = data ∧ ∀ object ∈ block.transactions, Transaction.Parsed object := by
  obtain ⟨_, fields⟩ := deserialize_ok.mp accepted
  obtain ⟨written, _, parsed⟩ := (readFields_parses _ _ _).mp fields
  exact ⟨by simpa using written.symm, parsed⟩

theorem deserialize_of_strict {data : Bytes} {block : CachedBlock}
    (accepted : deserializeWith readCompactSizeChecked data = .ok block) :
    deserialize data = .ok block := by
  obtain ⟨long, fields⟩ := deserialize_ok.mp accepted
  exact deserialize_ok.mpr ⟨long, readFields_extends _ _ fields⟩

theorem deserialize_serialize {block : Block} (limits : block.WithinLimits) :
    deserialize block.serialize = .ok block.parsedObject :=
  deserialize_of_strict (strict_serialize limits)

theorem deserialize_withinLimits {data : Bytes} {block : CachedBlock}
    (accepted : deserialize data = .ok block) : block.toBlock.WithinLimits := by
  obtain ⟨_, fields⟩ := deserialize_ok.mp accepted
  obtain ⟨_, count, _, _, _, limits, manyRead⟩ := readFields_ok.mp fields
  have length := Reader.many_length manyRead
  subst length
  have each : ∀ object ∈ block.transactions, object.WithinLimits := by
    refine Reader.many_forall (fun object => object.WithinLimits) ?_ manyRead
    intro input other rest front
    exact Transaction.readFields_withinLimits (Transaction.deserializeFront_ok.mp front).2.1
  refine ⟨by simpa [CachedBlock.toBlock] using limits, fun tx member => ?_⟩
  obtain ⟨object, listed, rfl⟩ := List.mem_map.mp member
  exact each object listed

theorem canonical_iff {data : Bytes} {block : CachedBlock}
    (accepted : deserialize data = .ok block) :
    block.CanonicalFor data ↔ ShortestLengths data := by
  constructor
  · rintro ⟨written, _⟩
    refine ⟨block.toBlock.parsedObject, ?_⟩
    rw [← written]
    exact strict_serialize (deserialize_withinLimits accepted)
  · rintro ⟨other, strict⟩
    have same : block = other := by
      have agreed := deserialize_of_strict strict
      rw [accepted] at agreed
      exact Except.ok.inj agreed
    subst other
    obtain ⟨written, parsed⟩ := strict_sound strict
    exact ⟨written, fun object member => (parsed object member).size⟩

end Block

/-- Of the byte strings that stand for one value the canonical ones are the encoding. -/
theorem eq_iff_of_canonical {canonical : Bytes → Prop} {encoded data other : Bytes}
    (holds : canonical data) (written : encoded = data)
    (writtenOther : canonical other → encoded = other) : data = other ↔ canonical other := by
  constructor
  · rintro rfl
    exact holds
  · intro holdsOther
    rw [← written, writtenOther holdsOther]

/-- No second input with shortest lengths decodes to the same transaction. -/
theorem Transaction.shortest_unique {data other : Bytes} {object twin : CachedTransaction}
    (accepted : deserialize data = .ok object) (acceptedOther : deserialize other = .ok twin)
    (same : object.toTransaction = twin.toTransaction) (shortest : ShortestLengths data) :
    data = other ↔ ShortestLengths other := by
  have written := ((canonical_iff accepted).mpr shortest).1
  refine eq_iff_of_canonical shortest written fun shortestOther => ?_
  rw [same]
  exact ((canonical_iff acceptedOther).mpr shortestOther).1

theorem Block.shortest_unique {data other : Bytes} {block twin : CachedBlock}
    (accepted : deserialize data = .ok block) (acceptedOther : deserialize other = .ok twin)
    (same : block.toBlock = twin.toBlock) (shortest : ShortestLengths data) :
    data = other ↔ ShortestLengths other := by
  have written := ((canonical_iff accepted).mpr shortest).1
  refine eq_iff_of_canonical shortest written fun shortestOther => ?_
  rw [same]
  exact ((canonical_iff acceptedOther).mpr shortestOther).1

/-- The wire format round trips, and among the accepted byte strings the
canonical ones are those whose length prefixes all have their shortest form. -/
theorem wire_roundtrip_and_canonical_iff_shortestLengths (data : Bytes) :
    (∀ tx : Transaction, tx.WithinLimits → Transaction.deserialize tx.serialize = .ok tx.parsedObject) ∧
    (∀ block : Block, block.WithinLimits → Block.deserialize block.serialize = .ok block.parsedObject) ∧
    (∀ object, Transaction.deserialize data = .ok object →
      (object.CanonicalFor data ↔ Transaction.ShortestLengths data)) ∧
    (∀ block, Block.deserialize data = .ok block →
      (block.CanonicalFor data ↔ Block.ShortestLengths data)) ∧
    (∀ other object twin, Transaction.deserialize data = .ok object →
      Transaction.deserialize other = .ok twin → object.toTransaction = twin.toTransaction →
      Transaction.ShortestLengths data → (data = other ↔ Transaction.ShortestLengths other)) ∧
    (∀ other block twin, Block.deserialize data = .ok block →
      Block.deserialize other = .ok twin → block.toBlock = twin.toBlock →
      Block.ShortestLengths data → (data = other ↔ Block.ShortestLengths other)) := by
  refine ⟨?_, ?_, ?_, ?_, ?_, ?_⟩
  · intro tx limits
    exact Transaction.deserialize_serialize limits
  · intro block limits
    exact Block.deserialize_serialize limits
  · intro object accepted
    exact Transaction.canonical_iff accepted
  · intro block accepted
    exact Block.canonical_iff accepted
  · intro other object twin accepted acceptedOther same shortest
    exact Transaction.shortest_unique accepted acceptedOther same shortest
  · intro other block twin accepted acceptedOther same shortest
    exact Block.shortest_unique accepted acceptedOther same shortest

/-- Twelve bytes whose input count is zero in the three-byte form. -/
def longInputCount : Bytes := [1, 0, 0, 0, 253, 0, 0, 0, 0, 0, 0, 0]

/-- The parser accepts a count that is not in its shortest form: the value
serializes to ten bytes, reports twelve, and the ten bytes decode to it too. -/
theorem longInputCount_not_canonical :
    ∃ object twin, Transaction.deserialize longInputCount = .ok object ∧
      object.serialize ≠ longInputCount ∧
      object.getSerializedSize.1 ≠ object.serialize.length ∧
      Transaction.deserialize object.serialize = .ok twin ∧
      object.toTransaction = twin.toTransaction := by
  refine ⟨{ version := 1, inputs := [], outputs := [], locktime := 0, cachedTxID := none,
            cachedSerializedSize := some 12 },
    { version := 1, inputs := [], outputs := [], locktime := 0, cachedTxID := none,
      cachedSerializedSize := some 10 }, ?_, ?_, ?_, ?_, ?_⟩
  · rfl
  · decide
  · decide
  · rfl
  · rfl

end Parthenon.Primitives
