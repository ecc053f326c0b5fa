import Parthenon.Primitives.Wire

namespace Parthenon.Primitives

open Parthenon.Library Parthenon.Crypto

/-! # Laws of the wire format

With the size reader of `block.cpp` every parser accepts exactly what the
serializer writes, and the parser with the reader of `transaction.cpp` accepts
at least as much.
-/

theorem throw_ne_ok {α : Type} {input : Bytes} {result : α × Bytes} :
    (throw Fault.nullopt : Read α) input ≠ .ok result := by
  intro accepted
  cases accepted

theorem readNat_ok {width value : Nat} {input rest : Bytes} :
    readNat width input = .ok (value, rest) ↔
      input = littleEndian width value ++ rest ∧ value < 256 ^ width := by
  constructor
  · intro accepted
    obtain ⟨bytes, afterBytes, taken, done⟩ := Reader.bind_ok.mp accepted
    obtain ⟨rfl, length⟩ := Reader.take_ok.mp taken
    cases done
    subst length
    exact ⟨by rw [littleEndian_ofLittleEndian], ofLittleEndian_lt bytes⟩
  · rintro ⟨rfl, fits⟩
    have taken : Reader.take Fault.nullopt width (littleEndian width value ++ rest) =
        .ok (littleEndian width value, rest) :=
      Reader.take_ok.mpr ⟨rfl, littleEndian_length width value⟩
    refine Reader.bind_ok.mpr ⟨littleEndian width value, rest, taken, ?_⟩
    rw [ofLittleEndian_littleEndian, Nat.mod_eq_of_lt fits]
    rfl

theorem readUInt32_ok {value : UInt32} {input rest : Bytes} :
    readUInt32 input = .ok (value, rest) ↔ input = littleEndian 4 value.toNat ++ rest := by
  constructor
  · intro accepted
    obtain ⟨number, afterNumber, head, done⟩ := Reader.bind_ok.mp accepted
    obtain ⟨rfl, fits⟩ := readNat_ok.mp head
    cases done
    rw [UInt32.toNat_ofNat_of_lt' fits]
  · rintro rfl
    refine Reader.bind_ok.mpr ⟨value.toNat, rest, readNat_ok.mpr ⟨rfl, value.toNat_lt⟩, ?_⟩
    rw [UInt32.ofNat_toNat]
    rfl

theorem readUInt64_ok {value : UInt64} {input rest : Bytes} :
    readUInt64 input = .ok (value, rest) ↔ input = littleEndian 8 value.toNat ++ rest := by
  constructor
  · intro accepted
    obtain ⟨number, afterNumber, head, done⟩ := Reader.bind_ok.mp accepted
    obtain ⟨rfl, fits⟩ := readNat_ok.mp head
    cases done
    rw [UInt64.toNat_ofNat_of_lt' fits]
  · rintro rfl
    refine Reader.bind_ok.mpr ⟨value.toNat, rest, readNat_ok.mpr ⟨rfl, value.toNat_lt⟩, ?_⟩
    rw [UInt64.ofNat_toNat]
    rfl

theorem readByte_ok {value : UInt8} {input rest : Bytes} :
    readByte input = .ok (value, rest) ↔ input = value :: rest := by
  have single : littleEndian 1 value.toNat = [value] := by
    simp [littleEndian]
  constructor
  · intro accepted
    obtain ⟨number, afterNumber, head, done⟩ := Reader.bind_ok.mp accepted
    obtain ⟨rfl, fits⟩ := readNat_ok.mp head
    cases done
    rfl
  · rintro rfl
    refine Reader.bind_ok.mpr ⟨value.toNat, rest, ?_, ?_⟩
    · exact readNat_ok.mpr ⟨by rw [single]; rfl, value.toNat_lt⟩
    · rw [UInt8.ofNat_toNat]
      rfl

theorem readSizeAtLeast_ok {least width size : Nat} {input rest : Bytes} :
    readSizeAtLeast least width input = .ok (size, rest) ↔
      input = littleEndian width size ++ rest ∧ size < 256 ^ width ∧ least ≤ size := by
  constructor
  · intro accepted
    obtain ⟨number, afterNumber, head, tail⟩ := Reader.bind_ok.mp accepted
    obtain ⟨rfl, fits⟩ := readNat_ok.mp head
    split at tail
    · exact absurd tail throw_ne_ok
    · rename_i large
      cases tail
      exact ⟨rfl, fits, Nat.le_of_not_lt large⟩
  · rintro ⟨rfl, fits, large⟩
    refine Reader.bind_ok.mpr ⟨size, rest, readNat_ok.mpr ⟨rfl, fits⟩, ?_⟩
    rw [if_neg (Nat.not_lt.mpr large)]
    rfl

/-- The two readers differ only in the least values they let a long form carry. -/
theorem readSizeAtLeast_extends {lower higher : Nat} (below : lower ≤ higher) (width : Nat) :
    Reader.Extends (readSizeAtLeast lower width) (readSizeAtLeast higher width) := by
  intro input result accepted
  obtain ⟨size, rest⟩ := result
  obtain ⟨written, fits, large⟩ := readSizeAtLeast_ok.mp accepted
  exact readSizeAtLeast_ok.mpr ⟨written, fits, Nat.le_trans below large⟩

theorem readCompactSizeChecked_extends :
    Reader.Extends Transaction.readCompactSizeChecked Block.readCompactSizeChecked := by
  refine (Reader.Extends.refl readByte).bind fun first => ?_
  split
  · exact .refl _
  · split
    · exact readSizeAtLeast_extends (Nat.zero_le _) 2
    · split
      · exact readSizeAtLeast_extends (Nat.zero_le _) 4
      · exact readSizeAtLeast_extends (Nat.zero_le _) 8

/-- A first byte that is no other form's announces eight bytes. -/
theorem last_marker {first : UInt8} (short : ¬ first < 253) (two : first ≠ 253) (four : first ≠ 254) :
    first = 255 := by
  apply UInt8.toNat_inj.mp
  have range := first.toNat_lt
  have notShort : ¬ first.toNat < 253 := fun less => short (UInt8.lt_iff_toNat_lt.mpr less)
  have notTwo : first.toNat ≠ 253 := fun same => two (UInt8.toNat_inj.mp same)
  have notFour : first.toNat ≠ 254 := fun same => four (UInt8.toNat_inj.mp same)
  change first.toNat = 255
  omega

theorem Block.readCompactSizeChecked_parses :
    Reader.Parses readCompactSizeChecked writeCompactSize (· < 2 ^ 64) := by
  intro input size rest
  constructor
  · intro accepted
    obtain ⟨first, afterFirst, head, tail⟩ := Reader.bind_ok.mp accepted
    obtain rfl := readByte_ok.mp head
    split at tail
    · rename_i short
      cases tail
      have small : first.toNat < 253 := UInt8.lt_iff_toNat_lt.mp short
      exact ⟨by simp [writeCompactSize, small], by omega⟩
    · split at tail
      · rename_i marker
        obtain ⟨rfl, fits, large⟩ := readSizeAtLeast_ok.mp tail
        have shape : writeCompactSize size = 253 :: littleEndian 2 size := by
          rw [writeCompactSize, if_neg (by omega), if_pos (by omega)]
        exact ⟨by rw [shape, marker]; rfl, by omega⟩
      · split at tail
        · rename_i marker
          obtain ⟨rfl, fits, large⟩ := readSizeAtLeast_ok.mp tail
          have shape : writeCompactSize size = 254 :: littleEndian 4 size := by
            rw [writeCompactSize, if_neg (by omega), if_neg (by omega), if_pos (by omega)]
          exact ⟨by rw [shape, marker]; rfl, by omega⟩
        · rename_i short two four
          obtain ⟨rfl, fits, large⟩ := readSizeAtLeast_ok.mp tail
          have marker := last_marker short two four
          have shape : writeCompactSize size = 255 :: littleEndian 8 size := by
            rw [writeCompactSize, if_neg (by omega), if_neg (by omega), if_neg (by omega)]
          exact ⟨by rw [shape, marker]; rfl, by omega⟩
  · rintro ⟨rfl, fits⟩
    unfold writeCompactSize
    split
    · rename_i short
      have small : (UInt8.ofNat size).toNat = size := by
        rw [UInt8.toNat_ofNat']
        omega
      have less : UInt8.ofNat size < 253 := by
        rw [UInt8.lt_iff_toNat_lt, small]
        exact short
      refine Reader.bind_ok.mpr ⟨UInt8.ofNat size, rest, readByte_ok.mpr rfl, ?_⟩
      rw [if_pos less, small]
      rfl
    · split
      · refine Reader.bind_ok.mpr ⟨253, _, readByte_ok.mpr rfl, ?_⟩
        exact readSizeAtLeast_ok.mpr ⟨rfl, by omega, by omega⟩
      · split
        · refine Reader.bind_ok.mpr ⟨254, _, readByte_ok.mpr rfl, ?_⟩
          exact readSizeAtLeast_ok.mpr ⟨rfl, by omega, by omega⟩
        · refine Reader.bind_ok.mpr ⟨255, _, readByte_ok.mpr rfl, ?_⟩
          exact readSizeAtLeast_ok.mpr ⟨rfl, by omega, by omega⟩

theorem writeCompactSize_length_pos (size : Nat) : 1 ≤ (writeCompactSize size).length := by
  unfold writeCompactSize
  split
  · exact Nat.le_refl 1
  · split
    · simp
    · split <;> simp

theorem readScript_ok {trailing length : Nat} {script : ByteVector} {input rest : Bytes}
    (few : trailing ≤ 4) (word : length < 2 ^ 64) :
    readScript trailing length input = .ok (script, rest) ↔
      input = script.bytes ++ rest ∧ script.size = length ∧ trailing ≤ rest.length := by
  have exactDifference (small : length < 2 ^ 63 - 4) :
      toPtrdiff (length + trailing) = (length + trailing : Nat) := by
    unfold toPtrdiff
    rw [if_pos (by omega), Nat.mod_eq_of_lt (by omega)]
  unfold readScript
  constructor
  · intro accepted
    split at accepted
    · contradiction
    · rename_i enough
      split at accepted
      · rename_i fits
        cases accepted
        rw [exactDifference fits.2] at enough
        refine ⟨(List.take_append_drop _ _).symm, List.length_take_of_le fits.1, ?_⟩
        rw [List.length_drop]
        omega
      · contradiction
  · rintro ⟨rfl, rfl, enough⟩
    have small : script.size < 2 ^ 63 - 4 := script.fits
    have total : (script.bytes ++ rest).length = script.size + rest.length := List.length_append
    rw [exactDifference small, if_neg (by omega), dif_pos (by omega)]
    have front : (script.bytes ++ rest).take script.size = script.bytes := List.take_left' rfl
    have back : (script.bytes ++ rest).drop script.size = rest := List.drop_left' rfl
    simp only [front, back]

theorem OutPoint.deserialize_ok {outpoint : OutPoint} {input rest : Bytes} :
    OutPoint.deserialize input = .ok (outpoint, rest) ↔ input = outpoint.serialize ++ rest := by
  constructor
  · intro accepted
    obtain ⟨txid, afterTxid, head, tail⟩ := Reader.bind_ok.mp accepted
    obtain ⟨vout, afterVout, voutRead, done⟩ := Reader.bind_ok.mp tail
    obtain rfl := Reader.takeFixed_ok.mp head
    obtain rfl := readUInt32_ok.mp voutRead
    cases done
    simp [serialize]
  · rintro rfl
    rw [serialize, List.append_assoc]
    exact Reader.bind_ok.mpr ⟨_, _, Reader.takeFixed_ok.mpr rfl,
      Reader.bind_ok.mpr ⟨_, _, readUInt32_ok.mpr rfl, rfl⟩⟩

theorem AssetAmount.deserialize_ok {amount : AssetAmount} {input rest : Bytes} :
    AssetAmount.deserialize input = .ok (amount, rest) ↔ input = amount.serialize ++ rest := by
  constructor
  · intro accepted
    obtain ⟨asset, afterAsset, head, tail⟩ := Reader.bind_ok.mp accepted
    obtain ⟨value, afterValue, valueRead, done⟩ := Reader.bind_ok.mp tail
    obtain rfl := readByte_ok.mp head
    obtain rfl := readUInt64_ok.mp valueRead
    cases done
    rfl
  · rintro rfl
    exact Reader.bind_ok.mpr ⟨amount.asset.value, _, readByte_ok.mpr rfl,
      Reader.bind_ok.mpr ⟨_, _, readUInt64_ok.mpr rfl, rfl⟩⟩

theorem TxInput.deserialize_parses :
    Reader.Parses (deserializeWith Block.readCompactSizeChecked) serialize fun _ => True := by
  intro input value rest
  constructor
  · intro accepted
    obtain ⟨prevout, afterPrevout, head, tail⟩ := Reader.bind_ok.mp accepted
    obtain ⟨scriptLen, afterLen, sized, tail⟩ := Reader.bind_ok.mp tail
    obtain ⟨script, afterScript, scripted, tail⟩ := Reader.bind_ok.mp tail
    obtain ⟨sequence, afterSequence, sequenceRead, done⟩ := Reader.bind_ok.mp tail
    obtain rfl := OutPoint.deserialize_ok.mp head
    obtain ⟨rfl, word⟩ := (Block.readCompactSizeChecked_parses _ _ _).mp sized
    obtain ⟨rfl, rfl, _⟩ := (readScript_ok (Nat.le_refl 4) word).mp scripted
    obtain rfl := readUInt32_ok.mp sequenceRead
    cases done
    simp [serialize]
  · rintro ⟨rfl, _⟩
    have ordered : value.serialize ++ rest = value.prevout.serialize ++
        (writeCompactSize value.signatureScript.size ++ (value.signatureScript.bytes ++
          (littleEndian 4 value.sequence.toNat ++ rest))) := by
      simp [serialize]
    rw [ordered]
    refine Reader.bind_ok.mpr ⟨_, _, OutPoint.deserialize_ok.mpr rfl, ?_⟩
    have word := value.signatureScript.size_lt_word
    refine Reader.bind_ok.mpr
      ⟨_, _, (Block.readCompactSizeChecked_parses _ _ _).mpr ⟨rfl, word⟩, ?_⟩
    refine Reader.bind_ok.mpr
      ⟨_, _, (readScript_ok (Nat.le_refl 4) word).mpr ⟨rfl, rfl, by simp⟩, ?_⟩
    exact Reader.bind_ok.mpr ⟨_, _, readUInt32_ok.mpr rfl, rfl⟩

theorem TxOutput.deserialize_parses :
    Reader.Parses (deserializeWith Block.readCompactSizeChecked) serialize fun _ => True := by
  intro input value rest
  constructor
  · intro accepted
    obtain ⟨amount, afterAmount, head, tail⟩ := Reader.bind_ok.mp accepted
    obtain ⟨scriptLen, afterLen, sized, tail⟩ := Reader.bind_ok.mp tail
    obtain ⟨script, afterScript, scripted, done⟩ := Reader.bind_ok.mp tail
    obtain rfl := AssetAmount.deserialize_ok.mp head
    obtain ⟨rfl, word⟩ := (Block.readCompactSizeChecked_parses _ _ _).mp sized
    obtain ⟨rfl, rfl, _⟩ := (readScript_ok (Nat.zero_le 4) word).mp scripted
    cases done
    simp [serialize]
  · rintro ⟨rfl, _⟩
    have ordered : value.serialize ++ rest = value.value.serialize ++
        (writeCompactSize value.pubkeyScript.size ++ (value.pubkeyScript.bytes ++ rest)) := by
      simp [serialize]
    rw [ordered]
    refine Reader.bind_ok.mpr ⟨_, _, AssetAmount.deserialize_ok.mpr rfl, ?_⟩
    have word := value.pubkeyScript.size_lt_word
    refine Reader.bind_ok.mpr
      ⟨_, _, (Block.readCompactSizeChecked_parses _ _ _).mpr ⟨rfl, word⟩, ?_⟩
    exact Reader.bind_ok.mpr
      ⟨_, _, (readScript_ok (Nat.zero_le 4) word).mpr ⟨rfl, rfl, Nat.zero_le _⟩, rfl⟩

/-- What a counted list is read from, whatever reads the count. -/
theorem readCounted_ok {α : Type} {readCount : Read Nat} {most : Nat} {readOne : Read α}
    {values : List α} {input rest : Bytes} :
    readCounted readCount most readOne input = .ok (values, rest) ↔
      ∃ count afterCount, readCount input = .ok (count, afterCount) ∧ count ≤ most ∧
        Reader.many readOne count afterCount = .ok (values, rest) := by
  unfold readCounted
  rw [Reader.bind_ok]
  constructor
  · rintro ⟨count, afterCount, counted, tail⟩
    split at tail
    · exact absurd tail throw_ne_ok
    · rename_i few
      exact ⟨count, afterCount, counted, Nat.le_of_not_lt few, tail⟩
  · rintro ⟨count, afterCount, counted, few, tail⟩
    exact ⟨count, afterCount, counted, by rwa [if_neg (Nat.not_lt.mpr few)]⟩

theorem readCounted_parses {α : Type} {readOne : Read α} {write : α → Bytes} {valid : α → Prop}
    {most : Nat} (word : most < 2 ^ 64) (one : Reader.Parses readOne write valid) :
    Reader.Parses (readCounted Block.readCompactSizeChecked most readOne)
      (fun values => writeCompactSize values.length ++ values.flatMap write)
      (fun values => values.length ≤ most ∧ ∀ value ∈ values, valid value) := by
  intro input values rest
  rw [readCounted_ok]
  constructor
  · rintro ⟨count, afterCount, counted, few, tail⟩
    obtain ⟨rfl, _⟩ := (Block.readCompactSizeChecked_parses _ _ _).mp counted
    obtain ⟨rfl, rfl, allValid⟩ := (one.many count _ _ _).mp tail
    exact ⟨by simp, few, allValid⟩
  · rintro ⟨rfl, few, allValid⟩
    refine ⟨values.length, values.flatMap write ++ rest, ?_, few, ?_⟩
    · refine (Block.readCompactSizeChecked_parses _ _ _).mpr ⟨by simp, ?_⟩
      exact Nat.lt_of_le_of_lt few word
    · exact (one.many _ _ _ _).mpr ⟨rfl, rfl, allValid⟩

theorem readCounted_extends {α : Type} {wide narrow : Read Nat} {wideOne narrowOne : Read α}
    (count : Reader.Extends wide narrow) (one : Reader.Extends wideOne narrowOne) (most : Nat) :
    Reader.Extends (readCounted wide most wideOne) (readCounted narrow most narrowOne) := by
  refine count.bind fun size => ?_
  split
  · exact .refl _
  · exact one.many size

namespace Transaction

/-- The counts the parser accepts. -/
def WithinLimits (tx : Transaction) : Prop :=
  tx.inputs.length ≤ maxCount ∧ tx.outputs.length ≤ maxCount

theorem readFields_parses :
    Reader.Parses (readFields Block.readCompactSizeChecked) serialize WithinLimits := by
  intro input tx rest
  have inputsParse := readCounted_parses (by decide : maxCount < 2 ^ 64) TxInput.deserialize_parses
  have outputsParse := readCounted_parses (by decide : maxCount < 2 ^ 64) TxOutput.deserialize_parses
  constructor
  · intro accepted
    obtain ⟨version, afterVersion, head, tail⟩ := Reader.bind_ok.mp accepted
    obtain ⟨inputs, afterInputs, inputsRead, tail⟩ := Reader.bind_ok.mp tail
    obtain ⟨outputs, afterOutputs, outputsRead, tail⟩ := Reader.bind_ok.mp tail
    obtain ⟨locktime, afterLocktime, locktimeRead, done⟩ := Reader.bind_ok.mp tail
    obtain rfl := readUInt32_ok.mp head
    obtain ⟨rfl, fewInputs, _⟩ := (inputsParse _ _ _).mp inputsRead
    obtain ⟨rfl, fewOutputs, _⟩ := (outputsParse _ _ _).mp outputsRead
    obtain rfl := readUInt32_ok.mp locktimeRead
    cases done
    exact ⟨by simp [serialize], fewInputs, fewOutputs⟩
  · rintro ⟨rfl, fewInputs, fewOutputs⟩
    have ordered : tx.serialize ++ rest = littleEndian 4 tx.version.toNat ++
        ((writeCompactSize tx.inputs.length ++ tx.inputs.flatMap TxInput.serialize) ++
          ((writeCompactSize tx.outputs.length ++ tx.outputs.flatMap TxOutput.serialize) ++
            (littleEndian 4 tx.locktime.toNat ++ rest))) := by
      simp [serialize]
    rw [ordered]
    refine Reader.bind_ok.mpr ⟨_, _, readUInt32_ok.mpr rfl, ?_⟩
    refine Reader.bind_ok.mpr ⟨_, _, (inputsParse _ _ _).mpr ⟨rfl, fewInputs, by simp⟩, ?_⟩
    refine Reader.bind_ok.mpr ⟨_, _, (outputsParse _ _ _).mpr ⟨rfl, fewOutputs, by simp⟩, ?_⟩
    exact Reader.bind_ok.mpr ⟨_, _, readUInt32_ok.mpr rfl, rfl⟩

theorem readFields_extends :
    Reader.Extends (readFields readCompactSizeChecked) (readFields Block.readCompactSizeChecked) := by
  have sizes := readCompactSizeChecked_extends
  have inputs : Reader.Extends (TxInput.deserializeWith readCompactSizeChecked)
      (TxInput.deserializeWith Block.readCompactSizeChecked) :=
    (Reader.Extends.refl _).bind fun _ => sizes.bind fun _ => .refl _
  have outputs : Reader.Extends (TxOutput.deserializeWith readCompactSizeChecked)
      (TxOutput.deserializeWith Block.readCompactSizeChecked) :=
    (Reader.Extends.refl _).bind fun _ => sizes.bind fun _ => .refl _
  exact (Reader.Extends.refl _).bind fun _ => (readCounted_extends sizes inputs _).bind fun _ =>
    (readCounted_extends sizes outputs _).bind fun _ => .refl _

/-- Whatever reads the sizes, an accepted transaction stays within the limits. -/
theorem readFields_withinLimits {readSize : Read Nat} {tx : Transaction} {input rest : Bytes}
    (accepted : readFields readSize input = .ok (tx, rest)) : tx.WithinLimits := by
  obtain ⟨version, afterVersion, _, tail⟩ := Reader.bind_ok.mp accepted
  obtain ⟨inputs, afterInputs, inputsRead, tail⟩ := Reader.bind_ok.mp tail
  obtain ⟨outputs, afterOutputs, outputsRead, tail⟩ := Reader.bind_ok.mp tail
  obtain ⟨locktime, afterLocktime, _, done⟩ := Reader.bind_ok.mp tail
  obtain ⟨inputCount, _, _, fewInputs, inputsMany⟩ := readCounted_ok.mp inputsRead
  obtain ⟨outputCount, _, _, fewOutputs, outputsMany⟩ := readCounted_ok.mp outputsRead
  cases done
  rw [← Reader.many_length inputsMany] at fewInputs
  rw [← Reader.many_length outputsMany] at fewOutputs
  exact ⟨fewInputs, fewOutputs⟩

theorem serialize_length_ge (tx : Transaction) : 10 ≤ tx.serialize.length := by
  have inputs := writeCompactSize_length_pos tx.inputs.length
  have outputs := writeCompactSize_length_pos tx.outputs.length
  simp only [serialize, List.length_append, littleEndian_length]
  omega

theorem deserializeFront_ok {readSize : Read Nat} {object : CachedTransaction}
    {input rest : Bytes} :
    deserializeFrontWith readSize input = .ok (object, rest) ↔
      10 ≤ input.length ∧ readFields readSize input = .ok (object.toTransaction, rest) ∧
        object.cachedTxID = none ∧
        object.cachedSerializedSize = some (input.length - rest.length) := by
  unfold deserializeFrontWith
  constructor
  · intro accepted
    split at accepted
    · contradiction
    · rename_i enough
      cases fields : readFields readSize input with
      | error fault =>
          rw [fields] at accepted
          contradiction
      | ok parsed =>
          rw [fields] at accepted
          cases accepted
          exact ⟨Nat.le_of_not_lt enough, rfl, rfl, rfl⟩
  · rintro ⟨enough, fields, uncached, size⟩
    rw [if_neg (Nat.not_lt.mpr enough), fields]
    obtain ⟨tx, cachedTxID, cachedSerializedSize⟩ := object
    subst uncached size
    rfl

/-- A parsed object: the transaction is within the limits, its hash was never
computed and its size is the one it serializes to. -/
def Parsed (object : CachedTransaction) : Prop :=
  object.WithinLimits ∧ object.cachedTxID = none ∧
    object.cachedSerializedSize = some object.serialize.length

theorem deserializeFront_parses :
    Reader.Parses (deserializeFrontWith Block.readCompactSizeChecked)
      (fun object => object.serialize) Parsed := by
  intro input object rest
  rw [deserializeFront_ok, readFields_parses]
  constructor
  · rintro ⟨_, ⟨rfl, limits⟩, uncached, size⟩
    rw [List.length_append, Nat.add_sub_cancel] at size
    exact ⟨rfl, limits, uncached, size⟩
  · rintro ⟨rfl, limits, uncached, size⟩
    have long := serialize_length_ge object.toTransaction
    simp only [List.length_append, Nat.add_sub_cancel]
    exact ⟨by omega, ⟨trivial, limits⟩, uncached, size⟩

theorem deserializeFront_extends :
    Reader.Extends (deserializeFrontWith readCompactSizeChecked)
      (deserializeFrontWith Block.readCompactSizeChecked) := by
  intro input result accepted
  obtain ⟨object, rest⟩ := result
  obtain ⟨long, fields, cached⟩ := deserializeFront_ok.mp accepted
  exact deserializeFront_ok.mpr ⟨long, readFields_extends _ _ fields, cached⟩

theorem deserialize_ok {readSize : Read Nat} {data : Bytes} {object : CachedTransaction} :
    deserializeWith readSize data = .ok object ↔
      deserializeFrontWith readSize data = .ok (object, []) := by
  unfold deserializeWith
  cases front : deserializeFrontWith readSize data with
  | error fault =>
      change (Except.error fault : Except Fault CachedTransaction) = .ok object ↔ _
      simp
  | ok parsed =>
      obtain ⟨other, rest⟩ := parsed
      change (if rest.isEmpty then (pure other : Except Fault CachedTransaction)
        else .error .nullopt) = .ok object ↔ _
      cases rest with
      | nil => simp [pure, Except.pure]
      | cons byte rest => simp

end Transaction

theorem BlockHeader.deserialize_ok {header : BlockHeader} {input rest : Bytes} :
    BlockHeader.deserialize input = .ok (header, rest) ↔ input = header.serialize ++ rest := by
  constructor
  · intro accepted
    obtain ⟨version, afterVersion, versionRead, tail⟩ := Reader.bind_ok.mp accepted
    obtain ⟨prevBlockHash, afterPrev, prevRead, tail⟩ := Reader.bind_ok.mp tail
    obtain ⟨merkleRoot, afterRoot, rootRead, tail⟩ := Reader.bind_ok.mp tail
    obtain ⟨timestamp, afterTime, timeRead, tail⟩ := Reader.bind_ok.mp tail
    obtain ⟨bits, afterBits, bitsRead, tail⟩ := Reader.bind_ok.mp tail
    obtain ⟨nonce, afterNonce, nonceRead, tail⟩ := Reader.bind_ok.mp tail
    obtain ⟨baseFee, afterFee, feeRead, tail⟩ := Reader.bind_ok.mp tail
    obtain ⟨gasUsed, afterUsed, usedRead, tail⟩ := Reader.bind_ok.mp tail
    obtain ⟨gasLimit, afterLimit, limitRead, done⟩ := Reader.bind_ok.mp tail
    obtain rfl := readUInt32_ok.mp versionRead
    obtain rfl := Reader.takeFixed_ok.mp prevRead
    obtain rfl := Reader.takeFixed_ok.mp rootRead
    obtain rfl := readUInt32_ok.mp timeRead
    obtain rfl := readUInt32_ok.mp bitsRead
    obtain rfl := readUInt32_ok.mp nonceRead
    obtain rfl := readUInt64_ok.mp feeRead
    obtain rfl := readUInt64_ok.mp usedRead
    obtain rfl := readUInt64_ok.mp limitRead
    cases done
    simp [serialize]
  · rintro rfl
    simp only [serialize, List.append_assoc]
    refine Reader.bind_ok.mpr ⟨_, _, readUInt32_ok.mpr rfl, ?_⟩
    refine Reader.bind_ok.mpr ⟨_, _, Reader.takeFixed_ok.mpr rfl, ?_⟩
    refine Reader.bind_ok.mpr ⟨_, _, Reader.takeFixed_ok.mpr rfl, ?_⟩
    refine Reader.bind_ok.mpr ⟨_, _, readUInt32_ok.mpr rfl, ?_⟩
    refine Reader.bind_ok.mpr ⟨_, _, readUInt32_ok.mpr rfl, ?_⟩
    refine Reader.bind_ok.mpr ⟨_, _, readUInt32_ok.mpr rfl, ?_⟩
    refine Reader.bind_ok.mpr ⟨_, _, readUInt64_ok.mpr rfl, ?_⟩
    refine Reader.bind_ok.mpr ⟨_, _, readUInt64_ok.mpr rfl, ?_⟩
    exact Reader.bind_ok.mpr ⟨_, _, readUInt64_ok.mpr rfl, rfl⟩

theorem BlockHeader.serialize_length (header : BlockHeader) : header.serialize.length = 104 := by
  simp [serialize, FixedBytes.length_eq]

namespace Block

/-- The transaction counts the parser accepts. -/
def CountWithinLimits (count : Nat) : Prop := 1 ≤ count ∧ count ≤ maxTransactions

theorem readFields_ok {readSize : Read Nat} {block : CachedBlock} {input rest : Bytes} :
    readFieldsWith readSize input = .ok (block, rest) ↔
      ∃ afterHeader count afterCount,
        input = block.header.serialize ++ afterHeader ∧
        readCompactSizeChecked afterHeader = .ok (count, afterCount) ∧ CountWithinLimits count ∧
        Reader.many (Transaction.deserializeFrontWith readSize) count afterCount =
          .ok (block.transactions, rest) := by
  constructor
  · intro accepted
    obtain ⟨header, afterHeader, headerRead, tail⟩ := Reader.bind_ok.mp accepted
    obtain ⟨count, afterCount, counted, tail⟩ := Reader.bind_ok.mp tail
    split at tail
    · exact absurd tail throw_ne_ok
    · rename_i inside
      obtain ⟨transactions, afterAll, manyRead, done⟩ := Reader.bind_ok.mp tail
      cases done
      exact ⟨afterHeader, count, afterCount, BlockHeader.deserialize_ok.mp headerRead, counted,
        ⟨by omega, by omega⟩, manyRead⟩
  · rintro ⟨afterHeader, count, afterCount, written, counted, ⟨some, few⟩, manyRead⟩
    refine Reader.bind_ok.mpr ⟨_, _, BlockHeader.deserialize_ok.mpr written, ?_⟩
    refine Reader.bind_ok.mpr ⟨_, _, counted, ?_⟩
    rw [if_neg (by omega)]
    exact Reader.bind_ok.mpr ⟨_, _, manyRead, rfl⟩

theorem readFields_parses :
    Reader.Parses (readFieldsWith readCompactSizeChecked) (fun block => block.toBlock.serialize)
      (fun block => CountWithinLimits block.transactions.length ∧
        ∀ object ∈ block.transactions, Transaction.Parsed object) := by
  intro input block rest
  have written : block.toBlock.serialize = block.header.serialize ++
      (writeCompactSize block.transactions.length ++
        block.transactions.flatMap fun object => object.serialize) := by
    simp [serialize, CachedBlock.toBlock, List.flatMap_map]
  rw [readFields_ok]
  simp only [written]
  constructor
  · rintro ⟨afterHeader, count, afterCount, rfl, counted, limits, manyRead⟩
    obtain ⟨rfl, _⟩ := (readCompactSizeChecked_parses _ _ _).mp counted
    obtain ⟨rfl, rfl, parsed⟩ := (Transaction.deserializeFront_parses.many _ _ _ _).mp manyRead
    exact ⟨by simp, limits, parsed⟩
  · rintro ⟨rfl, limits, parsed⟩
    refine ⟨writeCompactSize block.transactions.length ++
      (block.transactions.flatMap (fun object => object.serialize) ++ rest),
      block.transactions.length,
      block.transactions.flatMap (fun object => object.serialize) ++ rest,
      by simp only [List.append_assoc], ?_, limits, ?_⟩
    · refine (readCompactSizeChecked_parses _ _ _).mpr ⟨rfl, ?_⟩
      exact Nat.lt_of_le_of_lt limits.2 (by decide)
    · exact (Transaction.deserializeFront_parses.many _ _ _ _).mpr ⟨rfl, rfl, parsed⟩

theorem readFields_extends :
    Reader.Extends (readFieldsWith Transaction.readCompactSizeChecked)
      (readFieldsWith readCompactSizeChecked) := by
  intro input result accepted
  obtain ⟨block, rest⟩ := result
  obtain ⟨afterHeader, count, afterCount, written, counted, limits, manyRead⟩ :=
    readFields_ok.mp accepted
  exact readFields_ok.mpr ⟨afterHeader, count, afterCount, written, counted, limits,
    Transaction.deserializeFront_extends.many count _ _ manyRead⟩

theorem deserialize_ok {readSize : Read Nat} {data : Bytes} {block : CachedBlock} :
    deserializeWith readSize data = .ok block ↔
      105 ≤ data.length ∧ readFieldsWith readSize data = .ok (block, []) := by
  unfold deserializeWith
  split
  · rename_i short
    constructor
    · intro accepted
      contradiction
    · rintro ⟨long, _⟩
      omega
  · rename_i long
    cases front : readFieldsWith readSize data with
    | error fault =>
        change (Except.error fault : Except Fault CachedBlock) = .ok block ↔ _
        simp
    | ok parsed =>
        obtain ⟨other, rest⟩ := parsed
        change (if rest.isEmpty then (pure other : Except Fault CachedBlock)
          else .error .nullopt) = .ok block ↔ _
        cases rest with
        | nil =>
            simp only [List.isEmpty_nil, if_true, pure, Except.pure, Except.ok.injEq,
              Prod.mk.injEq, and_true]
            exact ⟨fun same => ⟨by omega, same⟩, fun both => both.2⟩
        | cons byte rest => simp

theorem serialize_length_ge (block : Block) : 105 ≤ block.serialize.length := by
  have size_pos := writeCompactSize_length_pos block.transactions.length
  simp only [serialize, List.length_append, BlockHeader.serialize_length]
  omega

end Block

end Parthenon.Primitives
