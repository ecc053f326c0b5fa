import Parthenon.Primitives.WireCanonical

namespace Parthenon.Primitives

open Parthenon.Library Parthenon.Crypto

/-! # What a parser consumes

Writing a parsed value back takes no more bytes than reading it did, and as many
only when the bytes read are the bytes written.  The size that a parsed
transaction carries is therefore right exactly where no length prefix was longer
than it had to be.
-/

/-- A value is written in no more bytes than it was read from, and in as many only
as it was read. -/
def Tight {α : Type} (read : Read α) (write : α → Bytes) : Prop :=
  ∀ input value rest, read input = .ok (value, rest) →
    (write value).length + rest.length ≤ input.length ∧
      ((write value).length + rest.length = input.length → input = write value ++ rest)

theorem Tight.many {α : Type} {read : Read α} {write : α → Bytes} (one : Tight read write)
    (count : Nat) : Tight (Reader.many read count) fun values => values.flatMap write := by
  intro input values rest accepted
  induction count generalizing input values with
  | zero =>
      cases accepted
      exact ⟨by simp, fun _ => rfl⟩
  | succ count ih =>
      obtain ⟨value, afterValue, head, tail⟩ := Reader.bind_ok.mp accepted
      obtain ⟨others, afterOthers, othersRead, done⟩ := Reader.bind_ok.mp tail
      cases done
      obtain ⟨shorter, whole⟩ := one input value afterValue head
      obtain ⟨shorterLater, wholeLater⟩ := ih afterValue others othersRead
      dsimp only at shorterLater wholeLater
      simp only [List.flatMap_cons, List.length_append]
      refine ⟨by omega, fun same => ?_⟩
      rw [whole (by omega), wholeLater (by omega), List.append_assoc]

/-- A size takes no more bytes than any of its long forms, and as many only as that form. -/
theorem writeCompactSize_tight {size width : Nat} {marker : UInt8}
    (form : (marker = 253 ∧ width = 2) ∨ (marker = 254 ∧ width = 4) ∨ (marker = 255 ∧ width = 8))
    (fits : size < 256 ^ width) :
    (writeCompactSize size).length ≤ 1 + width ∧
      ((writeCompactSize size).length = 1 + width →
        writeCompactSize size = marker :: littleEndian width size) := by
  have one : size < 253 → writeCompactSize size = [UInt8.ofNat size] := fun small => by
    rw [writeCompactSize, if_pos small]
  have three : ¬ size < 253 → size ≤ 0xFFFF → writeCompactSize size = 253 :: littleEndian 2 size :=
    fun large small => by rw [writeCompactSize, if_neg large, if_pos small]
  have five : ¬ size ≤ 0xFFFF → size ≤ 0xFFFFFFFF →
      writeCompactSize size = 254 :: littleEndian 4 size := fun large small => by
    rw [writeCompactSize, if_neg (by omega), if_neg large, if_pos small]
  have nine : ¬ size ≤ 0xFFFFFFFF → writeCompactSize size = 255 :: littleEndian 8 size :=
    fun large => by rw [writeCompactSize, if_neg (by omega), if_neg (by omega), if_neg large]
  by_cases small : size < 253
  · rw [one small]
    obtain ⟨_, rfl⟩ | ⟨_, rfl⟩ | ⟨_, rfl⟩ := form <;> simp
  · by_cases two : size ≤ 0xFFFF
    · rw [three small two]
      obtain ⟨rfl, rfl⟩ | ⟨_, rfl⟩ | ⟨_, rfl⟩ := form <;> simp
    · by_cases four : size ≤ 0xFFFFFFFF
      · rw [five two four]
        obtain ⟨_, rfl⟩ | ⟨rfl, rfl⟩ | ⟨_, rfl⟩ := form
        · omega
        · simp
        · simp
      · rw [nine four]
        obtain ⟨_, rfl⟩ | ⟨_, rfl⟩ | ⟨rfl, rfl⟩ := form
        · omega
        · omega
        · simp

theorem readCompactSizeChecked_tight : Tight Transaction.readCompactSizeChecked writeCompactSize := by
  intro input size rest accepted
  obtain ⟨first, afterFirst, head, tail⟩ := Reader.bind_ok.mp accepted
  obtain rfl := readByte_ok.mp head
  -- A form with a marker reads its number without a least value.
  have long {width : Nat} (read : readSizeAtLeast 0 width afterFirst = .ok (size, rest))
      (form : (first = 253 ∧ width = 2) ∨ (first = 254 ∧ width = 4) ∨ (first = 255 ∧ width = 8)) :
      (writeCompactSize size).length + rest.length ≤ (first :: afterFirst).length ∧
        ((writeCompactSize size).length + rest.length = (first :: afterFirst).length →
          first :: afterFirst = writeCompactSize size ++ rest) := by
    obtain ⟨rfl, fits, _⟩ := readSizeAtLeast_ok.mp read
    obtain ⟨shorter, whole⟩ := writeCompactSize_tight form fits
    simp only [List.length_cons, List.length_append, littleEndian_length]
    refine ⟨by omega, fun same => ?_⟩
    rw [whole (by omega), List.cons_append]
  split at tail
  · rename_i short
    cases tail
    have small : first.toNat < 253 := UInt8.lt_iff_toNat_lt.mp short
    have shape : writeCompactSize first.toNat = [first] := by
      rw [writeCompactSize, if_pos small, UInt8.ofNat_toNat]
    rw [shape]
    exact ⟨Nat.le_of_eq (Nat.add_comm 1 _), fun _ => rfl⟩
  · split at tail
    · rename_i marker
      exact long tail (.inl ⟨marker, rfl⟩)
    · split at tail
      · rename_i marker
        exact long tail (.inr (.inl ⟨marker, rfl⟩))
      · rename_i short two four
        exact long tail (.inr (.inr ⟨last_marker short two four, rfl⟩))

theorem readCompactSizeChecked_word {size : Nat} {input rest : Bytes}
    (accepted : Transaction.readCompactSizeChecked input = .ok (size, rest)) : size < 2 ^ 64 := by
  obtain ⟨first, afterFirst, head, tail⟩ := Reader.bind_ok.mp accepted
  have short := first.toNat_lt
  split at tail
  · cases tail
    omega
  · split at tail
    · have fits := (readSizeAtLeast_ok.mp tail).2.1
      omega
    · split at tail
      · have fits := (readSizeAtLeast_ok.mp tail).2.1
        omega
      · have fits := (readSizeAtLeast_ok.mp tail).2.1
        omega

theorem TxInput.deserialize_tight :
    Tight (deserializeWith Transaction.readCompactSizeChecked) serialize := by
  intro input value rest accepted
  obtain ⟨prevout, afterPrevout, head, tail⟩ := Reader.bind_ok.mp accepted
  obtain ⟨scriptLen, afterLen, sized, tail⟩ := Reader.bind_ok.mp tail
  obtain ⟨script, afterScript, scripted, tail⟩ := Reader.bind_ok.mp tail
  obtain ⟨sequence, afterSequence, sequenceRead, done⟩ := Reader.bind_ok.mp tail
  obtain rfl := OutPoint.deserialize_ok.mp head
  obtain ⟨shorter, whole⟩ := readCompactSizeChecked_tight _ _ _ sized
  obtain ⟨rfl, rfl, _⟩ :=
    (readScript_ok (Nat.le_refl 4) (readCompactSizeChecked_word sized)).mp scripted
  obtain rfl := readUInt32_ok.mp sequenceRead
  cases done
  simp only [serialize, List.length_append] at shorter whole ⊢
  refine ⟨by omega, fun same => ?_⟩
  rw [whole (by omega)]
  simp only [List.append_assoc]

theorem TxOutput.deserialize_tight :
    Tight (deserializeWith Transaction.readCompactSizeChecked) serialize := by
  intro input value rest accepted
  obtain ⟨amount, afterAmount, head, tail⟩ := Reader.bind_ok.mp accepted
  obtain ⟨scriptLen, afterLen, sized, tail⟩ := Reader.bind_ok.mp tail
  obtain ⟨script, afterScript, scripted, done⟩ := Reader.bind_ok.mp tail
  obtain rfl := AssetAmount.deserialize_ok.mp head
  obtain ⟨shorter, whole⟩ := readCompactSizeChecked_tight _ _ _ sized
  obtain ⟨rfl, rfl, _⟩ :=
    (readScript_ok (Nat.zero_le 4) (readCompactSizeChecked_word sized)).mp scripted
  cases done
  simp only [serialize, List.length_append] at shorter whole ⊢
  refine ⟨by omega, fun same => ?_⟩
  rw [whole (by omega)]
  simp only [List.append_assoc]

theorem readCounted_tight {α : Type} {readOne : Read α} {write : α → Bytes} {most : Nat}
    (one : Tight readOne write) :
    Tight (readCounted Transaction.readCompactSizeChecked most readOne)
      fun values => writeCompactSize values.length ++ values.flatMap write := by
  intro input values rest accepted
  obtain ⟨count, afterCount, counted, _, tail⟩ := readCounted_ok.mp accepted
  obtain rfl := Reader.many_length tail
  obtain ⟨shorter, whole⟩ := readCompactSizeChecked_tight _ _ _ counted
  obtain ⟨shorterLater, wholeLater⟩ := one.many _ _ _ _ tail
  simp only [List.length_append] at shorterLater wholeLater ⊢
  refine ⟨by omega, fun same => ?_⟩
  rw [whole (by omega), wholeLater (by omega), List.append_assoc]

namespace Transaction

theorem readFields_tight : Tight (readFields readCompactSizeChecked) serialize := by
  intro input tx rest accepted
  obtain ⟨version, afterVersion, head, tail⟩ := Reader.bind_ok.mp accepted
  obtain ⟨inputs, afterInputs, inputsRead, tail⟩ := Reader.bind_ok.mp tail
  obtain ⟨outputs, afterOutputs, outputsRead, tail⟩ := Reader.bind_ok.mp tail
  obtain ⟨locktime, afterLocktime, locktimeRead, done⟩ := Reader.bind_ok.mp tail
  obtain rfl := readUInt32_ok.mp head
  obtain ⟨shorter, whole⟩ := readCounted_tight TxInput.deserialize_tight _ _ _ inputsRead
  obtain ⟨shorterLater, wholeLater⟩ := readCounted_tight TxOutput.deserialize_tight _ _ _ outputsRead
  obtain rfl := readUInt32_ok.mp locktimeRead
  cases done
  simp only [serialize, List.length_append] at shorter whole shorterLater wholeLater ⊢
  refine ⟨by omega, fun same => ?_⟩
  rw [whole (by omega), wholeLater (by omega)]
  simp only [List.append_assoc]

/-- The transaction at the front of `input` has every length prefix in its shortest form. -/
def ShortestFront (input : Bytes) : Prop :=
  ∃ object rest, deserializeFrontWith Block.readCompactSizeChecked input = .ok (object, rest)

/-- The size a parsed transaction carries is the one it serializes to exactly when
the bytes had every length prefix in its shortest form. -/
theorem parsedSize_iff {input rest : Bytes} {object : CachedTransaction}
    (accepted : deserializeFrontWith readCompactSizeChecked input = .ok (object, rest)) :
    object.cachedSerializedSize = some object.serialize.length ↔ ShortestFront input := by
  obtain ⟨long, fields, uncached, size⟩ := deserializeFront_ok.mp accepted
  obtain ⟨shorter, whole⟩ := readFields_tight _ _ _ fields
  rw [size, Option.some_inj]
  constructor
  · intro same
    have written := whole (by omega)
    have parsed : Parsed object := by
      refine ⟨readFields_withinLimits fields, uncached, ?_⟩
      rw [size, same]
    exact ⟨object, rest, (deserializeFront_parses _ _ _).mpr ⟨written, parsed⟩⟩
  · rintro ⟨other, otherRest, strict⟩
    have agreed := deserializeFront_extends _ _ strict
    rw [accepted] at agreed
    cases agreed
    obtain ⟨written, _⟩ := (deserializeFront_parses _ _ _).mp strict
    rw [written, List.length_append, Nat.add_sub_cancel]

end Transaction

end Parthenon.Primitives
