import Parthenon.Primitives.WireLaws
import Parthenon.Rollup.OptimisticRollup
import Parthenon.Rollup.ZkRollup

namespace Parthenon.Rollup

open Library Crypto Primitives

/-! # Compressed batches

The batches of the two rollups as bytes.  Lists and strings stand after their lengths on 32
bits.
-/

/-! ## Parts -/

def writeHashes (hashes : List Hash) : Bytes :=
  littleEndian 4 (UInt32.ofNat hashes.length).toNat ++ hashes.flatMap FixedBytes.bytes

def readHashes : Read (List Hash) := do
  let count ← readUInt32
  Reader.many (Reader.takeFixed .nullopt 32) count.toNat

def writeSized (bytes : Bytes) : Bytes := littleEndian 4 (UInt32.ofNat bytes.length).toNat ++ bytes

def readSized : Read Bytes := do
  let size ← readUInt32
  Reader.take .nullopt size.toNat

theorem readHashes_parses : Reader.Parses readHashes writeHashes (·.length < 2 ^ 32) := by
  intro input hashes rest
  have one : Reader.Parses (Reader.takeFixed Fault.nullopt 32) FixedBytes.bytes fun _ => True :=
    Reader.takeFixed_parses Fault.nullopt 32
  constructor
  · intro accepted
    obtain ⟨count, afterCount, head, tail⟩ := Reader.bind_ok.mp accepted
    obtain rfl := readUInt32_ok.mp head
    obtain ⟨rfl, length, -⟩ := (one.many count.toNat _ _ _).mp tail
    refine ⟨?_, length.trans_lt count.toNat_lt⟩
    rw [writeHashes, length, UInt32.ofNat_toNat, List.append_assoc]
  · rintro ⟨rfl, fits⟩
    have toNat : (UInt32.ofNat hashes.length).toNat = hashes.length := by
      rw [UInt32.toNat_ofNat', Nat.mod_eq_of_lt fits]
    refine Reader.bind_ok.mpr ⟨UInt32.ofNat hashes.length, hashes.flatMap FixedBytes.bytes ++ rest,
      readUInt32_ok.mpr (List.append_assoc _ _ _), ?_⟩
    rw [toNat]
    exact (one.many hashes.length _ _ _).mpr ⟨rfl, rfl, fun _ _ => trivial⟩

theorem readSized_parses : Reader.Parses readSized writeSized (·.length < 2 ^ 32) := by
  intro input bytes rest
  constructor
  · intro accepted
    obtain ⟨size, afterSize, head, tail⟩ := Reader.bind_ok.mp accepted
    obtain rfl := readUInt32_ok.mp head
    obtain ⟨rfl, length⟩ := Reader.take_ok.mp tail
    refine ⟨?_, length.trans_lt size.toNat_lt⟩
    rw [writeSized, length, UInt32.ofNat_toNat, List.append_assoc]
  · rintro ⟨rfl, fits⟩
    have toNat : (UInt32.ofNat bytes.length).toNat = bytes.length := by
      rw [UInt32.toNat_ofNat', Nat.mod_eq_of_lt fits]
    refine Reader.bind_ok.mpr ⟨UInt32.ofNat bytes.length, bytes ++ rest,
      readUInt32_ok.mpr (List.append_assoc _ _ _), ?_⟩
    rw [toNat]
    exact Reader.take_append Fault.nullopt bytes rest

/-! ## Optimistic batches -/

namespace OptimisticRollup

def compressBatch (batch : RollupBatch) : Bytes :=
  batch.stateRootBefore.bytes ++ batch.stateRootAfter.bytes ++ writeHashes batch.transactions

/-- The other fields are as a new batch has them. -/
def readBatch : Read RollupBatch := do
  let stateRootBefore ← Reader.takeFixed .nullopt 32
  let stateRootAfter ← Reader.takeFixed .nullopt 32
  let transactions ← readHashes
  pure
    { batchId := 0
      stateRootBefore
      stateRootAfter
      transactions
      timestamp := 0
      operatorSignature := [] }

/-- What follows the last hash is not looked at. -/
def decompressBatch (data : Bytes) : Option RollupBatch :=
  if data.length < 68 then none
  else match readBatch data with
    | .ok (batch, _) => some batch
    | .error _ => none

/-- A batch without the fields that are not written. -/
def bare (batch : RollupBatch) : RollupBatch :=
  { batch with batchId := 0, timestamp := 0, operatorSignature := [] }

/-- The fields that are not written are as a new batch has them. -/
structure Carried (batch : RollupBatch) : Prop where
  batchId : batch.batchId = 0
  timestamp : batch.timestamp = 0
  operatorSignature : batch.operatorSignature = []

theorem bare_eq_iff {batch : RollupBatch} : bare batch = batch ↔ Carried batch := by
  constructor
  · intro same
    rw [← same]
    exact ⟨rfl, rfl, rfl⟩
  · rintro ⟨batchId, timestamp, operatorSignature⟩
    rcases batch with ⟨_, stateRootBefore, stateRootAfter, transactions, _, _⟩
    dsimp only at batchId timestamp operatorSignature
    subst batchId timestamp operatorSignature
    rfl

theorem readBatch_parses : Reader.Parses readBatch compressBatch
    fun batch => Carried batch ∧ batch.transactions.length < 2 ^ 32 := by
  intro input batch rest
  constructor
  · intro accepted
    obtain ⟨stateRootBefore, _, first, accepted⟩ := Reader.bind_ok.mp accepted
    obtain ⟨stateRootAfter, _, second, accepted⟩ := Reader.bind_ok.mp accepted
    obtain ⟨transactions, _, third, done⟩ := Reader.bind_ok.mp accepted
    cases done
    obtain rfl := Reader.takeFixed_ok.mp first
    obtain rfl := Reader.takeFixed_ok.mp second
    obtain ⟨rfl, fits⟩ := (readHashes_parses _ _ _).mp third
    refine ⟨?_, ⟨rfl, rfl, rfl⟩, fits⟩
    simp only [compressBatch, List.append_assoc]
  · rintro ⟨rfl, carried, fits⟩
    rw [compressBatch, List.append_assoc, List.append_assoc]
    refine Reader.bind_ok.mpr ⟨_, _, Reader.takeFixed_ok.mpr rfl, ?_⟩
    refine Reader.bind_ok.mpr ⟨_, _, Reader.takeFixed_ok.mpr rfl, ?_⟩
    refine Reader.bind_ok.mpr ⟨_, _, (readHashes_parses _ _ _).mpr ⟨rfl, fits⟩, ?_⟩
    exact congrArg (fun read => Except.ok (read, rest)) (bare_eq_iff.mpr carried)

/-- The count that stands after the two roots. -/
def countWord (data : Bytes) : Nat := ofLittleEndian ((data.drop 64).take 4)

theorem length_compressBatch (batch : RollupBatch) :
    (compressBatch batch).length = 68 + 32 * batch.transactions.length := by
  have hashes : (batch.transactions.flatMap FixedBytes.bytes).length =
      32 * batch.transactions.length := by
    induction batch.transactions with
    | nil => rfl
    | cons hash rest ih =>
        rw [List.flatMap_cons, List.length_append, ih, hash.length_eq, List.length_cons]
        omega
  simp only [compressBatch, writeHashes, List.length_append, FixedBytes.length_eq,
    littleEndian_length, hashes]
  omega

theorem countWord_compressBatch {batch : RollupBatch} (fits : batch.transactions.length < 2 ^ 32)
    (rest : Bytes) : countWord (compressBatch batch ++ rest) = batch.transactions.length := by
  have roots : (batch.stateRootBefore.bytes ++ batch.stateRootAfter.bytes).length = 64 := by
    rw [List.length_append, batch.stateRootBefore.length_eq, batch.stateRootAfter.length_eq]
  have back : (compressBatch batch ++ rest).drop 64 =
      littleEndian 4 (UInt32.ofNat batch.transactions.length).toNat ++
        (batch.transactions.flatMap FixedBytes.bytes ++ rest) := by
    rw [compressBatch, writeHashes, List.append_assoc, List.drop_left' roots, List.append_assoc]
  have word : (UInt32.ofNat batch.transactions.length).toNat = batch.transactions.length := by
    rw [UInt32.toNat_ofNat', Nat.mod_eq_of_lt fits]
  rw [countWord, back, List.take_left' (littleEndian_length 4 _), ofLittleEndian_littleEndian, word]
  exact Nat.mod_eq_of_lt fits

/-- Bytes with all the hashes that they announce are a compressed batch and what follows it. -/
theorem exists_batch {data : Bytes} (enough : 68 + 32 * countWord data ≤ data.length) :
    ∃ batch rest, batch.transactions.length < 2 ^ 32 ∧ data = compressBatch batch ++ rest := by
  obtain ⟨roots, afterRoots, two, rfl⟩ := FixedBytes.exists_arrays 32 2
    (show 32 * 2 ≤ data.length by omega)
  obtain ⟨stateRootBefore, stateRootAfter, rfl⟩ := List.length_eq_two.mp two
  have front : [stateRootBefore, stateRootAfter].flatMap FixedBytes.bytes =
      stateRootBefore.bytes ++ stateRootAfter.bytes := by
    rw [List.flatMap_cons, List.flatMap_singleton]
  rw [front] at enough ⊢
  have width : (stateRootBefore.bytes ++ stateRootAfter.bytes).length = 64 := by
    rw [List.length_append, stateRootBefore.length_eq, stateRootAfter.length_eq]
  have count : countWord (stateRootBefore.bytes ++ stateRootAfter.bytes ++ afterRoots) =
      ofLittleEndian (afterRoots.take 4) := by
    rw [countWord, List.drop_left' width]
  rw [count, List.length_append, width] at enough
  have word : (afterRoots.take 4).length = 4 := List.length_take_of_le (by omega)
  obtain ⟨transactions, rest, announced, same⟩ := FixedBytes.exists_arrays 32
    (ofLittleEndian (afterRoots.take 4)) (show _ ≤ (afterRoots.drop 4).length by
      rw [List.length_drop]
      omega)
  have fits : transactions.length < 2 ^ 32 := by
    have below := ofLittleEndian_lt (afterRoots.take 4)
    rw [word] at below
    rw [announced]
    exact below
  refine ⟨⟨0, stateRootBefore, stateRootAfter, transactions, 0, []⟩, rest, fits, ?_⟩
  have counted : littleEndian 4 (UInt32.ofNat transactions.length).toNat = afterRoots.take 4 := by
    have own := littleEndian_ofLittleEndian (afterRoots.take 4)
    rw [word] at own
    rw [UInt32.toNat_ofNat', Nat.mod_eq_of_lt fits, announced, own]
  rw [compressBatch, writeHashes, counted, List.append_assoc _ _ rest, List.append_assoc _ _ rest,
    ← same, List.take_append_drop]

theorem decompressBatch_iff {data : Bytes} {result : RollupBatch} :
    decompressBatch data = some result ↔
      ∃ rest, data = compressBatch result ++ rest ∧ Carried result ∧
        result.transactions.length < 2 ^ 32 := by
  have parsed : decompressBatch data = some result ↔
      ¬ data.length < 68 ∧ ∃ rest, readBatch data = .ok (result, rest) := by
    unfold decompressBatch
    split
    · rename_i short
      exact ⟨nofun, fun both => absurd short both.1⟩
    · rename_i long
      cases outcome : readBatch data with
      | error fault => simp
      | ok step =>
          obtain ⟨batch, rest⟩ := step
          simp [long]
  rw [parsed]
  constructor
  · rintro ⟨-, rest, accepted⟩
    exact ⟨rest, (readBatch_parses _ _ _).mp accepted⟩
  · rintro ⟨rest, written, valid⟩
    refine ⟨?_, rest, (readBatch_parses _ _ _).mpr ⟨written, valid⟩⟩
    rw [written, List.length_append, length_compressBatch]
    omega

theorem decompressBatch_compressBatch {batch : RollupBatch}
    (fits : batch.transactions.length < 2 ^ 32) :
    decompressBatch (compressBatch batch) = some (bare batch) :=
  decompressBatch_iff.mpr
    ⟨[], (List.append_nil _).symm, ⟨rfl, rfl, rfl⟩, fits⟩

/-- A batch comes back and accepted bytes are the compression of their batch exactly when the
fields that are not written are as in a new batch, and nothing follows the hashes. -/
theorem compression_lossless_iff {batch : RollupBatch} (fits : batch.transactions.length < 2 ^ 32)
    (data : Bytes) :
    (decompressBatch (compressBatch batch) = some batch ∧
        ∀ result, decompressBatch data = some result → data = compressBatch result) ↔
      Carried batch ∧ data.length ≤ 68 + 32 * countWord data := by
  rw [decompressBatch_compressBatch fits, Option.some_inj, bare_eq_iff]
  refine and_congr_right fun _ => ?_
  constructor
  · intro canonical
    by_contra long
    obtain ⟨result, rest, small, written⟩ :=
      exists_batch (show 68 + 32 * countWord data ≤ data.length by omega)
    have accepted : decompressBatch data = some (bare result) :=
      decompressBatch_iff.mpr ⟨rest, written, ⟨rfl, rfl, rfl⟩, small⟩
    have length := congrArg List.length (canonical _ accepted)
    rw [length_compressBatch] at length
    rw [written, countWord_compressBatch small] at long
    rw [written] at length
    exact long (Nat.le_of_eq length)
  · intro short result accepted
    obtain ⟨rest, written, -, small⟩ := decompressBatch_iff.mp accepted
    rw [written, countWord_compressBatch small, List.length_append, length_compressBatch] at short
    have nothing : rest = [] := List.length_eq_zero_iff.mp (by omega)
    rw [written, nothing, List.append_nil]

/-- A batch of two transactions, as it is before it is submitted. -/
def sampleBatch : RollupBatch where
  batchId := 0
  stateRootBefore := .ofNat 32 1
  stateRootAfter := .ofNat 32 2
  transactions := [.ofNat 32 3, .ofNat 32 4]
  timestamp := 0
  operatorSignature := []

theorem compression_lossless_sample :
    decompressBatch (compressBatch sampleBatch) = some sampleBatch ∧
      ∀ result, decompressBatch (compressBatch sampleBatch) = some result →
        compressBatch sampleBatch = compressBatch result :=
  (compression_lossless_iff (by decide) _).mpr
    ⟨⟨rfl, rfl, rfl⟩, by decide +kernel⟩

/-- The identifier is lost, and a byte too many is not seen. -/
theorem compression_loses :
    (¬ ∀ batch : RollupBatch, batch.transactions.length < 2 ^ 32 →
      decompressBatch (compressBatch batch) = some batch) ∧
    ¬ ∀ (data : Bytes) (result : RollupBatch), decompressBatch data = some result →
      data = compressBatch result := by
  constructor
  · intro lossless
    have small : sampleBatch.transactions.length < 2 ^ 32 := by decide
    have same := lossless { sampleBatch with batchId := 1 } small
    have stripped : decompressBatch (compressBatch { sampleBatch with batchId := 1 }) =
        some (bare { sampleBatch with batchId := 1 }) := decompressBatch_compressBatch small
    have identifier : (0 : UInt64) = 1 :=
      congrArg RollupBatch.batchId (Option.some.inj (stripped.symm.trans same))
    exact absurd identifier (by decide)
  · intro canonical
    have accepted : decompressBatch (compressBatch sampleBatch ++ [0]) = some sampleBatch :=
      decompressBatch_iff.mpr ⟨[0], rfl, ⟨rfl, rfl, rfl⟩, by decide⟩
    have length := congrArg List.length (canonical _ _ accepted)
    rw [List.length_append, List.length_singleton] at length
    omega

end OptimisticRollup

/-! ## Zero-knowledge batches -/

namespace ZKRollup

def compressBatch (batch : ZKRollupBatch) : Bytes :=
  littleEndian 8 batch.batchId.toNat ++ littleEndian 8 batch.timestamp.toNat ++
    batch.stateRootBefore.bytes ++ batch.stateRootAfter.bytes ++
    writeHashes batch.transactionHashes ++ writeSized batch.validityProof.proofData ++
    writeSized batch.validityProof.publicInputs ++
    littleEndian 4 batch.validityProof.proofType.toNat ++ writeSized batch.operatorSignature

def readBatch : Read ZKRollupBatch := do
  let batchId ← readUInt64
  let timestamp ← readUInt64
  let stateRootBefore ← Reader.takeFixed .nullopt 32
  let stateRootAfter ← Reader.takeFixed .nullopt 32
  let transactionHashes ← readHashes
  let proofData ← readSized
  let publicInputs ← readSized
  let proofType ← readUInt32
  let operatorSignature ← readSized
  pure
    { batchId, stateRootBefore, stateRootAfter, transactionHashes
      validityProof := { proofData, publicInputs, proofType }
      timestamp, operatorSignature }

def decompressBatch (data : Bytes) : Option ZKRollupBatch :=
  (Reader.whole .nullopt readBatch data).toOption

/-- The sizes of the lists and byte strings fit their length words. -/
structure Fits (batch : ZKRollupBatch) : Prop where
  transactionHashes : batch.transactionHashes.length < 2 ^ 32
  proofData : batch.validityProof.proofData.length < 2 ^ 32
  publicInputs : batch.validityProof.publicInputs.length < 2 ^ 32
  operatorSignature : batch.operatorSignature.length < 2 ^ 32

theorem readBatch_parses : Reader.Parses readBatch compressBatch Fits := by
  intro input batch rest
  constructor
  · intro accepted
    obtain ⟨batchId, _, first, accepted⟩ := Reader.bind_ok.mp accepted
    obtain ⟨timestamp, _, second, accepted⟩ := Reader.bind_ok.mp accepted
    obtain ⟨stateRootBefore, _, third, accepted⟩ := Reader.bind_ok.mp accepted
    obtain ⟨stateRootAfter, _, fourth, accepted⟩ := Reader.bind_ok.mp accepted
    obtain ⟨transactionHashes, _, fifth, accepted⟩ := Reader.bind_ok.mp accepted
    obtain ⟨proofData, _, sixth, accepted⟩ := Reader.bind_ok.mp accepted
    obtain ⟨publicInputs, _, seventh, accepted⟩ := Reader.bind_ok.mp accepted
    obtain ⟨proofType, _, eighth, accepted⟩ := Reader.bind_ok.mp accepted
    obtain ⟨operatorSignature, _, ninth, done⟩ := Reader.bind_ok.mp accepted
    cases done
    obtain rfl := readUInt64_ok.mp first
    obtain rfl := readUInt64_ok.mp second
    obtain rfl := Reader.takeFixed_ok.mp third
    obtain rfl := Reader.takeFixed_ok.mp fourth
    obtain ⟨rfl, hashesFit⟩ := (readHashes_parses _ _ _).mp fifth
    obtain ⟨rfl, proofFits⟩ := (readSized_parses _ _ _).mp sixth
    obtain ⟨rfl, inputsFit⟩ := (readSized_parses _ _ _).mp seventh
    obtain rfl := readUInt32_ok.mp eighth
    obtain ⟨rfl, signatureFits⟩ := (readSized_parses _ _ _).mp ninth
    refine ⟨?_, hashesFit, proofFits, inputsFit, signatureFits⟩
    simp only [compressBatch, List.append_assoc]
  · rintro ⟨rfl, fits⟩
    simp only [compressBatch, List.append_assoc]
    refine Reader.bind_ok.mpr ⟨_, _, readUInt64_ok.mpr rfl, ?_⟩
    refine Reader.bind_ok.mpr ⟨_, _, readUInt64_ok.mpr rfl, ?_⟩
    refine Reader.bind_ok.mpr ⟨_, _, Reader.takeFixed_ok.mpr rfl, ?_⟩
    refine Reader.bind_ok.mpr ⟨_, _, Reader.takeFixed_ok.mpr rfl, ?_⟩
    refine Reader.bind_ok.mpr
      ⟨_, _, (readHashes_parses _ _ _).mpr ⟨rfl, fits.transactionHashes⟩, ?_⟩
    refine Reader.bind_ok.mpr ⟨_, _, (readSized_parses _ _ _).mpr ⟨rfl, fits.proofData⟩, ?_⟩
    refine Reader.bind_ok.mpr ⟨_, _, (readSized_parses _ _ _).mpr ⟨rfl, fits.publicInputs⟩, ?_⟩
    refine Reader.bind_ok.mpr ⟨_, _, readUInt32_ok.mpr rfl, ?_⟩
    exact Reader.bind_ok.mpr
      ⟨_, _, (readSized_parses _ _ _).mpr ⟨rfl, fits.operatorSignature⟩, rfl⟩

theorem decompressBatch_iff {data : Bytes} {batch : ZKRollupBatch} :
    decompressBatch data = some batch ↔ data = compressBatch batch ∧ Fits batch := by
  rw [← readBatch_parses.whole Fault.nullopt data batch]
  unfold decompressBatch
  cases Reader.whole Fault.nullopt readBatch data with
  | error fault => exact ⟨nofun, nofun⟩
  | ok other => simp [Except.toOption]

/-- Bytes that begin like a compressed batch, and are longer, are refused. -/
theorem decompressBatch_longer {batch : ZKRollupBatch} (fits : Fits batch) {extra : Bytes}
    (someExtra : extra ≠ []) : decompressBatch (compressBatch batch ++ extra) = none := by
  rw [Option.eq_none_iff_forall_ne_some]
  intro other accepted
  obtain ⟨written, otherFits⟩ := decompressBatch_iff.mp accepted
  exact someExtra (readBatch_parses.prefix_free fits otherFits written).2

theorem decompressBatch_early {batch : ZKRollupBatch} (fits : Fits batch) {data : Bytes}
    (early : EndsEarly data (compressBatch batch)) : decompressBatch data = none := by
  rw [Option.eq_none_iff_forall_ne_some]
  intro other accepted
  obtain ⟨rfl, otherFits⟩ := decompressBatch_iff.mp accepted
  obtain ⟨missing, someMissing, same⟩ := early
  exact someMissing (readBatch_parses.prefix_free otherFits fits same).2

def sampleBatch : ZKRollupBatch where
  batchId := 1
  stateRootBefore := .ofNat 32 1
  stateRootAfter := .ofNat 32 2
  transactionHashes := [.ofNat 32 3]
  validityProof := ⟨[1, 2, 3], [], 1⟩
  timestamp := 9
  operatorSignature := [4]

end ZKRollup

end Parthenon.Rollup
