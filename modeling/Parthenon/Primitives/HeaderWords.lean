import Parthenon.Crypto.Sha256Laws
import Parthenon.Primitives.Block
import Parthenon.Primitives.WireLaws

namespace Parthenon.Primitives

open Parthenon.Library Parthenon.Crypto Parthenon.Consensus

/-! # The hash of a header on words

The hash of the block before stands in a header at a word boundary.  Where it is
the digest of a state, the hash of the header can be computed from the words of
that state.
-/

namespace BlockHeader

/-- The fields behind the hash of the block before. -/
def laterFields (header : BlockHeader) : Bytes :=
  header.merkleRoot.bytes ++ littleEndian 4 header.timestamp.toNat ++
    littleEndian 4 header.bits.toNat ++ littleEndian 4 header.nonce.toNat ++
    littleEndian 8 header.baseFeePerGas.toNat ++ littleEndian 8 header.gasUsed.toNat ++
    littleEndian 8 header.gasLimit.toNat

theorem serialize_eq (header : BlockHeader) : header.serialize =
    littleEndian 4 header.version.toNat ++ header.prevBlockHash.bytes ++ header.laterFields := by
  simp only [serialize, laterFields, List.append_assoc]

/-- The words in front of the hash of the block before. -/
def earlierWords (header : BlockHeader) : List Word :=
  readBE32 (littleEndian 4 header.version.toNat)

/-- The words behind it, with the padding. -/
def laterWords (header : BlockHeader) : List Word :=
  readBE32 (header.laterFields ++ SHA256.padding 104)

end BlockHeader

/-- Both rounds of hashing of a header, on the words around the hash of the block before. -/
def hashedState (earlier later : List Word) (previous : SHA256.State) : SHA256.State :=
  previous.evaluated fun previous =>
    (SHA256.transformWordBlocks .initial (earlier ++ previous.words ++ later) 2).evaluated fun first =>
      SHA256.transformList .initial (first.words ++ [0x80000000, 0, 0, 0, 0, 0, 0, 256])

theorem hash256_digest {s : SHA256.State} (inRange : s.InRange) :
    SHA256.hash256 s.digest.bytes = (SHA256.transformList .initial
      (s.words ++ [0x80000000, 0, 0, 0, 0, 0, 0, 256])).digest ∧
    (SHA256.transformList .initial (s.words ++ [0x80000000, 0, 0, 0, 0, 0, 0, 256])).InRange := by
  have length : s.digest.bytes.length = 32 := s.digest.length_eq
  have padded : (s.digest.bytes ++ SHA256.padding 32).length = 64 := by
    rw [List.length_append, length]
    rfl
  have words : readBE32 (s.digest.bytes ++ SHA256.padding 32) =
      s.words ++ [0x80000000, 0, 0, 0, 0, 0, 0, 256] := by
    rw [SHA256.readBE32_append _ (by rw [length]), SHA256.readBE32_digest inRange]
    rfl
  have transformed := SHA256.transform_eq_transformList .initial (by
    rw [SHA256.readBE32_length, padded])
  rw [words] at transformed
  refine ⟨?_, ?_⟩
  · rw [SHA256.hash256_eq_words, length, padded, words]
    rfl
  · rw [← transformed]
    exact SHA256.State.transform_inRange _ _

namespace BlockHeader

/-- The words of a padded header. -/
theorem readBE32_padded {header : BlockHeader} {previous : SHA256.State}
    (inRange : previous.InRange) (linked : header.prevBlockHash = previous.digest) :
    readBE32 (header.serialize ++ SHA256.padding 104) =
      header.earlierWords ++ previous.words ++ header.laterWords := by
  rw [serialize_eq, linked, List.append_assoc, List.append_assoc,
    SHA256.readBE32_append _ (by simp), SHA256.readBE32_append _ (by simp [previous.digest.length_eq]),
    SHA256.readBE32_digest inRange, List.append_assoc]
  rfl

theorem getHash_eq_hashedState (header : BlockHeader) {previous : SHA256.State}
    (inRange : previous.InRange) (linked : header.prevBlockHash = previous.digest) :
    header.getHash = (hashedState header.earlierWords header.laterWords previous).digest ∧
      (hashedState header.earlierWords header.laterWords previous).InRange := by
  let first := SHA256.transformWordBlocks .initial
    (header.earlierWords ++ previous.words ++ header.laterWords) 2
  have padded : (header.serialize ++ SHA256.padding 104).length = 128 := by
    rw [List.length_append, serialize_length]
    rfl
  have firstRange : first.InRange := by
    have blocks := SHA256.transformBlocks_eq_words .initial
      (show 64 * 2 ≤ (header.serialize ++ SHA256.padding 104).length by rw [padded])
    rw [readBE32_padded inRange linked] at blocks
    change SHA256.State.InRange (SHA256.transformWordBlocks _ _ 2)
    rw [← blocks]
    exact SHA256.State.transform_inRange _ _
  have firstHash : SHA256.hash256 header.serialize = first.digest := by
    rw [SHA256.hash256_eq_words, serialize_length, padded, readBE32_padded inRange linked]
  rw [getHash, SHA256d.hash256d, firstHash, hashedState, SHA256.State.evaluated_eq,
    SHA256.State.evaluated_eq]
  exact hash256_digest firstRange

end BlockHeader

end Parthenon.Primitives
