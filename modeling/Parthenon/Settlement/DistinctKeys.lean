import Parthenon.Library.Quorum
import Parthenon.Settlement.Multisig

namespace Parthenon.Settlement

open Library Crypto

/-! # Distinct keys

What a verified multisig says about the keys behind it.  A policy has different
keys, but two of them may differ in the first byte alone, and then one signature
verifies under both.
-/

namespace MultisigValidator

variable (secp : Secp256k1) (policy : MultisigPolicy) (message : Bytes)

/-- The x-only key of a signature that verifies under the key of its index. -/
def ownKey (pair : UInt8 × Signature) : Option PublicKey :=
  match policy.pubkeys[pair.1.toNat]? with
  | none => none
  | some pubkey =>
      if verifySchnorrSignature secp pubkey pair.2 message then some (xonly pubkey) else none

/-- The keys of the signatures that count, one for each. -/
def ownKeys (signatures : List (UInt8 × Signature)) : List PublicKey :=
  signatures.filterMap (ownKey secp policy message)

/-- The x-only keys of the policy under which some signature verifies, whatever its index. -/
def verifiedKeys (agg : AggregatedSignature) : Finset PublicKey :=
  (policy.pubkeys.map xonly).toFinset.filter fun key =>
    ∃ pair ∈ agg.signatures, Schnorr.verify secp key (SHA256.hash256 message) pair.2 = true

/-- The keys that verify only signatures with the index of another key. -/
def misfiled (agg : AggregatedSignature) : Finset PublicKey :=
  verifiedKeys secp policy message agg \ (ownKeys secp policy message agg.signatures).toFinset

/-! ## What is counted -/

variable {secp policy message} {signatures : List (UInt8 × Signature)}

theorem ownKey_eq_some {pair : UInt8 × Signature} {key : PublicKey} :
    ownKey secp policy message pair = some key ↔ ∃ pubkey,
      policy.pubkeys[pair.1.toNat]? = some pubkey ∧ xonly pubkey = key ∧
        Schnorr.verify secp key (SHA256.hash256 message) pair.2 = true := by
  unfold ownKey
  cases found : policy.pubkeys[pair.1.toNat]? with
  | none => simp
  | some pubkey =>
      simp only [Option.ite_none_right_eq_some, Option.some.injEq, exists_eq_left']
      constructor
      · rintro ⟨verified, rfl⟩
        exact ⟨rfl, verified⟩
      · rintro ⟨rfl, verified⟩
        exact ⟨verified, rfl⟩

/-- An index below the number of keys on 8 bits is one of a key. -/
theorem getElem?_of_lt_getN {keyIndex : UInt8} (below : keyIndex < policy.getN) :
    ∃ pubkey, policy.pubkeys[keyIndex.toNat]? = some pubkey := by
  have small := UInt8.lt_iff_toNat_lt.mp below
  rw [MultisigPolicy.getN, UInt8.toNat_ofNat'] at small
  have within := Nat.lt_of_lt_of_le small (Nat.mod_le _ _)
  exact ⟨policy.pubkeys[keyIndex.toNat], List.getElem?_eq_getElem within⟩

/-- With all indexes in range the loop counts the signatures that verify under their own
keys, and an index out of range stops it. -/
theorem countValid_eq (validSignatures : UInt8) :
    countValid secp policy message signatures validSignatures =
      if ∀ pair ∈ signatures, pair.1 < policy.getN then
        some (validSignatures + .ofNat (ownKeys secp policy message signatures).length)
      else none := by
  induction signatures generalizing validSignatures with
  | nil => simp [countValid, ownKeys]
  | cons pair rest ih =>
      obtain ⟨keyIndex, sig⟩ := pair
      simp only [countValid, validateKeyIndex, List.forall_mem_cons]
      by_cases below : keyIndex < policy.getN
      · obtain ⟨pubkey, found⟩ := getElem?_of_lt_getN below
        simp only [below, found, ih, decide_true, Bool.not_true, Bool.false_eq_true, if_false,
          true_and]
        congr 2
        cases verified : verifySchnorrSignature secp pubkey sig message with
        | false =>
            have uncounted : ownKey secp policy message (keyIndex, sig) = none := by
              simp [ownKey, found, verified]
            rw [ownKeys, ownKeys, List.filterMap_cons_none uncounted]
            rfl
        | true =>
            have counted : ownKey secp policy message (keyIndex, sig) = some (xonly pubkey) := by
              simp [ownKey, found, verified]
            rw [ownKeys, ownKeys, List.filterMap_cons_some counted, List.length_cons,
              UInt8.ofNat_add, if_pos rfl, UInt8.add_assoc, UInt8.add_comm 1]
            rfl
      · simp [below]

variable (secp policy message signatures) in
theorem length_ownKeys_le : (ownKeys secp policy message signatures).length ≤ signatures.length :=
  List.length_filterMap_le _ _

/-- Different indexes below the number of keys are at most 15. -/
theorem length_le_of_inRange {agg : AggregatedSignature} (valid : policy.isValid = true)
    (inRange : ∀ pair ∈ agg.signatures, pair.1 < policy.getN) :
    agg.signatures.length ≤ maxKeys := by
  obtain ⟨-, -, few, -⟩ := MultisigPolicy.isValid_iff.mp valid
  have distinct : ((agg.signatures.map Prod.fst).map UInt8.toNat).Nodup :=
    agg.distinct.map fun _ _ => UInt8.toNat_inj.mp
  have below : (agg.signatures.map Prod.fst).map UInt8.toNat ⊆ List.range policy.pubkeys.length := by
    intro number listed
    obtain ⟨keyIndex, signed, rfl⟩ := List.mem_map.mp listed
    obtain ⟨pair, contained, rfl⟩ := List.mem_map.mp signed
    obtain ⟨pubkey, found⟩ := getElem?_of_lt_getN (inRange pair contained)
    exact List.mem_range.mpr (List.getElem?_eq_some_iff.mp found).1
  have fits := (distinct.subperm below).length_le
  rw [List.length_map, List.length_map, List.length_range] at fits
  exact Nat.le_trans fits few

/-- What is accepted: a valid policy, indexes of its keys alone, and `m` signatures that
verify under their own keys. -/
theorem verifySignatures_iff {agg : AggregatedSignature} :
    verifySignatures secp policy agg message = true ↔ policy.isValid = true ∧
      (∀ pair ∈ agg.signatures, pair.1 < policy.getN) ∧
      policy.m.toNat ≤ (ownKeys secp policy message agg.signatures).length := by
  unfold verifySignatures
  cases valid : policy.isValid with
  | false => simp
  | true =>
      simp only [Bool.not_true, Bool.false_eq_true, if_false, true_and, countValid_eq]
      have counted := length_ownKeys_le secp policy message agg.signatures
      split
      · rename_i few
        simp only [Bool.false_eq_true, false_iff]
        rintro ⟨-, enough⟩
        omega
      · by_cases inRange : ∀ pair ∈ agg.signatures, pair.1 < policy.getN
        · have fits : (ownKeys secp policy message agg.signatures).length < 256 :=
            Nat.lt_of_le_of_lt (Nat.le_trans counted (length_le_of_inRange valid inRange)) (by decide)
          simp only [if_pos inRange, UInt8.zero_add, decide_eq_true_eq, ge_iff_le,
            UInt8.le_iff_toNat_le, UInt8.toNat_ofNat_of_lt' fits]
          exact ⟨fun enough => ⟨inRange, enough⟩, fun both => both.2⟩
        · simp only [if_neg inRange, Bool.false_eq_true, false_iff]
          exact fun both => inRange both.1

/-! ## The keys behind a verified multisig -/

variable (secp policy message) in
theorem ownKeys_subset (agg : AggregatedSignature) :
    (ownKeys secp policy message agg.signatures).toFinset ⊆
      verifiedKeys secp policy message agg := by
  intro key listed
  obtain ⟨pair, signed, own⟩ := List.mem_filterMap.mp (List.mem_toFinset.mp listed)
  obtain ⟨pubkey, found, rfl, verified⟩ := ownKey_eq_some.mp own
  have ofPolicy := List.mem_map_of_mem (f := xonly) (List.mem_of_getElem? found)
  exact Finset.mem_filter.mpr ⟨List.mem_toFinset.mpr ofPolicy, pair, signed, verified⟩

variable (secp policy message) in
/-- A verified multisig has `m` x-only keys of the policy that verify its signatures. -/
def DistinctKeys (agg : AggregatedSignature) : Prop :=
  verifySignatures secp policy agg message = true →
    policy.m.toNat ≤ (verifiedKeys secp policy message agg).card

variable (secp policy message) in
/-- Where enough signatures of a valid policy verify, those that repeat an x-only key are
no more than those above `m` and the keys that only verify a misfiled signature. -/
def FewRepeats (agg : AggregatedSignature) : Prop :=
  policy.isValid = true → (∀ pair ∈ agg.signatures, pair.1 < policy.getN) →
    policy.m.toNat ≤ (ownKeys secp policy message agg.signatures).length →
      repeats (ownKeys secp policy message agg.signatures) + policy.m.toNat ≤
        (ownKeys secp policy message agg.signatures).length +
          (misfiled secp policy message agg).card

variable (secp message) in
/-- Keys that differ in the bytes that are looked at are counted once each. -/
theorem ownKeys_nodup (different : (policy.pubkeys.map xonly).Nodup) (agg : AggregatedSignature) :
    (ownKeys secp policy message agg.signatures).Nodup := by
  have indexes := List.pairwise_map.mp agg.distinct
  refine indexes.filterMap _ fun pair other differs key own _ otherOwn shared => ?_
  subst shared
  obtain ⟨pubkey, found, keyEq, -⟩ := ownKey_eq_some.mp own
  obtain ⟨otherPubkey, otherFound, otherEq, -⟩ := ownKey_eq_some.mp otherOwn
  have here : (policy.pubkeys.map xonly)[pair.1.toNat]? = some key := by
    rw [List.getElem?_map, found, Option.map_some, keyEq]
  have there : (policy.pubkeys.map xonly)[other.1.toNat]? = some key := by
    rw [List.getElem?_map, otherFound, Option.map_some, otherEq]
  have bounded := (List.getElem?_eq_some_iff.mp here).1
  have same := (List.getElem?_inj bounded different).mp (here.trans there.symm)
  exact differs (UInt8.toNat_inj.mp same)

/-- With such keys a verified multisig has `m` of them. -/
theorem fewRepeats_of_nodup (different : (policy.pubkeys.map xonly).Nodup)
    (agg : AggregatedSignature) : FewRepeats secp policy message agg := by
  intro _ _ enough
  have parts := repeats_add_card (ownKeys secp policy message agg.signatures)
  have all := List.toFinset_card_of_nodup (ownKeys_nodup secp message different agg)
  omega

end MultisigValidator

namespace SampleMultisig

/-- The x-only key of a signer. -/
def key : PublicKey :=
  .ofNat 32 0xf936e0bc13f10186b0996f8345c831b529529df8854f344910c35892018a30f9

/-- Its signature of the empty message. -/
def signature : Signature :=
  .ofNat 64 0xe790054f6948091a966f334c11fa7ce7a6fd511eb150cd52b6cdb7dd5b23c4f5b08085684016b6dd9a34b67f18c588ca551b5308b8336b612c8268e404b04ae0

/-- A library that takes the signature for what it signs. -/
def library : Secp256k1 where
  Keypair := Empty
  XonlyPubkey := PublicKey
  ecSeckeyVerify _ := false
  keypairCreate _ := none
  keypairXonlyPub := nofun
  xonlyPubkeySerialize pubkey := some pubkey
  xonlyPubkeyParse pubkey := some pubkey
  schnorrsigSign32 _ := nofun
  schnorrsigVerify given hash pubkey :=
    pubkey = key && given = signature && hash = SHA256.hash256 []

/-- The compressed key with the first byte. -/
def compressed (parity : UInt8) : PubKey := ⟨parity :: key.bytes, congrArg Nat.succ key.length_eq⟩

/-- Two signatures of two keys, and one signer has both keys. -/
def policy : MultisigPolicy := ⟨2, [compressed 2, compressed 3]⟩

/-- The one signature under both indexes. -/
def agg : AggregatedSignature := ⟨[(0, signature), (1, signature)], by decide⟩

theorem signature_verifies : Schnorr.verify library key (SHA256.hash256 []) signature = true := by
  simp [Schnorr.verify, Schnorr.validatePublicKey, library]

theorem ownKeys_eq : MultisigValidator.ownKeys library policy [] agg.signatures = [key, key] := by
  have first : MultisigValidator.ownKey library policy [] (0, signature) = some key :=
    MultisigValidator.ownKey_eq_some.mpr ⟨compressed 2, rfl, rfl, signature_verifies⟩
  have second : MultisigValidator.ownKey library policy [] (1, signature) = some key :=
    MultisigValidator.ownKey_eq_some.mpr ⟨compressed 3, rfl, rfl, signature_verifies⟩
  rw [MultisigValidator.ownKeys, agg, List.filterMap_cons_some first, List.filterMap_cons_some second,
    List.filterMap_nil]

end SampleMultisig

namespace MultisigValidator

open SampleMultisig

end MultisigValidator

end Parthenon.Settlement
