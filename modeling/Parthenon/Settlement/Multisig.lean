import Mathlib.Data.List.Nodup
import Mathlib.Data.List.Sort
import Parthenon.Crypto.Schnorr

namespace Parthenon.Settlement

open Library Crypto Std

/-! # Multisig

A policy asks for `m` signatures of its keys.  Keys are compressed points of 33 bytes,
and signatures are verified under the last 32 of them.
-/

abbrev PubKey := FixedBytes 33

def maxKeys : Nat := 15

structure MultisigPolicy where
  m : UInt8
  pubkeys : List PubKey
deriving DecidableEq, Repr

/-- Signatures with the indexes of their keys.  An index has one signature. -/
@[ext] structure AggregatedSignature where
  signatures : List (UInt8 × Signature)
  distinct : (signatures.map Prod.fst).Nodup

/-- Some neighbours are the same. -/
def repeatsNeighbour : List PubKey → Bool
  | first :: second :: rest => first == second || repeatsNeighbour (second :: rest)
  | _ => false

namespace MultisigPolicy

def new : MultisigPolicy where
  m := 0
  pubkeys := []

variable (policy : MultisigPolicy)

def getN : UInt8 := .ofNat policy.pubkeys.length

def sortedKeys : List PubKey :=
  policy.pubkeys.mergeSort fun first second => (compare first second).isLE

def isValid : Bool :=
  if policy.m = 0 ∨ policy.m.toNat > policy.pubkeys.length then false
  else if policy.pubkeys.length > maxKeys then false
  else !repeatsNeighbour policy.sortedKeys

def addPubKey (pubkey : PubKey) : Bool × MultisigPolicy :=
  if policy.pubkeys.length ≥ maxKeys then (false, policy)
  else if pubkey ∈ policy.pubkeys then (false, policy)
  else (true, { policy with pubkeys := policy.pubkeys ++ [pubkey] })

def serialize : Bytes :=
  policy.m :: .ofNat policy.pubkeys.length :: policy.pubkeys.flatMap FixedBytes.bytes

def readKeys (data : Bytes) : Nat → Nat → List PubKey
  | 0, _ => []
  | count + 1, pos => FixedBytes.copy 33 (data.drop pos) :: readKeys data count (pos + 33)

/-- What is read and the position after it.  The check of the number of keys comes
after the two counts are passed. -/
def deserialize (data : Bytes) (pos : Nat) : MultisigPolicy × Nat :=
  if pos + 2 > data.length then (new, pos)
  else
    let m := data.getD pos 0
    let n := (data.getD (pos + 1) 0).toNat
    if n > maxKeys ∨ pos + 2 + n * 33 > data.length then (new, pos + 2)
    else ({ m, pubkeys := readKeys data n (pos + 2) }, pos + 2 + n * 33)

end MultisigPolicy

namespace AggregatedSignature

def new : AggregatedSignature where
  signatures := []
  distinct := List.nodup_nil

variable (agg : AggregatedSignature)

def hasSignature (keyIndex : UInt8) : Bool := keyIndex ∈ agg.signatures.map Prod.fst

/-- A second signature for an index is dropped. -/
def addSignature (keyIndex : UInt8) (sig : Signature) : AggregatedSignature :=
  if listed : keyIndex ∈ agg.signatures.map Prod.fst then agg
  else
    { signatures := agg.signatures ++ [(keyIndex, sig)]
      distinct := by
        rw [List.map_append, List.map_singleton, ← List.concat_eq_append]
        exact agg.distinct.concat listed }

def serialize : Bytes :=
  .ofNat agg.signatures.length :: agg.signatures.flatMap fun pair => pair.1 :: pair.2.bytes

def readSignatures (data : Bytes) : Nat → Nat → AggregatedSignature → AggregatedSignature
  | 0, _, agg => agg
  | count + 1, pos, agg =>
      readSignatures data count (pos + 65)
        (agg.addSignature (data.getD pos 0) (FixedBytes.copy 64 (data.drop (pos + 1))))

def deserialize (data : Bytes) (pos : Nat) : AggregatedSignature × Nat :=
  if pos + 1 > data.length then (new, pos)
  else
    let count := (data.getD pos 0).toNat
    if count > maxKeys ∨ pos + 1 + count * 65 > data.length then (new, pos + 1)
    else (readSignatures data count (pos + 1) new, pos + 1 + count * 65)

end AggregatedSignature

/-! ## Verification -/

/-- The last 32 bytes.  The first one is not looked at. -/
def xonly (pubkey : PubKey) : PublicKey :=
  ⟨pubkey.bytes.drop 1, by rw [List.length_drop, pubkey.length_eq]⟩

namespace MultisigValidator

variable (secp : Secp256k1)

def validateKeyIndex (keyIndex n : UInt8) : Bool := keyIndex < n

def verifySchnorrSignature (pubkey : PubKey) (sig : Signature) (message : Bytes) : Bool :=
  Schnorr.verify secp (xonly pubkey) (SHA256.hash256 message) sig

/-- The number of valid signatures on 8 bits, unless an index is out of range. -/
def countValid (policy : MultisigPolicy) (message : Bytes) :
    List (UInt8 × Signature) → UInt8 → Option UInt8
  | [], validSignatures => some validSignatures
  | (keyIndex, sig) :: rest, validSignatures =>
      if !validateKeyIndex keyIndex policy.getN then none
      else
        match policy.pubkeys[keyIndex.toNat]? with
        | none => none
        | some pubkey =>
            countValid policy message rest
              (if verifySchnorrSignature secp pubkey sig message then validSignatures + 1
              else validSignatures)

def verifySignatures (policy : MultisigPolicy) (agg : AggregatedSignature) (message : Bytes) : Bool :=
  if !policy.isValid then false
  else if agg.signatures.length < policy.m.toNat then false
  else
    match countValid secp policy message agg.signatures 0 with
    | none => false
    | some validSignatures => validSignatures ≥ policy.m

end MultisigValidator

/-! ## Valid policies -/

theorem repeatsNeighbour_iff {keys : List PubKey}
    (sorted : keys.Pairwise fun first second => (compare first second).isLE = true) :
    repeatsNeighbour keys = false ↔ keys.Nodup := by
  induction keys with
  | nil => simp [repeatsNeighbour]
  | cons first rest ih =>
      obtain ⟨least, sortedRest⟩ := List.pairwise_cons.mp sorted
      cases rest with
      | nil => simp [repeatsNeighbour]
      | cons second others =>
          -- what comes again later in a sorted list is between the two and equal to both
          have neighbour : first ≠ second ↔ first ∉ second :: others := by
            refine ⟨fun differs member => ?_, fun absent same => absent (same ▸ List.mem_cons_self)⟩
            rcases List.mem_cons.mp member with same | later
            · exact differs same
            · have below := (List.pairwise_cons.mp sortedRest).1 first later
              have above := least second List.mem_cons_self
              exact differs (LawfulEqOrd.eq_of_compare (OrientedCmp.isLE_antisymm above below))
          rw [repeatsNeighbour, Bool.or_eq_false_iff, ih sortedRest, beq_eq_false_iff_ne, neighbour]
          exact List.nodup_cons.symm

theorem compare_total (first second : PubKey) :
    ((compare first second).isLE || (compare second first).isLE) = true := by
  rw [Bool.or_eq_true]
  by_cases below : (compare first second).isLE = true
  · exact .inl below
  · right
    rw [OrientedCmp.lt_of_not_isLE below]
    rfl

/-- A valid policy has between `m` and 15 different keys. -/
theorem MultisigPolicy.isValid_iff {policy : MultisigPolicy} :
    policy.isValid = true ↔ policy.m ≠ 0 ∧ policy.m.toNat ≤ policy.pubkeys.length ∧
      policy.pubkeys.length ≤ maxKeys ∧ policy.pubkeys.Nodup := by
  have sorted : policy.sortedKeys.Pairwise fun first second => (compare first second).isLE = true :=
    List.pairwise_mergeSort (fun _ _ _ => TransCmp.isLE_trans) compare_total _
  have perm : policy.sortedKeys.Perm policy.pubkeys := List.mergeSort_perm _ _
  unfold isValid
  split
  · rename_i refused
    simp only [Bool.false_eq_true, false_iff]
    rintro ⟨some_, enough, _⟩
    exact refused.elim some_ (Nat.not_lt.mpr enough)
  · rename_i counts
    obtain ⟨some_, enough⟩ := not_or.mp counts
    split
    · rename_i many
      simp only [Bool.false_eq_true, false_iff]
      exact fun valid => Nat.not_lt.mpr valid.2.2.1 many
    · rename_i few
      rw [Bool.not_eq_true', repeatsNeighbour_iff sorted, perm.nodup_iff]
      exact ⟨fun distinct => ⟨some_, Nat.not_lt.mp enough, Nat.not_lt.mp few, distinct⟩,
        fun valid => valid.2.2.2⟩

/-! ## Reading back what is written -/

section ReadBack

variable {data back : Bytes} {pos : Nat}

theorem MultisigPolicy.readKeys_keys (pubkeys : List PubKey)
    (there : data.drop pos = pubkeys.flatMap FixedBytes.bytes ++ back) :
    readKeys data pubkeys.length pos = pubkeys := by
  induction pubkeys generalizing pos with
  | nil => rfl
  | cons pubkey rest ih =>
      rw [List.flatMap_cons, List.append_assoc] at there
      have later := drop_past _ there
      rw [pubkey.length_eq] at later
      rw [List.length_cons, readKeys, there, FixedBytes.copy_append, ih later]

theorem MultisigPolicy.deserialize_serialize (policy : MultisigPolicy)
    (few : policy.pubkeys.length ≤ maxKeys) (there : data.drop pos = policy.serialize ++ back) :
    deserialize data pos = (policy, pos + policy.serialize.length) := by
  have bounded : policy.pubkeys.length < 256 := Nat.lt_of_le_of_lt few (by decide)
  have size : policy.serialize.length = 2 + policy.pubkeys.length * 33 := by
    rw [serialize, List.length_cons, List.length_cons, List.length_flatMap,
      List.map_congr_left fun pubkey _ => pubkey.length_eq, List.map_const', List.sum_replicate_nat]
    omega
  have long := congrArg List.length there
  rw [List.length_drop, List.length_append, size] at long
  rw [serialize, List.cons_append, List.cons_append] at there
  have afterM : data.drop (pos + 1) = _ := drop_past [policy.m] there
  have keys := readKeys_keys policy.pubkeys (drop_past [_] afterM)
  unfold deserialize
  rw [if_neg (by omega), getD_drop there, getD_drop afterM, UInt8.toNat_ofNat_of_lt' bounded,
    if_neg (not_or.mpr ⟨Nat.not_lt.mpr few, by omega⟩), size, ← Nat.add_assoc, Prod.mk.injEq]
  exact ⟨congrArg (MultisigPolicy.mk policy.m) keys, rfl⟩

namespace AggregatedSignature

theorem addSignature_signatures {agg : AggregatedSignature} {keyIndex : UInt8}
    (absent : keyIndex ∉ agg.signatures.map Prod.fst) (sig : Signature) :
    (agg.addSignature keyIndex sig).signatures = agg.signatures ++ [(keyIndex, sig)] := by
  rw [addSignature, dif_neg absent]

theorem readSignatures_signatures (agg : AggregatedSignature)
    (signatures : List (UInt8 × Signature))
    (distinct : ((agg.signatures ++ signatures).map Prod.fst).Nodup)
    (there : data.drop pos = (signatures.flatMap fun pair => pair.1 :: pair.2.bytes) ++ back) :
    (readSignatures data signatures.length pos agg).signatures = agg.signatures ++ signatures := by
  induction signatures generalizing pos agg with
  | nil => exact (List.append_nil _).symm
  | cons pair rest ih =>
      obtain ⟨keyIndex, sig⟩ := pair
      have absent : keyIndex ∉ agg.signatures.map Prod.fst := by
        rw [List.map_append, List.map_cons] at distinct
        exact fun member =>
          (List.nodup_append.mp distinct).2.2 keyIndex member keyIndex List.mem_cons_self rfl
      have added := addSignature_signatures absent sig
      rw [List.flatMap_cons, List.append_assoc, List.cons_append] at there
      have body : data.drop (pos + 1) = sig.bytes ++ (_ ++ back) := drop_past [_] there
      have later := drop_past _ body
      rw [sig.length_eq, Nat.add_assoc] at later
      rw [List.length_cons, readSignatures, getD_drop there, body, FixedBytes.copy_append,
        ih _ (by rw [added, List.append_assoc]; exact distinct) later, added, List.append_assoc]
      rfl

theorem deserialize_serialize (agg : AggregatedSignature)
    (few : agg.signatures.length ≤ maxKeys) (there : data.drop pos = agg.serialize ++ back) :
    deserialize data pos = (agg, pos + agg.serialize.length) := by
  have bounded : agg.signatures.length < 256 := Nat.lt_of_le_of_lt few (by decide)
  have size : agg.serialize.length = 1 + agg.signatures.length * 65 := by
    have each : ∀ pair ∈ agg.signatures, (pair.1 :: pair.2.bytes).length = 65 := fun pair _ => by
      rw [List.length_cons, pair.2.length_eq]
    rw [serialize, List.length_cons, List.length_flatMap, List.map_congr_left each, List.map_const',
      List.sum_replicate_nat]
    omega
  have long := congrArg List.length there
  rw [List.length_drop, List.length_append, size] at long
  rw [serialize, List.cons_append] at there
  have body : data.drop (pos + 1) = _ := drop_past [_] there
  have read := readSignatures_signatures new agg.signatures agg.distinct body
  unfold deserialize
  rw [if_neg (by omega), getD_drop there, UInt8.toNat_ofNat_of_lt' bounded,
    if_neg (not_or.mpr ⟨Nat.not_lt.mpr few, by omega⟩), size, ← Nat.add_assoc, Prod.mk.injEq]
  exact ⟨AggregatedSignature.ext read, rfl⟩

end AggregatedSignature

end ReadBack

end Parthenon.Settlement
