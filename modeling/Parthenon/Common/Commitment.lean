import Parthenon.Library.Effects
import Parthenon.Storage.BlockStorage
import Parthenon.Library.Delimited
import Mathlib.Data.List.TakeWhile

namespace Parthenon.Common

open Library Storage

/-! # Commitments

What one chain commits of its finalized state to the next one, signed by validators
with their stakes.
-/

inductive SourceChain
  | drachma | obolos
deriving DecidableEq, Repr

structure FinalitySignature where
  validatorId : Bytes
  stake : UInt64
  signature : Bytes
deriving DecidableEq, Repr

structure Commitment where
  sourceChain : SourceChain
  epoch : UInt64
  finalizedHeight : UInt64
  finalizedBlockHash : Bytes
  stateRoot : Bytes
  validatorSetHash : Bytes
  upstreamCommitmentHash : Bytes
  signatures : List FinalitySignature
deriving DecidableEq, Repr

/-- Valid, or the reason why not. -/
abbrev CommitmentValidationResult := Except String Unit

def sourceChainName : SourceChain → Bytes
  | .drachma => text "DRACHMA".toList
  | .obolos => text "OBOLOS".toList

def isHexDigit (byte : UInt8) : Bool :=
  (48 ≤ byte && byte ≤ 57) || (97 ≤ byte && byte ≤ 102) || (65 ≤ byte && byte ≤ 70)

def isHexLike (input : Bytes) : Bool := !input.isEmpty && input.all isHexDigit

/-- The text of 32 bytes in hexadecimal. -/
def isHashText (input : Bytes) : Bool := isHexLike input && input.length == 64

def validatePayloadEncoding (commitment : Commitment) : CommitmentValidationResult := do
  ensure (commitment.finalizedHeight != 0) "finalized_height must be non-zero"
  ensure (isHashText commitment.finalizedBlockHash)
    "finalized_block_hash must be a 32-byte hex string"
  ensure (isHashText commitment.stateRoot) "state_root must be a 32-byte hex string"
  ensure (isHashText commitment.validatorSetHash) "validator_set_hash must be a 32-byte hex string"
  ensure (!commitment.signatures.isEmpty) "at least one validator signature is required"
  ensure (!(commitment.sourceChain == .drachma && commitment.upstreamCommitmentHash.isEmpty))
    "DRACHMA commitments must include upstream OBOLOS commitment hash"
  ensure (commitment.upstreamCommitmentHash.isEmpty || isHashText commitment.upstreamCommitmentHash)
    "upstream_commitment_hash must be a 32-byte hex string when present"
  checkEach
    (fun sig => ensure (!(sig.validatorId.isEmpty || sig.signature.isEmpty))
      "validator signatures must contain validator_id and signature")
    commitment.signatures

/-- The checks of a payload. -/
structure Commitment.WellFormed (commitment : Commitment) : Prop where
  height : commitment.finalizedHeight ≠ 0
  blockHash : isHashText commitment.finalizedBlockHash = true
  root : isHashText commitment.stateRoot = true
  setHash : isHashText commitment.validatorSetHash = true
  signed : commitment.signatures ≠ []
  anchored : commitment.sourceChain = .drachma → commitment.upstreamCommitmentHash ≠ []
  upstream : commitment.upstreamCommitmentHash ≠ [] →
    isHashText commitment.upstreamCommitmentHash = true
  named : ∀ sig ∈ commitment.signatures, sig.validatorId ≠ [] ∧ sig.signature ≠ []

theorem validatePayloadEncoding_ok {commitment : Commitment} :
    validatePayloadEncoding commitment = .ok () ↔ commitment.WellFormed := by
  simp only [validatePayloadEncoding, then_ok, ensure_ok, checkEach_ok]
  constructor
  · rintro ⟨height, blockHash, root, setHash, signed, anchored, upstream, named⟩
    refine ⟨by simpa using height, blockHash, root, setHash, by simpa using signed, ?_, ?_, ?_⟩
    · intro isDrachma empty
      simp [isDrachma, empty] at anchored
    · intro some_
      simpa [some_] using upstream
    · intro sig member
      simpa using named sig member
  · intro formed
    refine ⟨by simpa using formed.height, formed.blockHash, formed.root, formed.setHash,
      by simpa using formed.signed, ?_, ?_, ?_⟩
    · simpa [imp_iff_not_or] using formed.anchored
    · by_cases empty : commitment.upstreamCommitmentHash = []
      · simp [empty]
      · simp [formed.upstream empty]
    · intro sig member
      simpa using formed.named sig member

/-! ## Commitment codec

Eight fields between colons; the last one lists the signatures between commas, each
with bars between its parts.  Nothing is escaped.
-/

def encodeSignature (sig : FinalitySignature) : Bytes :=
  sig.validatorId ++ text ['|'] ++ decimal sig.stake.toNat ++ text ['|'] ++ sig.signature

def encodeCommitment (commitment : Commitment) : Bytes :=
  sourceChainName commitment.sourceChain ++ text [':'] ++ decimal commitment.epoch.toNat ++
    text [':'] ++ decimal commitment.finalizedHeight.toNat ++ text [':'] ++
    commitment.finalizedBlockHash ++ text [':'] ++ commitment.stateRoot ++ text [':'] ++
    commitment.validatorSetHash ++ text [':'] ++ commitment.upstreamCommitmentHash ++ text [':'] ++
    (text [',']).intercalate (commitment.signatures.map encodeSignature)

/-- `isspace` in the C locale. -/
def isSpace (byte : UInt8) : Bool := byte == 32 || (9 ≤ byte && byte ≤ 13)

/-- `std::stoull`: blanks and a sign are skipped, what follows the digits is ignored,
and a negated number wraps. -/
def stoull (value : Bytes) : Option UInt64 :=
  let trimmed := value.dropWhile isSpace
  let (negative, unsigned) :=
    match trimmed with
    | 45 :: rest => (true, rest)
    | 43 :: rest => (false, rest)
    | _ => (false, trimmed)
  let digits := unsigned.takeWhile isDigit
  if digits.isEmpty then none
  else if parseDigits digits < 2 ^ 64 then
    some (if negative then 0 - .ofNat (parseDigits digits) else .ofNat (parseDigits digits))
  else none

def readSourceChain (name : Bytes) : Option SourceChain :=
  if name = text "DRACHMA".toList then some .drachma
  else if name = text "OBOLOS".toList then some .obolos
  else none

def readItem (item : Bytes) : Except String FinalitySignature :=
  match cut 124 item with
  | none => .error "invalid validator signature tuple encoding"
  | some (validatorId, rest) =>
      match cut 124 rest with
      | none => .error "invalid validator signature tuple encoding"
      | some (stakeText, signature) =>
          match stoull stakeText with
          | none => .error "validator stake must be an unsigned integer"
          | some stake => .ok { validatorId, stake, signature }

/-- Items are read in order, and empty ones are passed over. -/
def readItems : List Bytes → Except String (List FinalitySignature)
  | [] => .ok []
  | item :: rest =>
      if item.isEmpty then readItems rest
      else do
        let sig ← readItem item
        let later ← readItems rest
        .ok (sig :: later)

def decodeFields (name epochText heightText blockHash stateRoot setHash upstream items : Bytes) :
    Except String Commitment :=
  match readSourceChain name with
  | none => .error "unsupported source_chain in encoded commitment"
  | some sourceChain =>
      match stoull epochText, stoull heightText with
      | some epoch, some finalizedHeight => do
          let signatures ← readItems (items.splitOn 44)
          let commitment : Commitment :=
            { sourceChain
              epoch
              finalizedHeight
              finalizedBlockHash := blockHash
              stateRoot
              validatorSetHash := setHash
              upstreamCommitmentHash := upstream
              signatures }
          validatePayloadEncoding commitment
          .ok commitment
      | _, _ => .error "epoch and finalized_height must be unsigned integers"

/-- The eighth field may end with a colon when nothing follows it. -/
def decodeCommitment (encoded : Bytes) : Except String Commitment :=
  match takeFields 58 8 encoded with
  | some ([name, epochText, heightText, blockHash, stateRoot, setHash, upstream, items], rest) =>
      if rest ≠ [] then .error "encoded commitment has trailing fields"
      else decodeFields name epochText heightText blockHash stateRoot setHash upstream items
  | _ => .error "encoded commitment must contain 8 colon-delimited fields"

/-! ## Numbers -/

theorem takeWhile_decimal (value : Nat) : (decimal value).takeWhile isDigit = decimal value :=
  List.takeWhile_eq_self_iff.mpr (List.all_eq_true.mp (decimal_isDigit value))

theorem isSpace_of_isDigit {byte : UInt8} (digit : isDigit byte = true) : isSpace byte = false := by
  simp only [isDigit, Bool.and_eq_true, decide_eq_true_eq, UInt8.le_iff_toNat_le] at digit
  simp only [isSpace, Bool.or_eq_false_iff, beq_eq_false_iff_ne, ne_eq, Bool.and_eq_false_iff,
    decide_eq_false_iff_not, UInt8.le_iff_toNat_le, ← UInt8.toNat_inj, UInt8.reduceToNat] at digit ⊢
  omega

/-- The text of a number reads back unless it is too large. -/
theorem stoull_decimal (value : Nat) :
    stoull (decimal value) = if value < 2 ^ 64 then some (.ofNat value) else none := by
  have some_ : (decimal value).isEmpty = false := List.isEmpty_eq_false_iff.mpr (decimal_ne_nil value)
  have digits := takeWhile_decimal value
  have parsed := parseDigits_decimal value
  have all := List.all_eq_true.mp (decimal_isDigit value)
  generalize decimal value = numeral at some_ digits parsed all ⊢
  cases numeral with
  | nil => cases some_
  | cons first rest =>
      have digit := all first List.mem_cons_self
      have trimmed : (first :: rest).dropWhile isSpace = first :: rest :=
        List.dropWhile_cons_of_neg (by rw [isSpace_of_isDigit digit]; exact Bool.false_ne_true)
      unfold stoull
      rw [trimmed]
      dsimp only
      split
      · rename_i isMinus
        rw [(List.cons.inj isMinus).1] at digit
        exact absurd digit (by decide)
      · rename_i isPlus
        rw [(List.cons.inj isPlus).1] at digit
        exact absurd digit (by decide)
      · rw [digits, some_, parsed]
        simp

/-! ## Fields -/

/-- The eight fields that a commitment is encoded in. -/
def encodedFields (commitment : Commitment) : List Bytes :=
  [sourceChainName commitment.sourceChain, decimal commitment.epoch.toNat,
    decimal commitment.finalizedHeight.toNat, commitment.finalizedBlockHash, commitment.stateRoot,
    commitment.validatorSetHash, commitment.upstreamCommitmentHash,
    [44].intercalate (commitment.signatures.map encodeSignature)]

theorem encodeCommitment_eq (commitment : Commitment) :
    encodeCommitment commitment = [58].intercalate (encodedFields commitment) := by
  have comma : text [','] = [44] := rfl
  have colon : text [':'] = [58] := rfl
  simp [encodeCommitment, encodedFields, comma, colon]

theorem encodeSignature_eq (sig : FinalitySignature) :
    encodeSignature sig = sig.validatorId ++ 124 :: (decimal sig.stake.toNat ++ 124 :: sig.signature) := by
  have bar : text ['|'] = [124] := rfl
  simp [encodeSignature, bar]

/-- No part of a signature holds a delimiter that ends it. -/
structure FinalitySignature.Clean (sig : FinalitySignature) : Prop where
  idColon : 58 ∉ sig.validatorId
  idComma : 44 ∉ sig.validatorId
  idBar : 124 ∉ sig.validatorId
  signatureColon : 58 ∉ sig.signature
  signatureComma : 44 ∉ sig.signature

def Commitment.Clean (commitment : Commitment) : Prop := ∀ sig ∈ commitment.signatures, sig.Clean

theorem not_mem_encodeSignature {sig : FinalitySignature} {byte : UInt8}
    (inId : byte ∉ sig.validatorId) (inSignature : byte ∉ sig.signature)
    (notDigit : isDigit byte = false) (notBar : byte ≠ 124) : byte ∉ encodeSignature sig := by
  rw [encodeSignature_eq]
  simp only [List.mem_append, List.mem_cons, not_or]
  exact ⟨inId, notBar, not_mem_decimal notDigit _, notBar, inSignature⟩

theorem FinalitySignature.Clean.no_comma {sig : FinalitySignature} (clean : sig.Clean) :
    44 ∉ encodeSignature sig :=
  not_mem_encodeSignature clean.idComma clean.signatureComma (by decide) (by decide)

theorem FinalitySignature.Clean.no_colon {sig : FinalitySignature} (clean : sig.Clean) :
    58 ∉ encodeSignature sig :=
  not_mem_encodeSignature clean.idColon clean.signatureColon (by decide) (by decide)

theorem not_mem_hashText {hash : Bytes} (isHash : isHashText hash = true) : 58 ∉ hash := by
  intro member
  simp only [isHashText, isHexLike, Bool.and_eq_true, List.all_eq_true] at isHash
  exact absurd (isHash.1.2 58 member) (by decide)

theorem not_mem_sourceChainName (sourceChain : SourceChain) : 58 ∉ sourceChainName sourceChain := by
  cases sourceChain <;> decide

theorem encodedFields_no_colon {commitment : Commitment} (formed : commitment.WellFormed)
    (clean : commitment.Clean) : ∀ field ∈ encodedFields commitment, 58 ∉ field := by
  have upstream : 58 ∉ commitment.upstreamCommitmentHash := by
    by_cases empty : commitment.upstreamCommitmentHash = []
    · rw [empty]
      exact List.not_mem_nil
    · exact not_mem_hashText (formed.upstream empty)
  have items : 58 ∉ [44].intercalate (commitment.signatures.map encodeSignature) := by
    refine not_mem_intercalate (fun piece member => ?_) (by decide)
    obtain ⟨sig, inSignatures, rfl⟩ := List.mem_map.mp member
    exact (clean sig inSignatures).no_colon
  simp only [encodedFields, List.forall_mem_cons]
  exact ⟨not_mem_sourceChainName _, not_mem_decimal (by decide) _, not_mem_decimal (by decide) _,
    not_mem_hashText formed.blockHash, not_mem_hashText formed.root, not_mem_hashText formed.setHash,
    upstream, items, nofun⟩

theorem encodedItems_split {commitment : Commitment} (formed : commitment.WellFormed)
    (clean : commitment.Clean) :
    ([44].intercalate (commitment.signatures.map encodeSignature)).splitOn 44 =
      commitment.signatures.map encodeSignature := by
  apply List.splitOn_intercalate
  · intro piece member
    obtain ⟨sig, inSignatures, rfl⟩ := List.mem_map.mp member
    exact (clean sig inSignatures).no_comma
  · simpa using formed.signed

/-! ## Reading back -/

theorem readSourceChain_name (sourceChain : SourceChain) :
    readSourceChain (sourceChainName sourceChain) = some sourceChain := by
  cases sourceChain <;> decide

theorem readSourceChain_some {name : Bytes} {sourceChain : SourceChain}
    (read : readSourceChain name = some sourceChain) : name = sourceChainName sourceChain := by
  unfold readSourceChain at read
  split at read
  · rename_i isDrachma
    cases read
    exact isDrachma
  · split at read
    · rename_i isObolos
      cases read
      exact isObolos
    · cases read

theorem stoull_decimal_toNat (value : UInt64) : stoull (decimal value.toNat) = some value := by
  rw [stoull_decimal, if_pos value.toNat_lt]
  simp

theorem readItem_encodeSignature {sig : FinalitySignature} (clean : sig.Clean) :
    readItem (encodeSignature sig) = .ok sig := by
  rw [encodeSignature_eq, readItem, cut_append clean.idBar]
  dsimp only
  rw [cut_append (not_mem_decimal (by decide) _)]
  dsimp only
  rw [stoull_decimal_toNat]

theorem encodeSignature_ne_nil (sig : FinalitySignature) : encodeSignature sig ≠ [] := by
  rw [encodeSignature_eq]
  simp

theorem readItems_map_encodeSignature {signatures : List FinalitySignature}
    (clean : ∀ sig ∈ signatures, sig.Clean) :
    readItems (signatures.map encodeSignature) = .ok signatures := by
  induction signatures with
  | nil => rfl
  | cons sig rest ih =>
      obtain ⟨here, later⟩ := List.forall_mem_cons.mp clean
      rw [List.map_cons, readItems, List.isEmpty_eq_false_iff.mpr (encodeSignature_ne_nil sig),
        if_neg Bool.false_ne_true, readItem_encodeSignature here, ih later]
      rfl

theorem decodeFields_encoded {commitment : Commitment} (formed : commitment.WellFormed)
    (clean : commitment.Clean) :
    decodeFields (sourceChainName commitment.sourceChain) (decimal commitment.epoch.toNat)
        (decimal commitment.finalizedHeight.toNat) commitment.finalizedBlockHash commitment.stateRoot
        commitment.validatorSetHash commitment.upstreamCommitmentHash
        ([44].intercalate (commitment.signatures.map encodeSignature)) = .ok commitment := by
  rw [decodeFields, readSourceChain_name]
  dsimp only
  rw [stoull_decimal_toNat, stoull_decimal_toNat, encodedItems_split formed clean,
    readItems_map_encodeSignature clean]
  dsimp only [bind, Except.bind]
  rw [validatePayloadEncoding_ok.mpr formed]

theorem decode_encode {commitment : Commitment} (formed : commitment.WellFormed)
    (clean : commitment.Clean) :
    decodeCommitment (encodeCommitment commitment) = .ok commitment := by
  have fields : takeFields 58 8 ([58].intercalate (encodedFields commitment)) =
      some (encodedFields commitment, []) :=
    takeFields_intercalate rfl (encodedFields_no_colon formed clean)
  rw [encodeCommitment_eq, decodeCommitment, fields, encodedFields]
  exact decodeFields_encoded formed clean

/-! ## What is accepted -/

/-- The parts of an item, as they stand in it. -/
structure ItemParts (item : Bytes) (sig : FinalitySignature) (stakeText : Bytes) : Prop where
  idBar : 124 ∉ sig.validatorId
  stakeBar : 124 ∉ stakeText
  joined : item = sig.validatorId ++ 124 :: (stakeText ++ 124 :: sig.signature)
  stake : stoull stakeText = some sig.stake

theorem readItem_ok {item : Bytes} {sig : FinalitySignature} (read : readItem item = .ok sig) :
    ∃ stakeText, ItemParts item sig stakeText := by
  unfold readItem at read
  split at read
  · cases read
  · rename_i validatorId rest found
    obtain ⟨idBar, isItem⟩ := cut_some found
    split at read
    · cases read
    · rename_i stakeText signature foundRest
      obtain ⟨stakeBar, isRest⟩ := cut_some foundRest
      split at read
      · cases read
      · rename_i stake isStake
        cases read
        exact ⟨stakeText, idBar, stakeBar, by rw [isItem, isRest], isStake⟩

/-- What is read of a list of items: each that is not empty, in order. -/
theorem readItems_ok {items : List Bytes} {signatures : List FinalitySignature}
    (read : readItems items = .ok signatures) :
    List.Forall₂ (fun item sig => readItem item = .ok sig) (items.filter fun item => !item.isEmpty)
      signatures := by
  induction items generalizing signatures with
  | nil =>
      cases read
      exact .nil
  | cons item rest ih =>
      rw [readItems] at read
      split at read
      · rename_i empty
        rw [List.filter_cons_of_neg (by simp [empty])]
        exact ih read
      · rename_i nonempty
        obtain ⟨sig, isSig, read⟩ := bind_ok.mp read
        obtain ⟨later, isLater, read⟩ := bind_ok.mp read
        cases read
        rw [List.filter_cons_of_pos (by simpa using nonempty)]
        exact .cons isSig (ih isLater)

theorem exists_item {items : List Bytes} {signatures : List FinalitySignature}
    (read : List.Forall₂ (fun item sig => readItem item = .ok sig) items signatures)
    {sig : FinalitySignature} (member : sig ∈ signatures) : ∃ item ∈ items, readItem item = .ok sig := by
  induction read with
  | nil => cases member
  | cons isSig _ ih =>
      rcases List.mem_cons.mp member with rfl | later
      · exact ⟨_, List.mem_cons_self, isSig⟩
      · obtain ⟨item, inRest, isItem⟩ := ih later
        exact ⟨item, List.mem_cons_of_mem _ inRest, isItem⟩

/-- The fields of an accepted text, with the texts that were read as numbers and items. -/
def acceptedFields (commitment : Commitment) (epochText heightText items : Bytes) : List Bytes :=
  [sourceChainName commitment.sourceChain, epochText, heightText, commitment.finalizedBlockHash,
    commitment.stateRoot, commitment.validatorSetHash, commitment.upstreamCommitmentHash, items]

/-- What an accepted text is made of. -/
structure Accepted (encoded : Bytes) (commitment : Commitment) (epochText heightText items : Bytes) :
    Prop where
  formed : commitment.WellFormed
  fields : ∀ field ∈ acceptedFields commitment epochText heightText items, 58 ∉ field
  joined : encoded = [58].intercalate (acceptedFields commitment epochText heightText items) ∨
    encoded = [58].intercalate (acceptedFields commitment epochText heightText items ++ [[]])
  epoch : stoull epochText = some commitment.epoch
  height : stoull heightText = some commitment.finalizedHeight
  signatures : readItems (items.splitOn 44) = .ok commitment.signatures

theorem decodeCommitment_ok {encoded : Bytes} {commitment : Commitment}
    (decoded : decodeCommitment encoded = .ok commitment) :
    ∃ epochText heightText items, Accepted encoded commitment epochText heightText items := by
  unfold decodeCommitment at decoded
  split at decoded
  · rename_i name epochText heightText blockHash stateRoot setHash upstream items rest taken
    obtain ⟨_, absent, joined⟩ := takeFields_some taken
    split at decoded
    · cases decoded
    · rename_i ends
      rw [not_not] at ends
      subst ends
      unfold decodeFields at decoded
      split at decoded
      · cases decoded
      · rename_i sourceChain isChain
        split at decoded
        · rename_i epoch height isEpoch isHeight
          obtain ⟨signatures, isSignatures, decoded⟩ := bind_ok.mp decoded
          obtain ⟨_, valid, decoded⟩ := bind_ok.mp decoded
          cases decoded
          rw [readSourceChain_some isChain] at absent joined
          exact ⟨epochText, heightText, items, validatePayloadEncoding_ok.mp valid, absent,
            joined.imp And.right id, isEpoch, isHeight, isSignatures⟩
        · cases decoded
  · cases decoded

theorem readItem_clean {item : Bytes} {sig : FinalitySignature} (read : readItem item = .ok sig)
    (noComma : 44 ∉ item) (noColon : 58 ∉ item) : sig.Clean := by
  obtain ⟨stakeText, parts⟩ := readItem_ok read
  have inId : ∀ byte ∈ sig.validatorId, byte ∈ item := by
    intro byte member
    rw [parts.joined]
    exact List.mem_append_left _ member
  have inSignature : ∀ byte ∈ sig.signature, byte ∈ item := by
    intro byte member
    rw [parts.joined]
    exact List.mem_append_right _ (List.mem_cons_of_mem _
      (List.mem_append_right _ (List.mem_cons_of_mem _ member)))
  exact ⟨fun member => noColon (inId 58 member), fun member => noComma (inId 44 member), parts.idBar,
    fun member => noColon (inSignature 58 member), fun member => noComma (inSignature 44 member)⟩

/-- What is decoded holds no delimiter where it would end something. -/
theorem Accepted.clean {encoded epochText heightText items : Bytes} {commitment : Commitment}
    (accepted : Accepted encoded commitment epochText heightText items) : commitment.Clean := by
  have noColon : 58 ∉ items := accepted.fields items (by simp [acceptedFields])
  intro sig member
  obtain ⟨item, isItem, isSig⟩ := exists_item (readItems_ok accepted.signatures) member
  have piece := (List.mem_filter.mp isItem).1
  exact readItem_clean isSig (not_mem_of_mem_splitOn piece)
    fun inside => noColon (mem_of_mem_splitOn piece inside)

theorem round_trips_iff_clean {commitment : Commitment} (formed : commitment.WellFormed) :
    decodeCommitment (encodeCommitment commitment) = .ok commitment ↔ commitment.Clean := by
  refine ⟨fun decoded => ?_, decode_encode formed⟩
  obtain ⟨epochText, heightText, items, accepted⟩ := decodeCommitment_ok decoded
  exact accepted.clean

/-! ## One text for a commitment -/

/-- The text of a number as it is printed. -/
def Numeral (value : Bytes) : Prop := ∃ number, value = decimal number

/-- What stands between the first two bars of an item. -/
def stakeText (item : Bytes) : Option Bytes :=
  (cut 124 item).bind fun parts => (cut 124 parts.2).map Prod.fst

/-- Seven colons, numbers as they are printed and no empty item. -/
structure Canonical (encoded : Bytes) : Prop where
  fields : (encoded.splitOn 58).length = 8
  epoch : Numeral ((encoded.splitOn 58).getD 1 [])
  height : Numeral ((encoded.splitOn 58).getD 2 [])
  items : ∀ item ∈ ((encoded.splitOn 58).getD 7 []).splitOn 44,
    item ≠ [] ∧ ∀ stake ∈ stakeText item, Numeral stake

theorem Numeral.eq_decimal {value : Bytes} {number : UInt64} (numeral : Numeral value)
    (read : stoull value = some number) : value = decimal number.toNat := by
  obtain ⟨exact_, rfl⟩ := numeral
  rw [stoull_decimal] at read
  split at read
  · rename_i small
    cases read
    rw [UInt64.toNat_ofNat', Nat.mod_eq_of_lt small]
  · cases read

theorem stakeText_parts {item text_ : Bytes} {sig : FinalitySignature} (parts : ItemParts item sig text_) :
    stakeText item = some text_ := by
  rw [stakeText, parts.joined, cut_append parts.idBar, Option.bind_some]
  dsimp only
  rw [cut_append parts.stakeBar]
  rfl

/-- Items that are not empty and print their stakes are the encoded signatures. -/
theorem items_eq {items : List Bytes} {signatures : List FinalitySignature}
    (read : List.Forall₂ (fun item sig => readItem item = .ok sig) items signatures)
    (numerals : ∀ item ∈ items, ∀ stake ∈ stakeText item, Numeral stake) :
    items = signatures.map encodeSignature := by
  induction read with
  | nil => rfl
  | cons isSig _ ih =>
      obtain ⟨here, later⟩ := List.forall_mem_cons.mp numerals
      obtain ⟨stake, parts⟩ := readItem_ok isSig
      have printed := (here stake (stakeText_parts parts)).eq_decimal parts.stake
      rw [List.map_cons, ← ih later, encodeSignature_eq, ← printed, ← parts.joined]

theorem canonical_encode {commitment : Commitment} (formed : commitment.WellFormed)
    (clean : commitment.Clean) : Canonical (encodeCommitment commitment) := by
  have split : (encodeCommitment commitment).splitOn 58 = encodedFields commitment := by
    rw [encodeCommitment_eq]
    exact List.splitOn_intercalate 58 (encodedFields_no_colon formed clean) (List.cons_ne_nil _ _)
  refine ⟨by rw [split]; rfl, by rw [split]; exact ⟨_, rfl⟩, by rw [split]; exact ⟨_, rfl⟩, ?_⟩
  rw [split]
  intro item member
  have piece : item ∈ commitment.signatures.map encodeSignature := by
    rw [← encodedItems_split formed clean]
    exact member
  obtain ⟨sig, inSignatures, rfl⟩ := List.mem_map.mp piece
  have parts : ItemParts (encodeSignature sig) sig (decimal sig.stake.toNat) :=
    ⟨(clean sig inSignatures).idBar, not_mem_decimal (by decide) _, encodeSignature_eq sig,
      stoull_decimal_toNat sig.stake⟩
  refine ⟨encodeSignature_ne_nil sig, fun stake isStake => ?_⟩
  rw [stakeText_parts parts] at isStake
  cases isStake
  exact ⟨_, rfl⟩

theorem Accepted.encode_of_canonical {encoded epochText heightText items : Bytes}
    {commitment : Commitment} (accepted : Accepted encoded commitment epochText heightText items)
    (canonical : Canonical encoded) : encodeCommitment commitment = encoded := by
  have lengths := canonical.fields
  rcases accepted.joined with joined | trailing
  · have pieces : encoded.splitOn 58 = acceptedFields commitment epochText heightText items := by
      rw [joined]
      exact List.splitOn_intercalate 58 accepted.fields (List.cons_ne_nil _ _)
    have epoch := canonical.epoch
    have height := canonical.height
    have eachItem := canonical.items
    rw [pieces] at epoch height eachItem
    have isEpoch : epochText = decimal commitment.epoch.toNat := epoch.eq_decimal accepted.epoch
    have isHeight : heightText = decimal commitment.finalizedHeight.toNat :=
      height.eq_decimal accepted.height
    have nonempty : (items.splitOn 44).filter (fun item => !item.isEmpty) = items.splitOn 44 := by
      apply List.filter_eq_self.mpr
      intro item member
      simpa using (eachItem item member).1
    have read := readItems_ok accepted.signatures
    rw [nonempty] at read
    have isItems := items_eq read fun item member => (eachItem item member).2
    rw [encodeCommitment_eq, encodedFields, ← isItems, List.intercalate_splitOn, ← isEpoch,
      ← isHeight, joined, acceptedFields]
  · have pieces : encoded.splitOn 58 =
        acceptedFields commitment epochText heightText items ++ [[]] := by
      rw [trailing]
      refine List.splitOn_intercalate 58 (fun field member => ?_)
        (List.append_ne_nil_of_right_ne_nil _ (List.cons_ne_nil _ _))
      rcases List.mem_append.mp member with early | last
      · exact accepted.fields field early
      · rw [List.mem_singleton.mp last]
        exact List.not_mem_nil
    rw [pieces] at lengths
    cases lengths

/-- A valid commitment is decoded from its text exactly when its parts hold no
delimiter that ends them, and an accepted text is the text of what it decodes to
exactly when it is canonical. -/
theorem encoding_exact_iff (commitment : Commitment) (encoded : Bytes) :
    (validatePayloadEncoding commitment = .ok () →
        (decodeCommitment (encodeCommitment commitment) = .ok commitment ↔ commitment.Clean)) ∧
      ∀ decoded, decodeCommitment encoded = .ok decoded →
        (encodeCommitment decoded = encoded ↔ Canonical encoded) := by
  refine ⟨fun valid => round_trips_iff_clean (validatePayloadEncoding_ok.mp valid), ?_⟩
  intro decoded isDecoded
  obtain ⟨epochText, heightText, items, accepted⟩ := decodeCommitment_ok isDecoded
  refine ⟨fun same => ?_, accepted.encode_of_canonical⟩
  rw [← same]
  exact canonical_encode accepted.formed accepted.clean

/-- A commitment signed by one validator. -/
def signedBy (validatorId : Bytes) : Commitment where
  sourceChain := .obolos
  epoch := 7
  finalizedHeight := 1
  finalizedBlockHash := List.replicate 64 97
  stateRoot := List.replicate 64 97
  validatorSetHash := List.replicate 64 97
  upstreamCommitmentHash := []
  signatures := [{ validatorId, stake := 1, signature := text ['s'] }]

/-- The text of a commitment with a zero before its epoch. -/
def paddedText : Bytes :=
  [58].intercalate
    [text "OBOLOS".toList, text "07".toList, text ['1'], List.replicate 64 97, List.replicate 64 97,
      List.replicate 64 97, [], text "v|1|s".toList]

/-- A colon in a validator's name does not come back, and one commitment has two texts. -/
theorem encoding_not_bijective :
    (validatePayloadEncoding (signedBy (text "a:b".toList)) = .ok () ∧
        decodeCommitment (encodeCommitment (signedBy (text "a:b".toList))) ≠
          .ok (signedBy (text "a:b".toList))) ∧
      decodeCommitment paddedText = .ok (signedBy (text ['v'])) ∧
        encodeCommitment (signedBy (text ['v'])) ≠ paddedText := by
  decide +kernel

end Parthenon.Common
