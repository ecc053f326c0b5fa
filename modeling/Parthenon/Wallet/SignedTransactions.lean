import Parthenon.Library.Runs
import Parthenon.Validation.Validators
import Parthenon.Wallet.Wallet

namespace Parthenon

open Library Crypto Primitives Chainstate Validation

/-! # Signed transactions

The wallet signs an input while its script is still empty; the validator hashes
the input with the signature in it.  The two messages have one digest only where
SHA-256 does not tell them apart.
-/

inductive WalletCall
  | generateAddress (label : String)
  | addUTXO (outpoint : OutPoint) (output : TxOutput) (height : UInt32)
  | markSpent (outpoint : OutPoint)
  | syncWithChain (utxoSet : UTXOSet)
  | processBlock (block : Block) (height : UInt32)
  | createTransaction (outputs : List TxOutput) (asset : AssetID) (feeAmount : UInt64)

namespace Wallet

variable {secp : Secp256k1}

def apply (secp : Secp256k1) (wallet : Wallet) : WalletCall → Wallet
  | .generateAddress label => (wallet.generateAddress secp label).2
  | .addUTXO outpoint output height => wallet.addUTXO outpoint output height
  | .markSpent outpoint => wallet.markSpent outpoint
  | .syncWithChain utxoSet => wallet.syncWithChain utxoSet
  | .processBlock block height => wallet.processBlock block height
  | .createTransaction outputs asset feeAmount =>
      (wallet.createTransaction secp outputs asset feeAmount).2

def Step (secp : Secp256k1) (wallet : Wallet) (call : WalletCall) (after : Wallet) : Prop :=
  after = wallet.apply secp call

/-- Every address and every cached key is derived from the seed. -/
structure Keyed (secp : Secp256k1) (wallet : Wallet) : Prop where
  addresses : ∀ address ∈ wallet.addresses, ∃ pubkey,
    Schnorr.getPublicKey secp (deriveKey wallet.seed address.index) = some pubkey ∧
      address.pubkey.bytes = pubkey.bytes
  keys : ∀ (index : UInt64) privkey, wallet.keys[index]? = some privkey →
    privkey = deriveKey wallet.seed index

theorem create_keyed (seed : FixedBytes 32) : Keyed secp (create seed) where
  addresses := by
    intro address member
    cases member
  keys := by
    intro index privkey found
    have empty : (create seed).keys[index]? = none := Std.ExtTreeMap.getElem?_empty
    rw [empty] at found
    cases found

/-- The tracked outputs do not matter. -/
theorem Keyed.withUtxos {wallet : Wallet} (keyed : Keyed secp wallet) (utxos : List WalletUTXO) :
    Keyed secp { wallet with utxos } := ⟨keyed.addresses, keyed.keys⟩

theorem Keyed.insertKey {wallet : Wallet} (keyed : Keyed secp wallet) (index next : UInt64) :
    Keyed secp { wallet with
      keys := wallet.keys.insert index (deriveKey wallet.seed index), nextIndex := next } where
  addresses := keyed.addresses
  keys := forall_insert keyed.keys rfl

theorem generateAddress_keyed {wallet : Wallet} (keyed : Keyed secp wallet) (label : String) :
    Keyed secp (wallet.generateAddress secp label).2 := by
  have inserted := keyed.insertKey wallet.nextIndex (wallet.nextIndex + 1)
  unfold generateAddress
  cases key : Schnorr.getPublicKey secp (deriveKey wallet.seed wallet.nextIndex) with
  | none =>
      simp only [key]
      exact inserted
  | some pubkey =>
      simp only [key]
      refine ⟨?_, inserted.keys⟩
      intro address member
      cases List.mem_append.mp member with
      | inl earlier => exact keyed.addresses address earlier
      | inr added =>
          obtain rfl := List.mem_singleton.mp added
          exact ⟨pubkey, key, rfl⟩

theorem keyAt_spec {wallet : Wallet} (keyed : Keyed secp wallet) (index : UInt64) :
    (wallet.keyAt index).1 = deriveKey wallet.seed index ∧ Keyed secp (wallet.keyAt index).2 := by
  unfold keyAt
  cases found : wallet.keys[index]? with
  | some privkey => exact ⟨keyed.keys index privkey found, keyed⟩
  | none => exact ⟨rfl, keyed.insertKey index wallet.nextIndex⟩

/-- The script is a signature for the output's key of the message of the input. -/
def SignedInput (secp : Secp256k1) (tx : Transaction) (index : Nat) (output : TxOutput)
    (script : ByteVector) : Prop :=
  ∃ privkey pubkey signature, Schnorr.getPublicKey secp privkey = some pubkey ∧
    output.pubkeyScript.bytes = pubkey.bytes ∧
    Schnorr.sign secp privkey (tx.getSignatureHash index) none = some signature ∧
    script.bytes = signature.bytes

theorem signInput_keyed {wallet : Wallet} (keyed : Keyed secp wallet) (index : Nat)
    (utxo : WalletUTXO) (tx : Transaction) : Keyed secp (signInput secp index utxo tx wallet).2 := by
  unfold signInput
  split
  · exact keyed
  · cases wallet.addresses.find? (·.pubkey = utxo.output.pubkeyScript) with
    | none => exact keyed
    | some address =>
        have cached := (keyAt_spec keyed address.index).2
        dsimp only
        cases Schnorr.sign secp (wallet.keyAt address.index).1 (tx.getSignatureHash index) none with
        | none => exact cached
        | some signature => exact cached

theorem signInput_signed {wallet after : Wallet} (keyed : Keyed secp wallet) {index : Nat}
    {utxo : WalletUTXO} {tx signed : Transaction}
    (done : signInput secp index utxo tx wallet = (some signed, after)) :
    ∃ script, signed = tx.setScript index script ∧ SignedInput secp tx index utxo.output script := by
  unfold signInput at done
  split at done
  · cases done
  · cases found : wallet.addresses.find? (·.pubkey = utxo.output.pubkeyScript) with
    | none =>
        rw [found] at done
        cases done
    | some address =>
        have owner := List.find?_some found
        obtain ⟨pubkey, key, bytes⟩ := keyed.addresses address (List.mem_of_find?_eq_some found)
        have privkey := (keyAt_spec keyed address.index).1
        simp only [found, privkey] at done
        cases produced : Schnorr.sign secp (deriveKey wallet.seed address.index)
            (tx.getSignatureHash index) none with
        | none =>
            rw [produced] at done
            cases done
        | some signature =>
            rw [produced] at done
            cases done
            have sameKey : address.pubkey = utxo.output.pubkeyScript := of_decide_eq_true owner
            exact ⟨_, rfl, _, pubkey, signature, key, sameKey ▸ bytes, produced, rfl⟩

theorem signFrom_keyed {utxos : List WalletUTXO} {wallet : Wallet} (keyed : Keyed secp wallet)
    (index : Nat) (tx : Transaction) : Keyed secp (signFrom secp index utxos tx wallet).2 := by
  induction utxos generalizing index tx wallet with
  | nil => exact keyed
  | cons utxo rest ih =>
      have next := signInput_keyed keyed index utxo tx
      rw [signFrom]
      cases done : signInput secp index utxo tx wallet with
      | mk signed after =>
          rw [done] at next
          cases signed with
          | none => exact next
          | some signed => exact ih next (index + 1) signed

/-- The loop leaves the scripts before its index alone and signs every later
input as if no script were there. -/
theorem signFrom_signed {utxos : List WalletUTXO} {wallet after : Wallet} {tx final : Transaction}
    {index : Nat} (keyed : Keyed secp wallet)
    (bare : ∀ other, index ≤ other → tx.scriptAt other = tx.unsigned.scriptAt other)
    (done : signFrom secp index utxos tx wallet = (some final, after)) :
    final.unsigned = tx.unsigned ∧ (∀ other < index, final.scriptAt other = tx.scriptAt other) ∧
      ∀ offset utxo script, utxos[offset]? = some utxo → final.scriptAt (index + offset) = some script →
        SignedInput secp tx.unsigned (index + offset) utxo.output script := by
  induction utxos generalizing index tx wallet with
  | nil =>
      cases done
      refine ⟨rfl, fun _ _ => rfl, ?_⟩
      intro offset utxo script listed
      cases listed
  | cons first rest ih =>
      have next := signInput_keyed keyed index first tx
      rw [signFrom] at done
      cases signed : signInput secp index first tx wallet with
      | mk result cached =>
          rw [signed] at done next
          cases result with
          | none => cases done
          | some advanced =>
              obtain ⟨script, rfl, signedInput⟩ := signInput_signed keyed signed
              have sameUnsigned := Transaction.unsigned_setScript tx index script
              have bareLater : ∀ other, index + 1 ≤ other → (tx.setScript index script).scriptAt other =
                  (tx.setScript index script).unsigned.scriptAt other := by
                intro other later
                rw [sameUnsigned, Transaction.scriptAt_setScript, if_neg (by omega),
                  bare other (by omega)]
              obtain ⟨finalUnsigned, kept, others⟩ := ih next bareLater done
              have message : tx.getSignatureHash index = tx.unsigned.getSignatureHash index := by
                have same := (Transaction.serializeForSigning_eq_iff
                  (Transaction.unsigned_unsigned tx).symm index).mpr (bare index (Nat.le_refl index))
                rw [Transaction.getSignatureHash, same]
                rfl
              refine ⟨finalUnsigned.trans sameUnsigned, ?_, ?_⟩
              · intro other before
                rw [kept other (by omega), Transaction.scriptAt_setScript, if_neg (by omega)]
              · intro offset utxo finalScript listed scripted
                cases offset with
                | zero =>
                    cases listed
                    rw [Nat.add_zero, kept index (by omega), Transaction.scriptAt_setScript,
                      if_pos rfl] at scripted
                    obtain ⟨_, _, rfl⟩ := Option.map_eq_some_iff.mp scripted
                    rw [SignedInput, message] at signedInput
                    exact signedInput
                | succ offset =>
                    have position : index + (offset + 1) = index + 1 + offset := by omega
                    rw [position] at scripted ⊢
                    have signedLater := others offset utxo finalScript listed scripted
                    rwa [sameUnsigned] at signedLater

theorem changeOutput_keyed {wallet : Wallet} (keyed : Keyed secp wallet) (asset : AssetID)
    (totalIn totalOut : UInt64) : Keyed secp (changeOutput secp wallet asset totalIn totalOut).2 := by
  have generated := generateAddress_keyed keyed "change"
  unfold changeOutput
  split
  · cases made : wallet.generateAddress secp "change" with
    | mk result after =>
        rw [made] at generated
        cases result with
        | error reason => exact generated
        | ok address => exact generated
  · exact keyed

theorem createTransaction_keyed {wallet : Wallet} (keyed : Keyed secp wallet)
    (outputs : List TxOutput) (asset : AssetID) (feeAmount : UInt64) :
    Keyed secp (wallet.createTransaction secp outputs asset feeAmount).2 := by
  unfold createTransaction
  dsimp only
  split
  · exact keyed
  · have changed := changeOutput_keyed keyed asset
      ((wallet.selectCoins asset (totalOut outputs asset feeAmount)).foldl
        (fun total utxo => total + utxo.output.value.amount) 0) (totalOut outputs asset feeAmount)
    split
    · rename_i made
      rw [made] at changed
      exact changed
    · rename_i made
      rw [made] at changed
      exact signFrom_keyed changed _ _

theorem processTransaction_keyed {wallet : Wallet} (keyed : Keyed secp wallet) (height : UInt32)
    (tx : Transaction) : Keyed secp (processTransaction height wallet tx) := by
  have spent : Keyed secp (tx.prevouts.foldl markSpent wallet) :=
    List.foldlRecOn (motive := Keyed secp) _ markSpent keyed
      fun _ reached _ _ => reached.withUtxos _
  apply List.foldlRecOn (motive := Keyed secp) _ _ spent
  intro reached reachedKeyed created _
  split
  · exact reachedKeyed.withUtxos _
  · exact reachedKeyed

theorem processBlock_keyed {wallet : Wallet} (keyed : Keyed secp wallet) (block : Block)
    (height : UInt32) : Keyed secp (wallet.processBlock block height) :=
  List.foldlRecOn (motive := Keyed secp) _ _ keyed
    fun _ reached tx _ => processTransaction_keyed reached height tx

theorem step_keyed {wallet after : Wallet} {call : WalletCall} (keyed : Keyed secp wallet)
    (next : Step secp wallet call after) : Keyed secp after := by
  rw [Step] at next
  subst after
  cases call with
  | generateAddress label => exact generateAddress_keyed keyed label
  | addUTXO outpoint output height => exact keyed.withUtxos _
  | markSpent outpoint => exact keyed.withUtxos _
  | syncWithChain utxoSet => exact keyed.withUtxos _
  | processBlock block height => exact processBlock_keyed keyed block height
  | createTransaction outputs asset feeAmount =>
      exact createTransaction_keyed keyed outputs asset feeAmount

theorem run_keyed {seed : FixedBytes 32} {calls : List WalletCall} {wallet : Wallet}
    (run : Run (Step secp) (create seed) calls wallet) : Keyed secp wallet :=
  run.invariant (create_keyed seed) fun _ _ _ keyed next => step_keyed keyed next

/-- A transaction that is returned takes the selected coins, pays what was asked for and the
change, and has been signed. -/
theorem createTransaction_cases {wallet after : Wallet} {outputs : List TxOutput} {asset : AssetID}
    {feeAmount : UInt64} {tx : Transaction}
    (created : wallet.createTransaction secp outputs asset feeAmount = (.ok (some tx), after)) :
    wallet.selectCoins asset (totalOut outputs asset feeAmount) ≠ [] ∧
      ∃ change funded,
        changeOutput secp wallet asset
          ((wallet.selectCoins asset (totalOut outputs asset feeAmount)).foldl
            (fun total utxo => total + utxo.output.value.amount) 0)
          (totalOut outputs asset feeAmount) = (.ok change, funded) ∧
        signFrom secp 0 (wallet.selectCoins asset (totalOut outputs asset feeAmount))
          { version := 1
            inputs := (wallet.selectCoins asset (totalOut outputs asset feeAmount)).map bareInput
            outputs := outputs ++ change
            locktime := 0 } funded = (some tx, after) := by
  unfold createTransaction at created
  dsimp only at created
  split at created
  · cases created
  · rename_i nonempty
    refine ⟨fun empty => nonempty (by rw [empty]; rfl), ?_⟩
    split at created
    · cases created
    · rename_i change funded made
      refine ⟨change, funded, made, ?_⟩
      cases result : signFrom secp 0 (wallet.selectCoins asset (totalOut outputs asset feeAmount))
          { version := 1
            inputs := (wallet.selectCoins asset (totalOut outputs asset feeAmount)).map bareInput
            outputs := outputs ++ change
            locktime := 0 } funded with
      | mk signed last =>
          rw [result] at created
          cases created
          rfl

/-- What the wallet returns: the selected outputs as inputs, each signed on the
transaction without scripts. -/
theorem createTransaction_signed {wallet after : Wallet} (keyed : Keyed secp wallet)
    {outputs : List TxOutput} {asset : AssetID} {feeAmount : UInt64} {tx : Transaction}
    (created : wallet.createTransaction secp outputs asset feeAmount = (.ok (some tx), after)) :
    tx.unsigned.inputs =
        (wallet.selectCoins asset (totalOut outputs asset feeAmount)).map bareInput ∧
      ∀ index utxo script,
        (wallet.selectCoins asset (totalOut outputs asset feeAmount))[index]? = some utxo →
        tx.scriptAt index = some script → SignedInput secp tx.unsigned index utxo.output script := by
  obtain ⟨-, change, funded, made, result⟩ := createTransaction_cases created
  have changed := changeOutput_keyed keyed asset
    ((wallet.selectCoins asset (totalOut outputs asset feeAmount)).foldl
      (fun total utxo => total + utxo.output.value.amount) 0) (totalOut outputs asset feeAmount)
  rw [made] at changed
  have bare : ∀ inputs : List WalletUTXO,
      (inputs.map bareInput).map (TxInput.withScript .empty) = inputs.map bareInput := by
    intro inputs
    rw [List.map_map]
    rfl
  obtain ⟨sameUnsigned, _, each⟩ := signFrom_signed changed
    (fun other _ => by rw [Transaction.unsigned, bare]) result
  rw [sameUnsigned]
  refine ⟨bare _, ?_⟩
  intro index utxo script listed scripted
  have signedInput := each index utxo script listed (by rwa [Nat.zero_add])
  rwa [Nat.zero_add] at signedInput

/-- The coins a wallet spends are in the set with the outputs it tracks. -/
def HoldsInputs (utxoSet : UTXOSet) (utxos : List WalletUTXO) : Prop :=
  ∀ utxo ∈ utxos, ∃ coin, utxoSet.getCoin utxo.outpoint = some coin ∧ coin.output = utxo.output

theorem validateInputSignature_ok (documented : secp.Documented) {tx : Transaction}
    {utxoSet : UTXOSet} {input : TxInput} {index : Nat} {coin : Coin}
    (found : utxoSet.getCoin input.prevout = some coin)
    (signed : SignedInput secp tx.unsigned index coin.output input.signatureScript) :
    TransactionValidator.validateInputSignature secp tx utxoSet (input, index) = .ok () ↔
      tx.getSignatureHash index = tx.unsigned.getSignatureHash index := by
  obtain ⟨privkey, pubkey, signature, key, keyBytes, produced, scriptBytes⟩ := signed
  have keyRead : FixedBytes.ofBytes? Schnorr.publicKeySize coin.output.pubkeyScript.bytes =
      some pubkey := by
    rw [keyBytes]
    exact FixedBytes.ofBytes?_bytes pubkey
  have signatureRead : FixedBytes.ofBytes? Schnorr.signatureSize input.signatureScript.bytes =
      some signature := by
    rw [scriptBytes]
    exact FixedBytes.ofBytes?_bytes signature
  simp only [TransactionValidator.validateInputSignature, found, keyRead, signatureRead]
  rw [then_ok, ensure_ok, ensure_ok, Schnorr.verify_of_sign documented key produced]
  exact and_iff_right (Schnorr.validatePublicKey_of_getPublicKey documented key)

/-- A transaction of the wallet passes the signature check exactly when putting
the signatures in leaves the digest of every input as it was. -/
theorem created_validates_iff (documented : secp.Documented) {wallet after : Wallet}
    (keyed : Keyed secp wallet) {outputs : List TxOutput} {asset : AssetID} {feeAmount : UInt64}
    {tx : Transaction}
    (created : wallet.createTransaction secp outputs asset feeAmount = (.ok (some tx), after))
    {utxoSet : UTXOSet}
    (holds : HoldsInputs utxoSet (wallet.selectCoins asset (totalOut outputs asset feeAmount))) :
    TransactionValidator.validateSignatures secp tx utxoSet = .ok () ↔
      tx.isCoinbase = true ∨ ∀ index < tx.inputs.length,
        tx.getSignatureHash index = tx.unsigned.getSignatureHash index := by
  obtain ⟨inputs, signed⟩ := createTransaction_signed keyed created
  have each : ∀ index input, tx.inputs[index]? = some input →
      (TransactionValidator.validateInputSignature secp tx utxoSet (input, index) = .ok () ↔
        tx.getSignatureHash index = tx.unsigned.getSignatureHash index) := by
    intro index input listed
    have selected := congrArg (·[index]?) inputs
    simp only [Transaction.unsigned, List.getElem?_map, listed, Option.map_some] at selected
    obtain ⟨utxo, chosen, sameInput⟩ := Option.map_eq_some_iff.mp selected.symm
    obtain ⟨coin, found, sameOutput⟩ := holds utxo (List.mem_of_getElem? chosen)
    have sameOutpoint : utxo.outpoint = input.prevout := congrArg TxInput.prevout sameInput
    have script : tx.scriptAt index = some input.signatureScript := by
      rw [Transaction.scriptAt, listed]
      rfl
    have signedInput := signed index utxo _ chosen script
    rw [← sameOutput] at signedInput
    exact validateInputSignature_ok documented (sameOutpoint ▸ found) signedInput
  unfold TransactionValidator.validateSignatures
  cases tx.isCoinbase with
  | true => simp
  | false =>
      simp only [Bool.false_eq_true, if_false, false_or, checkEach_ok]
      constructor
      · intro verified index inside
        have listed := List.getElem?_eq_getElem inside
        exact (each index _ listed).mp
          (verified (tx.inputs[index], index) (List.mem_zipIdx_iff_getElem?.mpr listed))
      · intro unchanged indexed member
        obtain ⟨input, index⟩ := indexed
        have listed := List.mem_zipIdx_iff_getElem?.mp member
        obtain ⟨inside, _⟩ := List.getElem?_eq_some_iff.mp listed
        exact (each index input listed).mpr (unchanged index inside)

/-- Putting the signatures in changes every message. -/
theorem signed_message_ne {tx : Transaction} {index : Nat} {output : TxOutput} {script : ByteVector}
    (scripted : tx.scriptAt index = some script)
    (signed : SignedInput secp tx.unsigned index output script) :
    tx.serializeForSigning index ≠ tx.unsigned.serializeForSigning index := by
  intro same
  have scripts := (Transaction.serializeForSigning_eq_iff
    (Transaction.unsigned_unsigned tx).symm index).mp same
  rw [Transaction.scriptAt_unsigned, scripted] at scripts
  obtain ⟨_, _, signature, _, _, _, bytes⟩ := signed
  have empty : script = .empty := Option.some.inj scripts
  rw [empty] at bytes
  have lengths := congrArg List.length bytes
  rw [signature.length_eq] at lengths
  cases lengths

/-- The message of an input depends on the script of that input, and so a
transaction that the wallet signed passes the signature check only where the
digest does not tell the message with the signature from the one without. -/
theorem signing_law_iff (secp : Secp256k1) :
    (∀ (left right : Transaction) (index : Nat), left.unsigned = right.unsigned →
      (left.serializeForSigning index = right.serializeForSigning index ↔
        left.scriptAt index = right.scriptAt index)) ∧
    (secp.Documented → ∀ seed calls wallet,
      Run (Step secp) (create seed) calls wallet → ∀ outputs asset feeAmount tx,
      (wallet.createTransaction secp outputs asset feeAmount).1 = .ok (some tx) → ∀ utxoSet,
      HoldsInputs utxoSet (wallet.selectCoins asset (totalOut outputs asset feeAmount)) →
      (∀ index < tx.inputs.length,
        tx.serializeForSigning index ≠ tx.unsigned.serializeForSigning index) ∧
      (TransactionValidator.validateSignatures secp tx utxoSet = .ok () ↔
        tx.isCoinbase = true ∨ ∀ index < tx.inputs.length,
          tx.getSignatureHash index = tx.unsigned.getSignatureHash index)) := by
  refine ⟨fun left right index same => Transaction.serializeForSigning_eq_iff same index, ?_⟩
  intro documented seed calls wallet run outputs asset feeAmount tx returned utxoSet holds
  have keyed := run_keyed run
  have created : wallet.createTransaction secp outputs asset feeAmount =
      (.ok (some tx), (wallet.createTransaction secp outputs asset feeAmount).2) := by
    rw [← returned]
  refine ⟨?_, created_validates_iff documented keyed created holds⟩
  obtain ⟨inputs, signed⟩ := createTransaction_signed keyed created
  intro index inside
  have length := congrArg List.length inputs
  rw [Transaction.unsigned, List.length_map, List.length_map] at length
  have scripted : tx.scriptAt index = some tx.inputs[index].signatureScript := by
    rw [Transaction.scriptAt, List.getElem?_eq_getElem inside]
    rfl
  exact signed_message_ne scripted
    (signed index _ _ (List.getElem?_eq_getElem (length ▸ inside)) scripted)

/-! A wallet of one address, with the values that BIP-340 gives for its key. -/
namespace OneAddress

def key : PrivateKey :=
  .ofNat 32 0xeb512b581bb1f61df125ff09d57e06d3a3cc37647f2abf5a8c833bf21dce342c

def pubkey : PublicKey :=
  .ofNat 32 0x84624ca0e004e66043b92dac6644cdd5f0cdf380b745288ce42579e323f2e215

/-- The digest the wallet signs. -/
def digest : Hash :=
  .ofNat 32 0x96b1439fb9dfa1b656fc64808b751a4a850ab138ae0e7f70f021884ef957d3f9

def signature : Signature :=
  .ofNat 64 0xca755b711e38ba50b0c5663904b7b291fa7940ac18092fc8417b9a00e5f51bd5b207686b2ef212a4de5fd4733ff1160d236e5c1738c634a9d07bf4e661a76f11

def groupOrder : Nat := 0xFFFFFFFFFFFFFFFFFFFFFFFFFFFFFFFEBAAEDCE6AF48A03BBFD25E8CD0364141

def pubkeyOf (privkey : PrivateKey) : PublicKey := if privkey = key then pubkey else privkey

/-- The signature of the wallet's key for the digest; elsewhere the message with the key. -/
def signWith (privkey : PrivateKey) (message : Hash) : Signature :=
  if privkey = key ∧ message = digest then signature
  else ⟨message.bytes ++ (pubkeyOf privkey).bytes, by
    rw [List.length_append, message.length_eq, (pubkeyOf privkey).length_eq]⟩

def accepts (given : Signature) (message : Hash) (signer : PublicKey) : Bool :=
  (signer = pubkey && message = digest && given = signature) ||
    given.bytes = message.bytes ++ signer.bytes

def library : Secp256k1 where
  Keypair := PrivateKey
  XonlyPubkey := PublicKey
  ecSeckeyVerify privkey :=
    0 < ofLittleEndian privkey.bytes.reverse && ofLittleEndian privkey.bytes.reverse < groupOrder
  keypairCreate privkey := some privkey
  keypairXonlyPub privkey := some (pubkeyOf privkey)
  xonlyPubkeySerialize pubkey := some pubkey
  xonlyPubkeyParse pubkey := some pubkey
  schnorrsigSign32 message privkey _ := some (signWith privkey message)
  schnorrsigVerify := accepts

theorem accepts_iff {given : Signature} {message : Hash} {signer : PublicKey} :
    accepts given message signer = true ↔
      (signer = pubkey ∧ message = digest ∧ given = signature) ∨
        given.bytes = message.bytes ++ signer.bytes := by
  simp [accepts, and_assoc]

theorem signature_not_pair (message : Hash) : signature.bytes ≠ message.bytes ++ pubkey.bytes := by
  intro same
  have second := congrArg (List.drop 32) same
  rw [List.drop_left' message.length_eq] at second
  revert second
  decide

theorem accepts_signWith (privkey : PrivateKey) (message : Hash) :
    accepts (signWith privkey message) message (pubkeyOf privkey) = true := by
  rw [accepts_iff, signWith]
  by_cases known : privkey = key ∧ message = digest
  · obtain ⟨rfl, rfl⟩ := known
    exact .inl ⟨if_pos rfl, rfl, if_pos ⟨rfl, rfl⟩⟩
  · rw [if_neg known]
    exact .inr rfl

theorem accepts_unique {privkey : PrivateKey} {message other : Hash}
    (accepted : accepts (signWith privkey message) other (pubkeyOf privkey) = true) :
    other = message := by
  rw [accepts_iff, signWith] at accepted
  by_cases known : privkey = key ∧ message = digest
  · rw [if_pos known] at accepted
    obtain ⟨rfl, rfl⟩ := known
    cases accepted with
    | inl same => exact same.2.1
    | inr paired => exact absurd paired (signature_not_pair other)
  · rw [if_neg known] at accepted
    cases accepted with
    | inl same =>
        obtain ⟨isPubkey, _, isSignature⟩ := same
        have bytes := congrArg FixedBytes.bytes isSignature
        dsimp only at bytes
        rw [isPubkey] at bytes
        exact absurd bytes.symm (signature_not_pair message)
    | inr paired => exact (FixedBytes.ext (List.append_cancel_right paired)).symm

theorem library_documented : library.Documented where
  parse_serialize _ _ serialized := serialized.symm
  verify_sign := by
    intro privkey xonlyPubkey message auxRand given converted produced
    cases converted
    cases produced
    exact accepts_signWith privkey message
  message_unique := by
    intro privkey xonlyPubkey message other auxRand given converted produced verified
    cases converted
    cases produced
    exact accepts_unique verified

def funding : TxOutput := Sample.output 1000 (.ofArray pubkey ByteVector.hash_small)

def calls : List WalletCall :=
  [] ++ [.generateAddress ""] ++ [.addUTXO ⟨zeroHash, 0⟩ funding 1]

def wallet : Wallet :=
  ((create (.zero 32)).apply library (.generateAddress "")).apply library
    (.addUTXO ⟨zeroHash, 0⟩ funding 1)

def outputs : List TxOutput := [Sample.output 1000 ⟨[1], ByteVector.one_fits⟩]

def signed : Transaction :=
  Sample.spend ⟨zeroHash, 0⟩ (.ofArray signature ByteVector.signature_small) outputs

def utxoSet : UTXOSet :=
  UTXOSet.addCoin ∅ ⟨zeroHash, 0⟩ { output := funding, height := 1, isCoinbase := false }

theorem wallet_run : Run (Step library) (create (.zero 32)) calls wallet :=
  .step (.step .start rfl) rfl

theorem wallet_signs : (wallet.createTransaction library outputs .talanton 0).1 =
    .ok (some signed) := by decide +kernel

theorem selected : wallet.selectCoins .talanton (totalOut outputs .talanton 0) =
    [{ outpoint := ⟨zeroHash, 0⟩, output := funding, height := 1, isSpent := false }] := by
  decide +kernel

theorem holdsInputs :
    HoldsInputs utxoSet (wallet.selectCoins .talanton (totalOut outputs .talanton 0)) := by
  intro utxo member
  rw [selected] at member
  obtain rfl := List.mem_singleton.mp member
  exact ⟨{ output := funding, height := 1, isCoinbase := false }, by decide +kernel, rfl⟩

theorem rejected : TransactionValidator.validateSignatures library signed utxoSet =
    .error ⟨.txInvalidSignature, "Schnorr signature verification failed for input"⟩ := by
  decide +kernel

end OneAddress

/-- The message changes with the script, and a transaction the wallet has signed
is rejected. -/
theorem signed_transaction_rejected :
    (∃ (left right : Transaction) (index : Nat), left.unsigned = right.unsigned ∧
      left.serializeForSigning index ≠ right.serializeForSigning index) ∧
    OneAddress.library.Documented ∧
    Run (Step OneAddress.library) (create (.zero 32)) OneAddress.calls OneAddress.wallet ∧
    (OneAddress.wallet.createTransaction OneAddress.library OneAddress.outputs .talanton 0).1 =
      .ok (some OneAddress.signed) ∧
    HoldsInputs OneAddress.utxoSet
      (OneAddress.wallet.selectCoins .talanton (totalOut OneAddress.outputs .talanton 0)) ∧
    TransactionValidator.validateSignatures OneAddress.library OneAddress.signed
      OneAddress.utxoSet ≠ .ok () := by
  refine ⟨⟨OneAddress.signed, OneAddress.signed.unsigned, 0, by decide, by decide +kernel⟩,
    OneAddress.library_documented, OneAddress.wallet_run, OneAddress.wallet_signs,
    OneAddress.holdsInputs, ?_⟩
  rw [OneAddress.rejected]
  exact nofun

/-- The law for the transaction of that wallet. -/
theorem signing_law_oneAddress :
    (OneAddress.signed.serializeForSigning 0 = OneAddress.signed.unsigned.serializeForSigning 0 ↔
      OneAddress.signed.scriptAt 0 = OneAddress.signed.unsigned.scriptAt 0) ∧
    (TransactionValidator.validateSignatures OneAddress.library OneAddress.signed
        OneAddress.utxoSet = .ok () ↔
      OneAddress.signed.isCoinbase = true ∨ ∀ index < OneAddress.signed.inputs.length,
        OneAddress.signed.getSignatureHash index =
          OneAddress.signed.unsigned.getSignatureHash index) :=
  ⟨(signing_law_iff OneAddress.library).1 _ _ 0 (Transaction.unsigned_unsigned _).symm,
    ((signing_law_iff OneAddress.library).2 OneAddress.library_documented _ _ _ OneAddress.wallet_run
      OneAddress.outputs .talanton 0 _ OneAddress.wallet_signs _ OneAddress.holdsInputs).2⟩

end Wallet

end Parthenon
