import Parthenon.Chainstate.Utxo
import Parthenon.Crypto.Schnorr
import Parthenon.Primitives.Block
import Parthenon.Primitives.Signing

namespace Parthenon

open Library Crypto Primitives Chainstate

/-! # The wallet

Keys derived from a seed, the tracked outputs, and the construction of signed
transactions.
-/

@[ext] structure WalletAddress where
  pubkey : ByteVector
  label : String
  index : UInt64
deriving DecidableEq, Repr

@[ext] structure WalletUTXO where
  outpoint : OutPoint
  output : TxOutput
  height : UInt32
  isSpent : Bool
deriving DecidableEq, Repr

abbrev KeyMap := Std.ExtTreeMap UInt64 PrivateKey compare

structure Wallet where
  seed : FixedBytes 32
  addresses : List WalletAddress
  utxos : List WalletUTXO
  keys : KeyMap
  nextIndex : UInt64

namespace Wallet

def create (seed : FixedBytes 32) : Wallet :=
  { seed, addresses := [], utxos := [], keys := ∅, nextIndex := 0 }

def deriveKey (seed : FixedBytes 32) (index : UInt64) : PrivateKey :=
  ((SHA256.reset.write seed.bytes).write (littleEndian 8 index.toNat)).finalize.1

/-- An error is the exception thrown; the index and the key stay taken. -/
def generateAddress (secp : Secp256k1) (wallet : Wallet) (label : String) :
    Except String WalletAddress × Wallet :=
  let index := wallet.nextIndex
  let privkey := deriveKey wallet.seed index
  let keyed := { wallet with keys := wallet.keys.insert index privkey, nextIndex := index + 1 }
  match Schnorr.getPublicKey secp privkey with
  | none => (.error "Failed to generate public key", keyed)
  | some pubkey =>
      let address := { pubkey := .ofArray pubkey ByteVector.hash_small, label, index }
      (.ok address, { keyed with addresses := keyed.addresses ++ [address] })

def getBalance (wallet : Wallet) (asset : AssetID) : UInt64 :=
  wallet.utxos.foldl (fun balance utxo =>
    if !utxo.isSpent && utxo.output.value.asset = asset then balance + utxo.output.value.amount
    else balance) 0

def isOurPubkey (wallet : Wallet) (pubkey : ByteVector) : Bool :=
  wallet.addresses.any (·.pubkey = pubkey)

def addUTXO (wallet : Wallet) (outpoint : OutPoint) (output : TxOutput) (height : UInt32) : Wallet :=
  { wallet with utxos := wallet.utxos ++ [{ outpoint, output, height, isSpent := false }] }

/-- Mark the first entry of the outpoint. -/
def markFirst (outpoint : OutPoint) : List WalletUTXO → List WalletUTXO
  | [] => []
  | utxo :: rest =>
      if utxo.outpoint = outpoint then { utxo with isSpent := true } :: rest
      else utxo :: markFirst outpoint rest

def markSpent (wallet : Wallet) (outpoint : OutPoint) : Wallet :=
  { wallet with utxos := markFirst outpoint wallet.utxos }

def syncWithChain (wallet : Wallet) (utxoSet : UTXOSet) : Wallet :=
  { wallet with
    utxos := wallet.addresses.flatMap fun address =>
      (utxoSet.toList.filter (·.2.output.pubkeyScript = address.pubkey)).map fun entry =>
        { outpoint := entry.1, output := entry.2.output, height := entry.2.height,
          isSpent := false } }

/-- The body of the transaction loop of `ProcessBlock`. -/
def processTransaction (height : UInt32) (wallet : Wallet) (tx : Transaction) : Wallet :=
  let spent := tx.prevouts.foldl markSpent wallet
  (tx.outputs.mapIdx fun vout output => (tx.outpoint vout, output)).foldl
    (fun wallet created =>
      if wallet.isOurPubkey created.2.pubkeyScript then wallet.addUTXO created.1 created.2 height
      else wallet) spent

def processBlock (wallet : Wallet) (block : Block) (height : UInt32) : Wallet :=
  block.transactions.foldl (processTransaction height) wallet

/-- First-fit selection, with the coins selected so far and their total. -/
def selectFrom (asset : AssetID) (amount : UInt64) :
    List WalletUTXO → List WalletUTXO → UInt64 → List WalletUTXO
  | [], _, _ => []
  | utxo :: rest, selected, total =>
      if !utxo.isSpent && utxo.output.value.asset = asset then
        let selected := selected ++ [utxo]
        let total := total + utxo.output.value.amount
        if total ≥ amount then selected else selectFrom asset amount rest selected total
      else selectFrom asset amount rest selected total

def selectCoins (wallet : Wallet) (asset : AssetID) (amount : UInt64) : List WalletUTXO :=
  selectFrom asset amount wallet.utxos [] 0

def totalOut (outputs : List TxOutput) (asset : AssetID) (feeAmount : UInt64) : UInt64 :=
  outputs.foldl (fun total output =>
    if output.value.asset = asset then total + output.value.amount else total) feeAmount

/-- The inputs without signatures. -/
def bareInput (utxo : WalletUTXO) : TxInput :=
  { prevout := utxo.outpoint, signatureScript := .empty, sequence := 0xFFFFFFFF }

/-- The key of an address, derived if it is not cached. -/
def keyAt (wallet : Wallet) (index : UInt64) : PrivateKey × Wallet :=
  match wallet.keys[index]? with
  | some privkey => (privkey, wallet)
  | none =>
      let privkey := deriveKey wallet.seed index
      (privkey, { wallet with keys := wallet.keys.insert index privkey })

/-- The body of the signing loop of `CreateTransaction`. -/
def signInput (secp : Secp256k1) (index : Nat) (utxo : WalletUTXO) (tx : Transaction)
    (wallet : Wallet) : Option Transaction × Wallet :=
  if utxo.output.pubkeyScript.size ≠ 32 then (none, wallet)
  else
    match wallet.addresses.find? (·.pubkey = utxo.output.pubkeyScript) with
    | none => (none, wallet)
    | some address =>
        let (privkey, wallet) := wallet.keyAt address.index
        match Schnorr.sign secp privkey (tx.getSignatureHash index) none with
        | none => (none, wallet)
        | some signature =>
            (some (tx.setScript index (.ofArray signature ByteVector.signature_small)), wallet)

/-- The signing loop, from the input of the given index on. -/
def signFrom (secp : Secp256k1) :
    Nat → List WalletUTXO → Transaction → Wallet → Option Transaction × Wallet
  | _, [], tx, wallet => (some tx, wallet)
  | index, utxo :: rest, tx, wallet =>
      match signInput secp index utxo tx wallet with
      | (none, wallet) => (none, wallet)
      | (some tx, wallet) => signFrom secp (index + 1) rest tx wallet

/-- The output that returns what the selected coins are worth above the total. -/
def changeOutput (secp : Secp256k1) (wallet : Wallet) (asset : AssetID) (totalIn totalOut : UInt64) :
    Except String (List TxOutput) × Wallet :=
  if totalIn > totalOut then
    match wallet.generateAddress secp "change" with
    | (.error reason, wallet) => (.error reason, wallet)
    | (.ok address, wallet) =>
        (.ok [{ value := { asset, amount := totalIn - totalOut }, pubkeyScript := address.pubkey }],
          wallet)
  else (.ok [], wallet)

/-- The signed transaction, if there is one, with the wallet the call leaves. -/
def createTransaction (secp : Secp256k1) (wallet : Wallet) (outputs : List TxOutput)
    (asset : AssetID) (feeAmount : UInt64) : Except String (Option Transaction) × Wallet :=
  let totalOut := totalOut outputs asset feeAmount
  let selected := wallet.selectCoins asset totalOut
  if selected.isEmpty then (.ok none, wallet)
  else
    let totalIn := selected.foldl (fun total utxo => total + utxo.output.value.amount) 0
    match changeOutput secp wallet asset totalIn totalOut with
    | (.error reason, wallet) => (.error reason, wallet)
    | (.ok change, wallet) =>
        let tx : Transaction :=
          { version := 1, inputs := selected.map bareInput, outputs := outputs ++ change,
            locktime := 0 }
        let (signed, wallet) := signFrom secp 0 selected tx wallet
        (.ok signed, wallet)

end Wallet

end Parthenon
