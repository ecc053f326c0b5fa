import Parthenon.Primitives.Transaction

namespace Parthenon.Primitives

open Parthenon.Library Parthenon.Crypto

/-! # The wire format

The parsers of `transaction.cpp` and `block.cpp`.  Each source file has its own
compact size reader; only the one in `block.cpp` refuses a size that a shorter
form could carry.
-/

/-- Why a parser returns no value: it gives up, or a vector cannot be resized
to the length the input states. -/
inductive Fault
  | nullopt
  | resizeThrows
deriving DecidableEq, Repr

abbrev Read := Reader Fault

def readNat (width : Nat) : Read Nat := do
  let bytes ← Reader.take .nullopt width
  pure (ofLittleEndian bytes)

def readUInt32 : Read UInt32 := do
  let value ← readNat 4
  pure (UInt32.ofNat value)

def readUInt64 : Read UInt64 := do
  let value ← readNat 8
  pure (UInt64.ofNat value)

def readByte : Read UInt8 := do
  let value ← readNat 1
  pure (UInt8.ofNat value)

/-- Read a size that is at least `least` from `width` bytes. -/
def readSizeAtLeast (least width : Nat) : Read Nat := do
  let size ← readNat width
  if size < least then throw .nullopt else pure size

/-- `ReadCompactSizeChecked`, with the least value each long form may carry. -/
def readCompactSizeWith (leastTwo leastFour leastEight : Nat) : Read Nat := do
  let first ← readByte
  if first < 253 then pure first.toNat
  else if first = 253 then readSizeAtLeast leastTwo 2
  else if first = 254 then readSizeAtLeast leastFour 4
  else readSizeAtLeast leastEight 8

/-- `ReadCompactSizeChecked` of `transaction.cpp`. -/
def Transaction.readCompactSizeChecked : Read Nat := readCompactSizeWith 0 0 0

/-- `ReadCompactSizeChecked` of `block.cpp`. -/
def Block.readCompactSizeChecked : Read Nat := readCompactSizeWith 253 0x10000 0x100000000

/-- A 64-bit size read as a pointer difference. -/
def toPtrdiff (size : Nat) : Int :=
  if size % 2 ^ 64 < 2 ^ 63 then (size % 2 ^ 64 : Nat) else (size % 2 ^ 64 : Nat) - (2 ^ 64 : Int)

/-- Read a script of the given length that `trailing` more bytes must follow.
The comparison is signed, so an absurd length passes it and the resize throws. -/
def readScript (trailing length : Nat) : Read ByteVector := fun input =>
  if (input.length : Int) < toPtrdiff (length + trailing) then .error .nullopt
  else if fits : length ≤ input.length ∧ length < 2 ^ 63 - 4 then
    .ok (⟨input.take length, by rw [List.length_take_of_le fits.1]; exact fits.2⟩, input.drop length)
  else .error .resizeThrows

def OutPoint.deserialize : Read OutPoint := do
  let txid ← Reader.takeFixed .nullopt 32
  let vout ← readUInt32
  pure { txid, vout }

def AssetAmount.deserialize : Read AssetAmount := do
  let asset ← readByte
  let amount ← readUInt64
  pure { asset := ⟨asset⟩, amount }

section Parsers

variable (readSize : Read Nat)

def TxInput.deserializeWith : Read TxInput := do
  let prevout ← OutPoint.deserialize
  let scriptLen ← readSize
  let signatureScript ← readScript 4 scriptLen
  let sequence ← readUInt32
  pure { prevout, signatureScript, sequence }

def TxOutput.deserializeWith : Read TxOutput := do
  let value ← AssetAmount.deserialize
  let scriptLen ← readSize
  let pubkeyScript ← readScript 0 scriptLen
  pure { value, pubkeyScript }

/-- Read a count, refuse one above `most`, and read that many values. -/
def readCounted {α : Type} (readCount : Read Nat) (most : Nat) (readOne : Read α) :
    Read (List α) := do
  let count ← readCount
  if count > most then throw .nullopt
  else Reader.many readOne count

def Transaction.maxCount : Nat := 100000

def Transaction.readFields : Read Transaction := do
  let version ← readUInt32
  let inputs ← readCounted readSize maxCount (TxInput.deserializeWith readSize)
  let outputs ← readCounted readSize maxCount (TxOutput.deserializeWith readSize)
  let locktime ← readUInt32
  pure { version, inputs, outputs, locktime }

/-- Parse a transaction from the front of the input.  The object that comes
back remembers how many bytes it was read from. -/
def Transaction.deserializeFrontWith : Read CachedTransaction := fun input =>
  if input.length < 10 then .error .nullopt
  else do
    let (tx, rest) ← readFields readSize input
    pure ({ tx with cachedTxID := none, cachedSerializedSize := some (input.length - rest.length) },
      rest)

/-- `Deserialize(data, len)`: the whole input is one transaction. -/
def Transaction.deserializeWith (data : Bytes) : Except Fault CachedTransaction := do
  let (tx, rest) ← deserializeFrontWith readSize data
  if rest.isEmpty then pure tx else .error .nullopt

end Parsers

def Transaction.deserialize (data : Bytes) : Except Fault CachedTransaction :=
  deserializeWith readCompactSizeChecked data

@[ext] structure BlockHeader where
  version : UInt32
  prevBlockHash : Hash
  merkleRoot : Hash
  timestamp : UInt32
  bits : UInt32
  nonce : UInt32
  baseFeePerGas : UInt64
  gasUsed : UInt64
  gasLimit : UInt64
deriving DecidableEq, Repr

namespace BlockHeader

def serialize (header : BlockHeader) : Bytes :=
  littleEndian 4 header.version.toNat ++ header.prevBlockHash.bytes ++ header.merkleRoot.bytes ++
    littleEndian 4 header.timestamp.toNat ++ littleEndian 4 header.bits.toNat ++
    littleEndian 4 header.nonce.toNat ++ littleEndian 8 header.baseFeePerGas.toNat ++
    littleEndian 8 header.gasUsed.toNat ++ littleEndian 8 header.gasLimit.toNat

def deserialize : Read BlockHeader := do
  let version ← readUInt32
  let prevBlockHash ← Reader.takeFixed .nullopt 32
  let merkleRoot ← Reader.takeFixed .nullopt 32
  let timestamp ← readUInt32
  let bits ← readUInt32
  let nonce ← readUInt32
  let baseFeePerGas ← readUInt64
  let gasUsed ← readUInt64
  let gasLimit ← readUInt64
  pure ⟨version, prevBlockHash, merkleRoot, timestamp, bits, nonce, baseFeePerGas, gasUsed, gasLimit⟩

end BlockHeader

@[ext] structure Block where
  header : BlockHeader
  transactions : List Transaction
deriving DecidableEq, Repr

/-- A block as the parser returns it, with the caches of its transactions. -/
@[ext] structure CachedBlock where
  header : BlockHeader
  transactions : List CachedTransaction
deriving DecidableEq, Repr

def CachedBlock.toBlock (block : CachedBlock) : Block :=
  { header := block.header, transactions := block.transactions.map (·.toTransaction) }

namespace Block

def serialize (block : Block) : Bytes :=
  block.header.serialize ++ writeCompactSize block.transactions.length ++
    block.transactions.flatMap Transaction.serialize

def maxTransactions : Nat := 1000000

/-- The body of `Block::Deserialize`, with the size reader of its transactions.  A
parsed transaction takes between 10 bytes and all that remain, so the source's
test of the bytes consumed never fires. -/
def readFieldsWith (readSize : Read Nat) : Read CachedBlock := do
  let header ← BlockHeader.deserialize
  let txCount ← readCompactSizeChecked
  if txCount = 0 ∨ txCount > maxTransactions then throw .nullopt
  else
    let transactions ← Reader.many (Transaction.deserializeFrontWith readSize) txCount
    pure { header, transactions }

def deserializeWith (readSize : Read Nat) (data : Bytes) : Except Fault CachedBlock :=
  if data.length < 105 then .error .nullopt
  else do
    let (block, rest) ← readFieldsWith readSize data
    if rest.isEmpty then pure block else .error .nullopt

def deserialize (data : Bytes) : Except Fault CachedBlock :=
  deserializeWith Transaction.readCompactSizeChecked data

end Block

end Parthenon.Primitives
