import Parthenon.Primitives.WireCanonical

namespace Parthenon.P2p

open Parthenon.Library Parthenon.Crypto Parthenon.Primitives

/-! # Network messages

The payloads of `message.cpp`.  A string is the list of its bytes.
-/

def maxHeadersCount : Nat := 2000

def maxInvSize : Nat := 50000

def maxAddrToSend : Nat := 1000

def maxRejectMessageLength : Nat := 111

/-- `ReadCompactSizeChecked` of `message.cpp`. -/
def readCompactSizeChecked : Read Nat := readCompactSizeWith 253 0x10000 0x100000000

/-- A string after its size, which is at most `most`. -/
def readString (most : Nat) : Read Bytes := do
  let size ← readCompactSizeChecked
  if size > most then throw .nullopt else Reader.take .nullopt size

def writeString (string : Bytes) : Bytes := writeCompactSize string.length ++ string

@[ext] structure NetAddr where
  services : UInt64
  ip : FixedBytes 16
  port : UInt16
  time : UInt32
deriving DecidableEq, Repr

namespace NetAddr

/-- The port is written with its high byte first. -/
def serialize (includeTime : Bool) (addr : NetAddr) : Bytes :=
  (if includeTime then littleEndian 4 addr.time.toNat else []) ++
    littleEndian 8 addr.services.toNat ++ addr.ip.bytes ++
    [UInt8.ofNat (addr.port.toNat >>> 8), UInt8.ofNat addr.port.toNat]

def deserialize (includeTime : Bool) : Read NetAddr := do
  let time ← (if includeTime then readUInt32 else pure 0)
  let services ← readUInt64
  let ip ← Reader.takeFixed .nullopt 16
  let high ← readByte
  let low ← readByte
  pure { services, ip, port := UInt16.ofNat ((high.toNat <<< 8) + low.toNat), time }

end NetAddr

@[ext] structure VersionMessage where
  version : UInt32
  services : UInt64
  timestamp : Int64
  addrRecv : NetAddr
  addrFrom : NetAddr
  nonce : UInt64
  userAgent : Bytes
  startHeight : UInt32
  relay : Bool
deriving DecidableEq, Repr

namespace VersionMessage

/-- All fields up to the relay byte. -/
def serializeFields (message : VersionMessage) : Bytes :=
  littleEndian 4 message.version.toNat ++ littleEndian 8 message.services.toNat ++
    littleEndian 8 message.timestamp.toUInt64.toNat ++
    message.addrRecv.serialize false ++ message.addrFrom.serialize false ++
    littleEndian 8 message.nonce.toNat ++ writeString message.userAgent ++
    littleEndian 4 message.startHeight.toNat

def serialize (message : VersionMessage) : Bytes :=
  message.serializeFields ++ [if message.relay then 1 else 0]

/-- A message relays until its relay byte says otherwise. -/
def readFields : Read VersionMessage := do
  let version ← readUInt32
  let services ← readUInt64
  let timestamp ← readUInt64
  let addrRecv ← NetAddr.deserialize false
  let addrFrom ← NetAddr.deserialize false
  let nonce ← readUInt64
  let userAgent ← readString 256
  let startHeight ← readUInt32
  pure { version, services, timestamp := timestamp.toInt64, addrRecv, addrFrom, nonce, userAgent,
         startHeight, relay := true }

def deserialize (data : Bytes) : Except Fault VersionMessage :=
  if data.length < 85 then .error .nullopt
  else do
    let (message, rest) ← readFields data
    match rest with
    | [] => pure message
    | [relay] => pure { message with relay := relay ≠ 0 }
    | _ => .error .nullopt

end VersionMessage

@[ext] structure PingPongMessage where
  nonce : UInt64
deriving DecidableEq, Repr

namespace PingPongMessage

def serialize (message : PingPongMessage) : Bytes := littleEndian 8 message.nonce.toNat

def deserialize (data : Bytes) : Except Fault PingPongMessage :=
  if data.length ≠ 8 then .error .nullopt
  else do
    let (nonce, _) ← readUInt64 data
    pure { nonce }

end PingPongMessage

/-- An inventory type.  The parser casts any 32-bit value to the enumeration. -/
@[ext] structure InvType where
  value : UInt32
deriving DecidableEq, Repr

@[ext] structure InvVect where
  type : InvType
  hash : Hash
deriving DecidableEq, Repr

namespace InvVect

def serialize (inv : InvVect) : Bytes := littleEndian 4 inv.type.value.toNat ++ inv.hash.bytes

def deserialize : Read InvVect := do
  let type ← readUInt32
  let hash ← Reader.takeFixed .nullopt 32
  pure { type := ⟨type⟩, hash }

end InvVect

@[ext] structure InvMessage where
  inventory : List InvVect
deriving DecidableEq, Repr

abbrev GetDataMessage := InvMessage

namespace InvMessage

def serialize (message : InvMessage) : Bytes :=
  writeCompactSize message.inventory.length ++ message.inventory.flatMap InvVect.serialize

/-- The count is held against the length of the whole message as well. -/
def readFields (length : Nat) : Read InvMessage := do
  let count ← readCompactSizeChecked
  if count > maxInvSize ∨ count > length / 36 then throw .nullopt
  else do
    let inventory ← Reader.many InvVect.deserialize count
    pure { inventory }

def deserialize (data : Bytes) : Except Fault InvMessage :=
  Reader.whole .nullopt (readFields data.length) data

end InvMessage

@[ext] structure AddrMessage where
  addresses : List NetAddr
deriving DecidableEq, Repr

namespace AddrMessage

def serialize (message : AddrMessage) : Bytes :=
  writeCompactSize message.addresses.length ++ message.addresses.flatMap (NetAddr.serialize true)

def readFields : Read AddrMessage := do
  let addresses ← readCounted readCompactSizeChecked maxAddrToSend (NetAddr.deserialize true)
  pure { addresses }

def deserialize (data : Bytes) : Except Fault AddrMessage := Reader.whole .nullopt readFields data

end AddrMessage

@[ext] structure BlockMessage where
  block : CachedBlock
deriving DecidableEq, Repr

namespace BlockMessage

def serialize (message : BlockMessage) : Bytes := message.block.toBlock.serialize

def deserialize (data : Bytes) : Except Fault BlockMessage := do
  let block ← Block.deserialize data
  pure { block }

end BlockMessage

@[ext] structure TxMessage where
  tx : CachedTransaction
deriving DecidableEq, Repr

namespace TxMessage

def serialize (message : TxMessage) : Bytes := message.tx.serialize

def deserialize (data : Bytes) : Except Fault TxMessage := do
  let tx ← Reader.whole .nullopt
    (Transaction.deserializeFrontWith Transaction.readCompactSizeChecked) data
  pure { tx }

end TxMessage

@[ext] structure GetHeadersMessage where
  version : UInt32
  blockLocatorHashes : List Hash
  hashStop : Hash
deriving DecidableEq, Repr

namespace GetHeadersMessage

def serialize (message : GetHeadersMessage) : Bytes :=
  littleEndian 4 message.version.toNat ++ writeCompactSize message.blockLocatorHashes.length ++
    message.blockLocatorHashes.flatMap FixedBytes.bytes ++ message.hashStop.bytes

def readFields : Read GetHeadersMessage := do
  let version ← readUInt32
  let count ← readCompactSizeChecked
  if count > maxHeadersCount then throw .nullopt
  else do
    let remaining ← get
    if remaining.length < count * 32 + 32 then throw .nullopt
    else do
      let blockLocatorHashes ← Reader.many (Reader.takeFixed .nullopt 32) count
      let hashStop ← Reader.takeFixed .nullopt 32
      pure { version, blockLocatorHashes, hashStop }

def deserialize (data : Bytes) : Except Fault GetHeadersMessage :=
  if data.length < 37 then .error .nullopt else Reader.whole .nullopt readFields data

end GetHeadersMessage

@[ext] structure HeadersMessage where
  headers : List BlockHeader
deriving DecidableEq, Repr

namespace HeadersMessage

/-- A header is followed by a transaction count of zero. -/
def serializeHeader (header : BlockHeader) : Bytes := header.serialize ++ writeCompactSize 0

def serialize (message : HeadersMessage) : Bytes :=
  writeCompactSize message.headers.length ++ message.headers.flatMap serializeHeader

def readHeader : Read BlockHeader := do
  let header ← BlockHeader.deserialize
  let txCount ← readCompactSizeChecked
  if txCount ≠ 0 then throw .nullopt else pure header

def readFields : Read HeadersMessage := do
  let headers ← readCounted readCompactSizeChecked maxHeadersCount readHeader
  pure { headers }

def deserialize (data : Bytes) : Except Fault HeadersMessage := Reader.whole .nullopt readFields data

end HeadersMessage

@[ext] structure RejectMessage where
  message : Bytes
  ccode : UInt8
  reason : Bytes
  data : Bytes
deriving DecidableEq, Repr

namespace RejectMessage

def serialize (message : RejectMessage) : Bytes :=
  writeString message.message ++ [message.ccode] ++ writeString message.reason ++ message.data

/-- What follows the reason is the extra data. -/
def deserialize (data : Bytes) : Except Fault RejectMessage := do
  let (message, afterMessage) ← readString maxRejectMessageLength data
  let (ccode, afterCode) ← readByte afterMessage
  let (reason, rest) ← readString maxRejectMessageLength afterCode
  pure { message, ccode, reason, data := rest }

end RejectMessage

end Parthenon.P2p
