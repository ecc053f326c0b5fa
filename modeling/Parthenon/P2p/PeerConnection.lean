import Parthenon.P2p.Message
import Parthenon.Storage.BlockStorage

namespace Parthenon.P2p

open Parthenon.Library Parthenon.Crypto Parthenon.Primitives
open Parthenon.Storage (text)

/-! # Peer connections

Framing of messages, and the receiving half of a connection: the buffer that
`recv` fills and the messages taken from its front.
-/

def maxMessageSize : Nat := 32 * 1024 * 1024

@[ext] structure MessageHeader where
  magic : UInt32
  command : FixedBytes 12
  length : UInt32
  checksum : UInt32
deriving DecidableEq, Repr

namespace MessageHeader

def serialize (header : MessageHeader) : Bytes :=
  littleEndian 4 header.magic.toNat ++ header.command.bytes ++
    littleEndian 4 header.length.toNat ++ littleEndian 4 header.checksum.toNat

/-- A command of at most 11 characters with a zero behind it. -/
def terminated (command : FixedBytes 12) : FixedBytes 12 :=
  ⟨command.bytes.set 11 0, by rw [List.length_set, command.length_eq]⟩

def deserialize : Read MessageHeader := do
  let magic ← readUInt32
  let command ← Reader.takeFixed .nullopt 12
  let length ← readUInt32
  let checksum ← readUInt32
  pure { magic, command := terminated command, length, checksum }

def isValid (header : MessageHeader) (expectedMagic : UInt32) : Bool :=
  header.magic = expectedMagic && header.length.toNat ≤ maxMessageSize

/-- The command up to its first zero. -/
def commandText (header : MessageHeader) : Bytes := header.command.bytes.takeWhile (· ≠ 0)

end MessageHeader

def calculateChecksum (payload : Bytes) : UInt32 :=
  UInt32.ofNat (ofLittleEndian ((SHA256d.hash256d payload).bytes.take 4))

/-- At most 11 characters of a command, which ends at its first zero. -/
def commandField (command : Bytes) : FixedBytes 12 :=
  ⟨((command.takeWhile (· ≠ 0)).take 11 ++ List.replicate 12 0).take 12, by
    rw [List.length_take, List.length_append, List.length_replicate]
    omega⟩

def messageHeader (magic : UInt32) (command payload : Bytes) : MessageHeader where
  magic
  command := commandField command
  length := UInt32.ofNat payload.length
  checksum := calculateChecksum payload

/-- Nothing is made of a payload that is too long. -/
def createNetworkMessage (magic : UInt32) (command payload : Bytes) : Bytes :=
  if payload.length > maxMessageSize then []
  else (messageHeader magic command payload).serialize ++ payload

inductive PeerState
  | connecting
  | handshake
  | connected
  | disconnected
  | banned
deriving DecidableEq, Repr

/-- The callbacks of a connection and what they are called with. -/
inductive PeerEvent
  | version (message : VersionMessage)
  | verack
  | ping (nonce : UInt64)
  | pong (nonce : UInt64)
  | inv (message : InvMessage)
  | getData (message : GetDataMessage)
  | block (block : CachedBlock)
  | tx (tx : CachedTransaction)
  | addr (message : AddrMessage)
  | getHeaders (message : GetHeadersMessage)
  | headers (message : HeadersMessage)
deriving DecidableEq, Repr

/-- `hasCallback` says which callbacks are set. -/
structure PeerConnection where
  state : PeerState
  version : UInt32
  height : UInt32
  services : UInt64
  userAgent : Bytes
  networkMagic : UInt32
  recvBuffer : Bytes
  hasCallback : PeerEvent → Bool

/-- What a parser makes of a payload: nothing when it gives up, and no result at
all when it throws. -/
def parsedEvent {μ : Type} (parsed : Except Fault μ) (event : μ → PeerEvent) :
    Option (Option PeerEvent) :=
  match parsed with
  | .ok message => some (some (event message))
  | .error .nullopt => some none
  | .error .resizeThrows => none

/-- The message under a command, if the command is known and its parser takes the payload. -/
def parsePayload (command payload : Bytes) : Option (Option PeerEvent) :=
  if command = text "version".toList then parsedEvent (VersionMessage.deserialize payload) .version
  else if command = text "verack".toList then some (some .verack)
  else if command = text "ping".toList then
    parsedEvent (PingPongMessage.deserialize payload) (.ping ·.nonce)
  else if command = text "pong".toList then
    parsedEvent (PingPongMessage.deserialize payload) (.pong ·.nonce)
  else if command = text "inv".toList then parsedEvent (InvMessage.deserialize payload) .inv
  else if command = text "getdata".toList then parsedEvent (InvMessage.deserialize payload) .getData
  else if command = text "block".toList then
    parsedEvent (BlockMessage.deserialize payload) (.block ·.block)
  else if command = text "tx".toList then parsedEvent (TxMessage.deserialize payload) (.tx ·.tx)
  else if command = text "addr".toList then parsedEvent (AddrMessage.deserialize payload) .addr
  else if command = text "getheaders".toList then
    parsedEvent (GetHeadersMessage.deserialize payload) .getHeaders
  else if command = text "headers".toList then
    parsedEvent (HeadersMessage.deserialize payload) .headers
  else some none

namespace PeerConnection

/-- What a message changes in the connection besides the callback: the version
message counts only where its callback is set. -/
def note (connection : PeerConnection) : PeerEvent → PeerConnection
  | .version message =>
      if connection.hasCallback (.version message) then
        { connection with
          version := message.version
          height := message.startHeight
          services := message.services
          userAgent := message.userAgent }
      else connection
  | .verack => { connection with state := .connected }
  | _ => connection

/-- The callback made, if one is set, and the connection; `none` is an exception. -/
def processMessage (connection : PeerConnection) (header : MessageHeader) (payload : Bytes) :
    Option (Option PeerEvent × PeerConnection) :=
  match parsePayload header.commandText payload with
  | none => none
  | some none => some (none, connection)
  | some (some event) =>
      some (if connection.hasCallback event then some event else none, connection.note event)

end PeerConnection

/-- What `recv` does: it fails, finds the connection closed, or returns up to
`count` of the bytes that are asked for.  Where it has none it would block. -/
inductive Recv
  | failed
  | closed
  | upTo (count : Nat)
deriving DecidableEq, Repr

/-- A connection, the bytes of the stream it has not read yet, and the calls of
`ProcessMessage` so far with the callbacks they made. -/
structure Link where
  connection : PeerConnection
  wire : Bytes
  dispatched : List (MessageHeader × Bytes)
  events : List PeerEvent

namespace Link

def receiveRaw (link : Link) (bytes : Nat) (recv : Recv) : Bool × Link :=
  match recv with
  | .failed => (false, link)
  | .closed => (false, { link with connection := { link.connection with state := .disconnected } })
  | .upTo count =>
      (true, { link with
        connection := { link.connection with
          recvBuffer := link.connection.recvBuffer ++ link.wire.take (min count bytes) }
        wire := link.wire.drop (min count bytes) })

/-- Fill a buffer of fewer than `least` bytes with one read. -/
def fill (link : Link) (least bytes : Nat) (recv : Recv) : Bool × Link :=
  if link.connection.recvBuffer.length < least then link.receiveRaw bytes recv else (true, link)

/-- Process the message at the front of the buffer and take it off.  An exception
leaves it there. -/
def dispatch (link : Link) (header : MessageHeader) : Option Bool × Link :=
  let payload := (link.connection.recvBuffer.drop 24).take header.length.toNat
  let called := { link with dispatched := link.dispatched ++ [(header, payload)] }
  match link.connection.processMessage header payload with
  | none => (none, called)
  | some (event, connection) =>
      (some true, { called with
        connection := { connection with
          recvBuffer := connection.recvBuffer.drop (24 + header.length.toNat) }
        events := link.events ++ event.toList })

/-- `ReceiveMessage` with the two reads it may make; `none` is an exception. -/
def receiveMessage (link : Link) (first second : Recv) : Option Bool × Link :=
  match link.fill 24 1024 first with
  | (false, link) => (some false, link)
  | (true, link) =>
      if link.connection.recvBuffer.length < 24 then (some true, link)
      else
        match MessageHeader.deserialize link.connection.recvBuffer with
        | .error _ => (some false, link)
        | .ok (header, _) =>
            if !header.isValid link.connection.networkMagic then (some false, link)
            else
              match link.fill (24 + header.length.toNat) 4096 second with
              | (false, link) => (some false, link)
              | (true, link) =>
                  if link.connection.recvBuffer.length < 24 + header.length.toNat then
                    (some true, link)
                  else link.dispatch header

/-- Calls one after another, whatever each returns. -/
def receiveAll (link : Link) (calls : List (Recv × Recv)) : Link :=
  calls.foldl (fun link call => (link.receiveMessage call.1 call.2).2) link

end Link

end Parthenon.P2p
