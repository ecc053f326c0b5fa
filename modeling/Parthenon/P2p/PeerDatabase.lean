import Mathlib.Data.Rat.Defs
import Parthenon.Common.Commitment
import Parthenon.Library.OrderedMap
import Parthenon.Library.TokenStream

namespace Parthenon.P2p

open Std Library Storage Common

/-! # Peer database

What a node knows of its peers, kept in memory by address and port, and written to a file of one
line per peer when the database is closed.
-/

/-- The arithmetic of the scores, and how streams print and read them. -/
structure ScoreArith (Score : Type) where
  literal : ℚ → Score
  add : Score → Score → Score
  sub : Score → Score → Score
  less : Score → Score → Bool
  print : Score → Bytes
  read : TokenReader UInt8 Score

structure PeerInfo (Score : Type) where
  address : Bytes
  port : UInt16
  services : UInt64
  lastSeen : Int64
  firstSeen : Int64
  connectionAttempts : UInt32
  successfulConnections : UInt32
  failedConnections : UInt32
  isBanned : Bool
  banUntil : Int64
  score : Score
  blocksReceived : UInt32
  txsReceived : UInt32
  invalidMessages : UInt32
  protocolViolations : UInt32
deriving DecidableEq, Repr

structure PeerDatabase (Score : Type) where
  peers : ExtTreeMap Bytes (PeerInfo Score) compare
  isOpen : Bool

variable {Score : Type}

namespace PeerInfo

def initial (arith : ScoreArith Score) : PeerInfo Score where
  address := []
  port := 0
  services := 0
  lastSeen := 0
  firstSeen := 0
  connectionAttempts := 0
  successfulConnections := 0
  failedConnections := 0
  isBanned := false
  banUntil := 0
  score := arith.literal 0
  blocksReceived := 0
  txsReceived := 0
  invalidMessages := 0
  protocolViolations := 0

end PeerInfo

/-! ## Lines -/

def signedDecimal (value : Int) : Bytes :=
  if value < 0 then 45 :: decimal value.natAbs else decimal value.natAbs

def boolToken (value : Bool) : Bytes := if value then [49] else [48]

def readDigits : TokenReader UInt8 Nat := fun text =>
  let digits := text.takeWhile isDigit
  if digits.isEmpty then none else some (parseDigits digits, text.dropWhile isDigit)

/-- An integer with an optional sign, up to the first character that is no digit. -/
def readInteger : TokenReader UInt8 Int := fun text =>
  let visible := text.dropWhile isSpace
  let negative := visible.head? == some 45
  let unsigned := if negative || visible.head? == some 43 then visible.tail else visible
  (readDigits unsigned).map fun read => (if negative then -(read.1 : Int) else read.1, read.2)

/-- A negative number is read as its two's complement. -/
def readUnsigned (width : Nat) : TokenReader UInt8 Nat := do
  let value ← readInteger
  if value.natAbs < 2 ^ width then return (value % 2 ^ width).toNat else failure

def readTime : TokenReader UInt8 Int64 := do
  let value ← readInteger
  if -2 ^ 63 ≤ value ∧ value < 2 ^ 63 then return .ofInt value else failure

def readBool : TokenReader UInt8 Bool := do
  let value ← readInteger
  if value = 0 then return false else if value = 1 then return true else failure

def tokens (arith : ScoreArith Score) (info : PeerInfo Score) : List Bytes :=
  [info.address, decimal info.port.toNat, decimal info.services.toNat,
    signedDecimal info.lastSeen.toInt, signedDecimal info.firstSeen.toInt,
    decimal info.connectionAttempts.toNat, decimal info.successfulConnections.toNat,
    decimal info.failedConnections.toNat, boolToken info.isBanned,
    signedDecimal info.banUntil.toInt, arith.print info.score, decimal info.blocksReceived.toNat,
    decimal info.txsReceived.toNat, decimal info.invalidMessages.toNat,
    decimal info.protocolViolations.toNat]

def peerLine (arith : ScoreArith Score) (key : Bytes) (info : PeerInfo Score) : Bytes :=
  [32].intercalate (key :: tokens arith info)

def readInfo (arith : ScoreArith Score) : TokenReader UInt8 (PeerInfo Score) := do
  let address ← readWord isSpace
  let port ← readUnsigned 16
  let services ← readUnsigned 64
  let lastSeen ← readTime
  let firstSeen ← readTime
  let connectionAttempts ← readUnsigned 32
  let successfulConnections ← readUnsigned 32
  let failedConnections ← readUnsigned 32
  let isBanned ← readBool
  let banUntil ← readTime
  let score ← arith.read
  let blocksReceived ← readUnsigned 32
  let txsReceived ← readUnsigned 32
  let invalidMessages ← readUnsigned 32
  let protocolViolations ← readUnsigned 32
  return {
    address := address
    port := .ofNat port
    services := .ofNat services
    lastSeen := lastSeen
    firstSeen := firstSeen
    connectionAttempts := .ofNat connectionAttempts
    successfulConnections := .ofNat successfulConnections
    failedConnections := .ofNat failedConnections
    isBanned := isBanned
    banUntil := banUntil
    score := score
    blocksReceived := .ofNat blocksReceived
    txsReceived := .ofNat txsReceived
    invalidMessages := .ofNat invalidMessages
    protocolViolations := .ofNat protocolViolations }

def readPeer (arith : ScoreArith Score) : TokenReader UInt8 (Bytes × PeerInfo Score) := do
  let key ← readWord isSpace
  let info ← readInfo arith
  return (key, info)

def fileHeader : List Bytes :=
  [text "# PantheonChain Peer Database".toList,
    text "# Format: key address port services last_seen first_seen attempts success fails ".toList ++
      text "banned ban_until score blocks txs invalid violations".toList]

namespace PeerDatabase

/-- Comments, and lines that do not read as a peer, are left out. -/
def loadLine (arith : ScoreArith Score) (peers : ExtTreeMap Bytes (PeerInfo Score) compare)
    (line : Bytes) : ExtTreeMap Bytes (PeerInfo Score) compare :=
  if line.isEmpty || line.head? == some 35 then peers
  else
    match readPeer arith line with
    | some ((key, info), _) => peers.insert key info
    | none => peers

/-- A database that has not been opened. -/
def fresh : PeerDatabase Score where
  peers := ∅
  isOpen := false

def open_ (arith : ScoreArith Score) (db : PeerDatabase Score) (file : Option Bytes) :
    PeerDatabase Score where
  peers := (lines 10 (file.getD [])).foldl (loadLine arith) db.peers
  isOpen := true

/-- The database and the file that it leaves. -/
def close (arith : ScoreArith Score) (db : PeerDatabase Score) (file : Option Bytes) :
    PeerDatabase Score × Option Bytes :=
  if !db.isOpen then (db, file)
  else
    let written := fileHeader ++ db.peers.toList.map fun entry => peerLine arith entry.1 entry.2
    ({ db with isOpen := false }, some (written.flatMap (· ++ [10])))

def makeKey (address : Bytes) (port : UInt16) : Bytes := address ++ 58 :: decimal port.toNat

/-- `peers_[key]` makes a record where there is none. -/
def modifyPeer (arith : ScoreArith Score) (db : PeerDatabase Score) (address : Bytes)
    (port : UInt16) (update : PeerInfo Score → PeerInfo Score) : PeerDatabase Score :=
  let key := makeKey address port
  { db with peers := db.peers.insert key (update (db.peers[key]?.getD (.initial arith))) }

variable (arith : ScoreArith Score) (db : PeerDatabase Score) (address : Bytes) (port : UInt16)

def addPeer (now : Int64) (services : UInt64) : PeerDatabase Score :=
  let key := makeKey address port
  if db.peers[key]?.isNone then
    { db with
      peers := db.peers.insert key
        { PeerInfo.initial arith with
          address := address
          port := port
          services := services
          firstSeen := now
          lastSeen := now
          score := arith.literal 50 } }
  else db

/-- A score that is no more than a hundred. -/
def capped (score : Score) : Score :=
  if arith.less (arith.literal 100) score then arith.literal 100 else score

/-- A score that is no less than zero. -/
def floored (score : Score) : Score :=
  if arith.less score (arith.literal 0) then arith.literal 0 else score

def recordConnectionAttempt : PeerDatabase Score :=
  db.modifyPeer arith address port fun info =>
    { info with connectionAttempts := info.connectionAttempts + 1 }

def recordSuccessfulConnection (now : Int64) : PeerDatabase Score :=
  db.modifyPeer arith address port fun info =>
    { info with
      successfulConnections := info.successfulConnections + 1
      lastSeen := now
      score := capped arith (arith.add info.score (arith.literal 5)) }

def recordFailedConnection : PeerDatabase Score :=
  db.modifyPeer arith address port fun info =>
    { info with
      failedConnections := info.failedConnections + 1
      score := floored arith (arith.sub info.score (arith.literal 2)) }

def updateLastSeen (now : Int64) : PeerDatabase Score :=
  db.modifyPeer arith address port fun info => { info with lastSeen := now }

def banPeer (now durationSeconds : Int64) : PeerDatabase Score :=
  db.modifyPeer arith address port fun info =>
    { info with
      isBanned := true
      banUntil := now + durationSeconds
      score := arith.literal 0 }

def unbanPeer : PeerDatabase Score :=
  db.modifyPeer arith address port fun info =>
    { info with
      isBanned := false
      banUntil := 0
      score := arith.literal 25 }

/-- The answer, and the database without the ban if it has expired. -/
def isBanned (now : Int64) : Bool × PeerDatabase Score :=
  let key := makeKey address port
  match db.peers[key]? with
  | some info =>
      if 0 < info.banUntil ∧ info.banUntil < now then
        (false, { db with peers := db.peers.insert key { info with isBanned := false, banUntil := 0 } })
      else (info.isBanned, db)
  | none => (false, db)

def updateScore (delta : Score) : PeerDatabase Score :=
  db.modifyPeer arith address port fun info =>
    { info with score := capped arith (floored arith (arith.add info.score delta)) }

def recordBlockReceived : PeerDatabase Score :=
  db.modifyPeer arith address port fun info =>
    { info with
      blocksReceived := info.blocksReceived + 1
      score := capped arith (arith.add info.score (arith.literal 1)) }

def recordTxReceived : PeerDatabase Score :=
  db.modifyPeer arith address port fun info =>
    { info with
      txsReceived := info.txsReceived + 1
      score := capped arith (arith.add info.score (arith.literal (1 / 10))) }

def recordInvalidMessage : PeerDatabase Score :=
  db.modifyPeer arith address port fun info =>
    { info with
      invalidMessages := info.invalidMessages + 1
      score := floored arith (arith.sub info.score (arith.literal 5)) }

/-- The fifth violation bans the peer for a day. -/
def recordProtocolViolation (now : Int64) : PeerDatabase Score :=
  db.modifyPeer arith address port fun info =>
    let violations := info.protocolViolations + 1
    { info with
      protocolViolations := violations
      score := floored arith (arith.sub info.score (arith.literal 10))
      isBanned := if violations ≥ 5 then true else info.isBanned
      banUntil := if violations ≥ 5 then now + 86400 else info.banUntil }

end PeerDatabase

end Parthenon.P2p
