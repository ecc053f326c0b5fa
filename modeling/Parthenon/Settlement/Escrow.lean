import Parthenon.Crypto.Sha256

namespace Parthenon.Settlement

open Library Crypto

/-! # Escrows

An escrow is released by a time, by the preimage of a hash, or by both.  A decoder that
runs out of bytes returns its default: locktime zero, and a hash of zeros.
-/

abbrev Preimage := FixedBytes 32

/-- The type of an escrow.  The enumeration has a byte underneath and the decoder casts
any byte to it. -/
@[ext] structure EscrowType where
  value : UInt8
deriving DecidableEq, Repr

namespace EscrowType

def timeLocked : EscrowType := ⟨0⟩

def hashLocked : EscrowType := ⟨1⟩

def conditional : EscrowType := ⟨2⟩

/-- The types the enumeration names. -/
def named : List EscrowType := [timeLocked, hashLocked, conditional]

end EscrowType

/-- The bytes at a position of the data.  `none` is a read past its end. -/
def readAt (data : ByteVector) (pos : UInt64) (count : Nat) : Option Bytes :=
  if pos.toNat + count ≤ data.size then some ((data.bytes.drop pos.toNat).take count) else none

/-- A decoder of so many bytes, with the object it returns when there are fewer. -/
def readOr {α : Type} (width : UInt64) (empty : α) (parse : Bytes → α) (data : ByteVector)
    (pos : UInt64) : Option (α × UInt64) :=
  if pos + width > UInt64.ofNat data.size then some (empty, pos)
  else (readAt data pos width.toNat).map fun bytes => (parse bytes, pos + width)

structure TimeLockEscrow where
  locktime : UInt64
deriving DecidableEq, Repr

namespace TimeLockEscrow

def new : TimeLockEscrow := ⟨0⟩

variable (escrow : TimeLockEscrow)

def isReleasable (currentTime : UInt64) : Bool := currentTime ≥ escrow.locktime

def serialize : Bytes := littleEndian 8 escrow.locktime.toNat

def parse (bytes : Bytes) : TimeLockEscrow := ⟨.ofNat (ofLittleEndian bytes)⟩

def deserialize (data : ByteVector) (pos : UInt64) : Option (TimeLockEscrow × UInt64) :=
  readOr 8 new parse data pos

end TimeLockEscrow

structure HashLockEscrow where
  hash : Hash
deriving DecidableEq, Repr

namespace HashLockEscrow

def new : HashLockEscrow := ⟨zeroHash⟩

variable (escrow : HashLockEscrow)

def verifyPreimage (preimage : Preimage) : Bool := SHA256.hash256 preimage.bytes = escrow.hash

def serialize : Bytes := escrow.hash.bytes

def parse (bytes : Bytes) : HashLockEscrow := ⟨FixedBytes.copy 32 bytes⟩

def deserialize (data : ByteVector) (pos : UInt64) : Option (HashLockEscrow × UInt64) :=
  readOr 32 new parse data pos

end HashLockEscrow

structure ConditionalEscrow where
  locktime : UInt64
  hash : Hash
deriving DecidableEq, Repr

namespace ConditionalEscrow

def new : ConditionalEscrow := ⟨0, zeroHash⟩

variable (escrow : ConditionalEscrow)

def isReleasable (currentTime : UInt64) (preimage : Option Preimage) : Bool :=
  if currentTime < escrow.locktime then false
  else
    match preimage with
    | none => false
    | some preimage => SHA256.hash256 preimage.bytes = escrow.hash

def serialize : Bytes := littleEndian 8 escrow.locktime.toNat ++ escrow.hash.bytes

def parse (bytes : Bytes) : ConditionalEscrow :=
  ⟨.ofNat (ofLittleEndian (bytes.take 8)), FixedBytes.copy 32 (bytes.drop 8)⟩

def deserialize (data : ByteVector) (pos : UInt64) : Option (ConditionalEscrow × UInt64) :=
  readOr 40 new parse data pos

end ConditionalEscrow

structure Escrow where
  type : EscrowType
  timelock : TimeLockEscrow
  hashlock : HashLockEscrow
  conditional : ConditionalEscrow
deriving DecidableEq, Repr

namespace Escrow

def ofType (type : EscrowType) : Escrow :=
  { type, timelock := .new, hashlock := .new, conditional := .new }

def new : Escrow := ofType .timeLocked

variable (escrow : Escrow)

def setTimeLock (timelock : TimeLockEscrow) : Escrow :=
  { escrow with type := .timeLocked, timelock }

def setHashLock (hashlock : HashLockEscrow) : Escrow :=
  { escrow with type := .hashLocked, hashlock }

def setConditional (conditional : ConditionalEscrow) : Escrow :=
  { escrow with type := .conditional, conditional }

def isReleasable (currentTime : UInt64) (preimage : Option Preimage) : Bool :=
  if escrow.type = .timeLocked then escrow.timelock.isReleasable currentTime
  else if escrow.type = .hashLocked then preimage.any escrow.hashlock.verifyPreimage
  else if escrow.type = .conditional then escrow.conditional.isReleasable currentTime preimage
  else false

/-- What is written behind the type. -/
def payload : Bytes :=
  if escrow.type = .timeLocked then escrow.timelock.serialize
  else if escrow.type = .hashLocked then escrow.hashlock.serialize
  else if escrow.type = .conditional then escrow.conditional.serialize
  else []

def serialize : Bytes := escrow.type.value :: escrow.payload

/-- What is read behind a type. -/
def deserializePayload (type : EscrowType) (data : ByteVector) (pos : UInt64) :
    Option (Escrow × UInt64) :=
  if type = .timeLocked then
    (TimeLockEscrow.deserialize data pos).map fun read => ((ofType type).setTimeLock read.1, read.2)
  else if type = .hashLocked then
    (HashLockEscrow.deserialize data pos).map fun read => ((ofType type).setHashLock read.1, read.2)
  else if type = .conditional then
    (ConditionalEscrow.deserialize data pos).map fun read =>
      ((ofType type).setConditional read.1, read.2)
  else some (ofType type, pos)

/-- What is read and the position after it.  `none` is a read past the end of the data,
at the one position whose successor wraps to zero. -/
def deserialize (data : ByteVector) (pos : UInt64) : Option (Escrow × UInt64) :=
  if pos + 1 > UInt64.ofNat data.size then some (new, pos)
  else
    match readAt data pos 1 with
    | some [type] => deserializePayload ⟨type⟩ data (pos + 1)
    | _ => none

end Escrow

/-! ## Reading -/

section Reading

variable {data : ByteVector} {pos : UInt64}

theorem past_iff_of_fits {width : UInt64} (fits : pos.toNat + width.toNat < 2 ^ 64) :
    pos + width > UInt64.ofNat data.size ↔ data.size < pos.toNat + width.toNat := by
  rw [GT.gt, UInt64.lt_iff_toNat_lt, UInt64.toNat_add, UInt64.toNat_ofNat',
    Nat.mod_eq_of_lt data.size_lt_word, Nat.mod_eq_of_lt fits]

theorem past_iff (within : pos.toNat ≤ data.size) {width : UInt64} (small : width.toNat ≤ 40) :
    pos + width > UInt64.ofNat data.size ↔ data.size < pos.toNat + width.toNat := by
  have fits := data.fits
  rw [← ByteVector.size] at fits
  exact past_iff_of_fits (by omega)

theorem readAt_of_there {bytes rest : Bytes} (within : pos.toNat ≤ data.size)
    (there : data.bytes.drop pos.toNat = bytes ++ rest) :
    readAt data pos bytes.length = some bytes := by
  have length := congrArg List.length there
  rw [List.length_drop, List.length_append] at length
  have enough : pos.toNat + bytes.length ≤ data.size := by
    rw [ByteVector.size] at within ⊢
    omega
  rw [readAt, if_pos enough, there, List.take_left]

/-- A decoder parses the bytes it finds, or returns its default without moving. -/
theorem readOr_cases {α : Type} (within : pos.toNat ≤ data.size) {width : UInt64}
    (small : width.toNat ≤ 40) (empty : α) (parse : Bytes → α) :
    (width.toNat ≤ (data.bytes.drop pos.toNat).length ∧ readOr width empty parse data pos =
      some (parse ((data.bytes.drop pos.toNat).take width.toNat), pos + width)) ∨
    ((data.bytes.drop pos.toNat).length < width.toNat ∧
      readOr width empty parse data pos = some (empty, pos)) := by
  have length : (data.bytes.drop pos.toNat).length = data.size - pos.toNat := List.length_drop
  rw [readOr, length]
  by_cases past : pos + width > UInt64.ofNat data.size
  · have short := (past_iff within small).mp past
    rw [if_pos past]
    exact .inr ⟨by omega, rfl⟩
  · have enough := mt (past_iff within small).mpr past
    rw [if_neg past, readAt, if_pos (by omega)]
    exact .inl ⟨by omega, rfl⟩

end Reading

theorem locktime_parsed (locktime : UInt64) :
    UInt64.ofNat (ofLittleEndian (littleEndian 8 locktime.toNat)) = locktime := by
  have small : locktime.toNat < 256 ^ 8 := locktime.toNat_lt
  rw [ofLittleEndian_littleEndian, Nat.mod_eq_of_lt small, UInt64.ofNat_toNat]

theorem locktime_written {bytes : Bytes} (length : bytes.length = 8) :
    littleEndian 8 (UInt64.ofNat (ofLittleEndian bytes)).toNat = bytes := by
  have small : ofLittleEndian bytes < 2 ^ 64 := by
    have bound := ofLittleEndian_lt bytes
    rwa [length] at bound
  rw [UInt64.toNat_ofNat', Nat.mod_eq_of_lt small, ← length, littleEndian_ofLittleEndian]

theorem copy_bytes {bytes : Bytes} (length : bytes.length = size) :
    (FixedBytes.copy size bytes).bytes = bytes := by
  have whole : FixedBytes.copy size bytes = ⟨bytes, length⟩ := by
    have copied := FixedBytes.copy_append ⟨bytes, length⟩ []
    rwa [List.append_nil] at copied
  rw [whole]

theorem TimeLockEscrow.parse_serialize (escrow : TimeLockEscrow) : parse escrow.serialize = escrow :=
  congrArg TimeLockEscrow.mk (locktime_parsed escrow.locktime)

theorem HashLockEscrow.parse_serialize (escrow : HashLockEscrow) : parse escrow.serialize = escrow := by
  have copied := FixedBytes.copy_append escrow.hash []
  rw [List.append_nil] at copied
  exact congrArg HashLockEscrow.mk copied

theorem ConditionalEscrow.parse_serialize (escrow : ConditionalEscrow) :
    parse escrow.serialize = escrow := by
  have copied := FixedBytes.copy_append escrow.hash []
  rw [List.append_nil] at copied
  have front : escrow.serialize.take 8 = littleEndian 8 escrow.locktime.toNat :=
    List.take_left' (littleEndian_length _ _)
  have rest : escrow.serialize.drop 8 = escrow.hash.bytes :=
    List.drop_left' (littleEndian_length _ _)
  rw [parse, front, rest, locktime_parsed, copied]

theorem ConditionalEscrow.serialize_parse {bytes : Bytes} (length : bytes.length = 40) :
    (parse bytes).serialize = bytes := by
  have front : (bytes.take 8).length = 8 := by rw [List.length_take]; omega
  have rest : (bytes.drop 8).length = 32 := by rw [List.length_drop]; omega
  rw [serialize, parse, locktime_written front, copy_bytes rest, List.take_append_drop]

namespace Escrow

/-- The number of bytes behind a type. -/
def payloadSize (type : EscrowType) : UInt64 :=
  if type = .timeLocked then 8
  else if type = .hashLocked then 32
  else if type = .conditional then 40
  else 0

/-- The escrow of a type with the given bytes behind it. -/
def parsed (type : EscrowType) (bytes : Bytes) : Escrow :=
  if type = .timeLocked then (ofType type).setTimeLock (.parse bytes)
  else if type = .hashLocked then (ofType type).setHashLock (.parse bytes)
  else if type = .conditional then (ofType type).setConditional (.parse bytes)
  else ofType type

theorem unnamed_iff {type : EscrowType} :
    type ∉ EscrowType.named ↔ type ≠ .timeLocked ∧ type ≠ .hashLocked ∧ type ≠ .conditional := by
  simp only [EscrowType.named, List.mem_cons, List.not_mem_nil, or_false, not_or]

/-- The types, for a proof about each. -/
theorem type_cases (type : EscrowType) :
    type = .timeLocked ∨ type = .hashLocked ∨ type = .conditional ∨ type ∉ EscrowType.named := by
  by_cases time : type = .timeLocked
  · exact .inl time
  · by_cases hash : type = .hashLocked
    · exact .inr (.inl hash)
    · by_cases both : type = .conditional
      · exact .inr (.inr (.inl both))
      · exact .inr (.inr (.inr (unnamed_iff.mpr ⟨time, hash, both⟩)))

theorem payload_length (escrow : Escrow) :
    escrow.payload.length = (payloadSize escrow.type).toNat := by
  rw [payload, payloadSize]
  split
  · exact littleEndian_length _ _
  · split
    · exact escrow.hashlock.hash.length_eq
    · split
      · rw [ConditionalEscrow.serialize, List.length_append, littleEndian_length,
          escrow.conditional.hash.length_eq]
        rfl
      · rfl

theorem isReleasable_timeLocked {escrow : Escrow} (isType : escrow.type = .timeLocked)
    (currentTime : UInt64) (preimage : Option Preimage) :
    escrow.isReleasable currentTime preimage = escrow.timelock.isReleasable currentTime := by
  rw [isReleasable, if_pos isType]

theorem isReleasable_hashLocked {escrow : Escrow} (isType : escrow.type = .hashLocked)
    (currentTime : UInt64) (preimage : Option Preimage) :
    escrow.isReleasable currentTime preimage = preimage.any escrow.hashlock.verifyPreimage := by
  rw [isReleasable, isType, if_neg (by decide), if_pos rfl]

theorem isReleasable_conditional {escrow : Escrow} (isType : escrow.type = .conditional)
    (currentTime : UInt64) (preimage : Option Preimage) :
    escrow.isReleasable currentTime preimage =
      escrow.conditional.isReleasable currentTime preimage := by
  rw [isReleasable, isType, if_neg (by decide), if_neg (by decide), if_pos rfl]

/-- An escrow of a type without a name is never released. -/
theorem isReleasable_unnamed {escrow : Escrow} (unnamed : escrow.type ∉ EscrowType.named)
    (currentTime : UInt64) (preimage : Option Preimage) :
    escrow.isReleasable currentTime preimage = false := by
  obtain ⟨time, hash, both⟩ := unnamed_iff.mp unnamed
  rw [isReleasable, if_neg time, if_neg hash, if_neg both]

theorem payload_unnamed {escrow : Escrow} (unnamed : escrow.type ∉ EscrowType.named) :
    escrow.payload = [] := by
  obtain ⟨time, hash, both⟩ := unnamed_iff.mp unnamed
  rw [payload, if_neg time, if_neg hash, if_neg both]

theorem payloadSize_unnamed {type : EscrowType} (unnamed : type ∉ EscrowType.named) :
    payloadSize type = 0 := by
  obtain ⟨time, hash, both⟩ := unnamed_iff.mp unnamed
  rw [payloadSize, if_neg time, if_neg hash, if_neg both]

theorem parsed_unnamed {type : EscrowType} (unnamed : type ∉ EscrowType.named) (bytes : Bytes) :
    parsed type bytes = ofType type := by
  obtain ⟨time, hash, both⟩ := unnamed_iff.mp unnamed
  rw [parsed, if_neg time, if_neg hash, if_neg both]

theorem deserializePayload_unnamed {type : EscrowType} (unnamed : type ∉ EscrowType.named)
    (data : ByteVector) (pos : UInt64) :
    deserializePayload type data pos = some (ofType type, pos) := by
  obtain ⟨time, hash, both⟩ := unnamed_iff.mp unnamed
  rw [deserializePayload, if_neg time, if_neg hash, if_neg both]

theorem parsed_type (type : EscrowType) (bytes : Bytes) : (parsed type bytes).type = type := by
  rcases type_cases type with rfl | rfl | rfl | unnamed
  · rfl
  · rfl
  · rfl
  · rw [parsed_unnamed unnamed]
    rfl

/-- Bytes of the right number are the payload of what is parsed from them. -/
theorem parsed_serialize {type : EscrowType} {bytes : Bytes}
    (length : bytes.length = (payloadSize type).toNat) :
    (parsed type bytes).serialize = type.value :: bytes := by
  rcases type_cases type with rfl | rfl | rfl | unnamed
  · exact congrArg (_ :: ·) (locktime_written length)
  · exact congrArg (_ :: ·) (copy_bytes length)
  · exact congrArg (_ :: ·) (ConditionalEscrow.serialize_parse length)
  · rw [payloadSize_unnamed unnamed] at length
    rw [serialize, payload_unnamed ((parsed_type type bytes).symm ▸ unnamed), parsed_type,
      List.length_eq_zero_iff.mp length]

/-- What an escrow writes is parsed to one with its release condition. -/
theorem parsed_payload (escrow : Escrow) (currentTime : UInt64) (preimage : Option Preimage) :
    (parsed escrow.type escrow.payload).isReleasable currentTime preimage =
      escrow.isReleasable currentTime preimage := by
  have kept := parsed_type escrow.type escrow.payload
  rcases type_cases escrow.type with time | hash | both | unnamed
  · have written : escrow.payload = escrow.timelock.serialize := if_pos time
    rw [isReleasable_timeLocked time, isReleasable_timeLocked (kept.trans time), parsed, if_pos time,
      written, setTimeLock, TimeLockEscrow.parse_serialize]
  · have written : escrow.payload = escrow.hashlock.serialize := by
      rw [payload, hash, if_neg (by decide), if_pos rfl]
    rw [isReleasable_hashLocked hash, isReleasable_hashLocked (kept.trans hash), parsed, hash,
      if_neg (by decide), if_pos rfl, written, setHashLock, HashLockEscrow.parse_serialize]
  · have written : escrow.payload = escrow.conditional.serialize := by
      rw [payload, both, if_neg (by decide), if_neg (by decide), if_pos rfl]
    rw [isReleasable_conditional both, isReleasable_conditional (kept.trans both), parsed, both,
      if_neg (by decide), if_neg (by decide), if_pos rfl, written, setConditional,
      ConditionalEscrow.parse_serialize]
  · rw [isReleasable_unnamed unnamed, isReleasable_unnamed (kept.symm ▸ unnamed)]

section Decoding

variable {data : ByteVector} {pos : UInt64}

theorem deserializePayload_cases (within : pos.toNat ≤ data.size) (type : EscrowType) :
    ((payloadSize type).toNat ≤ (data.bytes.drop pos.toNat).length ∧
      deserializePayload type data pos =
        some (parsed type ((data.bytes.drop pos.toNat).take (payloadSize type).toNat),
          pos + payloadSize type)) ∨
    ((data.bytes.drop pos.toNat).length < (payloadSize type).toNat ∧
      deserializePayload type data pos = some (ofType type, pos)) := by
  rcases type_cases type with rfl | rfl | rfl | unnamed
  · have cases_ := readOr_cases within (show (8 : UInt64).toNat ≤ 40 by decide) TimeLockEscrow.new
      TimeLockEscrow.parse
    refine cases_.imp (fun found => ⟨found.1, ?_⟩) fun missing => ⟨missing.1, ?_⟩
    · exact congrArg (Option.map _) found.2
    · exact congrArg (Option.map _) missing.2
  · have cases_ := readOr_cases within (show (32 : UInt64).toNat ≤ 40 by decide) HashLockEscrow.new
      HashLockEscrow.parse
    refine cases_.imp (fun found => ⟨found.1, ?_⟩) fun missing => ⟨missing.1, ?_⟩
    · exact congrArg (Option.map _) found.2
    · exact congrArg (Option.map _) missing.2
  · have cases_ := readOr_cases within (show (40 : UInt64).toNat ≤ 40 by decide) ConditionalEscrow.new
      ConditionalEscrow.parse
    refine cases_.imp (fun found => ⟨found.1, ?_⟩) fun missing => ⟨missing.1, ?_⟩
    · exact congrArg (Option.map _) found.2
    · exact congrArg (Option.map _) missing.2
  · refine .inl ?_
    rw [payloadSize_unnamed unnamed, deserializePayload_unnamed unnamed, parsed_unnamed unnamed,
      UInt64.add_zero]
    exact ⟨Nat.zero_le _, rfl⟩

theorem deserialize_nil (empty : data.bytes.drop pos.toNat = []) :
    deserialize data pos = some (new, pos) ∨ deserialize data pos = none := by
  have past : data.size ≤ pos.toNat := List.drop_eq_nil_iff.mp empty
  rw [deserialize]
  split
  · exact .inl rfl
  · rw [readAt, if_neg (by omega)]
    exact .inr rfl

/-- Behind a type byte the payload is decoded. -/
theorem deserialize_cons {type : UInt8} {rest : Bytes}
    (there : data.bytes.drop pos.toNat = type :: rest) :
    (pos + 1).toNat = pos.toNat + 1 ∧ (pos + 1).toNat ≤ data.size ∧
      data.bytes.drop (pos + 1).toNat = rest ∧
      deserialize data pos = deserializePayload ⟨type⟩ data (pos + 1) := by
  have length := congrArg List.length there
  rw [List.length_drop, List.length_cons, ← ByteVector.size] at length
  have fits := data.fits
  rw [← ByteVector.size] at fits
  have one : (1 : UInt64).toNat = 1 := rfl
  have next : (pos + 1).toNat = pos.toNat + 1 := by
    rw [UInt64.toNat_add, one]
    exact Nat.mod_eq_of_lt (by omega)
  have inside : ¬ pos + 1 > UInt64.ofNat data.size := by
    rw [past_iff (by omega) (by decide), one]
    omega
  have byte : readAt data pos 1 = some [type] := by
    rw [readAt, if_pos (by omega), there]
    rfl
  refine ⟨next, by omega, ?_, ?_⟩
  · rw [next]
    exact drop_past [type] there
  · rw [deserialize, if_neg inside, byte]

theorem deserialize_serialize (escrow : Escrow) {back : Bytes}
    (there : data.bytes.drop pos.toNat = escrow.serialize ++ back) :
    ∃ other after, deserialize data pos = some (other, after) ∧
      after.toNat = pos.toNat + escrow.serialize.length ∧
      ∀ currentTime preimage, other.isReleasable currentTime preimage =
        escrow.isReleasable currentTime preimage := by
  have written := escrow.payload_length
  have fits := data.fits
  have length := congrArg List.length there
  rw [List.length_drop, List.length_append] at length
  rw [serialize, List.cons_append] at there
  obtain ⟨next, within, rest, decoded⟩ := deserialize_cons there
  rw [decoded]
  rcases deserializePayload_cases within ⟨escrow.type.value⟩ with ⟨_, found⟩ | ⟨short, _⟩
  · refine ⟨_, _, found, ?_, ?_⟩
    · have size : escrow.serialize.length = escrow.payload.length + 1 := rfl
      rw [UInt64.toNat_add, next, size, written]
      have whole : (payloadSize ⟨escrow.type.value⟩).toNat = (payloadSize escrow.type).toNat := rfl
      rw [whole, Nat.mod_eq_of_lt (by omega)]
      omega
    · intro currentTime preimage
      rw [rest, ← written, List.take_left]
      exact parsed_payload escrow currentTime preimage
  · rw [rest, List.length_append, written] at short
    exact absurd short (Nat.not_lt.mpr (Nat.le_add_right _ _))

/-- A whole escrow of a named type is written at a position. -/
def CompleteAt (data : ByteVector) (pos : UInt64) : Prop :=
  ∃ escrow : Escrow, escrow.type ∈ EscrowType.named ∧
    ∃ back, data.bytes.drop pos.toNat = escrow.serialize ++ back

theorem completeAt_iff {type : UInt8} {rest : Bytes}
    (there : data.bytes.drop pos.toNat = type :: rest) :
    CompleteAt data pos ↔
      ⟨type⟩ ∈ EscrowType.named ∧ (payloadSize ⟨type⟩).toNat ≤ rest.length := by
  constructor
  · rintro ⟨escrow, named, back, written⟩
    rw [there, serialize, List.cons_append] at written
    obtain ⟨rfl, rfl⟩ := List.cons.inj written
    refine ⟨named, ?_⟩
    rw [List.length_append, payload_length]
    exact Nat.le_add_right _ _
  · rintro ⟨named, enough⟩
    have length : (rest.take (payloadSize ⟨type⟩).toNat).length = (payloadSize ⟨type⟩).toNat :=
      List.length_take_of_le enough
    refine ⟨parsed ⟨type⟩ (rest.take (payloadSize ⟨type⟩).toNat), ?_, rest.drop (payloadSize ⟨type⟩).toNat,
      ?_⟩
    · rw [parsed_type]
      exact named
    · rw [there, parsed_serialize length, List.cons_append, List.take_append_drop]

theorem not_completeAt_nil (empty : data.bytes.drop pos.toNat = []) : ¬ CompleteAt data pos := by
  rintro ⟨escrow, _, back, written⟩
  rw [empty, serialize, List.cons_append] at written
  cases written

/-- What is not whole is read as the default of its type. -/
theorem deserialize_incomplete {type : UInt8} {rest : Bytes}
    (there : data.bytes.drop pos.toNat = type :: rest) (incomplete : ¬ CompleteAt data pos) :
    ∃ after, deserialize data pos = some (ofType ⟨type⟩, after) := by
  rw [completeAt_iff there] at incomplete
  obtain ⟨_, within, payload, decoded⟩ := deserialize_cons there
  rw [decoded]
  rcases deserializePayload_cases within ⟨type⟩ with ⟨enough, found⟩ | ⟨_, missing⟩
  · rw [payload] at enough
    have unnamed : (⟨type⟩ : EscrowType) ∉ EscrowType.named := fun named => incomplete ⟨named, enough⟩
    rw [parsed_unnamed unnamed] at found
    exact ⟨_, found⟩
  · exact ⟨_, missing⟩

/-- An escrow comes back, and no time and no preimage release it. -/
def FailsSafe (data : ByteVector) (pos : UInt64) : Prop :=
  ∃ escrow after, deserialize data pos = some (escrow, after) ∧
    ∀ currentTime preimage, escrow.isReleasable currentTime preimage = false

/-- The default of a type is out of reach when it needs a preimage that does not exist. -/
theorem ofType_safe_iff (type : EscrowType) :
    (∀ currentTime preimage, (ofType type).isReleasable currentTime preimage = false) ↔
      type ≠ .timeLocked ∧
        (type ∈ EscrowType.named → ∀ preimage : Preimage, SHA256.hash256 preimage.bytes ≠ zeroHash) := by
  rcases type_cases type with rfl | rfl | rfl | unnamed
  · refine iff_of_false (fun safe => ?_) fun both => both.1 rfl
    exact absurd (safe 0 none) (by rw [isReleasable_timeLocked rfl]; decide)
  · have released (currentTime : UInt64) (preimage : Option Preimage) :
        (ofType .hashLocked).isReleasable currentTime preimage =
          preimage.any HashLockEscrow.new.verifyPreimage :=
      isReleasable_hashLocked rfl currentTime preimage
    constructor
    · intro safe
      refine ⟨by decide, fun _ preimage same => ?_⟩
      have refused := (released 0 (some preimage)).symm.trans (safe 0 (some preimage))
      exact of_decide_eq_false refused same
    · intro both currentTime preimage
      rw [released]
      cases preimage with
      | none => rfl
      | some preimage => exact decide_eq_false (both.2 (by decide) preimage)
  · have released (currentTime : UInt64) (preimage : Option Preimage) :
        (ofType .conditional).isReleasable currentTime preimage =
          ConditionalEscrow.new.isReleasable currentTime preimage :=
      isReleasable_conditional rfl currentTime preimage
    have started (currentTime : UInt64) : ¬ currentTime < ConditionalEscrow.new.locktime :=
      UInt64.not_lt.mpr UInt64.zero_le
    constructor
    · intro safe
      refine ⟨by decide, fun _ preimage same => ?_⟩
      have refused := (released 0 (some preimage)).symm.trans (safe 0 (some preimage))
      rw [ConditionalEscrow.isReleasable, if_neg (started 0)] at refused
      exact of_decide_eq_false refused same
    · intro both currentTime preimage
      rw [released]
      cases preimage with
      | none => rw [ConditionalEscrow.isReleasable, if_neg (started currentTime)]
      | some preimage =>
          rw [ConditionalEscrow.isReleasable, if_neg (started currentTime)]
          exact decide_eq_false (both.2 (by decide) preimage)
  · exact iff_of_true (fun currentTime preimage => isReleasable_unnamed unnamed currentTime preimage)
      ⟨(unnamed_iff.mp unnamed).1, fun named => absurd named unnamed⟩

/-- What is written is read back, and what is not whole is never released. -/
def DecodesSafely (data : ByteVector) (pos : UInt64) : Prop :=
  (∀ (escrow : Escrow) (back : Bytes), data.bytes.drop pos.toNat = escrow.serialize ++ back →
    ∃ other after, deserialize data pos = some (other, after) ∧
      after.toNat = pos.toNat + escrow.serialize.length ∧
      ∀ currentTime preimage, other.isReleasable currentTime preimage =
        escrow.isReleasable currentTime preimage) ∧
  (¬ CompleteAt data pos → FailsSafe data pos)

end Decoding

/-- Decoding is safe at a position exactly when a whole escrow is there, or a type byte other
than the time lock's; where a hash or conditional escrow is cut off, exactly when no preimage
hashes to zero. -/
theorem decodesSafely_iff (data : ByteVector) (pos : UInt64) :
    DecodesSafely data pos ↔ CompleteAt data pos ∨
      ∃ type rest, data.bytes.drop pos.toNat = type :: rest ∧ (⟨type⟩ : EscrowType) ≠ .timeLocked ∧
        ((⟨type⟩ : EscrowType) ∈ EscrowType.named →
          ∀ preimage : Preimage, SHA256.hash256 preimage.bytes ≠ zeroHash) := by
  rw [DecodesSafely, and_iff_right fun escrow back there => escrow.deserialize_serialize there]
  by_cases complete : CompleteAt data pos
  · exact iff_of_true (absurd complete) (.inl complete)
  · rw [or_iff_right complete, FailsSafe]
    simp only [complete, not_false_iff, true_imp_iff]
    cases there : data.bytes.drop pos.toNat with
    | nil =>
        refine iff_of_false ?_ (by rintro ⟨_, _, ⟨⟩, _⟩)
        rintro ⟨escrow, after, decoded, safe⟩
        rcases deserialize_nil there with default | outside
        · obtain ⟨rfl, rfl⟩ := Prod.mk.inj (Option.some.inj (default.symm.trans decoded))
          exact ((ofType_safe_iff .timeLocked).mp safe).1 rfl
        · cases outside.symm.trans decoded
    | cons type rest =>
        obtain ⟨after, decoded⟩ := deserialize_incomplete there complete
        constructor
        · rintro ⟨escrow, after', again, safe⟩
          obtain ⟨rfl, _⟩ := Prod.mk.inj (Option.some.inj (decoded.symm.trans again))
          exact ⟨type, rest, rfl, (ofType_safe_iff ⟨type⟩).mp safe⟩
        · rintro ⟨_, _, ⟨⟩, conditions⟩
          exact ⟨_, after, decoded, (ofType_safe_iff ⟨type⟩).mpr conditions⟩

/-- No bytes at all decode to an escrow that anyone can release at once. -/
theorem empty_not_decodesSafely : ¬ ∀ data pos, DecodesSafely data pos := by
  intro all
  rcases (all .empty 0).2 (not_completeAt_nil rfl) with ⟨escrow, after, decoded, safe⟩
  have default : deserialize .empty 0 = some (new, 0) := by decide
  obtain ⟨rfl, rfl⟩ := Prod.mk.inj (Option.some.inj (default.symm.trans decoded))
  exact absurd (safe 0 none) (by decide)

end Escrow

end Parthenon.Settlement
