import Parthenon.P2p.Message
import Parthenon.Primitives.Block

namespace Parthenon.P2p

open Parthenon.Library Parthenon.Crypto Parthenon.Primitives

/-! # Messages come back

Each decoder takes exactly what the encoder writes of a message within the
limits.  One message is then never the beginning of another, so an input that
ends early is refused.
-/

theorem readCompactSizeChecked_parses :
    Reader.Parses readCompactSizeChecked writeCompactSize (· < 2 ^ 64) :=
  Block.readCompactSizeChecked_parses

theorem readString_parses {most : Nat} (word : most < 2 ^ 64) :
    Reader.Parses (readString most) writeString (·.length ≤ most) := by
  intro input string rest
  constructor
  · intro accepted
    obtain ⟨size, afterSize, sized, tail⟩ := Reader.bind_ok.mp accepted
    obtain ⟨rfl, _⟩ := (readCompactSizeChecked_parses _ _ _).mp sized
    split at tail
    · exact absurd tail throw_ne_ok
    · rename_i few
      obtain ⟨rfl, rfl⟩ := Reader.take_ok.mp tail
      exact ⟨(List.append_assoc _ _ _).symm, Nat.le_of_not_lt few⟩
  · intro ⟨written, few⟩
    rw [written, writeString, List.append_assoc]
    refine Reader.bind_ok.mpr ⟨string.length, string ++ rest, ?_, ?_⟩
    · exact (readCompactSizeChecked_parses _ _ _).mpr ⟨rfl, Nat.lt_of_le_of_lt few word⟩
    · rw [if_neg (Nat.not_lt.mpr few)]
      exact Reader.take_append Fault.nullopt string rest

theorem port_bytes (port : UInt16) :
    UInt16.ofNat (((UInt8.ofNat (port.toNat >>> 8)).toNat <<< 8) + (UInt8.ofNat port.toNat).toNat) =
      port := by
  have small := port.toNat_lt
  apply UInt16.toNat_inj.mp
  simp only [UInt16.toNat_ofNat', UInt8.toNat_ofNat', Nat.shiftLeft_eq, Nat.shiftRight_eq_div_pow]
  omega

theorem port_of_bytes (high low : UInt8) :
    [UInt8.ofNat ((UInt16.ofNat ((high.toNat <<< 8) + low.toNat)).toNat >>> 8),
      UInt8.ofNat (UInt16.ofNat ((high.toNat <<< 8) + low.toNat)).toNat] = [high, low] := by
  have highSmall := high.toNat_lt
  have lowSmall := low.toNat_lt
  have value : (UInt16.ofNat ((high.toNat <<< 8) + low.toNat)).toNat =
      high.toNat * 256 + low.toNat := by
    rw [UInt16.toNat_ofNat', Nat.shiftLeft_eq]
    omega
  have highByte : UInt8.ofNat ((high.toNat * 256 + low.toNat) >>> 8) = high := by
    apply UInt8.toNat_inj.mp
    rw [UInt8.toNat_ofNat', Nat.shiftRight_eq_div_pow]
    omega
  have lowByte : UInt8.ofNat (high.toNat * 256 + low.toNat) = low := by
    apply UInt8.toNat_inj.mp
    rw [UInt8.toNat_ofNat']
    omega
  rw [value, highByte, lowByte]

/-- Without the time, only an address of time zero comes back. -/
theorem NetAddr.deserialize_parses (includeTime : Bool) :
    Reader.Parses (deserialize includeTime) (serialize includeTime)
      fun addr => includeTime = false → addr.time = 0 := by
  intro input addr rest
  constructor
  · intro accepted
    obtain ⟨time, afterTime, timeRead, tail⟩ := Reader.bind_ok.mp accepted
    obtain ⟨services, afterServices, servicesRead, tail⟩ := Reader.bind_ok.mp tail
    obtain ⟨ip, afterIp, ipRead, tail⟩ := Reader.bind_ok.mp tail
    obtain ⟨high, afterHigh, highRead, tail⟩ := Reader.bind_ok.mp tail
    obtain ⟨low, afterLow, lowRead, done⟩ := Reader.bind_ok.mp tail
    obtain rfl := readUInt64_ok.mp servicesRead
    obtain rfl := Reader.takeFixed_ok.mp ipRead
    obtain rfl := readByte_ok.mp highRead
    obtain rfl := readByte_ok.mp lowRead
    cases done
    have bytes := port_of_bytes high low
    cases includeTime with
    | true =>
        obtain rfl := readUInt32_ok.mp timeRead
        refine ⟨?_, nofun⟩
        simp only [serialize, bytes]
        simp
    | false =>
        cases timeRead
        refine ⟨?_, fun _ => rfl⟩
        simp only [serialize, bytes]
        simp
  · intro ⟨written, timeless⟩
    have timeRead : (if includeTime then readUInt32 else pure 0 : Read UInt32) input = .ok (addr.time,
        littleEndian 8 addr.services.toNat ++ (addr.ip.bytes ++
          (UInt8.ofNat (addr.port.toNat >>> 8) :: UInt8.ofNat addr.port.toNat :: rest))) := by
      cases includeTime with
      | true =>
          refine readUInt32_ok.mpr (written.trans ?_)
          simp [serialize]
      | false =>
          rw [timeless rfl, written]
          simp [serialize]
    refine Reader.bind_ok.mpr ⟨_, _, timeRead, ?_⟩
    refine Reader.bind_ok.mpr ⟨_, _, readUInt64_ok.mpr rfl, ?_⟩
    refine Reader.bind_ok.mpr ⟨_, _, Reader.takeFixed_ok.mpr rfl, ?_⟩
    refine Reader.bind_ok.mpr ⟨_, _, readByte_ok.mpr rfl, ?_⟩
    refine Reader.bind_ok.mpr ⟨_, _, readByte_ok.mpr rfl, ?_⟩
    rw [port_bytes]
    rfl

namespace VersionMessage

def WithinLimits (message : VersionMessage) : Prop := message.userAgent.length ≤ 256

/-- The message without what it does not carry. -/
def received (message : VersionMessage) : VersionMessage :=
  { message with
    addrRecv := { message.addrRecv with time := 0 }
    addrFrom := { message.addrFrom with time := 0 } }

theorem received_serializeFields (message : VersionMessage) :
    message.received.serializeFields = message.serializeFields := rfl

theorem readFields_parses : Reader.Parses readFields serializeFields fun message =>
    message.WithinLimits ∧ message.addrRecv.time = 0 ∧ message.addrFrom.time = 0 ∧
      message.relay = true := by
  intro input message rest
  have addr := NetAddr.deserialize_parses false
  have string := readString_parses (by decide : 256 < 2 ^ 64)
  constructor
  · intro accepted
    obtain ⟨version, afterVersion, versionRead, tail⟩ := Reader.bind_ok.mp accepted
    obtain ⟨services, afterServices, servicesRead, tail⟩ := Reader.bind_ok.mp tail
    obtain ⟨timestamp, afterTimestamp, timestampRead, tail⟩ := Reader.bind_ok.mp tail
    obtain ⟨addrRecv, afterRecv, recvRead, tail⟩ := Reader.bind_ok.mp tail
    obtain ⟨addrFrom, afterFrom, fromRead, tail⟩ := Reader.bind_ok.mp tail
    obtain ⟨nonce, afterNonce, nonceRead, tail⟩ := Reader.bind_ok.mp tail
    obtain ⟨userAgent, afterAgent, agentRead, tail⟩ := Reader.bind_ok.mp tail
    obtain ⟨startHeight, afterHeight, heightRead, done⟩ := Reader.bind_ok.mp tail
    obtain rfl := readUInt32_ok.mp versionRead
    obtain rfl := readUInt64_ok.mp servicesRead
    obtain rfl := readUInt64_ok.mp timestampRead
    obtain ⟨rfl, recvTimeless⟩ := (addr _ _ _).mp recvRead
    obtain ⟨rfl, fromTimeless⟩ := (addr _ _ _).mp fromRead
    obtain rfl := readUInt64_ok.mp nonceRead
    obtain ⟨rfl, short⟩ := (string _ _ _).mp agentRead
    obtain rfl := readUInt32_ok.mp heightRead
    cases done
    refine ⟨?_, short, recvTimeless rfl, fromTimeless rfl, rfl⟩
    simp [serializeFields]
  · intro ⟨written, short, recvTimeless, fromTimeless, relays⟩
    rw [written]
    simp only [serializeFields, List.append_assoc]
    refine Reader.bind_ok.mpr ⟨_, _, readUInt32_ok.mpr rfl, ?_⟩
    refine Reader.bind_ok.mpr ⟨_, _, readUInt64_ok.mpr rfl, ?_⟩
    refine Reader.bind_ok.mpr ⟨_, _, readUInt64_ok.mpr rfl, ?_⟩
    refine Reader.bind_ok.mpr ⟨_, _, (addr _ _ _).mpr ⟨rfl, fun _ => recvTimeless⟩, ?_⟩
    refine Reader.bind_ok.mpr ⟨_, _, (addr _ _ _).mpr ⟨rfl, fun _ => fromTimeless⟩, ?_⟩
    refine Reader.bind_ok.mpr ⟨_, _, readUInt64_ok.mpr rfl, ?_⟩
    refine Reader.bind_ok.mpr ⟨_, _, (string _ _ _).mpr ⟨rfl, short⟩, ?_⟩
    refine Reader.bind_ok.mpr ⟨_, _, readUInt32_ok.mpr rfl, ?_⟩
    simp only [← relays, Reader.pure_apply]
    rfl

theorem serializeFields_length (message : VersionMessage) :
    85 ≤ message.serializeFields.length := by
  have string := writeCompactSize_length_pos message.userAgent.length
  simp only [serializeFields, NetAddr.serialize, writeString, List.length_append,
    littleEndian_length, FixedBytes.length_eq, Bool.false_eq_true, if_false, List.length_nil,
    List.length_cons]
  omega

/-- The relay byte may be left out. -/
theorem deserialize_ok {data : Bytes} {message : VersionMessage} :
    deserialize data = .ok message ↔ ∃ fields rest, readFields data = .ok (fields, rest) ∧
      ((rest = [] ∧ message = fields) ∨
        ∃ relay, rest = [relay] ∧ message = { fields with relay := relay ≠ 0 }) := by
  rw [deserialize]
  cases outcome : readFields data with
  | error fault =>
      constructor
      · intro accepted
        split at accepted
        · contradiction
        · contradiction
      · rintro ⟨_, _, read, -⟩
        cases read
  | ok step =>
      obtain ⟨fields, rest⟩ := step
      have long : ¬ data.length < 85 := by
        obtain ⟨written, _⟩ := (readFields_parses _ _ _).mp outcome
        have least := serializeFields_length fields
        rw [written, List.length_append]
        omega
      rw [if_neg long]
      constructor
      · intro accepted
        refine ⟨fields, rest, rfl, ?_⟩
        cases rest with
        | nil =>
            cases accepted
            exact .inl ⟨rfl, rfl⟩
        | cons relay more =>
            cases more with
            | nil =>
                cases accepted
                exact .inr ⟨relay, rfl, rfl⟩
            | cons => cases accepted
      · rintro ⟨same, _, read, ending⟩
        cases read
        rcases ending with ⟨rfl, rfl⟩ | ⟨relay, rfl, rfl⟩
        · rfl
        · rfl

theorem readFields_received {message : VersionMessage} (limits : message.WithinLimits)
    (rest : Bytes) : readFields (message.serializeFields ++ rest) =
      .ok ({ message.received with relay := true }, rest) :=
  (readFields_parses _ _ _).mpr ⟨rfl, limits, rfl, rfl, rfl⟩

theorem deserialize_serialize {message : VersionMessage} (limits : message.WithinLimits) :
    deserialize message.serialize = .ok message.received := by
  refine deserialize_ok.mpr ⟨_, _, readFields_received limits _, .inr ⟨_, rfl, ?_⟩⟩
  cases message with
  | mk version services timestamp addrRecv addrFrom nonce userAgent startHeight relay =>
      cases relay with
      | true => rfl
      | false => rfl

/-- Only the relay byte can be missing. -/
theorem rejects_early {message : VersionMessage} (limits : message.WithinLimits) {input : Bytes}
    (early : EndsEarly input message.serialize) (more : input ≠ message.serializeFields)
    (other : VersionMessage) : deserialize input ≠ .ok other := by
  intro accepted
  obtain ⟨missing, someMissing, same⟩ := early
  obtain ⟨fields, rest, read, _⟩ := deserialize_ok.mp accepted
  obtain ⟨written, fieldsValid⟩ := (readFields_parses _ _ _).mp read
  have longer : readFields (fields.serializeFields ++ (rest ++ missing)) =
      .ok (fields, rest ++ missing) := (readFields_parses _ _ _).mpr ⟨rfl, fieldsValid⟩
  rw [← List.append_assoc, ← written, same, serialize, readFields_received limits] at longer
  obtain ⟨sameFields, ending⟩ := Prod.mk.inj (Except.ok.inj longer)
  cases rest with
  | nil =>
      rw [← sameFields, List.append_nil] at written
      exact more written
  | cons byte rest =>
      have lengths := congrArg List.length ending
      have some := List.length_pos_of_ne_nil someMissing
      simp only [List.length_append, List.length_cons, List.length_nil] at lengths
      omega

end VersionMessage

theorem PingPongMessage.deserialize_serialize (message : PingPongMessage) :
    deserialize message.serialize = .ok message := by
  have read : readUInt64 message.serialize = .ok (message.nonce, []) :=
    readUInt64_ok.mpr (List.append_nil _).symm
  rw [deserialize, read, if_neg (by simp [serialize])]
  rfl

theorem InvVect.deserialize_parses :
    Reader.Parses deserialize serialize fun _ => True := by
  intro input inv rest
  constructor
  · intro accepted
    obtain ⟨type, afterType, typeRead, tail⟩ := Reader.bind_ok.mp accepted
    obtain ⟨hash, afterHash, hashRead, done⟩ := Reader.bind_ok.mp tail
    obtain rfl := readUInt32_ok.mp typeRead
    obtain rfl := Reader.takeFixed_ok.mp hashRead
    cases done
    exact ⟨(List.append_assoc _ _ _).symm, trivial⟩
  · intro ⟨written, _⟩
    rw [written, serialize, List.append_assoc]
    refine Reader.bind_ok.mpr ⟨_, _, readUInt32_ok.mpr rfl, ?_⟩
    exact Reader.bind_ok.mpr ⟨_, _, Reader.takeFixed_ok.mpr rfl, rfl⟩

namespace InvMessage

def WithinLimits (message : InvMessage) : Prop := message.inventory.length ≤ maxInvSize

/-- The reader without the second bound on the count. -/
def readList : Read InvMessage := do
  let inventory ← readCounted readCompactSizeChecked maxInvSize InvVect.deserialize
  pure { inventory }

theorem readList_parses : Reader.Parses readList serialize WithinLimits := by
  intro input message rest
  have list := readCounted_parses (by decide : maxInvSize < 2 ^ 64) InvVect.deserialize_parses
  refine (list.map mk inventory (fun _ => rfl) (fun _ => rfl) input message rest).trans ?_
  exact and_congr_right fun _ => and_iff_left fun _ _ => trivial

theorem serialize_length (message : InvMessage) :
    message.inventory.length * 36 ≤ message.serialize.length := by
  have each : message.inventory.map (fun inv => inv.serialize.length) =
      List.replicate message.inventory.length 36 := by
    rw [List.eq_replicate_iff]
    refine ⟨List.length_map _, ?_⟩
    intro length member
    obtain ⟨inv, _, rfl⟩ := List.mem_map.mp member
    simp [InvVect.serialize, FixedBytes.length_eq]
  rw [serialize, List.length_append, List.length_flatMap, each, List.sum_replicate_nat]
  omega

/-- The second bound on the count refuses nothing that is long enough. -/
theorem readFields_ok {data : Bytes} {message : InvMessage} :
    readFields data.length data = .ok (message, []) ↔ readList data = .ok (message, []) := by
  constructor
  · intro accepted
    obtain ⟨count, afterCount, counted, tail⟩ := Reader.bind_ok.mp accepted
    split at tail
    · exact absurd tail throw_ne_ok
    · rename_i few
      obtain ⟨inventory, afterAll, manyRead, done⟩ := Reader.bind_ok.mp tail
      have few : count ≤ maxInvSize := Nat.le_of_not_lt fun many => few (.inl many)
      exact Reader.bind_ok.mpr
        ⟨inventory, afterAll, readCounted_ok.mpr ⟨count, afterCount, counted, few, manyRead⟩, done⟩
  · intro accepted
    obtain ⟨written, _⟩ := (readList_parses _ _ _).mp accepted
    obtain ⟨inventory, afterAll, listRead, done⟩ := Reader.bind_ok.mp accepted
    obtain ⟨count, afterCount, counted, few, manyRead⟩ := readCounted_ok.mp listRead
    have length := Reader.many_length manyRead
    cases done
    have long := serialize_length { inventory }
    rw [List.append_nil] at written
    rw [← written] at long
    refine Reader.bind_ok.mpr ⟨count, afterCount, counted, ?_⟩
    rw [if_neg (by simp only at long; omega)]
    exact Reader.bind_ok.mpr ⟨inventory, [], manyRead, rfl⟩

theorem deserialize_decodes : Decodes deserialize serialize WithinLimits := by
  intro data message
  rw [deserialize, Reader.whole_ok, readFields_ok, readList_parses, List.append_nil]

end InvMessage

namespace AddrMessage

def WithinLimits (message : AddrMessage) : Prop := message.addresses.length ≤ maxAddrToSend

theorem readFields_parses : Reader.Parses readFields serialize WithinLimits := by
  intro input message rest
  have list := readCounted_parses (by decide : maxAddrToSend < 2 ^ 64) (NetAddr.deserialize_parses true)
  refine (list.map mk addresses (fun _ => rfl) (fun _ => rfl) input message rest).trans ?_
  exact and_congr_right fun _ => and_iff_left fun _ _ => nofun

end AddrMessage

namespace GetHeadersMessage

def WithinLimits (message : GetHeadersMessage) : Prop :=
  message.blockLocatorHashes.length ≤ maxHeadersCount

theorem hash_parses : Reader.Parses (Reader.takeFixed Fault.nullopt 32)
    (FixedBytes.bytes : Hash → Bytes) fun _ => True := by
  intro input hash rest
  rw [Reader.takeFixed_ok, and_iff_left trivial]

theorem hashes_length (hashes : List Hash) :
    (hashes.flatMap FixedBytes.bytes).length = hashes.length * 32 := by
  induction hashes with
  | nil => rfl
  | cons hash rest ih =>
      rw [List.flatMap_cons, List.length_append, hash.length_eq, ih, List.length_cons]
      omega

theorem readFields_parses : Reader.Parses readFields serialize WithinLimits := by
  intro input message rest
  constructor
  · intro accepted
    obtain ⟨version, afterVersion, versionRead, countTail⟩ := Reader.bind_ok.mp accepted
    obtain ⟨count, afterCount, counted, boundTail⟩ := Reader.bind_ok.mp countTail
    obtain rfl := readUInt32_ok.mp versionRead
    obtain ⟨rfl, _⟩ := (readCompactSizeChecked_parses _ _ _).mp counted
    split at boundTail
    · exact absurd boundTail throw_ne_ok
    · rename_i few
      obtain ⟨remaining, afterGet, got, enoughTail⟩ := Reader.bind_ok.mp boundTail
      split at enoughTail
      · exact absurd enoughTail throw_ne_ok
      · obtain ⟨hashes, afterHashes, hashesRead, stopTail⟩ := Reader.bind_ok.mp enoughTail
        obtain ⟨hashStop, afterStop, stopRead, done⟩ := Reader.bind_ok.mp stopTail
        cases got
        obtain ⟨rfl, rfl, _⟩ := (hash_parses.many count _ _ _).mp hashesRead
        obtain rfl := Reader.takeFixed_ok.mp stopRead
        cases done
        refine ⟨?_, Nat.le_of_not_lt few⟩
        simp [serialize]
  · intro ⟨written, few⟩
    have few : message.blockLocatorHashes.length ≤ maxHeadersCount := few
    have word : message.blockLocatorHashes.length < 2 ^ 64 :=
      Nat.lt_of_le_of_lt few (by decide)
    rw [written]
    simp only [serialize, List.append_assoc]
    refine Reader.bind_ok.mpr ⟨_, _, readUInt32_ok.mpr rfl, ?_⟩
    refine Reader.bind_ok.mpr ⟨_, _, (readCompactSizeChecked_parses _ _ _).mpr ⟨rfl, word⟩, ?_⟩
    rw [if_neg (Nat.not_lt.mpr few)]
    refine Reader.bind_ok.mpr ⟨_, _, rfl, ?_⟩
    have long : ¬ (message.blockLocatorHashes.flatMap FixedBytes.bytes ++
        (message.hashStop.bytes ++ rest)).length < message.blockLocatorHashes.length * 32 + 32 := by
      rw [List.length_append, List.length_append, hashes_length, message.hashStop.length_eq]
      omega
    rw [if_neg long]
    refine Reader.bind_ok.mpr
      ⟨_, _, (hash_parses.many _ _ _ _).mpr ⟨rfl, rfl, fun _ _ => trivial⟩, ?_⟩
    exact Reader.bind_ok.mpr ⟨_, _, Reader.takeFixed_ok.mpr rfl, rfl⟩

theorem serialize_length (message : GetHeadersMessage) : 37 ≤ message.serialize.length := by
  have size := writeCompactSize_length_pos message.blockLocatorHashes.length
  simp only [serialize, List.length_append, littleEndian_length, FixedBytes.length_eq]
  omega

theorem deserialize_decodes : Decodes deserialize serialize WithinLimits := by
  intro data message
  have fields := readFields_parses.whole Fault.nullopt data message
  by_cases short : data.length < 37
  · rw [deserialize, if_pos short]
    refine ⟨nofun, fun ⟨written, _⟩ => ?_⟩
    have long := serialize_length message
    rw [← written] at long
    omega
  · rw [deserialize, if_neg short]
    exact fields

end GetHeadersMessage

namespace HeadersMessage

def WithinLimits (message : HeadersMessage) : Prop := message.headers.length ≤ maxHeadersCount

theorem readHeader_parses : Reader.Parses readHeader serializeHeader fun _ => True := by
  intro input header rest
  constructor
  · intro accepted
    obtain ⟨other, afterHeader, headerRead, countTail⟩ := Reader.bind_ok.mp accepted
    obtain ⟨txCount, afterCount, counted, zeroTail⟩ := Reader.bind_ok.mp countTail
    obtain rfl := BlockHeader.deserialize_ok.mp headerRead
    obtain ⟨rfl, _⟩ := (readCompactSizeChecked_parses _ _ _).mp counted
    split at zeroTail
    · exact absurd zeroTail throw_ne_ok
    · rename_i zero
      obtain rfl := not_not.mp zero
      cases zeroTail
      exact ⟨(List.append_assoc _ _ _).symm, trivial⟩
  · intro ⟨written, _⟩
    rw [written, serializeHeader, List.append_assoc]
    refine Reader.bind_ok.mpr ⟨_, _, BlockHeader.deserialize_ok.mpr rfl, ?_⟩
    exact Reader.bind_ok.mpr
      ⟨_, _, (readCompactSizeChecked_parses _ _ _).mpr ⟨rfl, by decide⟩, rfl⟩

theorem readFields_parses : Reader.Parses readFields serialize WithinLimits := by
  intro input message rest
  have list := readCounted_parses (by decide : maxHeadersCount < 2 ^ 64) readHeader_parses
  refine (list.map mk headers (fun _ => rfl) (fun _ => rfl) input message rest).trans ?_
  exact and_congr_right fun _ => and_iff_left fun _ _ => trivial

end HeadersMessage

namespace RejectMessage

def WithinLimits (message : RejectMessage) : Prop :=
  message.message.length ≤ maxRejectMessageLength ∧ message.reason.length ≤ maxRejectMessageLength

theorem deserialize_serialize {message : RejectMessage} (limits : message.WithinLimits) :
    deserialize message.serialize = .ok message := by
  have string := readString_parses (by decide : maxRejectMessageLength < 2 ^ 64)
  have messageRead : readString maxRejectMessageLength message.serialize =
      .ok (message.message, message.ccode :: (writeString message.reason ++ message.data)) := by
    refine (string _ _ _).mpr ⟨?_, limits.1⟩
    simp [serialize]
  have codeRead : readByte (message.ccode :: (writeString message.reason ++ message.data)) =
      .ok (message.ccode, writeString message.reason ++ message.data) := readByte_ok.mpr rfl
  have reasonRead : readString maxRejectMessageLength (writeString message.reason ++ message.data) =
      .ok (message.reason, message.data) := (string _ _ _).mpr ⟨rfl, limits.2⟩
  simp only [deserialize, messageRead, bind, Except.bind, codeRead, reasonRead]
  rfl

end RejectMessage

theorem BlockMessage.deserialize_serialize {message : BlockMessage}
    (limits : message.block.toBlock.WithinLimits) :
    deserialize message.serialize = .ok { block := message.block.toBlock.parsedObject } := by
  rw [deserialize, serialize, Block.deserialize_serialize limits]
  rfl

theorem TxMessage.deserialize_serialize {message : TxMessage} (limits : message.tx.WithinLimits) :
    deserialize message.serialize = .ok { tx := message.tx.parsedObject } := by
  have front := Transaction.deserialize_ok.mp (Transaction.deserialize_serialize limits)
  rw [deserialize, serialize, Reader.whole_ok.mpr front]
  rfl

/-- What a decoder makes of a message within the limits and of one that ends early. -/
theorem Decodes.comes_back {μ : Type} {decode : Bytes → Except Fault μ} {read : Read μ}
    {write : μ → Bytes} {valid : μ → Prop} (decodes : Decodes decode write valid)
    (parses : Reader.Parses read write valid) (message : μ) (limits : valid message) :
    decode (write message) = .ok message ∧
      ∀ input, EndsEarly input (write message) → ∀ other, decode input ≠ .ok other := by
  refine ⟨(decodes _ _).mpr ⟨rfl, limits⟩, ?_⟩
  intro input early other
  exact decodes.rejects_early parses limits early

/-- Every message comes back from the wire, and of the types with a fixed trailer
nothing that ends early is taken, a version message without its relay byte apart. -/
theorem messages_come_back :
    (∀ message : VersionMessage, message.WithinLimits →
      VersionMessage.deserialize message.serialize = .ok message.received ∧
      ∀ input, EndsEarly input message.serialize → input ≠ message.serialize.dropLast →
        ∀ other, VersionMessage.deserialize input ≠ .ok other) ∧
    (∀ message : PingPongMessage, PingPongMessage.deserialize message.serialize = .ok message) ∧
    (∀ message : InvMessage, message.WithinLimits →
      InvMessage.deserialize message.serialize = .ok message ∧
      ∀ input, EndsEarly input message.serialize →
        ∀ other, InvMessage.deserialize input ≠ .ok other) ∧
    (∀ message : AddrMessage, message.WithinLimits →
      AddrMessage.deserialize message.serialize = .ok message ∧
      ∀ input, EndsEarly input message.serialize →
        ∀ other, AddrMessage.deserialize input ≠ .ok other) ∧
    (∀ message : BlockMessage, message.block.toBlock.WithinLimits →
      ∃ other, BlockMessage.deserialize message.serialize = .ok other ∧
        other.block.toBlock = message.block.toBlock) ∧
    (∀ message : TxMessage, message.tx.WithinLimits →
      ∃ other, TxMessage.deserialize message.serialize = .ok other ∧
        other.tx.toTransaction = message.tx.toTransaction) ∧
    (∀ message : GetHeadersMessage, message.WithinLimits →
      GetHeadersMessage.deserialize message.serialize = .ok message ∧
      ∀ input, EndsEarly input message.serialize →
        ∀ other, GetHeadersMessage.deserialize input ≠ .ok other) ∧
    (∀ message : HeadersMessage, message.WithinLimits →
      HeadersMessage.deserialize message.serialize = .ok message ∧
      ∀ input, EndsEarly input message.serialize →
        ∀ other, HeadersMessage.deserialize input ≠ .ok other) ∧
    (∀ message : RejectMessage, message.WithinLimits →
      RejectMessage.deserialize message.serialize = .ok message) := by
  refine ⟨?_, PingPongMessage.deserialize_serialize, ?_, ?_, ?_, ?_, ?_, ?_, ?_⟩
  · intro message limits
    refine ⟨VersionMessage.deserialize_serialize limits, ?_⟩
    intro input early more other
    rw [VersionMessage.serialize, List.dropLast_concat] at more
    exact VersionMessage.rejects_early limits early more other
  · exact Decodes.comes_back InvMessage.deserialize_decodes InvMessage.readList_parses
  · exact Decodes.comes_back (AddrMessage.readFields_parses.whole _) AddrMessage.readFields_parses
  · intro message limits
    exact ⟨_, BlockMessage.deserialize_serialize limits, message.block.toBlock.parsedObject_toBlock⟩
  · intro message limits
    exact ⟨_, TxMessage.deserialize_serialize limits, rfl⟩
  · exact Decodes.comes_back GetHeadersMessage.deserialize_decodes
      GetHeadersMessage.readFields_parses
  · exact Decodes.comes_back (HeadersMessage.readFields_parses.whole _)
      HeadersMessage.readFields_parses
  · intro message limits
    exact RejectMessage.deserialize_serialize limits

/-- Messages that carry as little as they can. -/
theorem messages_come_back_smallest :
    let addr : NetAddr := { services := 1, ip := .zero 16, port := 8333, time := 7 }
    let version : VersionMessage := {
      version := 70001, services := 1, timestamp := -1, addrRecv := addr, addrFrom := addr,
      nonce := 5, userAgent := [], startHeight := 0, relay := false }
    let getHeaders : GetHeadersMessage :=
      { version := 70001, blockLocatorHashes := [], hashStop := zeroHash }
    VersionMessage.deserialize version.serialize = .ok version.received ∧
      (∀ input, EndsEarly input version.serialize → input ≠ version.serialize.dropLast →
        ∀ other, VersionMessage.deserialize input ≠ .ok other) ∧
      InvMessage.deserialize (InvMessage.serialize ⟨[]⟩) = .ok ⟨[]⟩ ∧
      AddrMessage.deserialize (AddrMessage.serialize ⟨[addr]⟩) = .ok ⟨[addr]⟩ ∧
      (∃ other, BlockMessage.deserialize
          (BlockMessage.serialize ⟨(Sample.block zeroHash zeroHash [Sample.coinbase []]).parsedObject⟩) =
            .ok other ∧
        other.block.toBlock = Sample.block zeroHash zeroHash [Sample.coinbase []]) ∧
      (∃ other, TxMessage.deserialize (TxMessage.serialize ⟨(Sample.coinbase []).parsedObject⟩) =
          .ok other ∧ other.tx.toTransaction = Sample.coinbase []) ∧
      GetHeadersMessage.deserialize getHeaders.serialize = .ok getHeaders ∧
      HeadersMessage.deserialize (HeadersMessage.serialize ⟨[]⟩) = .ok ⟨[]⟩ ∧
      RejectMessage.deserialize (RejectMessage.serialize ⟨[], 1, [], []⟩) = .ok ⟨[], 1, [], []⟩ := by
  intro addr version getHeaders
  obtain ⟨versions, _, invs, addrs, blocks, txs, getHeadersMessages, headers, rejects⟩ :=
    messages_come_back
  have blockLimits : (Sample.block zeroHash zeroHash [Sample.coinbase []]).WithinLimits :=
    ⟨⟨Nat.le_refl 1, (by decide : 1 ≤ 1000000)⟩,
      List.forall_mem_singleton.mpr ⟨(by decide : 1 ≤ 100000), Nat.zero_le _⟩⟩
  exact ⟨(versions version (Nat.zero_le _)).1, (versions version (Nat.zero_le _)).2,
    (invs ⟨[]⟩ (Nat.zero_le _)).1, (addrs ⟨[addr]⟩ (by decide : 1 ≤ 1000)).1,
    blocks ⟨(Sample.block zeroHash zeroHash [Sample.coinbase []]).parsedObject⟩ blockLimits,
    txs ⟨(Sample.coinbase []).parsedObject⟩ ⟨(by decide : 1 ≤ 100000), Nat.zero_le _⟩,
    (getHeadersMessages getHeaders (Nat.zero_le _)).1, (headers ⟨[]⟩ (Nat.zero_le _)).1,
    rejects ⟨[], 1, [], []⟩ ⟨Nat.zero_le _, Nat.zero_le _⟩⟩

end Parthenon.P2p
