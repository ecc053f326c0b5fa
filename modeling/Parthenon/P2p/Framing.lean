import Parthenon.P2p.PeerConnection

namespace Parthenon.P2p

open Parthenon.Library Parthenon.Crypto Parthenon.Primitives
open Parthenon.Storage (text)

/-! # Framing

What a connection dispatches of the frames sent to it, however the stream is cut
into reads.  The buffer and the bytes still on the wire are together the frames
not yet dispatched; one call of `ReceiveMessage` reads on or takes the first of them.
-/

/-- A header and the payload behind it. -/
abbrev Frame := MessageHeader × Bytes

namespace Frame

def bytes (frame : Frame) : Bytes := frame.1.serialize ++ frame.2

def Intact (frame : Frame) : Prop := calculateChecksum frame.2 = frame.1.checksum

instance (frame : Frame) : Decidable frame.Intact :=
  inferInstanceAs (Decidable (calculateChecksum frame.2 = frame.1.checksum))

/-- The parser of the command gives a message or gives up, it does not throw. -/
def Returns (frame : Frame) : Prop := (parsePayload frame.1.commandText frame.2).isSome = true

/-- A header that a connection accepts, in front of as many bytes as it states. -/
structure WellFormed (magic : UInt32) (frame : Frame) : Prop where
  valid : frame.1.isValid magic = true
  length : frame.1.length.toNat = frame.2.length
  terminated : MessageHeader.terminated frame.1.command = frame.1.command

end Frame

/-- The frame in what arrived of one message. -/
def frameOf (bytes : Bytes) : Option Frame :=
  match MessageHeader.deserialize bytes with
  | .error _ => none
  | .ok frame => some frame

/-- Only bytes of the payload change on the way. -/
def Corrupted (built arrived : Bytes) : Prop :=
  arrived.length = built.length ∧ arrived.take 24 = built.take 24

/-! ## Headers -/

theorem MessageHeader.serialize_length (header : MessageHeader) : header.serialize.length = 24 := by
  simp [serialize, FixedBytes.length_eq]

theorem MessageHeader.deserialize_serialize {header : MessageHeader}
    (terminated : MessageHeader.terminated header.command = header.command) (rest : Bytes) :
    deserialize (header.serialize ++ rest) = .ok (header, rest) := by
  simp only [serialize, List.append_assoc]
  refine Reader.bind_ok.mpr ⟨_, _, readUInt32_ok.mpr rfl, ?_⟩
  refine Reader.bind_ok.mpr ⟨_, _, Reader.takeFixed_ok.mpr rfl, ?_⟩
  refine Reader.bind_ok.mpr ⟨_, _, readUInt32_ok.mpr rfl, ?_⟩
  refine Reader.bind_ok.mpr ⟨_, _, readUInt32_ok.mpr rfl, ?_⟩
  rw [terminated]
  rfl

theorem commandField_terminated (command : Bytes) :
    MessageHeader.terminated (commandField command) = commandField command := by
  let characters := (command.takeWhile (· ≠ 0)).take 11
  have few : characters.length ≤ 11 := List.length_take_le _ _
  have last : (commandField command).bytes[11]? = some 0 := by
    change ((characters ++ List.replicate 12 0).take 12)[11]? = some 0
    rw [List.getElem?_take_of_lt (by decide), List.getElem?_append_right few,
      List.getElem?_replicate_of_lt (by omega)]
  apply FixedBytes.ext
  change (commandField command).bytes.set 11 0 = (commandField command).bytes
  apply List.ext_getElem?
  intro index
  rw [List.getElem?_set]
  by_cases here : 11 = index
  · rw [if_pos here, ← here, last, if_pos (by rw [(commandField command).length_eq]; decide)]
  · rw [if_neg here]

theorem messageHeader_wellFormed {magic : UInt32} {command payload arrived : Bytes}
    (short : payload.length ≤ maxMessageSize) (sameLength : arrived.length = payload.length) :
    Frame.WellFormed magic (messageHeader magic command payload, arrived) := by
  have small : payload.length ≤ 33554432 := short
  have length : (messageHeader magic command payload).length.toNat = payload.length :=
    UInt32.toNat_ofNat_of_lt' (show payload.length < 4294967296 by omega)
  refine ⟨?_, length.trans sameLength.symm, commandField_terminated command⟩
  rw [MessageHeader.isValid, Bool.and_eq_true, decide_eq_true_eq, decide_eq_true_eq]
  exact ⟨rfl, length.trans_le short⟩

theorem frameOf_bytes {magic : UInt32} {frame : Frame} (wellFormed : frame.WellFormed magic) :
    frameOf frame.bytes = some frame := by
  rw [frameOf, Frame.bytes, MessageHeader.deserialize_serialize wellFormed.terminated]

theorem frameOf_nil : frameOf [] = none := rfl

/-- A message that was not corrupted is the frame with its header and its payload. -/
theorem frameOf_createNetworkMessage {payload : Bytes} (short : payload.length ≤ maxMessageSize)
    (magic : UInt32) (command : Bytes) :
    frameOf (createNetworkMessage magic command payload) =
      some (messageHeader magic command payload, payload) := by
  have wellFormed : Frame.WellFormed magic (messageHeader magic command payload, payload) :=
    messageHeader_wellFormed short rfl
  have built : createNetworkMessage magic command payload =
      Frame.bytes (messageHeader magic command payload, payload) := by
    rw [createNetworkMessage, if_neg (Nat.not_lt.mpr short), Frame.bytes]
  rw [built, frameOf_bytes wellFormed]

/-- What arrives of a message is nothing, as it was sent, or a well-formed frame. -/
theorem arrived_cases {magic : UInt32} {command payload arrived : Bytes}
    (corrupted : Corrupted (createNetworkMessage magic command payload) arrived) :
    arrived = [] ∨ ∃ frame : Frame, frame.WellFormed magic ∧ arrived = frame.bytes := by
  obtain ⟨sameLength, sameHeader⟩ := corrupted
  by_cases long : payload.length > maxMessageSize
  · rw [createNetworkMessage, if_pos long, List.length_nil] at sameLength
    exact .inl (List.eq_nil_of_length_eq_zero sameLength)
  · rw [createNetworkMessage, if_neg long] at sameLength sameHeader
    let header := messageHeader magic command payload
    have headerLength : header.serialize.length = 24 := header.serialize_length
    have split : arrived = header.serialize ++ arrived.drop 24 := by
      rw [← headerLength, List.take_left, headerLength] at sameHeader
      rw [← sameHeader, List.take_append_drop]
    have length : (arrived.drop 24).length = payload.length := by
      rw [List.length_append, headerLength] at sameLength
      rw [List.length_drop]
      omega
    exact .inr ⟨(header, arrived.drop 24),
      messageHeader_wellFormed (Nat.le_of_not_lt long) length, split⟩

theorem arrived_frames {magic : UInt32} {messages : List (Bytes × Bytes)} {arrived : List Bytes}
    (corrupted : List.Forall₂ (fun message bytes =>
      Corrupted (createNetworkMessage magic message.1 message.2) bytes) messages arrived) :
    arrived.flatten = (arrived.filterMap frameOf).flatMap Frame.bytes ∧
      ∀ frame ∈ arrived.filterMap frameOf, frame.WellFormed magic := by
  induction corrupted with
  | nil => exact ⟨rfl, nofun⟩
  | @cons message bytes messages arrived here _ ih =>
      obtain ⟨stream, wellFormed⟩ := ih
      rcases arrived_cases here with rfl | ⟨frame, frameWellFormed, rfl⟩
      · rw [List.filterMap_cons_none frameOf_nil]
        exact ⟨stream, wellFormed⟩
      · rw [List.filterMap_cons_some (frameOf_bytes frameWellFormed), List.flatten_cons,
          List.flatMap_cons, stream]
        exact ⟨rfl, List.forall_mem_cons.mpr ⟨frameWellFormed, wellFormed⟩⟩

/-! ## One call -/

namespace Link

/-- The bytes received and not dispatched yet. -/
def stream (link : Link) : Bytes := link.connection.recvBuffer ++ link.wire

/-- Reading changes how much of the stream is in the buffer, and nothing else. -/
structure Kept (before after : Link) : Prop where
  stream : after.stream = before.stream
  wire : after.wire.length ≤ before.wire.length
  buffer : before.connection.recvBuffer.length ≤ after.connection.recvBuffer.length
  magic : after.connection.networkMagic = before.connection.networkMagic
  dispatched : after.dispatched = before.dispatched

theorem Kept.refl (link : Link) : Kept link link := ⟨rfl, Nat.le_refl _, Nat.le_refl _, rfl, rfl⟩

theorem Kept.trans {first second third : Link} (before : Kept first second)
    (after : Kept second third) : Kept first third :=
  ⟨after.stream.trans before.stream, Nat.le_trans after.wire before.wire,
    Nat.le_trans before.buffer after.buffer, after.magic.trans before.magic,
    after.dispatched.trans before.dispatched⟩

theorem receiveRaw_kept (link : Link) (bytes : Nat) (recv : Recv) :
    Kept link (link.receiveRaw bytes recv).2 := by
  cases recv with
  | failed => exact .refl link
  | closed => exact ⟨rfl, Nat.le_refl _, Nat.le_refl _, rfl, rfl⟩
  | upTo count =>
      refine ⟨?_, ?_, ?_, rfl, rfl⟩
      · simp [receiveRaw, stream]
      · simp [receiveRaw]
      · simp [receiveRaw]

theorem fill_kept (link : Link) (least bytes : Nat) (recv : Recv) :
    Kept link (link.fill least bytes recv).2 := by
  rw [fill]
  split
  · exact receiveRaw_kept link bytes recv
  · exact .refl link

/-- Reads that bring something as long as anything is there. -/
def Reads : Recv → Prop
  | .upTo count => 0 < count
  | _ => False

/-- A read that leaves too few bytes in the buffer has taken some from the wire. -/
theorem fill_reads {link : Link} {least bytes : Nat} {recv : Recv} (reads : Reads recv)
    (asks : 0 < bytes) :
    (link.fill least bytes recv).1 = true ∧
      ((link.fill least bytes recv).2.connection.recvBuffer.length < least → link.wire ≠ [] →
        (link.fill least bytes recv).2.wire.length < link.wire.length) := by
  cases recv with
  | failed => exact absurd reads id
  | closed => exact absurd reads id
  | upTo count =>
      have reads : 0 < count := reads
      rw [fill]
      split
      · refine ⟨rfl, fun _ some => ?_⟩
        have some := List.length_pos_of_ne_nil some
        simp only [receiveRaw, List.length_drop]
        omega
      · rename_i enough
        exact ⟨rfl, fun few => absurd few enough⟩

/-- What one call does: it reads on, or it passes the first frame to its parser,
which either takes it off the stream or throws and leaves it there.  Where the
reads bring something, reading on takes from the wire. -/
inductive Called (reading : Prop) (link : Link) (frames : List Frame) (after : Link) : Prop
  | quiet (kept : Kept link after)
      (reads : reading → frames ≠ [] → after.wire.length < link.wire.length)
  | took (frame : Frame) (rest : List Frame) (first : frames = frame :: rest)
      (returns : frame.Returns) (stream : after.stream = rest.flatMap Frame.bytes)
      (wire : after.wire.length ≤ link.wire.length)
      (magic : after.connection.networkMagic = link.connection.networkMagic)
      (dispatched : after.dispatched = link.dispatched ++ [frame])
  | threw (frame : Frame) (rest : List Frame) (first : frames = frame :: rest)
      (throws : ¬ frame.Returns) (stream : after.stream = link.stream)
      (wire : after.wire.length ≤ link.wire.length)
      (magic : after.connection.networkMagic = link.connection.networkMagic)
      (dispatched : after.dispatched = link.dispatched ++ [frame])

/-- The stream is made of frames that the connection accepts. -/
structure Carries (link : Link) (frames : List Frame) : Prop where
  stream : link.stream = frames.flatMap Frame.bytes
  wellFormed : ∀ frame ∈ frames, frame.WellFormed link.connection.networkMagic

theorem processMessage_cases (connection : PeerConnection) (frame : Frame) :
    (¬ frame.Returns ∧ connection.processMessage frame.1 frame.2 = none) ∨
    (frame.Returns ∧ ∃ event after,
      connection.processMessage frame.1 frame.2 = some (event, after) ∧
      after.recvBuffer = connection.recvBuffer ∧ after.networkMagic = connection.networkMagic) := by
  rw [Frame.Returns, PeerConnection.processMessage]
  cases parsePayload frame.1.commandText frame.2 with
  | none => exact .inl ⟨nofun, rfl⟩
  | some parsed =>
      refine .inr ⟨rfl, ?_⟩
      cases parsed with
      | none => exact ⟨none, connection, rfl, rfl, rfl⟩
      | some event =>
          refine ⟨_, _, rfl, ?_⟩
          cases event with
          | version message =>
              rw [PeerConnection.note]
              split
              · exact ⟨rfl, rfl⟩
              · exact ⟨rfl, rfl⟩
          | _ => exact ⟨rfl, rfl⟩

/-- The front of the stream, as far as it is in the buffer. -/
theorem buffer_split {link : Link} {front back : Bytes} (stream : link.stream = front ++ back)
    (enough : front.length ≤ link.connection.recvBuffer.length) :
    ∃ more, link.connection.recvBuffer = front ++ more ∧ more ++ link.wire = back := by
  have taken := congrArg (List.take front.length) stream
  have dropped := congrArg (List.drop front.length) stream
  rw [Link.stream, List.take_append_of_le_length enough, List.take_left] at taken
  rw [Link.stream, List.drop_append_of_le_length enough, List.drop_left] at dropped
  have split := List.take_append_drop front.length link.connection.recvBuffer
  rw [taken] at split
  exact ⟨_, split.symm, dropped⟩

theorem dispatch_called (reading : Prop) {link : Link} {frame : Frame} {rest : List Frame}
    (carries : link.Carries (frame :: rest))
    (enough : 24 + frame.1.length.toNat ≤ link.connection.recvBuffer.length) :
    Called reading link (frame :: rest) (link.dispatch frame.1).2 := by
  have length := (carries.wellFormed frame List.mem_cons_self).length
  have frameLength : frame.bytes.length = 24 + frame.1.length.toNat := by
    rw [Frame.bytes, List.length_append, MessageHeader.serialize_length, length]
  have stream : link.stream = frame.bytes ++ rest.flatMap Frame.bytes := carries.stream
  obtain ⟨more, buffered, left⟩ := buffer_split stream (by omega)
  have payload : (link.connection.recvBuffer.drop 24).take frame.1.length.toNat = frame.2 := by
    rw [buffered, Frame.bytes, List.append_assoc, ← frame.1.serialize_length, List.drop_left, length,
      List.take_left]
  have behind : link.connection.recvBuffer.drop (24 + frame.1.length.toNat) = more := by
    rw [buffered, ← frameLength, List.drop_left]
  rcases processMessage_cases link.connection frame with
    ⟨throws, processed⟩ | ⟨returns, event, connection, processed, sameBuffer, sameMagic⟩
  · simp only [dispatch, payload, processed]
    exact .threw frame rest rfl throws rfl (Nat.le_refl _) rfl rfl
  · simp only [dispatch, payload, processed]
    refine .took frame rest rfl returns ?_ (Nat.le_refl _) sameMagic rfl
    rw [Link.stream, sameBuffer, behind]
    exact left

theorem Called.after_kept {reading : Prop} {link middle after : Link} {frames : List Frame}
    (kept : Kept link middle) (called : Called reading middle frames after) :
    Called reading link frames after := by
  cases called with
  | quiet keptLater reads =>
      exact .quiet (kept.trans keptLater) fun reading some =>
        Nat.lt_of_lt_of_le (reads reading some) kept.wire
  | took frame rest first returns stream wire magic dispatched =>
      exact .took frame rest first returns stream (Nat.le_trans wire kept.wire)
        (magic.trans kept.magic) (by rw [dispatched, kept.dispatched])
  | threw frame rest first throws stream wire magic dispatched =>
      exact .threw frame rest first throws (stream.trans kept.stream)
        (Nat.le_trans wire kept.wire) (magic.trans kept.magic) (by rw [dispatched, kept.dispatched])

theorem Kept.carries {before after : Link} (kept : Kept before after) {frames : List Frame}
    (carries : before.Carries frames) : after.Carries frames :=
  ⟨kept.stream.trans carries.stream, fun frame member =>
    kept.magic ▸ carries.wellFormed frame member⟩

theorem Carries.length {link : Link} {frame : Frame} {rest : List Frame}
    (carries : link.Carries (frame :: rest)) :
    24 + frame.1.length.toNat ≤ link.connection.recvBuffer.length + link.wire.length := by
  have lengths := congrArg List.length carries.stream
  rw [Link.stream, List.flatMap_cons, List.length_append, List.length_append, Frame.bytes,
    List.length_append, MessageHeader.serialize_length,
    ← (carries.wellFormed frame List.mem_cons_self).length] at lengths
  omega

/-- A buffer that a read leaves too short for the first frame has more coming. -/
theorem fill_takes {link : Link} {frame : Frame} {rest : List Frame}
    (carries : link.Carries (frame :: rest)) {least bytes : Nat} {recv : Recv}
    (within : least ≤ 24 + frame.1.length.toNat) (reads : Reads recv) (asks : 0 < bytes)
    (few : (link.fill least bytes recv).2.connection.recvBuffer.length < least) :
    (link.fill least bytes recv).2.wire.length < link.wire.length := by
  have kept := fill_kept link least bytes recv
  have length := (kept.carries carries).length
  refine (fill_reads reads asks).2 few ?_
  intro dry
  have dryAfter := kept.wire
  rw [dry, List.length_nil] at dryAfter
  omega

/-- A call once the header of the first frame is in the buffer. -/
theorem receiveBody_called {link : Link} {frame : Frame} {rest : List Frame} {reading : Prop}
    (carries : link.Carries (frame :: rest)) (second : Recv) (reads : reading → Reads second) :
    Called reading link (frame :: rest)
      (match link.fill (24 + frame.1.length.toNat) 4096 second with
        | (false, link) => (some false, link)
        | (true, link) =>
            if link.connection.recvBuffer.length < 24 + frame.1.length.toNat then (some true, link)
            else link.dispatch frame.1).2 := by
  have kept := fill_kept link (24 + frame.1.length.toNat) 4096 second
  have takes (reading : reading) := fill_takes carries (Nat.le_refl (24 + frame.1.length.toNat))
    (reads reading) (by decide : 0 < 4096)
  have brings (reading : reading) : (link.fill (24 + frame.1.length.toNat) 4096 second).1 = true :=
    (fill_reads (reads reading) (by decide : 0 < 4096)).1
  cases filled : link.fill (24 + frame.1.length.toNat) 4096 second with
  | mk goesOn after =>
  rw [filled] at kept takes brings
  cases goesOn with
  | false => exact .quiet kept fun reading _ => nomatch brings reading
  | true =>
      by_cases few : after.connection.recvBuffer.length < 24 + frame.1.length.toNat
      · simp only [if_pos few]
        exact .quiet kept fun reading _ => takes reading few
      · simp only [if_neg few]
        exact .after_kept kept
          (dispatch_called reading (kept.carries carries) (Nat.le_of_not_lt few))

/-- One call with any reads. -/
theorem receiveMessage_called {link : Link} {frames : List Frame} (carries : link.Carries frames)
    (first second : Recv) :
    Called (Reads first ∧ Reads second) link frames (link.receiveMessage first second).2 := by
  have keptFirst := fill_kept link 24 1024 first
  have bringsFirst (reads : Reads first) : (link.fill 24 1024 first).1 = true :=
    (fill_reads reads (by decide : 0 < 1024)).1
  rw [receiveMessage]
  cases filled : link.fill 24 1024 first with
  | mk goesOn afterFirst =>
  rw [filled] at keptFirst bringsFirst
  cases goesOn with
  | false => exact .quiet keptFirst fun reading _ => nomatch bringsFirst reading.1
  | true =>
      by_cases few : afterFirst.connection.recvBuffer.length < 24
      · simp only [if_pos few]
        refine .quiet keptFirst fun reading some => ?_
        cases frames with
        | nil => exact absurd rfl some
        | cons frame rest =>
            have takes := fill_takes carries (Nat.le_add_right 24 _) reading.1
              (by decide : 0 < 1024)
            rw [filled] at takes
            exact takes few
      · simp only [if_neg few]
        have carriesFirst := keptFirst.carries carries
        cases frames with
        | nil =>
            have empty : afterFirst.connection.recvBuffer = [] :=
              (List.append_eq_nil_iff.mp carriesFirst.stream).1
            exact absurd (by rw [empty]; decide) few
        | cons frame rest =>
            have wellFormed := carriesFirst.wellFormed frame List.mem_cons_self
            have stream : afterFirst.stream =
                frame.1.serialize ++ (frame.2 ++ rest.flatMap Frame.bytes) := by
              rw [carriesFirst.stream, List.flatMap_cons, Frame.bytes, List.append_assoc]
            obtain ⟨more, buffered, _⟩ := buffer_split stream (by
              rw [MessageHeader.serialize_length]
              omega)
            rw [buffered, MessageHeader.deserialize_serialize wellFormed.terminated]
            simp only [wellFormed.valid, Bool.not_true, Bool.false_eq_true, if_false]
            refine .after_kept keptFirst ?_
            exact receiveBody_called carriesFirst second And.right

/-! ## Runs -/

theorem Carries.after_called {reading : Prop} {link after : Link} {frames : List Frame}
    (carries : link.Carries frames) (called : Called reading link frames after) :
    ∃ done later, frames = done ++ later ∧ after.Carries later ∧
      ((∀ frame ∈ frames, frame.Returns) → after.dispatched = link.dispatched ++ done) := by
  cases called with
  | quiet kept _ =>
      exact ⟨[], frames, rfl, kept.carries carries, fun _ => by
        rw [kept.dispatched, List.append_nil]⟩
  | took frame rest first returns stream wire magic dispatched =>
      refine ⟨[frame], rest, first, ⟨stream, ?_⟩, fun _ => dispatched⟩
      intro other member
      rw [magic]
      exact carries.wellFormed other (first ▸ List.mem_cons_of_mem frame member)
  | threw frame rest first throws stream wire magic dispatched =>
      refine ⟨[], frames, rfl, ⟨stream.trans carries.stream, ?_⟩, fun returns => ?_⟩
      · intro other member
        rw [magic]
        exact carries.wellFormed other member
      · exact absurd (returns frame (first ▸ List.mem_cons_self)) throws

/-- Where no parser throws, calls with any reads dispatch the frames from the first one on. -/
theorem receiveAll_inOrder {link : Link} {frames : List Frame} (carries : link.Carries frames)
    (returns : ∀ frame ∈ frames, frame.Returns) (calls : List (Recv × Recv)) :
    ∃ done later, frames = done ++ later ∧
      (link.receiveAll calls).dispatched = link.dispatched ++ done := by
  induction calls generalizing link frames with
  | nil => exact ⟨[], frames, rfl, (List.append_nil _).symm⟩
  | cons call rest ih =>
      obtain ⟨done, later, split, carriesLater, dispatched⟩ :=
        carries.after_called (receiveMessage_called carries call.1 call.2)
      have laterReturns : ∀ frame ∈ later, frame.Returns := fun frame member =>
        returns frame (split ▸ List.mem_append_right done member)
      obtain ⟨more, remaining, laterSplit, all⟩ := ih carriesLater laterReturns
      refine ⟨done ++ more, remaining, ?_, ?_⟩
      · rw [split, laterSplit, List.append_assoc]
      · rw [receiveAll, List.foldl_cons, ← receiveAll, all, dispatched returns, List.append_assoc]

/-- Calls whose reads bring something dispatch every frame after enough of them. -/
theorem receiveAll_all {link : Link} {frames : List Frame} (carries : link.Carries frames)
    (returns : ∀ frame ∈ frames, frame.Returns) {calls : List (Recv × Recv)}
    (reading : ∀ call ∈ calls, Reads call.1 ∧ Reads call.2)
    (many : link.wire.length + frames.length ≤ calls.length) :
    (link.receiveAll calls).dispatched = link.dispatched ++ frames := by
  induction calls generalizing link frames with
  | nil =>
      have none : frames = [] := List.eq_nil_of_length_eq_zero (by
        rw [List.length_nil] at many
        omega)
      rw [none, List.append_nil]
      rfl
  | cons call rest ih =>
      obtain ⟨readingHere, readingLater⟩ := List.forall_mem_cons.mp reading
      have called := receiveMessage_called carries call.1 call.2
      obtain ⟨_, _, _, carriesLater, _⟩ := carries.after_called called
      rw [List.length_cons] at many
      rw [receiveAll, List.foldl_cons, ← receiveAll]
      cases called with
      | quiet kept reads =>
          cases frames with
          | nil =>
              obtain ⟨done, later, split, all⟩ :=
                receiveAll_inOrder (kept.carries carries) returns rest
              obtain ⟨rfl, _⟩ := List.append_eq_nil_iff.mp split.symm
              rw [all, kept.dispatched]
          | cons frame others =>
              have shrinks := reads readingHere (List.cons_ne_nil frame others)
              rw [ih (kept.carries carries) returns readingLater (by omega), kept.dispatched]
      | took frame others first _ stream wire magic dispatched =>
          subst first
          have carriesOthers : (link.receiveMessage call.1 call.2).2.Carries others :=
            ⟨stream, fun other member => magic ▸
              carries.wellFormed other (List.mem_cons_of_mem frame member)⟩
          rw [List.length_cons] at many
          rw [ih carriesOthers (fun other member => returns other (List.mem_cons_of_mem frame member))
            readingLater (by omega), dispatched, List.append_assoc]
          rfl
      | threw frame others first throws _ _ _ _ =>
          exact absurd (returns frame (first ▸ List.mem_cons_self)) throws

/-- A frame whose parser throws is dispatched again and again. -/
theorem receiveAll_stuck {link : Link} {frames : List Frame} (carries : link.Carries frames)
    (throwing : ∃ frame ∈ frames, ¬ frame.Returns) {calls : List (Recv × Recv)}
    (reading : ∀ call ∈ calls, Reads call.1 ∧ Reads call.2) :
    link.dispatched.length + calls.length ≤
      (link.receiveAll calls).dispatched.length + link.wire.length := by
  induction calls generalizing link frames with
  | nil => exact Nat.le_add_right _ _
  | cons call rest ih =>
      obtain ⟨readingHere, readingLater⟩ := List.forall_mem_cons.mp reading
      obtain ⟨thrower, member, throws⟩ := throwing
      rw [receiveAll, List.foldl_cons, ← receiveAll, List.length_cons]
      cases receiveMessage_called carries call.1 call.2 with
      | quiet kept reads =>
          have shrinks := reads readingHere (List.ne_nil_of_mem member)
          have later := ih (kept.carries carries) ⟨thrower, member, throws⟩ readingLater
          rw [kept.dispatched] at later
          omega
      | took frame others first returns stream wire magic dispatched =>
          subst first
          have carriesOthers : (link.receiveMessage call.1 call.2).2.Carries others :=
            ⟨stream, fun other member => magic ▸
              carries.wellFormed other (List.mem_cons_of_mem frame member)⟩
          have notFirst : thrower ≠ frame := fun same => throws (same ▸ returns)
          have inOthers : thrower ∈ others := (List.mem_cons.mp member).resolve_left notFirst
          have later := ih carriesOthers ⟨thrower, inOthers, throws⟩ readingLater
          rw [dispatched, List.length_append, List.length_singleton] at later
          omega
      | threw frame others first _ stream wire magic dispatched =>
          have carriesAfter : (link.receiveMessage call.1 call.2).2.Carries frames :=
            ⟨stream.trans carries.stream, fun other listed => magic ▸
              carries.wellFormed other listed⟩
          have later := ih carriesAfter ⟨thrower, member, throws⟩ readingLater
          rw [dispatched, List.length_append, List.length_singleton] at later
          omega

/-- A connection that has received nothing, with a stream before it. -/
def start (connection : PeerConnection) (wire : Bytes) : Link :=
  { connection := { connection with recvBuffer := [] }, wire, dispatched := [], events := [] }

/-- The frames whose payload has the checksum of the header. -/
def intactFrames (frames : List Frame) : List Frame := frames.filter fun frame => frame.Intact

/-- The intact frames are dispatched in order and nothing else is, whatever the
reads; when reads bring something, every one is after enough calls. -/
structure Faithful (link : Link) (frames : List Frame) : Prop where
  inOrder : ∀ calls, (link.receiveAll calls).dispatched <+: intactFrames frames
  checked : ∀ calls, ∀ frame ∈ (link.receiveAll calls).dispatched,
    calculateChecksum frame.2 = frame.1.checksum
  all : ∀ calls, (∀ call ∈ calls, Reads call.1 ∧ Reads call.2) →
    link.wire.length + frames.length ≤ calls.length →
      (link.receiveAll calls).dispatched = intactFrames frames

theorem faithful_of_carries {link : Link} {frames : List Frame} (carries : link.Carries frames)
    (nothing : link.dispatched = []) :
    Faithful link frames ↔ ∀ frame ∈ frames, frame.Intact ∧ frame.Returns := by
  let one : Recv × Recv := (.upTo 1, .upTo 1)
  let calls := List.replicate (link.wire.length + frames.length + 1) one
  have reading : ∀ call ∈ calls, Reads call.1 ∧ Reads call.2 := by
    intro call member
    rw [List.eq_of_mem_replicate member]
    exact ⟨Nat.one_pos, Nat.one_pos⟩
  have count : calls.length = link.wire.length + frames.length + 1 := List.length_replicate
  constructor
  · intro faithful
    have all := faithful.all calls reading (by omega)
    have returns : ∀ frame ∈ frames, frame.Returns := by
      by_contra some
      have throwing : ∃ frame ∈ frames, ¬ frame.Returns := by simpa using some
      have stuck := receiveAll_stuck carries throwing reading
      have few := List.length_filter_le (fun frame : Frame => decide frame.Intact) frames
      rw [all, nothing, List.length_nil, count, intactFrames] at stuck
      omega
    have dispatched := receiveAll_all carries returns reading (by omega)
    rw [all, nothing, List.nil_append] at dispatched
    intro frame member
    have intact := of_decide_eq_true (List.filter_eq_self.mp dispatched frame member)
    exact ⟨intact, returns frame member⟩
  · intro good
    have intact : intactFrames frames = frames :=
      List.filter_eq_self.mpr fun frame member => decide_eq_true (good frame member).1
    have inOrder (calls : List (Recv × Recv)) :
        (link.receiveAll calls).dispatched <+: frames := by
      obtain ⟨done, later, split, all⟩ :=
        receiveAll_inOrder carries (fun frame member => (good frame member).2) calls
      rw [all, nothing, split]
      exact List.prefix_append done later
    refine ⟨?_, ?_, ?_⟩
    · intro calls
      rw [intact]
      exact inOrder calls
    · intro calls frame member
      exact (good frame ((inOrder calls).subset member)).1
    · intro calls reading many
      rw [intact, receiveAll_all carries (fun frame member => (good frame member).2) reading many,
        nothing, List.nil_append]

/-- Framing is faithful exactly when every payload arrives with the checksum its
header states and no parser throws, however the stream is cut into reads. -/
theorem faithful_iff (connection : PeerConnection) {messages : List (Bytes × Bytes)}
    {arrived : List Bytes}
    (corrupted : List.Forall₂ (fun message bytes =>
      Corrupted (createNetworkMessage connection.networkMagic message.1 message.2) bytes)
        messages arrived) :
    Faithful (start connection arrived.flatten) (arrived.filterMap frameOf) ↔
      ∀ frame ∈ arrived.filterMap frameOf, frame.Intact ∧ frame.Returns := by
  obtain ⟨stream, wellFormed⟩ := arrived_frames corrupted
  exact faithful_of_carries ⟨stream, wellFormed⟩ rfl

namespace Flipped

def ping : Bytes := text "ping".toList

def connection : PeerConnection where
  state := .connected
  version := 0
  height := 0
  services := 0
  userAgent := []
  networkMagic := 0xD9B4BEF9
  recvBuffer := []
  hasCallback _ := true

def built : Bytes := createNetworkMessage connection.networkMagic ping (List.replicate 8 0)

/-- The ping with one byte of its nonce changed. -/
def arrived : Bytes := built.set 24 1

def frame : Frame :=
  (messageHeader connection.networkMagic ping (List.replicate 8 0), 1 :: List.replicate 7 0)

/-- The ping as it was sent. -/
theorem faithful_ping : Faithful (start connection built)
    [(messageHeader connection.networkMagic ping (List.replicate 8 0), List.replicate 8 0)] := by
  have unchanged : List.Forall₂ (fun message bytes =>
      Corrupted (createNetworkMessage connection.networkMagic message.1 message.2) bytes)
        [(ping, List.replicate 8 0)] [built] := .cons ⟨rfl, rfl⟩ .nil
  have whole := faithful_iff connection unchanged
  have parsed : frameOf built = some (messageHeader connection.networkMagic ping
      (List.replicate 8 0), List.replicate 8 0) := frameOf_createNetworkMessage (by decide) _ _
  rw [List.flatten_cons, List.flatten_nil, List.append_nil, List.filterMap_cons_some parsed,
    List.filterMap_nil] at whole
  refine whole.mpr (List.forall_mem_singleton.mpr ⟨rfl, ?_⟩)
  change (parsePayload _ _).isSome = true
  decide +kernel

/-- The changed ping is dispatched, and its nonce is answered. -/
theorem not_faithful_flipped :
    List.Forall₂ (fun message bytes =>
      Corrupted (createNetworkMessage connection.networkMagic message.1 message.2) bytes)
        [(ping, List.replicate 8 0)] [arrived] ∧
    ((start connection arrived).receiveAll [(.upTo 1024, .upTo 4096)]).dispatched = [frame] ∧
    ((start connection arrived).receiveAll [(.upTo 1024, .upTo 4096)]).events = [.ping 1] ∧
    calculateChecksum frame.2 ≠ frame.1.checksum ∧
    ¬ Faithful (start connection arrived) [frame] := by
  have corrupted : Corrupted built arrived := ⟨by decide +kernel, by decide +kernel⟩
  have dispatched : ((start connection arrived).receiveAll [(.upTo 1024, .upTo 4096)]).dispatched =
      [frame] := by decide +kernel
  have differs : calculateChecksum frame.2 ≠ frame.1.checksum := by decide +kernel
  refine ⟨.cons corrupted .nil, dispatched, by decide +kernel, differs, ?_⟩
  intro faithful
  refine differs (faithful.checked [(.upTo 1024, .upTo 4096)] frame ?_)
  rw [dispatched]
  exact List.mem_singleton_self frame

end Flipped

end Link

end Parthenon.P2p
