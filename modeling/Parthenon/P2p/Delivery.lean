import Parthenon.P2p.Framing
import Parthenon.P2p.MessageLaws
import Parthenon.P2p.Sending

namespace Parthenon.P2p

open Parthenon.Library Parthenon.Crypto Parthenon.Primitives
open Parthenon.Storage (text)

/-! # Delivery

One direction of a conversation: what the callbacks of a receiver are called with,
of the messages that the other side was given to send.
-/

/-- The messages that a connection can be asked to send. -/
inductive Outgoing
  | version (message : VersionMessage)
  | verack
  | ping (nonce : UInt64)
  | pong (nonce : UInt64)
  | getHeaders (message : GetHeadersMessage)
  | getData (message : GetDataMessage)
  | inv (message : InvMessage)
  | block (mined : CachedBlock)
  | tx (signed : CachedTransaction)
  | addr (message : AddrMessage)
deriving DecidableEq, Repr

namespace Sender

def sendVersion (sender : Sender) (message : VersionMessage) : List Send → Outcome :=
  sender.sendMessage (text "version".toList) message.serialize

def sendVerack (sender : Sender) : List Send → Outcome :=
  sender.sendMessage (text "verack".toList) []

def sendPing (sender : Sender) (nonce : UInt64) : List Send → Outcome :=
  sender.sendMessage (text "ping".toList) (PingPongMessage.serialize ⟨nonce⟩)

def sendPong (sender : Sender) (nonce : UInt64) : List Send → Outcome :=
  sender.sendMessage (text "pong".toList) (PingPongMessage.serialize ⟨nonce⟩)

def sendGetHeaders (sender : Sender) (message : GetHeadersMessage) : List Send → Outcome :=
  sender.sendMessage (text "getheaders".toList) message.serialize

def sendGetData (sender : Sender) (message : GetDataMessage) : List Send → Outcome :=
  sender.sendMessage (text "getdata".toList) message.serialize

def sendInv (sender : Sender) (message : InvMessage) : List Send → Outcome :=
  sender.sendMessage (text "inv".toList) message.serialize

def sendBlock (sender : Sender) (block : CachedBlock) : List Send → Outcome :=
  sender.sendMessage (text "block".toList) (BlockMessage.serialize ⟨block⟩)

def sendTx (sender : Sender) (tx : CachedTransaction) : List Send → Outcome :=
  sender.sendMessage (text "tx".toList) (TxMessage.serialize ⟨tx⟩)

def sendAddr (sender : Sender) (message : AddrMessage) : List Send → Outcome :=
  sender.sendMessage (text "addr".toList) message.serialize

def send (sender : Sender) : Outgoing → List Send → Outcome
  | .version message => sender.sendVersion message
  | .verack => sender.sendVerack
  | .ping nonce => sender.sendPing nonce
  | .pong nonce => sender.sendPong nonce
  | .getHeaders message => sender.sendGetHeaders message
  | .getData message => sender.sendGetData message
  | .inv message => sender.sendInv message
  | .block block => sender.sendBlock block
  | .tx tx => sender.sendTx tx
  | .addr message => sender.sendAddr message

end Sender

/-! ## What one message is and what is heard of it -/

namespace Outgoing

def command : Outgoing → Bytes
  | .version _ => text "version".toList
  | .verack => text "verack".toList
  | .ping _ => text "ping".toList
  | .pong _ => text "pong".toList
  | .getHeaders _ => text "getheaders".toList
  | .getData _ => text "getdata".toList
  | .inv _ => text "inv".toList
  | .block _ => text "block".toList
  | .tx _ => text "tx".toList
  | .addr _ => text "addr".toList

def payload : Outgoing → Bytes
  | .version message => message.serialize
  | .verack => []
  | .ping nonce | .pong nonce => PingPongMessage.serialize ⟨nonce⟩
  | .getHeaders message => message.serialize
  | .getData message | .inv message => message.serialize
  | .block mined => BlockMessage.serialize ⟨mined⟩
  | .tx signed => TxMessage.serialize ⟨signed⟩
  | .addr message => message.serialize

/-- The call of a callback that the message asks for on the other side. -/
def event : Outgoing → PeerEvent
  | .version message => .version message.received
  | .verack => .verack
  | .ping nonce => .ping nonce
  | .pong nonce => .pong nonce
  | .getHeaders message => .getHeaders message
  | .getData message => .getData message
  | .inv message => .inv message
  | .block mined => .block mined.toBlock.parsedObject
  | .tx signed => .tx signed.toTransaction.parsedObject
  | .addr message => .addr message

/-- The limits that the decoder of the other side puts on the message. -/
def WithinLimits : Outgoing → Prop
  | .version message => message.WithinLimits
  | .verack | .ping _ | .pong _ => True
  | .getHeaders message => message.WithinLimits
  | .getData message | .inv message => message.WithinLimits
  | .block mined => mined.toBlock.WithinLimits
  | .tx signed => signed.toTransaction.WithinLimits
  | .addr message => message.WithinLimits

/-- A longer payload is dropped by the sender, which reports it as sent. -/
def Fits (outgoing : Outgoing) : Prop := outgoing.payload.length ≤ maxMessageSize

instance (outgoing : Outgoing) : Decidable outgoing.Fits := Nat.decLe _ _

def frame (magic : UInt32) (outgoing : Outgoing) : Frame :=
  (messageHeader magic outgoing.command outgoing.payload, outgoing.payload)

theorem send_eq (sender : Sender) (outgoing : Outgoing) (answers : List Send) :
    sender.send outgoing answers = sender.sendMessage outgoing.command outgoing.payload answers := by
  cases outgoing <;> rfl

theorem commandText_frame (magic : UInt32) (outgoing : Outgoing) :
    (outgoing.frame magic).1.commandText = outgoing.command := by
  change (commandField outgoing.command).bytes.takeWhile (· ≠ 0) = outgoing.command
  cases outgoing <;> simp only [command] <;> decide

/-- The parser of the other side is the one for the message. -/
theorem parsePayload_payload {outgoing : Outgoing} (limits : outgoing.WithinLimits) :
    parsePayload outgoing.command outgoing.payload = some (some outgoing.event) := by
  rw [parsePayload]
  cases outgoing with
  | version message =>
      rw [command, if_pos rfl, payload, VersionMessage.deserialize_serialize limits]
      rfl
  | verack => decide
  | ping nonce =>
      rw [command]
      iterate 2 rw [if_neg (by decide)]
      rw [if_pos rfl, payload, PingPongMessage.deserialize_serialize]
      rfl
  | pong nonce =>
      rw [command]
      iterate 3 rw [if_neg (by decide)]
      rw [if_pos rfl, payload, PingPongMessage.deserialize_serialize]
      rfl
  | inv message =>
      rw [command]
      iterate 4 rw [if_neg (by decide)]
      rw [if_pos rfl, payload, (InvMessage.deserialize_decodes _ _).mpr ⟨rfl, limits⟩]
      rfl
  | getData message =>
      rw [command]
      iterate 5 rw [if_neg (by decide)]
      rw [if_pos rfl, payload, (InvMessage.deserialize_decodes _ _).mpr ⟨rfl, limits⟩]
      rfl
  | block mined =>
      rw [command]
      iterate 6 rw [if_neg (by decide)]
      rw [if_pos rfl, payload, BlockMessage.deserialize_serialize limits]
      rfl
  | tx signed =>
      rw [command]
      iterate 7 rw [if_neg (by decide)]
      rw [if_pos rfl, payload, TxMessage.deserialize_serialize limits]
      rfl
  | addr message =>
      rw [command]
      iterate 8 rw [if_neg (by decide)]
      rw [if_pos rfl, payload, AddrMessage.deserialize,
        (AddrMessage.readFields_parses.whole _ _ _).mpr ⟨rfl, limits⟩]
      rfl
  | getHeaders message =>
      rw [command]
      iterate 9 rw [if_neg (by decide)]
      rw [if_pos rfl, payload, (GetHeadersMessage.deserialize_decodes _ _).mpr ⟨rfl, limits⟩]
      rfl

theorem frame_returns (magic : UInt32) {outgoing : Outgoing} (limits : outgoing.WithinLimits) :
    (outgoing.frame magic).Returns := by
  rw [Frame.Returns, commandText_frame]
  change (parsePayload outgoing.command outgoing.payload).isSome = true
  rw [parsePayload_payload limits]
  rfl

end Outgoing

/-! ## Receiving while more is on the way -/

namespace Link

/-- The link with further bytes behind those that have arrived. -/
def followedBy (more : Bytes) (link : Link) : Link := { link with wire := link.wire ++ more }

theorem receiveRaw_followedBy (more : Bytes) (link : Link) (bytes : Nat) (recv : Recv) :
    ∃ fewer, (link.followedBy more).receiveRaw bytes fewer =
      ((link.receiveRaw bytes recv).1, (link.receiveRaw bytes recv).2.followedBy more) := by
  cases recv with
  | failed => exact ⟨.failed, rfl⟩
  | closed => exact ⟨.closed, rfl⟩
  | upTo count =>
      -- a read that asks for no more than had arrived finds the same bytes
      refine ⟨.upTo (min (min count bytes) link.wire.length), ?_⟩
      have same : min (min (min count bytes) link.wire.length) bytes =
          min (min count bytes) link.wire.length := by omega
      have within : min (min count bytes) link.wire.length ≤ link.wire.length := Nat.min_le_right _ _
      simp only [receiveRaw, followedBy, same, List.take_append_of_le_length within,
        List.drop_append_of_le_length within, ← List.take_eq_take_min, ← List.drop_eq_drop_min]

theorem fill_followedBy (more : Bytes) (link : Link) (least bytes : Nat) (recv : Recv) :
    ∃ fewer, (link.followedBy more).fill least bytes fewer =
      ((link.fill least bytes recv).1, (link.fill least bytes recv).2.followedBy more) := by
  by_cases few : link.connection.recvBuffer.length < least
  · obtain ⟨fewer, read⟩ := receiveRaw_followedBy more link bytes recv
    refine ⟨fewer, ?_⟩
    rw [fill, fill, if_pos few]
    exact (if_pos few).trans read
  · refine ⟨recv, ?_⟩
    rw [fill, fill, if_neg few]
    exact if_neg few

theorem dispatch_followedBy (more : Bytes) (link : Link) (header : MessageHeader) :
    (link.followedBy more).dispatch header =
      ((link.dispatch header).1, (link.dispatch header).2.followedBy more) := by
  simp only [dispatch, followedBy]
  split
  · rfl
  · rfl

@[simp] theorem followedBy_connection (more : Bytes) (link : Link) :
    (link.followedBy more).connection = link.connection := rfl

/-- A call does what it could do if everything on the way had arrived. -/
theorem receiveMessage_followedBy (more : Bytes) (link : Link) (first second : Recv) :
    ∃ fewerFirst fewerSecond,
      (link.followedBy more).receiveMessage fewerFirst fewerSecond =
        ((link.receiveMessage first second).1,
          (link.receiveMessage first second).2.followedBy more) := by
  obtain ⟨fewerFirst, filled⟩ := fill_followedBy more link 24 1024 first
  cases read : link.fill 24 1024 first with
  | mk goesOn after =>
  rw [read] at filled
  cases goesOn with
  | false => exact ⟨fewerFirst, second, by simp only [receiveMessage, read, filled]⟩
  | true =>
      by_cases few : after.connection.recvBuffer.length < 24
      · exact ⟨fewerFirst, second, by
          simp only [receiveMessage, read, filled, followedBy_connection, few, if_true]⟩
      · cases parsed : MessageHeader.deserialize after.connection.recvBuffer with
        | error fault => exact ⟨fewerFirst, second, by
            simp only [receiveMessage, read, filled, followedBy_connection, few, if_false, parsed]⟩
        | ok split =>
            obtain ⟨header, rest⟩ := split
            obtain ⟨fewerSecond, filledAgain⟩ :=
              fill_followedBy more after (24 + header.length.toNat) 4096 second
            refine ⟨fewerFirst, fewerSecond, ?_⟩
            simp only [receiveMessage, read, filled, followedBy_connection, few, if_false,
              parsed, filledAgain]
            cases header.isValid after.connection.networkMagic with
            | false => rfl
            | true =>
                cases again : after.fill (24 + header.length.toNat) 4096 second with
                | mk goesOn last =>
                cases goesOn with
                | false => rfl
                | true =>
                    by_cases short : last.connection.recvBuffer.length < 24 + header.length.toNat
                    · simp only [Bool.not_true, Bool.false_eq_true, if_false, followedBy_connection,
                        short,
                        if_true]
                    · simp only [Bool.not_true, Bool.false_eq_true, if_false, followedBy_connection,
                        short]
                      exact dispatch_followedBy more last header

/-! ## Callbacks -/

/-- The callback made for a frame, where its parser gives a message and the callback is set. -/
def heard (hasCallback : PeerEvent → Bool) (frame : Frame) : Option PeerEvent :=
  ((parsePayload frame.1.commandText frame.2).getD none).filter hasCallback

/-- The callbacks were made for the frames dispatched, in their order. -/
structure ToldWith (hasCallback : PeerEvent → Bool) (link : Link) : Prop where
  callbacks : link.connection.hasCallback = hasCallback
  told : link.events = link.dispatched.filterMap (heard hasCallback)

theorem receiveRaw_told {hasCallback : PeerEvent → Bool} {link : Link}
    (told : link.ToldWith hasCallback) (bytes : Nat) (recv : Recv) :
    (link.receiveRaw bytes recv).2.ToldWith hasCallback := by
  cases recv with
  | failed => exact told
  | closed => exact ⟨told.callbacks, told.told⟩
  | upTo count => exact ⟨told.callbacks, told.told⟩

theorem fill_told {hasCallback : PeerEvent → Bool} {link : Link}
    (told : link.ToldWith hasCallback) (least bytes : Nat) (recv : Recv) :
    (link.fill least bytes recv).2.ToldWith hasCallback := by
  rw [fill]
  split
  · exact receiveRaw_told told bytes recv
  · exact told

theorem note_hasCallback (connection : PeerConnection) (event : PeerEvent) :
    (connection.note event).hasCallback = connection.hasCallback := by
  cases event with
  | version message =>
      rw [PeerConnection.note]
      split
      · rfl
      · rfl
  | _ => rfl

theorem dispatch_told {hasCallback : PeerEvent → Bool} {link : Link}
    (told : link.ToldWith hasCallback) (header : MessageHeader) :
    (link.dispatch header).2.ToldWith hasCallback := by
  simp only [dispatch]
  generalize (link.connection.recvBuffer.drop 24).take header.length.toNat = payload
  have heardAll (parsed : Option (Option PeerEvent))
      (known : parsePayload header.commandText payload = parsed) :
      (link.dispatched ++ [(header, payload)]).filterMap (heard hasCallback) =
        link.events ++ ((parsed.getD none).filter hasCallback).toList := by
    rw [List.filterMap_append, ← told.told, ← known]
    rfl
  rw [PeerConnection.processMessage]
  cases known : parsePayload header.commandText payload with
  | none =>
      refine ⟨told.callbacks, ?_⟩
      rw [heardAll none known]
      exact (List.append_nil _).symm
  | some parsed =>
      cases parsed with
      | none =>
          refine ⟨told.callbacks, ?_⟩
          rw [heardAll (some none) known]
          rfl
      | some event =>
          refine ⟨(note_hasCallback _ _).trans told.callbacks, ?_⟩
          rw [heardAll (some (some event)) known, told.callbacks]
          simp only [Option.getD_some, Option.filter_some]

theorem receiveMessage_told {hasCallback : PeerEvent → Bool} {link : Link}
    (told : link.ToldWith hasCallback) (first second : Recv) :
    (link.receiveMessage first second).2.ToldWith hasCallback := by
  have toldFirst := fill_told told 24 1024 first
  rw [receiveMessage]
  split
  · rename_i read
    rw [read] at toldFirst
    exact toldFirst
  · rename_i after read
    rw [read] at toldFirst
    split
    · exact toldFirst
    · split
      · exact toldFirst
      · rename_i header rest parsed
        split
        · exact toldFirst
        · have toldSecond := fill_told toldFirst (24 + header.length.toNat) 4096 second
          split
          · rename_i again
            rw [again] at toldSecond
            exact toldSecond
          · rename_i again
            rw [again] at toldSecond
            split
            · exact toldSecond
            · exact dispatch_told toldSecond header

theorem receiveAll_told {hasCallback : PeerEvent → Bool} {link : Link}
    (told : link.ToldWith hasCallback) (calls : List (Recv × Recv)) :
    (link.receiveAll calls).ToldWith hasCallback := by
  induction calls generalizing link with
  | nil => exact told
  | cons call rest ih => exact ih (receiveMessage_told told call.1 call.2)

end Link

/-! ## Conversations -/

/-- What happens on the way from one side to the other. -/
inductive Turn
  | send (outgoing : Outgoing) (answers : List Send)
  | drain (answers : List Send)
  | disconnect
  | receive (first second : Recv)
deriving DecidableEq, Repr

/-- A sender, the receiver with the bytes on the way to it, and the messages that the
sender reported as sent. -/
structure Conversation where
  sender : Sender
  receiver : Link
  accepted : List Outgoing

namespace Conversation

/-- Bytes that a socket took are on the way, and messages were reported as sent. -/
def take (conversation : Conversation) (outcome : Outcome) (more : List Outgoing) : Conversation where
  sender := outcome.sender
  receiver := conversation.receiver.followedBy outcome.taken
  accepted := conversation.accepted ++ more

def next (conversation : Conversation) : Turn → Conversation
  | .send outgoing answers =>
      let outcome := conversation.sender.send outgoing answers
      conversation.take outcome (if outcome.result then [outgoing] else [])
  | .drain answers => conversation.take (conversation.sender.drainSendQueue answers) []
  | .disconnect => { conversation with sender := conversation.sender.disconnect }
  | .receive first second =>
      { conversation with receiver := (conversation.receiver.receiveMessage first second).2 }

/-- A message to send is within the limits, and a send that fails has not taken part of it. -/
def Clean (conversation : Conversation) : Turn → Prop
  | .send outgoing answers =>
      outgoing.WithinLimits ∧
        ((conversation.sender.send outgoing answers).result = true ∨
          (conversation.sender.send outgoing answers).taken = [])
  | .drain _ | .disconnect | .receive _ _ => True

/-- Two sides of one network that have exchanged nothing. -/
def start (sender : Sender) (connection : PeerConnection) : Conversation where
  sender :=
    { sender with
      networkMagic := connection.networkMagic
      sendQueue := []
      sendQueueOffset := 0 }
  receiver := Link.start connection []
  accepted := []

/-- The frames of the messages that fit into one. -/
def frames (magic : UInt32) (accepted : List Outgoing) : List Frame :=
  (accepted.filter fun outgoing => outgoing.Fits).map (Outgoing.frame magic)

/-- The callbacks that the messages which fit ask for. -/
def callbacks (hasCallback : PeerEvent → Bool) (accepted : List Outgoing) : List PeerEvent :=
  ((accepted.filter fun outgoing => outgoing.Fits).map Outgoing.event).filter hasCallback

theorem frames_append (magic : UInt32) (accepted more : List Outgoing) :
    frames magic (accepted ++ more) = frames magic accepted ++ frames magic more := by
  rw [frames, List.filter_append, List.map_append]
  rfl

/-- The bytes of a message are those of its frame, if it fits. -/
theorem createNetworkMessage_frames (magic : UInt32) (outgoing : Outgoing) :
    createNetworkMessage magic outgoing.command outgoing.payload =
      (frames magic [outgoing]).flatMap Frame.bytes := by
  by_cases fits : outgoing.Fits
  · have one : frames magic [outgoing] = [outgoing.frame magic] := by simp [frames, fits]
    rw [createNetworkMessage, if_neg (Nat.not_lt.mpr fits), one, List.flatMap_singleton]
    rfl
  · have none : frames magic [outgoing] = [] := by simp [frames, fits]
    rw [createNetworkMessage, if_pos (Nat.lt_of_not_le fits), none]
    rfl

theorem frames_wellFormed (magic : UInt32) (accepted : List Outgoing) :
    ∀ frame ∈ frames magic accepted, frame.WellFormed magic := by
  intro frame member
  obtain ⟨outgoing, listed, rfl⟩ := List.mem_map.mp member
  exact messageHeader_wellFormed (of_decide_eq_true (List.mem_filter.mp listed).2) rfl

theorem frames_return (magic : UInt32) {accepted : List Outgoing}
    (limits : ∀ outgoing ∈ accepted, outgoing.WithinLimits) :
    ∀ frame ∈ frames magic accepted, frame.Returns := by
  intro frame member
  obtain ⟨outgoing, listed, rfl⟩ := List.mem_map.mp member
  exact outgoing.frame_returns magic (limits outgoing (List.mem_of_mem_filter listed))

/-- What is heard of the frames is what the messages ask for. -/
theorem heard_frames (magic : UInt32) (hasCallback : PeerEvent → Bool) {accepted : List Outgoing}
    (limits : ∀ outgoing ∈ accepted, outgoing.WithinLimits) :
    (frames magic accepted).filterMap (Link.heard hasCallback) = callbacks hasCallback accepted := by
  have each : ∀ outgoing ∈ accepted.filter fun outgoing => outgoing.Fits,
      Link.heard hasCallback (outgoing.frame magic) =
        Option.guard hasCallback outgoing.event := by
    intro outgoing listed
    have parsed := Outgoing.parsePayload_payload (limits outgoing (List.mem_of_mem_filter listed))
    rw [← outgoing.commandText_frame magic] at parsed
    exact congrArg (fun parsed => (parsed.getD none).filter hasCallback) parsed
  have guarded : List.filterMap (Option.guard hasCallback) = List.filter hasCallback :=
    List.filterMap_eq_filter
  rw [frames, callbacks, List.filterMap_map, ← guarded, List.filterMap_map]
  exact List.filterMap_congr each

/-- What no turn changes the truth of: the receiver has dispatched the first frames, and
the others are on the way or waiting with the sender. -/
structure Delivering (hasCallback : PeerEvent → Bool) (conversation : Conversation) : Prop where
  positioned : conversation.sender.Positioned
  magic : conversation.receiver.connection.networkMagic = conversation.sender.networkMagic
  limits : ∀ outgoing ∈ conversation.accepted, outgoing.WithinLimits
  told : conversation.receiver.ToldWith hasCallback
  onTheWay : ∃ later,
    frames conversation.sender.networkMagic conversation.accepted =
      conversation.receiver.dispatched ++ later ∧
    (conversation.receiver.followedBy conversation.sender.pending).Carries later

variable {hasCallback : PeerEvent → Bool} {conversation : Conversation}

theorem delivering_start (sender : Sender) (connection : PeerConnection) :
    (start sender connection).Delivering connection.hasCallback where
  positioned := Nat.le_refl 0
  magic := rfl
  limits := nofun
  told := ⟨rfl, rfl⟩
  onTheWay := ⟨[], rfl, rfl, nofun⟩

theorem followedBy_followedBy (link : Link) (first second : Bytes) :
    (link.followedBy first).followedBy second = link.followedBy (first ++ second) := by
  rw [Link.followedBy, Link.followedBy, Link.followedBy, List.append_assoc]

/-- Messages that stand behind those pending are behind the frames on the way. -/
theorem Delivering.take (delivering : conversation.Delivering hasCallback) {outcome : Outcome}
    {more : List Outgoing} (positioned : outcome.sender.Positioned)
    (sameMagic : outcome.sender.networkMagic = conversation.sender.networkMagic)
    (limits : ∀ outgoing ∈ more, outgoing.WithinLimits)
    (bytes : outcome.taken ++ outcome.sender.pending = conversation.sender.pending ++
      (frames conversation.sender.networkMagic more).flatMap Frame.bytes) :
    (conversation.take outcome more).Delivering hasCallback := by
  obtain ⟨later, split, carries⟩ := delivering.onTheWay
  refine ⟨positioned, delivering.magic.trans sameMagic.symm, ?_,
    ⟨delivering.told.callbacks, delivering.told.told⟩,
    later ++ frames conversation.sender.networkMagic more, ?_, ?_, ?_⟩
  · exact List.forall_mem_append.mpr ⟨delivering.limits, limits⟩
  · change frames outcome.sender.networkMagic (conversation.accepted ++ more) = _
    rw [sameMagic, frames_append, split, List.append_assoc]
    rfl
  · have stream := carries.stream
    simp only [Conversation.take, followedBy_followedBy, bytes]
    rw [List.flatMap_append, ← stream]
    simp only [Link.stream, Link.followedBy, List.append_assoc]
  · intro frame member
    rcases List.mem_append.mp member with before | added
    · exact carries.wellFormed frame before
    · have wellFormed := frames_wellFormed _ more frame added
      rw [← delivering.magic] at wellFormed
      exact wellFormed

theorem Delivering.send (delivering : conversation.Delivering hasCallback) {outgoing : Outgoing}
    {answers : List Send} (clean : conversation.Clean (.send outgoing answers)) :
    (conversation.next (.send outgoing answers)).Delivering hasCallback := by
  obtain ⟨limits, whole⟩ := clean
  obtain ⟨positioned, sameMagic, accepts, refuses⟩ :=
    Sender.sendRaw_spec delivering.positioned
      (createNetworkMessage conversation.sender.networkMagic outgoing.command outgoing.payload)
      answers
  have sent := Outgoing.send_eq conversation.sender outgoing answers
  rw [Sender.sendMessage] at sent
  rw [← sent] at positioned sameMagic accepts refuses
  refine delivering.take positioned sameMagic ?_ ?_
  · intro other member
    split at member
    · exact List.mem_singleton.mp member ▸ limits
    · exact absurd member List.not_mem_nil
  · cases returned : (conversation.sender.send outgoing answers).result with
    | true =>
        rw [accepts returned, createNetworkMessage_frames]
        rfl
    | false =>
        have nothing := whole.resolve_left (by rw [returned]; exact Bool.false_ne_true)
        rw [nothing, refuses returned]
        exact (List.append_nil _).symm

theorem Delivering.drain (delivering : conversation.Delivering hasCallback) (answers : List Send) :
    (conversation.next (.drain answers)).Delivering hasCallback := by
  obtain ⟨positioned, sameMagic, drained⟩ :=
    Sender.drainSendQueue_spec delivering.positioned answers
  refine delivering.take positioned sameMagic nofun ?_
  rw [drained]
  exact (List.append_nil _).symm

/-- A call takes the first frames off the way, and those are dispatched. -/
theorem Delivering.receive (delivering : conversation.Delivering hasCallback)
    (first second : Recv) :
    (conversation.next (.receive first second)).Delivering hasCallback := by
  obtain ⟨later, split, carries⟩ := delivering.onTheWay
  obtain ⟨fewerFirst, fewerSecond, fewer⟩ := Link.receiveMessage_followedBy
    conversation.sender.pending conversation.receiver first second
  have called := Link.receiveMessage_called carries fewerFirst fewerSecond
  rw [fewer] at called
  obtain ⟨done, rest, splitLater, carriesRest, dispatched⟩ := carries.after_called called
  have returns : ∀ frame ∈ later, frame.Returns := fun frame member =>
    frames_return _ delivering.limits frame (split ▸ List.mem_append_right _ member)
  have sameMagic :
      (conversation.receiver.receiveMessage first second).2.connection.networkMagic =
        conversation.receiver.connection.networkMagic := by
    cases called with
    | quiet kept _ => exact kept.magic
    | took _ _ _ _ _ _ magic _ => exact magic
    | threw _ _ _ _ _ _ magic _ => exact magic
  refine ⟨delivering.positioned, sameMagic.trans delivering.magic, delivering.limits,
    Link.receiveMessage_told delivering.told first second, rest, ?_, carriesRest⟩
  rw [next, split, splitLater, ← List.append_assoc]
  exact congrArg (· ++ rest) (dispatched returns).symm

theorem Delivering.next (delivering : conversation.Delivering hasCallback) (turn : Turn)
    (clean : conversation.Clean turn) : (conversation.next turn).Delivering hasCallback := by
  cases turn with
  | send outgoing answers => exact delivering.send clean
  | drain answers => exact delivering.drain answers
  | disconnect =>
      exact ⟨delivering.positioned, delivering.magic, delivering.limits, delivering.told,
        delivering.onTheWay⟩
  | receive first second => exact delivering.receive first second

theorem Delivering.inOrder (delivering : conversation.Delivering hasCallback) :
    conversation.receiver.events <+: callbacks hasCallback conversation.accepted := by
  obtain ⟨later, split, _⟩ := delivering.onTheWay
  rw [← heard_frames conversation.sender.networkMagic hasCallback delivering.limits, split,
    List.filterMap_append, ← delivering.told.told]
  exact List.prefix_append _ _

theorem Delivering.all (delivering : conversation.Delivering hasCallback)
    (drained : conversation.sender.pending = []) {calls : List (Recv × Recv)}
    (reading : ∀ call ∈ calls, Link.Reads call.1 ∧ Link.Reads call.2)
    (many : conversation.receiver.wire.length + conversation.accepted.length ≤ calls.length) :
    (conversation.receiver.receiveAll calls).events =
      callbacks hasCallback conversation.accepted := by
  obtain ⟨later, split, carries⟩ := delivering.onTheWay
  have arrived : conversation.receiver.followedBy conversation.sender.pending =
      conversation.receiver := by
    rw [drained, Link.followedBy, List.append_nil]
  rw [arrived] at carries
  have returns : ∀ frame ∈ later, frame.Returns := fun frame member =>
    frames_return _ delivering.limits frame (split ▸ List.mem_append_right _ member)
  have few : later.length ≤ conversation.accepted.length := by
    have lengths := congrArg List.length split
    rw [frames, List.length_map, List.length_append] at lengths
    have filtered := List.length_filter_le (fun outgoing : Outgoing => decide outgoing.Fits)
      conversation.accepted
    omega
  rw [(Link.receiveAll_told delivering.told calls).told,
    Link.receiveAll_all carries returns reading (by omega), ← split,
    heard_frames _ _ delivering.limits]

namespace Split

def sender : Sender where
  socketOpen := true
  state := .connected
  networkMagic := 0
  sendQueue := []
  sendQueueOffset := 0

def connection : PeerConnection where
  state := .connected
  version := 0
  height := 0
  services := 0
  userAgent := []
  networkMagic := 0xD9B4BEF9
  recvBuffer := []
  hasCallback _ := true

/-- A ping of which the socket takes ten bytes at first, and a verack queued behind the rest. -/
def turns : List Turn :=
  [.send (.ping 5) [.upTo 10], .receive (.upTo 1024) (.upTo 4096), .send .verack [],
    .drain [.upTo 64, .upTo 64], .receive (.upTo 1024) (.upTo 4096)]

example : (turns.foldl next (start sender connection)).receiver.events = [.ping 5] := by
  decide +kernel

end Split

end Conversation

end Parthenon.P2p
