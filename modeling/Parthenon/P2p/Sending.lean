import Parthenon.Library.Runs
import Parthenon.P2p.PeerConnection

namespace Parthenon.P2p

open Parthenon.Library

/-! # Sending

The sending half of a connection.  A message goes to the socket at once while
nothing is queued, and behind the queue otherwise; what the socket does not take
waits in the queue until it is drained.
-/

/-- What `send` does: it fails, or it takes up to `count` of the bytes it is given.
The answers of a call are listed up to one that would block. -/
inductive Send
  | failed
  | upTo (count : Nat)
deriving DecidableEq, Repr

structure Sender where
  socketOpen : Bool
  state : PeerState
  networkMagic : UInt32
  sendQueue : List Bytes
  sendQueueOffset : Nat
deriving DecidableEq, Repr

/-- What a call returns, the bytes that the socket took, and the connection. -/
structure Outcome where
  result : Bool
  taken : Bytes
  sender : Sender
deriving DecidableEq, Repr

namespace Sender

def closed (sender : Sender) : Bool := !sender.socketOpen || sender.state = .disconnected

/-- The loop of `SendRaw`: the result, what was taken, and what is left when it would block. -/
def sendLoop : Bytes → List Send → Bool × Bytes × Bytes
  | [], _ => (true, [], [])
  | data, [] => (true, [], data)
  | data, .failed :: _ => (false, [], data)
  | data, .upTo count :: answers =>
      let (result, taken, left) := sendLoop (data.drop count) answers
      (result, data.take count ++ taken, left)

def sendRaw (sender : Sender) (data : Bytes) (answers : List Send) : Outcome :=
  if sender.closed then ⟨false, [], sender⟩
  else if sender.sendQueue ≠ [] then
    ⟨true, [], { sender with sendQueue := sender.sendQueue ++ [data] }⟩
  else
    match sendLoop data answers with
    | (false, taken, _) => ⟨false, taken, sender⟩
    | (true, taken, []) => ⟨true, taken, sender⟩
    | (true, taken, left) => ⟨true, taken, { sender with sendQueue := [left] }⟩

def sendMessage (sender : Sender) (command payload : Bytes) (answers : List Send) : Outcome :=
  sender.sendRaw (createNetworkMessage sender.networkMagic command payload) answers

/-- The offset that the loop over the message in front reaches, and either the
answers it has not used or the result with which the call ends. -/
def drainFront (data : Bytes) (offset : Nat) : List Send → Nat × (List Send ⊕ Bool)
  | [] => if offset < data.length then (offset, .inr true) else (offset, .inl [])
  | .failed :: answers =>
      if offset < data.length then (offset, .inr false) else (offset, .inl (.failed :: answers))
  | .upTo count :: answers =>
      if offset < data.length then
        let result := min count (data.length - offset)
        if result = 0 then (offset, .inr true) else drainFront data (offset + result) answers
      else (offset, .inl (.upTo count :: answers))

/-- The loop of `DrainSendQueue`: the result, what was taken, and the queue with its offset. -/
def drainLoop : List Bytes → Nat → List Send → Bool × Bytes × List Bytes × Nat
  | [], offset, _ => (true, [], [], offset)
  | data :: queue, offset, answers =>
      match drainFront data offset answers with
      | (reached, .inr result) =>
          (result, (data.drop offset).take (reached - offset), data :: queue, reached)
      | (reached, .inl answers) =>
          let (result, taken, left, last) := drainLoop queue 0 answers
          (result, (data.drop offset).take (reached - offset) ++ taken, left, last)

def drainSendQueue (sender : Sender) (answers : List Send) : Outcome :=
  if sender.closed then ⟨false, [], sender⟩
  else
    let (result, taken, queue, offset) :=
      drainLoop sender.sendQueue sender.sendQueueOffset answers
    ⟨result, taken, { sender with sendQueue := queue, sendQueueOffset := offset }⟩

def disconnect (sender : Sender) : Sender :=
  { sender with socketOpen := false, state := .disconnected }

/-! ## What a call does to the stream -/

/-- The bytes that are queued and not taken yet. -/
def pending (sender : Sender) : Bytes := sender.sendQueue.flatten.drop sender.sendQueueOffset

/-- The offset is within the message in front, and zero where there is none. -/
def Positioned (sender : Sender) : Prop :=
  sender.sendQueueOffset ≤ (sender.sendQueue.headD []).length

theorem Positioned.of_empty {sender : Sender} (positioned : sender.Positioned)
    (empty : sender.sendQueue = []) : sender.sendQueueOffset = 0 := by
  rw [Positioned, empty] at positioned
  exact Nat.le_zero.mp positioned

theorem sendLoop_split (data : Bytes) (answers : List Send) :
    (sendLoop data answers).2.1 ++ (sendLoop data answers).2.2 = data := by
  fun_induction sendLoop data answers with
  | case1 => rfl
  | case2 => rfl
  | case3 => rfl
  | case4 data count answers _ result taken left looped ih =>
      rw [looped] at ih
      rw [List.append_assoc, ih, List.take_append_drop]

/-- A call that returns true has put its message behind what was pending; one that
returns false leaves the queue. -/
theorem sendRaw_spec {sender : Sender} (positioned : sender.Positioned) (data : Bytes)
    (answers : List Send) :
    let outcome := sender.sendRaw data answers
    outcome.sender.Positioned ∧
      outcome.sender.networkMagic = sender.networkMagic ∧
      (outcome.result = true →
        outcome.taken ++ outcome.sender.pending = sender.pending ++ data) ∧
      (outcome.result = false → outcome.sender = sender) := by
  intro outcome
  by_cases shut : sender.closed = true
  · have ended : outcome = ⟨false, [], sender⟩ := if_pos shut
    rw [ended]
    exact ⟨positioned, rfl, nofun, fun _ => rfl⟩
  by_cases queued : sender.sendQueue ≠ []
  · have ended : outcome = ⟨true, [], { sender with sendQueue := sender.sendQueue ++ [data] }⟩ :=
      (if_neg shut).trans (if_pos queued)
    obtain ⟨front, queue, waiting⟩ := List.exists_cons_of_ne_nil queued
    rw [Positioned, waiting] at positioned
    have inFront : sender.sendQueueOffset ≤ front.length := positioned
    rw [ended]
    refine ⟨?_, rfl, fun _ => ?_, nofun⟩
    · rw [Positioned, waiting]
      exact inFront
    · have inQueue : sender.sendQueueOffset ≤ sender.sendQueue.flatten.length := by
        rw [waiting, List.flatten_cons, List.length_append]
        omega
      rw [List.nil_append, pending, pending, List.flatten_append, List.flatten_singleton,
        List.drop_append_of_le_length inQueue]
  · have empty := not_not.mp queued
    have start := positioned.of_empty empty
    have nothing : sender.pending = [] := by rw [pending, empty, List.flatten_nil, List.drop_nil]
    have split := sendLoop_split data answers
    have reached : outcome = match sendLoop data answers with
        | (false, taken, _) => ⟨false, taken, sender⟩
        | (true, taken, []) => ⟨true, taken, sender⟩
        | (true, taken, left) => ⟨true, taken, { sender with sendQueue := [left] }⟩ :=
      (if_neg shut).trans (if_neg queued)
    rw [reached, nothing]
    cases looped : sendLoop data answers with
    | mk result rest =>
        obtain ⟨taken, left⟩ := rest
        rw [looped] at split
        cases result with
        | false => exact ⟨positioned, rfl, nofun, fun _ => rfl⟩
        | true =>
            cases left with
            | nil => exact ⟨positioned, rfl, fun _ => by rw [nothing, split]; rfl, nofun⟩
            | cons byte more =>
                refine ⟨?_, rfl, fun _ => ?_, nofun⟩
                · rw [Positioned, start]
                  exact Nat.zero_le _
                · rw [pending, start, List.flatten_singleton, List.drop_zero, split]
                  rfl

theorem drainFront_spec {data : Bytes} {offset : Nat} (within : offset ≤ data.length)
    (answers : List Send) :
    offset ≤ (drainFront data offset answers).1 ∧
      (drainFront data offset answers).1 ≤ data.length ∧
      ∀ rest, (drainFront data offset answers).2 = .inl rest →
        (drainFront data offset answers).1 = data.length := by
  induction answers generalizing offset with
  | nil =>
      rw [drainFront]
      split
      · exact ⟨Nat.le_refl _, within, nofun⟩
      · exact ⟨Nat.le_refl _, within, fun _ _ => by dsimp only; omega⟩
  | cons answer answers ih =>
      cases answer with
      | failed =>
          rw [drainFront]
          split
          · exact ⟨Nat.le_refl _, within, nofun⟩
          · exact ⟨Nat.le_refl _, within, fun _ _ => by dsimp only; omega⟩
      | upTo count =>
          rw [drainFront]
          split
          · dsimp only
            split
            · exact ⟨Nat.le_refl _, within, nofun⟩
            · obtain ⟨above, below, whole⟩ :=
                ih (show offset + min count (data.length - offset) ≤ data.length by omega)
              exact ⟨by omega, below, whole⟩
          · exact ⟨Nat.le_refl _, within, fun _ _ => by dsimp only; omega⟩

/-- What is taken is the front of what was queued. -/
theorem drainLoop_spec {queue : List Bytes} {offset : Nat}
    (within : offset ≤ (queue.headD []).length) (answers : List Send) :
    let (_, taken, left, last) := drainLoop queue offset answers
    taken ++ left.flatten.drop last = queue.flatten.drop offset ∧
      last ≤ (left.headD []).length := by
  induction queue generalizing offset answers with
  | nil => exact ⟨by rw [List.flatten_nil, List.drop_nil]; rfl, within⟩
  | cons data queue ih =>
      have within : offset ≤ data.length := within
      obtain ⟨above, below, whole⟩ := drainFront_spec within answers
      rw [drainLoop]
      cases front : drainFront data offset answers with
      | mk reached ending =>
          rw [front] at above below whole
          cases ending with
          | inr result =>
              refine ⟨?_, below⟩
              have tail : data.drop reached = (data.drop offset).drop (reached - offset) := by
                rw [List.drop_drop]
                congr 1
                omega
              rw [List.flatten_cons, List.drop_append_of_le_length below,
                List.drop_append_of_le_length within, ← List.append_assoc, tail,
                List.take_append_drop]
          | inl rest =>
              obtain rfl : reached = data.length := whole rest rfl
              have started : 0 ≤ (queue.headD []).length := Nat.zero_le _
              obtain ⟨split, placed⟩ := ih started rest
              cases drained : drainLoop queue 0 rest with
              | mk result others =>
                  obtain ⟨taken, left, last⟩ := others
                  rw [drained] at split placed
                  simp only [drained]
                  refine ⟨?_, placed⟩
                  have all : (data.drop offset).take (data.length - offset) = data.drop offset :=
                    List.take_of_length_le (List.length_drop).le
                  rw [List.append_assoc, split, all, List.drop_zero, List.flatten_cons,
                    List.drop_append_of_le_length within]

theorem drainSendQueue_spec {sender : Sender} (positioned : sender.Positioned)
    (answers : List Send) :
    let outcome := sender.drainSendQueue answers
    outcome.sender.Positioned ∧
      outcome.sender.networkMagic = sender.networkMagic ∧
      outcome.taken ++ outcome.sender.pending = sender.pending := by
  intro outcome
  by_cases shut : sender.closed = true
  · have ended : outcome = ⟨false, [], sender⟩ := if_pos shut
    rw [ended]
    exact ⟨positioned, rfl, rfl⟩
  · obtain ⟨split, placed⟩ := drainLoop_spec positioned answers
    have ended : outcome =
        let (result, taken, queue, offset) :=
          drainLoop sender.sendQueue sender.sendQueueOffset answers
        ⟨result, taken, { sender with sendQueue := queue, sendQueueOffset := offset }⟩ :=
      if_neg shut
    rw [ended]
    exact ⟨placed, rfl, split⟩

end Sender

/-! ## Runs -/

/-- A call on the sending half. -/
inductive SendCall
  | sendRaw (data : Bytes) (answers : List Send)
  | drain (answers : List Send)
  | disconnect
deriving DecidableEq, Repr

/-- The sending half, all bytes that its socket took, and the messages that were accepted. -/
structure Outlet where
  sender : Sender
  wire : Bytes
  accepted : List Bytes

namespace Outlet

def next (outlet : Outlet) : SendCall → Outlet
  | .sendRaw data answers =>
      let outcome := outlet.sender.sendRaw data answers
      { sender := outcome.sender
        wire := outlet.wire ++ outcome.taken
        accepted := if outcome.result then outlet.accepted ++ [data] else outlet.accepted }
  | .drain answers =>
      let outcome := outlet.sender.drainSendQueue answers
      { outlet with sender := outcome.sender, wire := outlet.wire ++ outcome.taken }
  | .disconnect => { outlet with sender := outlet.sender.disconnect }

/-- A send that fails has not taken part of its message. -/
def Clean (outlet : Outlet) : SendCall → Prop
  | .sendRaw data answers =>
      (outlet.sender.sendRaw data answers).result = true ∨
        (outlet.sender.sendRaw data answers).taken = []
  | .drain _ => True
  | .disconnect => True

instance (outlet : Outlet) (call : SendCall) : Decidable (outlet.Clean call) :=
  match call with
  | .sendRaw _ _ => inferInstanceAs (Decidable (_ ∨ _))
  | .drain _ => inferInstanceAs (Decidable True)
  | .disconnect => inferInstanceAs (Decidable True)

/-- The bytes taken and the bytes queued are the accepted messages. -/
def Whole (outlet : Outlet) : Prop :=
  outlet.wire ++ outlet.sender.pending = outlet.accepted.flatten

theorem next_positioned {outlet : Outlet} (positioned : outlet.sender.Positioned)
    (call : SendCall) : (outlet.next call).sender.Positioned := by
  cases call with
  | sendRaw data answers => exact (Sender.sendRaw_spec positioned data answers).1
  | drain answers => exact (Sender.drainSendQueue_spec positioned answers).1
  | disconnect => exact positioned

theorem next_whole_iff {outlet : Outlet} (positioned : outlet.sender.Positioned)
    (whole : outlet.Whole) (call : SendCall) : (outlet.next call).Whole ↔ outlet.Clean call := by
  cases call with
  | sendRaw data answers =>
      obtain ⟨_, _, accepts, refuses⟩ := Sender.sendRaw_spec positioned data answers
      simp only [Whole, next, Clean]
      cases returned : (outlet.sender.sendRaw data answers).result with
      | true =>
          refine iff_of_true ?_ (.inl rfl)
          rw [if_pos rfl, List.append_assoc, accepts returned, ← List.append_assoc, whole,
            List.flatten_append, List.flatten_singleton]
      | false =>
          -- what a failed send took stands between the bytes before it and those still queued
          rw [if_neg Bool.false_ne_true, refuses returned, ← whole, List.append_assoc,
            List.append_cancel_left_eq, List.append_left_eq_self]
          exact ⟨.inr, fun clean => clean.resolve_left Bool.false_ne_true⟩
  | drain answers =>
      refine iff_of_true ?_ trivial
      obtain ⟨_, _, drained⟩ := Sender.drainSendQueue_spec positioned answers
      change (outlet.wire ++ _) ++ (outlet.sender.drainSendQueue answers).sender.pending =
        outlet.accepted.flatten
      rw [List.append_assoc, drained]
      exact whole
  | disconnect => exact iff_of_true whole trivial

/-- A connection on which nothing was sent. -/
def start (sender : Sender) : Outlet :=
  { sender := { sender with sendQueue := [], sendQueueOffset := 0 }, wire := [], accepted := [] }

/-- No byte is lost, repeated or put out of order in any state of a run exactly when
no send fails after the socket took part of its message. -/
theorem stream_whole_iff (sender : Sender) (calls : List SendCall) :
    (∀ count, Whole ((calls.take count).foldl next (start sender))) ↔
      Obeys Clean next (start sender) calls :=
  (obeys_iff_prefixes (fun outlet : Outlet => outlet.sender.Positioned)
    (fun _ call positioned => next_positioned positioned call)
    (fun _ call positioned whole => next_whole_iff positioned whole call)
    (show (start sender).sender.Positioned from Nat.le_refl 0) (show Whole (start sender) from rfl) calls).symm

end Outlet

end Parthenon.P2p
