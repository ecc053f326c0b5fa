import Parthenon.Crypto.Sha256
import Parthenon.Library.Runs

namespace Parthenon.Bridge

open Parthenon.Library Parthenon.Crypto

/-! # Payment channels

A channel compares the sums of new and initial balances on 64 bits.  The sums are
then equal exactly when both of them wrap or neither does.
-/

inductive ChannelState
  | funding
  | opened
  | closing
  | closed
deriving DecidableEq

@[ext] structure ChannelBalance where
  taln : UInt64
  drm : UInt64
  obl : UInt64
deriving DecidableEq

namespace ChannelBalance

/-- The three assets a balance has an amount of. -/
def amounts : List (ChannelBalance → UInt64) := [taln, drm, obl]

/-- The test of one asset that `UpdateState` and `VerifyBalances` make. -/
def sameSum (amount : ChannelBalance → UInt64) (balanceA balanceB initialA initialB : ChannelBalance) :
    Bool :=
  amount balanceA + amount balanceB = amount initialA + amount initialB

/-- What both parties have of an asset, without the wrap at 64 bits. -/
def exactSum (amount : ChannelBalance → UInt64) (balanceA balanceB : ChannelBalance) : Nat :=
  (amount balanceA).toNat + (amount balanceB).toNat

/-- The two sums wrap at 64 bits or neither does. -/
def WrapsAlike (amount : ChannelBalance → UInt64)
    (balanceA balanceB initialA initialB : ChannelBalance) : Prop :=
  2 ^ 64 ≤ exactSum amount balanceA balanceB ↔ 2 ^ 64 ≤ exactSum amount initialA initialB

/-- Sums that agree on 64 bits are equal when they wrap alike. -/
theorem exactSum_eq_iff {amount : ChannelBalance → UInt64}
    {balanceA balanceB initialA initialB : ChannelBalance}
    (same : sameSum amount balanceA balanceB initialA initialB = true) :
    exactSum amount balanceA balanceB = exactSum amount initialA initialB ↔
      WrapsAlike amount balanceA balanceB initialA initialB := by
  have wrapped := congrArg UInt64.toNat (of_decide_eq_true same)
  rw [UInt64.toNat_add, UInt64.toNat_add] at wrapped
  have newA := (amount balanceA).toNat_lt
  have newB := (amount balanceB).toNat_lt
  have oldA := (amount initialA).toNat_lt
  have oldB := (amount initialB).toNat_lt
  rw [WrapsAlike, exactSum, exactSum]
  omega

end ChannelBalance

structure PaymentChannel where
  channelId : Hash
  partyAPubkey : Bytes
  partyBPubkey : Bytes
  balanceA : ChannelBalance
  balanceB : ChannelBalance
  initialBalanceA : ChannelBalance
  initialBalanceB : ChannelBalance
  sequence : UInt64
  state : ChannelState
  closeInitiatedTime : UInt32
  disputePeriod : UInt32

namespace PaymentChannel

open ChannelBalance

def create (partyAPubkey partyBPubkey : Bytes) (initialBalanceA initialBalanceB : ChannelBalance) :
    PaymentChannel where
  channelId := SHA256.hash256 (partyAPubkey ++ partyBPubkey)
  partyAPubkey
  partyBPubkey
  balanceA := initialBalanceA
  balanceB := initialBalanceB
  initialBalanceA
  initialBalanceB
  sequence := 0
  state := .funding
  closeInitiatedTime := 0
  disputePeriod := 0

def open_ (channel : PaymentChannel) : Bool × PaymentChannel :=
  if channel.state ≠ .funding then (false, channel) else (true, { channel with state := .opened })

def updateState (channel : PaymentChannel) (newBalanceA newBalanceB : ChannelBalance)
    (newSequence : UInt64) (signatureA signatureB : Bytes) : Bool × PaymentChannel :=
  if channel.state ≠ .opened then (false, channel)
  else if newSequence ≤ channel.sequence then (false, channel)
  else if !sameSum taln newBalanceA newBalanceB channel.initialBalanceA channel.initialBalanceB then
    (false, channel)
  else if !sameSum drm newBalanceA newBalanceB channel.initialBalanceA channel.initialBalanceB then
    (false, channel)
  else if !sameSum obl newBalanceA newBalanceB channel.initialBalanceA channel.initialBalanceB then
    (false, channel)
  else if signatureA.isEmpty || signatureB.isEmpty then (false, channel)
  else
    (true,
      { channel with balanceA := newBalanceA, balanceB := newBalanceB, sequence := newSequence })

def initiateClose (channel : PaymentChannel) (disputePeriod currentTime : UInt32) :
    Bool × PaymentChannel :=
  if channel.state ≠ .opened then (false, channel)
  else (true, { channel with state := .closing, closeInitiatedTime := currentTime, disputePeriod })

def finalizeClose (channel : PaymentChannel) (currentTime : UInt32) : Bool × PaymentChannel :=
  if channel.state ≠ .closing then (false, channel)
  else if currentTime < channel.closeInitiatedTime + channel.disputePeriod then (false, channel)
  else (true, { channel with state := .closed })

def verifyBalances (channel : PaymentChannel) : Bool :=
  sameSum taln channel.balanceA channel.balanceB channel.initialBalanceA channel.initialBalanceB &&
    sameSum drm channel.balanceA channel.balanceB channel.initialBalanceA channel.initialBalanceB &&
    sameSum obl channel.balanceA channel.balanceB channel.initialBalanceA channel.initialBalanceB

/-- The calls on a channel, with the clock reading of those that read it. -/
inductive Call
  | open_
  | updateState (newBalanceA newBalanceB : ChannelBalance) (newSequence : UInt64)
      (signatureA signatureB : Bytes)
  | initiateClose (disputePeriod currentTime : UInt32)
  | finalizeClose (currentTime : UInt32)

def run (channel : PaymentChannel) : Call → Bool × PaymentChannel
  | .open_ => channel.open_
  | .updateState newBalanceA newBalanceB newSequence signatureA signatureB =>
      channel.updateState newBalanceA newBalanceB newSequence signatureA signatureB
  | .initiateClose disputePeriod currentTime => channel.initiateClose disputePeriod currentTime
  | .finalizeClose currentTime => channel.finalizeClose currentTime

def after (channel : PaymentChannel) (call : Call) : PaymentChannel := (channel.run call).2

/-- What `UpdateState` asks before it takes over new balances. -/
def Accepts (channel : PaymentChannel) (newBalanceA newBalanceB : ChannelBalance)
    (newSequence : UInt64) (signatureA signatureB : Bytes) : Prop :=
  channel.state = .opened ∧ channel.sequence < newSequence ∧
    (∀ amount ∈ amounts, sameSum amount newBalanceA newBalanceB channel.initialBalanceA
      channel.initialBalanceB = true) ∧
    signatureA ≠ [] ∧ signatureB ≠ []

theorem updateState_cases (channel : PaymentChannel) (newBalanceA newBalanceB : ChannelBalance)
    (newSequence : UInt64) (signatureA signatureB : Bytes) :
    (channel.Accepts newBalanceA newBalanceB newSequence signatureA signatureB ∧
      channel.updateState newBalanceA newBalanceB newSequence signatureA signatureB =
        (true, { channel with
          balanceA := newBalanceA, balanceB := newBalanceB, sequence := newSequence })) ∨
    (¬ channel.Accepts newBalanceA newBalanceB newSequence signatureA signatureB ∧
      channel.updateState newBalanceA newBalanceB newSequence signatureA signatureB =
        (false, channel)) := by
  rw [updateState, Accepts]
  by_cases opened : channel.state = .opened
  · rw [if_neg (not_not.mpr opened), and_iff_right opened]
    by_cases late : newSequence ≤ channel.sequence
    · rw [if_pos late]
      exact .inr ⟨fun accepts => UInt64.not_le.mpr accepts.1 late, rfl⟩
    · rw [if_neg late, and_iff_right (UInt64.not_le.mp late)]
      simp only [amounts, List.forall_mem_cons, List.not_mem_nil, false_imp_iff, implies_true,
        and_true]
      cases sameSum taln newBalanceA newBalanceB channel.initialBalanceA
        channel.initialBalanceB with
      | false => exact .inr ⟨fun accepts => Bool.false_ne_true accepts.1.1, rfl⟩
      | true =>
          cases sameSum drm newBalanceA newBalanceB channel.initialBalanceA
            channel.initialBalanceB with
          | false => exact .inr ⟨fun accepts => Bool.false_ne_true accepts.1.2.1, rfl⟩
          | true =>
              cases sameSum obl newBalanceA newBalanceB channel.initialBalanceA
                channel.initialBalanceB with
              | false => exact .inr ⟨fun accepts => Bool.false_ne_true accepts.1.2.2, rfl⟩
              | true =>
                  cases signatureA with
                  | nil => exact .inr ⟨fun accepts => accepts.2.1 rfl, rfl⟩
                  | cons byte rest =>
                      cases signatureB with
                      | nil => exact .inr ⟨fun accepts => accepts.2.2 rfl, rfl⟩
                      | cons other others =>
                          exact .inl ⟨⟨⟨rfl, rfl, rfl⟩, List.cons_ne_nil _ _,
                            List.cons_ne_nil _ _⟩, rfl⟩
  · rw [if_pos opened]
    exact .inr ⟨fun accepts => opened accepts.1, rfl⟩

/-- A close was initiated. -/
def Ended (channel : PaymentChannel) : Prop := channel.state = .closing ∨ channel.state = .closed

/-- The sequence number a call has accepted. -/
def acceptedSequence (channel : PaymentChannel) (call : Call) : Option UInt64 :=
  match call with
  | .updateState _ _ newSequence _ _ => if (channel.run call).1 then some newSequence else none
  | _ => none

/-- The balances and the sequence stay as they were, and a close is not undone. -/
def Frames (channel after : PaymentChannel) : Prop :=
  (channel.Ended → after.Ended) ∧ ∃ state closeInitiatedTime disputePeriod,
    after = { channel with state, closeInitiatedTime, disputePeriod }

theorem Frames.refl (channel : PaymentChannel) : channel.Frames channel := ⟨id, _, _, _, rfl⟩

theorem open_frames (channel : PaymentChannel) : channel.Frames (channel.after .open_) := by
  rw [after, run, open_]
  split
  · exact .refl channel
  · rename_i pending
    refine ⟨fun ended => ?_, _, _, _, rfl⟩
    exact absurd (by rcases ended with state | state <;> rw [state] <;> decide) pending

theorem initiateClose_frames (channel : PaymentChannel) (disputePeriod currentTime : UInt32) :
    channel.Frames (channel.after (.initiateClose disputePeriod currentTime)) := by
  rw [after, run, initiateClose]
  split
  · exact .refl channel
  · exact ⟨fun _ => .inl rfl, _, _, _, rfl⟩

theorem finalizeClose_frames (channel : PaymentChannel) (currentTime : UInt32) :
    channel.Frames (channel.after (.finalizeClose currentTime)) := by
  rw [after, run, finalizeClose]
  split
  · exact .refl channel
  · split
    · exact .refl channel
    · exact ⟨fun _ => .inr rfl, _, _, _, rfl⟩

/-- Any call but an accepted update leaves the balances and the sequence as they were,
and does not undo a close. -/
theorem after_cases (channel : PaymentChannel) (call : Call) :
    (∃ newBalanceA newBalanceB newSequence signatureA signatureB,
      call = .updateState newBalanceA newBalanceB newSequence signatureA signatureB ∧
      channel.Accepts newBalanceA newBalanceB newSequence signatureA signatureB ∧
      channel.acceptedSequence call = some newSequence ∧
      channel.after call = { channel with
        balanceA := newBalanceA, balanceB := newBalanceB, sequence := newSequence }) ∨
    (channel.acceptedSequence call = none ∧
      (∀ newBalanceA newBalanceB newSequence signatureA signatureB,
        call = .updateState newBalanceA newBalanceB newSequence signatureA signatureB →
          ¬ channel.Accepts newBalanceA newBalanceB newSequence signatureA signatureB) ∧
      (channel.Ended → (channel.after call).Ended) ∧
      ∃ state closeInitiatedTime disputePeriod,
        channel.after call = { channel with state, closeInitiatedTime, disputePeriod }) := by
  cases call with
  | updateState newBalanceA newBalanceB newSequence signatureA signatureB =>
      rcases channel.updateState_cases newBalanceA newBalanceB newSequence signatureA signatureB with
        ⟨accepts, done⟩ | ⟨refuses, done⟩
      · refine .inl ⟨_, _, _, _, _, rfl, accepts, ?_, ?_⟩
        · rw [acceptedSequence, run, done]
          rfl
        · rw [after, run, done]
      · refine .inr ⟨?_, ?_, ?_⟩
        · rw [acceptedSequence, run, done]
          rfl
        · rintro _ _ _ _ _ ⟨⟩
          exact refuses
        · rw [after, run, done]
          exact Frames.refl channel
  | open_ => exact .inr ⟨rfl, nofun, channel.open_frames⟩
  | initiateClose disputePeriod currentTime =>
      exact .inr ⟨rfl, nofun, channel.initiateClose_frames disputePeriod currentTime⟩
  | finalizeClose currentTime => exact .inr ⟨rfl, nofun, channel.finalizeClose_frames currentTime⟩

/-- The sequence numbers that the calls of a run have accepted, in order. -/
def acceptedSequences : PaymentChannel → List Call → List UInt64
  | _, [] => []
  | channel, call :: rest =>
      (channel.acceptedSequence call).toList ++ acceptedSequences (channel.after call) rest

/-- Accepted sequence numbers are above the present one and increase. -/
theorem acceptedSequences_increase (channel : PaymentChannel) (calls : List Call) :
    (∀ sequence ∈ channel.acceptedSequences calls, channel.sequence < sequence) ∧
      (channel.acceptedSequences calls).Pairwise (· < ·) := by
  induction calls generalizing channel with
  | nil => exact ⟨nofun, .nil⟩
  | cons call rest ih =>
      obtain ⟨above, increase⟩ := ih (channel.after call)
      rw [acceptedSequences]
      rcases channel.after_cases call with
        ⟨_, _, newSequence, _, _, _, accepts, accepted, result⟩ | ⟨accepted, _, _, _, _, _, result⟩
      · rw [result] at above increase
        rw [accepted, result, Option.toList_some, List.singleton_append]
        have higher : channel.sequence < newSequence := accepts.2.1
        exact ⟨List.forall_mem_cons.mpr
          ⟨higher, fun sequence member => UInt64.lt_trans higher (above sequence member)⟩,
          List.pairwise_cons.mpr ⟨above, increase⟩⟩
      · rw [result] at above increase
        rw [accepted, result]
        exact ⟨above, increase⟩

theorem acceptedSequences_of_ended {channel : PaymentChannel} (ended : channel.Ended)
    (calls : List Call) : channel.acceptedSequences calls = [] := by
  induction calls generalizing channel with
  | nil => rfl
  | cons call rest ih =>
      rw [acceptedSequences]
      rcases channel.after_cases call with
        ⟨_, _, _, _, _, _, accepts, _, _⟩ | ⟨accepted, _, kept, _⟩
      · rcases ended with state | state <;> exact absurd (state.symm.trans accepts.1) nofun
      · rw [accepted, ih (kept ended)]
        rfl

theorem initiateClose_ended {channel : PaymentChannel} {disputePeriod currentTime : UInt32}
    (closes : (channel.run (.initiateClose disputePeriod currentTime)).1 = true) :
    (channel.after (.initiateClose disputePeriod currentTime)).Ended := by
  rw [run, initiateClose] at closes
  rw [after, run, initiateClose]
  split at closes
  · cases closes
  · rename_i opened
    rw [if_neg opened]
    exact .inl rfl

/-- The parties have exactly what they put in, and neither has more than that. -/
def Conserves (initialA initialB : ChannelBalance) (channel : PaymentChannel) : Prop :=
  ∀ amount ∈ amounts,
    exactSum amount channel.balanceA channel.balanceB = exactSum amount initialA initialB ∧
      (amount channel.balanceA).toNat ≤ exactSum amount initialA initialB ∧
      (amount channel.balanceB).toNat ≤ exactSum amount initialA initialB

theorem conserves_iff {initialA initialB : ChannelBalance} {channel : PaymentChannel} :
    Conserves initialA initialB channel ↔ ∀ amount ∈ amounts,
      exactSum amount channel.balanceA channel.balanceB = exactSum amount initialA initialB := by
  refine forall₂_congr fun amount _ => ⟨And.left, fun same => ⟨same, ?_, ?_⟩⟩
  · rw [← same]
    exact Nat.le_add_right _ _
  · rw [← same]
    exact Nat.le_add_left _ _

/-- An update that is accepted has sums that wrap as the initial ones do. -/
def UpdatesAlike (initialA initialB : ChannelBalance) (channel : PaymentChannel) (call : Call) :
    Prop :=
  ∀ newBalanceA newBalanceB newSequence signatureA signatureB,
    call = .updateState newBalanceA newBalanceB newSequence signatureA signatureB →
      channel.Accepts newBalanceA newBalanceB newSequence signatureA signatureB →
        ∀ amount ∈ amounts, WrapsAlike amount newBalanceA newBalanceB initialA initialB

/-- Updates that wrap alike are exactly those that keep the funds. -/
theorem conserves_after_iff {initialA initialB : ChannelBalance} {channel : PaymentChannel}
    (initial : channel.initialBalanceA = initialA ∧ channel.initialBalanceB = initialB)
    (conserves : Conserves initialA initialB channel) (call : Call) :
    Conserves initialA initialB (channel.after call) ↔
      UpdatesAlike initialA initialB channel call := by
  obtain ⟨rfl, rfl⟩ := initial
  rcases channel.after_cases call with
    ⟨newBalanceA, newBalanceB, newSequence, signatureA, signatureB, rfl, accepts, _, result⟩ |
    ⟨_, refuses, _, _, _, _, result⟩
  · have each (amount : ChannelBalance → UInt64) (member : amount ∈ amounts) :=
      exactSum_eq_iff (accepts.2.2.1 amount member)
    rw [result, conserves_iff]
    constructor
    · rintro kept _ _ _ _ _ ⟨⟩ _ amount member
      exact (each amount member).mp (kept amount member)
    · intro alike amount member
      exact (each amount member).mpr (alike _ _ _ _ _ rfl accepts amount member)
  · rw [result]
    refine iff_of_true conserves ?_
    rintro _ _ _ _ _ isUpdate accepts
    exact absurd accepts (refuses _ _ _ _ _ isUpdate)

theorem after_initial (channel : PaymentChannel) (call : Call) :
    (channel.after call).initialBalanceA = channel.initialBalanceA ∧
      (channel.after call).initialBalanceB = channel.initialBalanceB := by
  rcases channel.after_cases call with
    ⟨_, _, _, _, _, _, _, _, result⟩ | ⟨_, _, _, _, _, _, result⟩
  · rw [result]
    exact ⟨rfl, rfl⟩
  · rw [result]
    exact ⟨rfl, rfl⟩

/-- The check of the channel itself passes in every state, conserved or not. -/
theorem verifyBalances_run (partyA partyB : Bytes) (initialA initialB : ChannelBalance)
    (calls : List Call) :
    (calls.foldl after (create partyA partyB initialA initialB)).verifyBalances = true := by
  have started (channel : PaymentChannel) (passes : channel.verifyBalances = true) :
      (calls.foldl after channel).verifyBalances = true := by
    induction calls generalizing channel with
    | nil => exact passes
    | cons call rest ih =>
        refine ih _ ?_
        rcases channel.after_cases call with
          ⟨newBalanceA, newBalanceB, _, _, _, _, accepts, _, result⟩ | ⟨_, _, _, _, _, _, result⟩
        · have each := accepts.2.2.1
          simp only [amounts, List.forall_mem_cons, List.not_mem_nil, false_imp_iff, implies_true,
            and_true] at each
          rw [result, verifyBalances, each.1, each.2.1, each.2.2]
          rfl
        · rw [result]
          exact passes
  refine started _ ?_
  simp only [verifyBalances, create, sameSum, decide_true, Bool.and_self]

/-- A channel keeps its funds all along a run exactly when each accepted update wraps at 64 bits
as the initial balances do.  Accepted sequence numbers increase, and none is accepted after a
close was initiated. -/
theorem channel_conserves_iff (partyA partyB : Bytes) (initialA initialB : ChannelBalance)
    (calls : List Call) :
    (Obeys (UpdatesAlike initialA initialB) after (create partyA partyB initialA initialB) calls ↔
      ∀ count, Conserves initialA initialB
        ((calls.take count).foldl after (create partyA partyB initialA initialB))) ∧
    ((create partyA partyB initialA initialB).acceptedSequences calls).Pairwise (· < ·) ∧
    ∀ before disputePeriod currentTime later,
      calls = before ++ .initiateClose disputePeriod currentTime :: later →
      ((before.foldl after (create partyA partyB initialA initialB)).run
        (.initiateClose disputePeriod currentTime)).1 = true →
      ((before.foldl after (create partyA partyB initialA initialB)).after
        (.initiateClose disputePeriod currentTime)).acceptedSequences later = [] := by
  refine ⟨?_, (acceptedSequences_increase _ calls).2, ?_⟩
  · have kept (channel : PaymentChannel) (call : Call)
        (initial : channel.initialBalanceA = initialA ∧ channel.initialBalanceB = initialB) :
        (channel.after call).initialBalanceA = initialA ∧
          (channel.after call).initialBalanceB = initialB := by
      obtain ⟨sameA, sameB⟩ := channel.after_initial call
      exact ⟨sameA.trans initial.1, sameB.trans initial.2⟩
    exact obeys_iff_prefixes _ kept
      (fun _ call initial conserves => conserves_after_iff initial conserves call) ⟨rfl, rfl⟩
      (conserves_iff.mpr fun _ _ => rfl) calls
  · rintro before disputePeriod currentTime later - closes
    exact acceptedSequences_of_ended (initiateClose_ended closes) later

/-- Two balances of half the range are accepted where nothing was put in. -/
theorem channel_wraps_funds :
    ¬ ∀ (partyA partyB : Bytes) (initialA initialB : ChannelBalance)
      (calls : List Call), Conserves initialA initialB
        (calls.foldl after
          (create partyA partyB initialA initialB)) := by
  intro all
  have conserved := all [] [] ⟨0, 0, 0⟩ ⟨0, 0, 0⟩
    [.open_, .updateState ⟨0x8000000000000000, 0, 0⟩ ⟨0x8000000000000000, 0, 0⟩ 1 [1] [1]]
    taln List.mem_cons_self
  exact absurd conserved.1 (by decide +kernel)

end PaymentChannel

end Parthenon.Bridge
