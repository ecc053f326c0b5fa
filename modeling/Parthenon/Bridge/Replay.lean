import Parthenon.Bridge.BridgeLaws
import Parthenon.Library.ReplayGuard
import Parthenon.Library.Runs

namespace Parthenon.Bridge

open Library Crypto Storage

/-! # Replay protection

The keys of all four operations are strings in one set.  Two different requests
share a key when they are a lock and a burn of one sender with one nonce, or when
a sender is called like the chain a message comes from.
-/

/-! ## Keys -/

theorem colon_not_mem_decimal (value : Nat) : (58 : UInt8) ∉ decimal value :=
  not_mem_decimal (by decide) value

theorem makeNonceKey_inj {sender other : Bytes} {nonce otherNonce : UInt64} :
    makeNonceKey sender nonce = makeNonceKey other otherNonce ↔ sender = other ∧ nonce = otherNonce := by
  constructor
  · intro same
    obtain ⟨rfl, digits⟩ := append_separator_inj (colon_not_mem_decimal nonce.toNat)
      (colon_not_mem_decimal otherNonce.toNat) same
    exact ⟨rfl, UInt64.toNat_inj.mp (decimal_inj digits)⟩
  · rintro ⟨rfl, rfl⟩
    rfl

/-! ## Requests -/

/-- What a call is about: an intent of one operation, or a message between two chains. -/
inductive BridgeId
  | lock (sender : Bytes) (nonce : UInt64)
  | burn (sender : Bytes) (nonce : UInt64)
  | message (origin destination : ChainId) (nonce : UInt64)
deriving DecidableEq, Repr

namespace BridgeId

def key : BridgeId → Bytes
  | lock sender nonce => makeNonceKey sender nonce
  | burn sender nonce => makeNonceKey sender nonce
  | message origin _ nonce => makeNonceKey (decimal origin.value.toNat) nonce

/-- A sender that is called like the origin of a message with the same nonce. -/
def Poses (sender : Bytes) (nonce : UInt64) (origin : ChainId) (messageNonce : UInt64) : Prop :=
  sender = decimal origin.value.toNat ∧ nonce = messageNonce

/-- Two different requests that share a key. -/
def Clash : BridgeId → BridgeId → Prop
  | lock sender nonce, burn other otherNonce => sender = other ∧ nonce = otherNonce
  | burn sender nonce, lock other otherNonce => sender = other ∧ nonce = otherNonce
  | lock sender nonce, message origin _ messageNonce => Poses sender nonce origin messageNonce
  | burn sender nonce, message origin _ messageNonce => Poses sender nonce origin messageNonce
  | message origin _ messageNonce, lock sender nonce => Poses sender nonce origin messageNonce
  | message origin _ messageNonce, burn sender nonce => Poses sender nonce origin messageNonce
  | _, _ => False

/-- A message that goes along a lane, one way or the other. -/
def Along (lane : Lane) : BridgeId → Prop
  | message origin destination _ =>
      origin = lane.home ∧ destination = lane.away ∨ origin = lane.away ∧ destination = lane.home
  | _ => True

theorem key_eq_iff {lane : Lane} (apart : lane.home ≠ lane.away) {id other : BridgeId}
    (along : id.Along lane) (otherAlong : other.Along lane) :
    id.key = other.key ↔ id = other ∨ id.Clash other := by
  have origins : ∀ {origin otherOrigin : ChainId},
      decimal origin.value.toNat = decimal otherOrigin.value.toNat ↔ origin = otherOrigin := by
    intro origin otherOrigin
    constructor
    · intro same
      exact ChainId.ext (UInt32.toNat_inj.mp (decimal_inj same))
    · rintro rfl
      rfl
  cases id with
  | lock sender nonce =>
      cases other <;> simp [key, Clash, Poses, makeNonceKey_inj]
  | burn sender nonce =>
      cases other <;> simp [key, Clash, Poses, makeNonceKey_inj]
  | message origin destination nonce =>
      cases other with
      | lock sender otherNonce =>
          simp only [key, Clash, Poses, makeNonceKey_inj, reduceCtorEq, false_or, eq_comm]
      | burn sender otherNonce =>
          simp only [key, Clash, Poses, makeNonceKey_inj, reduceCtorEq, false_or, eq_comm]
      | message otherOrigin otherDestination otherNonce =>
          simp only [key, Clash, makeNonceKey_inj, origins, or_false, message.injEq]
          constructor
          · rintro ⟨rfl, rfl⟩
            refine ⟨rfl, ?_, rfl⟩
            -- one origin leaves one destination on a lane
            rcases along with ⟨rfl, rfl⟩ | ⟨rfl, rfl⟩
            · rcases otherAlong with ⟨-, rfl⟩ | ⟨same, -⟩
              · rfl
              · exact absurd same apart
            · rcases otherAlong with ⟨same, -⟩ | ⟨-, rfl⟩
              · exact absurd same.symm apart
              · rfl
          · rintro ⟨rfl, -, rfl⟩
            exact ⟨rfl, rfl⟩

end BridgeId

namespace BridgeCall

def id : BridgeCall → BridgeId
  | lock intent => .lock intent.senderAddress intent.nonce
  | unlock message _ _ =>
      .message message.originChainId message.destinationChainId message.messageNonce
  | mint message _ _ => .message message.originChainId message.destinationChainId message.messageNonce
  | burn intent => .burn intent.senderAddress intent.nonce

theorem id_key (call : BridgeCall) : call.id.key = call.key := by
  cases call <;> rfl

/-- A call that passes what is checked before its key is looked up. -/
def Reaches (lane : Lane) (state : BridgeState) : BridgeCall → Prop
  | lock intent => intent.originChainId = lane.home ∧ intent.destinationChainId = lane.away ∧
      intent.amountBaseUnits ≠ 0 ∧ intent.amountBaseUnits ≤ 0xffffffffffffffff - state.totalLocked
  | unlock message currentHeight lockHeight =>
      message.originChainId = lane.away ∧ message.destinationChainId = lane.home ∧
        lockHeight + lane.minConfirmations.toUInt64 ≤ currentHeight
  | mint message currentHeight lockHeight =>
      message.originChainId = lane.home ∧ message.destinationChainId = lane.away ∧
        lockHeight + lane.minConfirmations.toUInt64 ≤ currentHeight
  | burn intent => intent.originChainId = lane.away ∧ intent.destinationChainId = lane.home ∧
      intent.amountBaseUnits ≠ 0

theorem Reaches.along {lane : Lane} {state : BridgeState} {call : BridgeCall}
    (reaches : call.Reaches lane state) : call.id.Along lane := by
  cases call with
  | lock intent => trivial
  | unlock message currentHeight lockHeight => exact .inr ⟨reaches.1, reaches.2.1⟩
  | mint message currentHeight lockHeight => exact .inl ⟨reaches.1, reaches.2.1⟩
  | burn intent => trivial

end BridgeCall

namespace BridgeState

variable {secp : Secp256k1} {lane : Lane} {state : BridgeState} {call : BridgeCall}

theorem Accepts.reaches (accepts : state.Accepts secp lane call) :
    call.Reaches lane state ∧ call.key ∉ state.processedNonceKeys := by
  cases accepts with
  | lock originated destined positive fits unprocessed =>
      exact ⟨⟨originated, destined, positive, fits⟩, unprocessed⟩
  | unlock passes =>
      exact ⟨⟨passes.originated, passes.destined, UInt64.not_lt.mp passes.confirmed⟩,
        passes.unprocessed⟩
  | mint passes _ =>
      exact ⟨⟨passes.originated, passes.destined, UInt64.not_lt.mp passes.confirmed⟩,
        passes.unprocessed⟩
  | burn originated destined positive unprocessed =>
      exact ⟨⟨originated, destined, positive⟩, unprocessed⟩

theorem checkMessage_replay_iff {origin destination : ChainId} {minConfirmations : UInt32}
    {message : CrossChainMessage} {currentHeight lockHeight : UInt64} :
    state.checkMessage secp origin destination minConfirmations message currentHeight lockHeight =
        .error .errReplay ↔
      (message.originChainId = origin ∧ message.destinationChainId = destination ∧
        lockHeight + minConfirmations.toUInt64 ≤ currentHeight) ∧
      messageKey message ∈ state.processedNonceKeys := by
  unfold checkMessage
  split
  · rename_i chains
    exact iff_of_false nofun fun both => not_and_or.mpr chains ⟨both.1.1, both.1.2.1⟩
  rename_i chains
  obtain ⟨originated, destined⟩ := not_or.mp chains
  split
  · rename_i early
    refine iff_of_false nofun ?_
    rintro ⟨⟨-, -, confirmed⟩, -⟩
    exact UInt64.not_lt.mpr confirmed early
  rename_i confirmed
  split
  · rename_i processed
    exact iff_of_true rfl ⟨⟨Decidable.not_not.mp originated, Decidable.not_not.mp destined,
      UInt64.not_lt.mp confirmed⟩, processed⟩
  rename_i unprocessed
  refine iff_of_false ?_ fun both => unprocessed both.2
  split
  · exact nofun
  split
  · exact nofun
  · exact nofun

theorem processBurnUnlock_replay_iff {message : CrossChainMessage} {currentHeight lockHeight : UInt64} :
    (state.processBurnUnlock secp lane message currentHeight lockHeight).1 = .errReplay ↔
      state.checkMessage secp lane.away lane.home lane.minConfirmations message currentHeight
        lockHeight = .error .errReplay := by
  unfold processBurnUnlock
  cases state.checkMessage secp lane.away lane.home lane.minConfirmations message currentHeight
    lockHeight with
  | error result => simp
  | ok key => simp

theorem processLockMint_replay_iff {message : CrossChainMessage} {currentHeight lockHeight : UInt64} :
    (state.processLockMint secp lane message currentHeight lockHeight).1 = .errReplay ↔
      state.checkMessage secp lane.home lane.away lane.minConfirmations message currentHeight
        lockHeight = .error .errReplay := by
  unfold processLockMint
  cases state.checkMessage secp lane.home lane.away lane.minConfirmations message currentHeight
    lockHeight with
  | error result => simp
  | ok key =>
      refine iff_of_false ?_ nofun
      dsimp only
      split
      · split
        · exact nofun
        split
        · exact nofun
        · exact nofun
      · exact nofun

theorem recordLock_replay_iff {intent : BridgeTransferIntent} :
    (state.recordLock lane intent).1 = .errReplay ↔
      (BridgeCall.lock intent).Reaches lane state ∧
        (BridgeCall.lock intent).key ∈ state.processedNonceKeys := by
  unfold recordLock
  split
  · rename_i chains
    exact iff_of_false nofun fun both => not_and_or.mpr chains ⟨both.1.1, both.1.2.1⟩
  rename_i chains
  obtain ⟨originated, destined⟩ := not_or.mp chains
  split
  · rename_i zero
    exact iff_of_false nofun fun both => both.1.2.2.1 zero
  rename_i positive
  split
  · rename_i above
    exact iff_of_false nofun fun both => UInt64.not_lt.mpr both.1.2.2.2 above
  rename_i fits
  dsimp only
  split
  · rename_i processed
    exact iff_of_true rfl ⟨⟨Decidable.not_not.mp originated, Decidable.not_not.mp destined, positive,
      UInt64.not_lt.mp fits⟩, processed⟩
  · rename_i unprocessed
    exact iff_of_false nofun fun both => unprocessed both.2

theorem recordBurn_replay_iff {intent : BridgeTransferIntent} :
    (state.recordBurn lane intent).1 = .errReplay ↔
      (BridgeCall.burn intent).Reaches lane state ∧
        (BridgeCall.burn intent).key ∈ state.processedNonceKeys := by
  unfold recordBurn
  split
  · rename_i chains
    exact iff_of_false nofun fun both => not_and_or.mpr chains ⟨both.1.1, both.1.2.1⟩
  rename_i chains
  obtain ⟨originated, destined⟩ := not_or.mp chains
  split
  · rename_i zero
    exact iff_of_false nofun fun both => both.1.2.2 zero
  rename_i positive
  dsimp only
  split
  · rename_i processed
    exact iff_of_true rfl ⟨⟨Decidable.not_not.mp originated, Decidable.not_not.mp destined, positive⟩,
      processed⟩
  · rename_i unprocessed
    exact iff_of_false nofun fun both => unprocessed both.2

end BridgeState

namespace Crossing

variable {secp : Secp256k1} {crossing : Crossing} {state : BridgeState} {call : BridgeCall}

theorem lane_apart (crossing : Crossing) : crossing.lane.home ≠ crossing.lane.away := by
  cases crossing <;> decide

/-- A replay is a call that reaches the keys and finds its own there. -/
theorem replay_iff : (crossing.apply secp state call).1 = .errReplay ↔
    call.Reaches crossing.lane state ∧ call.key ∈ state.processedNonceKeys := by
  rw [apply_eq_lane]
  cases call with
  | lock intent => exact BridgeState.recordLock_replay_iff
  | unlock message currentHeight lockHeight =>
      exact BridgeState.processBurnUnlock_replay_iff.trans BridgeState.checkMessage_replay_iff
  | mint message currentHeight lockHeight =>
      exact BridgeState.processLockMint_replay_iff.trans BridgeState.checkMessage_replay_iff
  | burn intent => exact BridgeState.recordBurn_replay_iff

end Crossing

/-! ## Runs -/

def BridgeResult.verdict : BridgeResult → Verdict
  | ok => .accepted
  | errReplay => .replayed
  | _ => .refused

/-- A bridge with what it said to every request. -/
structure Audited where
  bridge : BridgeState
  verdicts : Verdicts BridgeId

namespace Audited

variable (secp : Secp256k1) (crossing : Crossing)

def opened (bridge : BridgeState) : Audited := ⟨bridge, []⟩

def after (audited : Audited) (call : BridgeCall) : Audited :=
  let (result, next) := crossing.apply secp audited.bridge call
  ⟨next, (call.id, result.verdict) :: audited.verdicts⟩

/-- A call that gets to the keys shares its own with no other request accepted before. -/
def Unclashed (audited : Audited) (call : BridgeCall) : Prop :=
  call.Reaches crossing.lane audited.bridge →
    ∀ id, (id, Verdict.accepted) ∈ audited.verdicts → ¬ id.Clash call.id

/-- The keys are those of the accepted requests, and their messages go along the lane. -/
structure Sound (audited : Audited) : Prop where
  guarded : Verdicts.Guarded BridgeId.key audited.bridge.processedNonceKeys audited.verdicts
  along : ∀ id, (id, Verdict.accepted) ∈ audited.verdicts → id.Along crossing.lane

variable {secp crossing} {audited : Audited} {call : BridgeCall}

/-- What a call does is a step of a replay guard. -/
theorem after_step : Verdicts.Step BridgeId.key audited.bridge.processedNonceKeys call.id
    (crossing.apply secp audited.bridge call).1.verdict
    (crossing.apply secp audited.bridge call).2.processedNonceKeys := by
  obtain ⟨result, refused, failed⟩ | ⟨accepts, booked⟩ :=
    crossing.apply_outcome secp audited.bridge call
  · have replay : (crossing.apply secp audited.bridge call).1 = .errReplay ↔ _ :=
      Crossing.replay_iff
    rw [refused] at replay ⊢
    cases result with
    | ok => exact absurd rfl failed
    | errReplay =>
        refine .replay ?_
        rw [call.id_key]
        exact (replay.mp rfl).2
    | errInvalidProof => exact .refuse
    | errInsufficientConf => exact .refuse
    | errAmountZero => exact .refuse
    | errSupplyOverflow => exact .refuse
    | errInvalidChain => exact .refuse
    | errInsufficientSignatures => exact .refuse
  · have unprocessed := accepts.reaches.2
    rw [← call.id_key] at unprocessed
    rw [booked]
    have step := Verdicts.Step.accept unprocessed
    rw [call.id_key] at step
    exact step

theorem verdict_eq_replayed {result : BridgeResult} :
    result.verdict = .replayed ↔ result = .errReplay := by
  cases result <;> simp [BridgeResult.verdict]

theorem verdict_eq_accepted {result : BridgeResult} : result.verdict = .accepted ↔ result = .ok := by
  cases result <;> simp [BridgeResult.verdict]

theorem Sound.after (sound : audited.Sound crossing) (call : BridgeCall) :
    (audited.after secp crossing call).Sound crossing where
  guarded := after_step.guarded sound.guarded
  along := by
    intro id listed
    rcases List.mem_cons.mp listed with here | earlier
    · obtain ⟨rfl, accepted⟩ := Prod.mk.inj here
      exact (Crossing.apply_ok_iff.mp (verdict_eq_accepted.mp accepted.symm)).reaches.1.along
    · exact sound.along id earlier

theorem clash_irrefl (id : BridgeId) : ¬ id.Clash id := by
  cases id <;> simp [BridgeId.Clash]

theorem after_exact_iff (sound : audited.Sound crossing) (exactly : audited.verdicts.Exact)
    (call : BridgeCall) :
    (audited.after secp crossing call).verdicts.Exact ↔ audited.Unclashed crossing call := by
  refine (after_step.exact_iff sound.guarded exactly).trans ?_
  rw [verdict_eq_replayed, Crossing.replay_iff, ← call.id_key]
  constructor
  · intro only reaches id listed clash
    have same : id.key = call.id.key :=
      (BridgeId.key_eq_iff crossing.lane_apart (sound.along id listed) reaches.along).mpr (.inr clash)
    have held : call.id.key ∈ audited.bridge.processedNonceKeys :=
      (sound.guarded.holds _).mpr ⟨id, listed, same⟩
    rw [only ⟨reaches, held⟩ id listed same] at clash
    exact clash_irrefl _ clash
  · rintro unclashed ⟨reaches, -⟩ other listed same
    rcases (BridgeId.key_eq_iff crossing.lane_apart (sound.along other listed)
      reaches.along).mp same with identical | clash
    · exact identical
    · exact absurd clash (unclashed reaches other listed)

theorem opened_sound {bridge : BridgeState} (fresh : bridge.processedNonceKeys = ∅) :
    (opened bridge).Sound crossing where
  guarded := by
    unfold opened
    rw [fresh]
    exact Verdicts.guarded_empty
  along id listed := by cases listed

/-- From a bridge that has processed nothing, no request is accepted twice and none
is called a replay that was not accepted before, in all of a run, if and only if no
call of the run clashes with a request accepted before it. -/
theorem run_exact_iff (secp : Secp256k1) (crossing : Crossing) {bridge : BridgeState}
    (fresh : bridge.processedNonceKeys = ∅) (calls : List BridgeCall) :
    Obeys (Unclashed crossing) (after secp crossing) (opened bridge) calls ↔
      ∀ count, ((calls.take count).foldl (after secp crossing) (opened bridge)).verdicts.Exact :=
  obeys_iff_prefixes (Sound crossing) (fun _ call sound => sound.after call)
    (fun _ call sound exactly => after_exact_iff sound exactly call) (opened_sound fresh) trivial calls

/-- A lock, the same lock again, and a burn with the next nonce. -/
def lockedTwice : List BridgeCall :=
  [.lock (SampleBridge.intent .talanton .drachma 5), .lock (SampleBridge.intent .talanton .drachma 5),
    .burn { SampleBridge.intent .drachma .talanton 5 with nonce := 2 }]

theorem run_exact_lockedTwice :
    ((lockedTwice.take 3).foldl (after SampleBridge.library .talantonDrachma)
      (opened SampleBridge.opened)).verdicts.Exact := by
  refine (run_exact_iff SampleBridge.library .talantonDrachma rfl lockedTwice).mp ?_ 3
  refine ⟨fun _ => nofun, fun _ => ?_, fun _ => ?_, trivial⟩
  · intro id listed clash
    obtain rfl : id = .lock SampleBridge.sender 1 := (Prod.mk.inj (List.mem_singleton.mp listed)).1
    exact clash
  · intro id listed clash
    rcases List.mem_cons.mp listed with here | earlier
    · cases (Prod.mk.inj here).2
    · obtain rfl : id = .lock SampleBridge.sender 1 := (Prod.mk.inj (List.mem_singleton.mp earlier)).1
      exact absurd clash.2 (by decide)

/-- A user called 1002 locks tokens, and the first unlock message of chain 1002 is a
replay. -/
theorem run_not_exact :
    ¬ ∀ (secp : Secp256k1) (crossing : Crossing) (bridge : BridgeState),
      bridge.processedNonceKeys = ∅ → ∀ calls : List BridgeCall,
        (calls.foldl (after secp crossing) (opened bridge)).verdicts.Exact := by
  intro always
  have exactly := always SampleBridge.library .talantonDrachma SampleBridge.opened rfl
    [.lock { SampleBridge.intent .talanton .drachma 5 with senderAddress := text "1002".toList },
      .unlock (SampleBridge.unlockMessage 5) 10 1]
  exact absurd exactly (by decide +kernel)

end Audited

end Parthenon.Bridge
