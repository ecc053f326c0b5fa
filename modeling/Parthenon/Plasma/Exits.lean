import Parthenon.Library.Runs
import Parthenon.Plasma.PlasmaChain

namespace Parthenon.Plasma

open Library Crypto Std

/-! # Exits of a run

An exit is to be paid once, and not after a challenge that succeeded.  The record of
an exit is lost when it is finalized or requested again, so what the chain answered is
kept beside it.
-/

inductive ExitCall
  | setChallengePeriod (blocks : UInt64)
  | submitBlock (block : PlasmaBlock)
  | requestExit (request : ExitRequest)
  | challengeExit (txHash : Hash) (fraudProof : Bytes)
  | finalizeExit (txHash : Hash)

inductive ExitEntry
  | challenged (txHash : Hash)
  | finalized (txHash : Hash)
deriving DecidableEq, Repr

/-- A chain with the challenges and the finalizations that succeeded, the newest first. -/
structure ExitHistory where
  chain : PlasmaChain
  log : List ExitEntry

/-- No exit is finalized after it was finalized or challenged. -/
def PaidOnce : List ExitEntry → Prop
  | [] => True
  | .challenged _ :: earlier => PaidOnce earlier
  | .finalized txHash :: earlier =>
      (.finalized txHash ∉ earlier ∧ .challenged txHash ∉ earlier) ∧ PaidOnce earlier

instance PaidOnce.decidable : ∀ log, Decidable (PaidOnce log)
  | [] => inferInstanceAs (Decidable True)
  | .challenged _ :: earlier => PaidOnce.decidable earlier
  | .finalized _ :: earlier =>
      have : Decidable (PaidOnce earlier) := PaidOnce.decidable earlier
      inferInstanceAs (Decidable (_ ∧ _))

namespace ExitHistory

def new : ExitHistory where
  chain := .new
  log := []

variable (history : ExitHistory)

def after : ExitCall → ExitHistory
  | .setChallengePeriod blocks => { history with chain := history.chain.setChallengePeriod blocks }
  | .submitBlock block => { history with chain := (history.chain.submitBlock block).2 }
  | .requestExit request => { history with chain := (history.chain.requestExit request).2 }
  | .challengeExit txHash fraudProof =>
      { chain := (history.chain.challengeExit txHash fraudProof).2
        log := if (history.chain.challengeExit txHash fraudProof).1 then .challenged txHash :: history.log
          else history.log }
  | .finalizeExit txHash =>
      { chain := (history.chain.finalizeExit txHash).2
        log := if (history.chain.finalizeExit txHash).1 then .finalized txHash :: history.log
          else history.log }

/-- The exit of a transaction that was finalized or challenged is not requested again
with a proof that verifies. -/
def Orderly : ExitCall → Prop
  | .requestExit request =>
      (∃ block ∈ history.chain.getBlock request.plasmaBlockNumber,
        verifyMerkleProof request.txHash block.merkleRoot request.merkleProof = true) →
          .finalized request.txHash ∉ history.log ∧ .challenged request.txHash ∉ history.log
  | .setChallengePeriod _ => True
  | .submitBlock _ => True
  | .challengeExit _ _ => True
  | .finalizeExit _ => True

/-- A pending exit was not finalized, and its record shows a challenge. -/
structure Sound : Prop where
  paidOnce : PaidOnce history.log
  unpaid : ∀ (txHash : Hash) exit, history.chain.exitRequests[txHash.bytes]? = some exit →
    .finalized txHash ∉ history.log
  shown : ∀ (txHash : Hash) exit, history.chain.exitRequests[txHash.bytes]? = some exit →
    .challenged txHash ∈ history.log → exit.challenged = true

variable {history : ExitHistory}

theorem new_sound : new.Sound where
  paidOnce := trivial
  unpaid := fun _ _ found => absurd found not_found_empty
  shown := fun _ _ found => absurd found not_found_empty

/-- A call that writes no record and answers nothing keeps what is known. -/
theorem Sound.of_same (sound : history.Sound) {chain : PlasmaChain}
    (same : chain.exitRequests = history.chain.exitRequests) :
    ({ history with chain } : ExitHistory).Sound where
  paidOnce := sound.paidOnce
  unpaid := by
    intro txHash exit found
    rw [same] at found
    exact sound.unpaid txHash exit found
  shown := by
    intro txHash exit found
    rw [same] at found
    exact sound.shown txHash exit found

theorem submitBlock_exitRequests (chain : PlasmaChain) (block : PlasmaBlock) :
    (chain.submitBlock block).2.exitRequests = chain.exitRequests := by
  unfold PlasmaChain.submitBlock
  split
  · rfl
  · split <;> rfl

/-- What a request leaves of the records. -/
theorem requestExit_cases (chain : PlasmaChain) (request : ExitRequest) :
    chain.requestExit request = (false, chain) ∨
      (∃ block ∈ chain.getBlock request.plasmaBlockNumber,
        verifyMerkleProof request.txHash block.merkleRoot request.merkleProof = true) ∧
        ∃ exit : ExitRequest, chain.requestExit request =
          (true, { chain with exitRequests := chain.exitRequests.insert request.txHash.bytes exit }) := by
  unfold PlasmaChain.requestExit
  split
  · exact .inl rfl
  · rename_i block stored
    split
    · exact .inl rfl
    · rename_i verified
      exact .inr ⟨⟨block, stored, by simpa using verified⟩, _, rfl⟩

theorem challengeExit_cases (chain : PlasmaChain) (txHash : Hash) (fraudProof : Bytes) :
    chain.challengeExit txHash fraudProof = (false, chain) ∨
      ∃ exit, chain.exitRequests[txHash.bytes]? = some exit ∧
        chain.challengeExit txHash fraudProof =
          (true, { chain with
            exitRequests := chain.exitRequests.insert txHash.bytes { exit with challenged := true } }) := by
  unfold PlasmaChain.challengeExit
  cases found : chain.exitRequests[txHash.bytes]? with
  | none => exact .inl rfl
  | some exit =>
      dsimp only
      split
      · exact .inl rfl
      · split
        · exact .inl rfl
        · exact .inr ⟨exit, rfl, rfl⟩

theorem finalizeExit_cases (chain : PlasmaChain) (txHash : Hash) :
    chain.finalizeExit txHash = (false, chain) ∨
      ∃ exit, chain.exitRequests[txHash.bytes]? = some exit ∧
        chain.finalizeExit txHash =
          (!exit.challenged, { chain with exitRequests := chain.exitRequests.erase txHash.bytes }) := by
  unfold PlasmaChain.finalizeExit
  cases found : chain.exitRequests[txHash.bytes]? with
  | none => exact .inl rfl
  | some exit =>
      dsimp only
      split
      · exact .inl rfl
      · exact .inr ⟨exit, rfl, rfl⟩

theorem Sound.requestExit (sound : history.Sound) {request : ExitRequest}
    (orderly : history.Orderly (.requestExit request)) :
    (history.after (.requestExit request)).Sound := by
  dsimp only [ExitHistory.after]
  rcases requestExit_cases history.chain request with refused | ⟨admitted, exit, accepted⟩
  · rw [refused]
    exact sound
  · obtain ⟨unpaid, unchallenged⟩ := orderly admitted
    rw [accepted]
    refine ⟨sound.paidOnce, fun txHash other found => ?_, fun txHash other found listed => ?_⟩
    · rw [getElem?_insert_eq] at found
      split at found
      · rename_i same
        rw [← FixedBytes.ext same]
        exact unpaid
      · exact sound.unpaid txHash other found
    · rw [getElem?_insert_eq] at found
      split at found
      · rename_i same
        rw [← FixedBytes.ext same] at listed
        exact (unchallenged listed).elim
      · exact sound.shown txHash other found listed

theorem Sound.challengeExit (sound : history.Sound) (txHash : Hash) (fraudProof : Bytes) :
    (history.after (.challengeExit txHash fraudProof)).Sound := by
  dsimp only [ExitHistory.after]
  rcases challengeExit_cases history.chain txHash fraudProof with refused | ⟨exit, pending, accepted⟩
  · rw [refused, if_neg Bool.false_ne_true]
    exact sound
  · rw [accepted, if_pos rfl]
    refine ⟨sound.paidOnce, fun other record found listed => ?_, fun other record found listed => ?_⟩
    · rw [getElem?_insert_eq] at found
      have before := List.mem_of_ne_of_mem (by simp) listed
      split at found
      · rename_i same
        rw [← FixedBytes.ext same] at before
        exact sound.unpaid txHash exit pending before
      · exact sound.unpaid other record found before
    · rw [getElem?_insert_eq] at found
      split at found
      · cases found
        rfl
      · rename_i differs
        have before : .challenged other ∈ history.log := by
          refine List.mem_of_ne_of_mem (fun same => ?_) listed
          cases same
          exact differs rfl
        exact sound.shown other record found before

theorem Sound.finalizeExit (sound : history.Sound) (txHash : Hash) :
    (history.after (.finalizeExit txHash)).Sound := by
  dsimp only [ExitHistory.after]
  rcases finalizeExit_cases history.chain txHash with refused | ⟨exit, pending, erased⟩
  · rw [refused, if_neg Bool.false_ne_true]
    exact sound
  · rw [erased]
    have remaining : ∀ (other : Hash) record,
        (history.chain.exitRequests.erase txHash.bytes)[other.bytes]? = some record →
          other ≠ txHash ∧ history.chain.exitRequests[other.bytes]? = some record := by
      intro other record found
      rw [getElem?_erase_eq] at found
      split at found
      · cases found
      · rename_i differs
        exact ⟨fun same => differs (by rw [same]), found⟩
    cases challenged : exit.challenged with
    | true =>
        rw [if_neg (by simp)]
        exact ⟨sound.paidOnce,
          fun other record found => sound.unpaid other record (remaining other record found).2,
          fun other record found => sound.shown other record (remaining other record found).2⟩
    | false =>
        have unchallenged : .challenged txHash ∉ history.log := by
          intro listed
          rw [sound.shown txHash exit pending listed] at challenged
          cases challenged
        rw [if_pos (by simp)]
        refine ⟨⟨⟨sound.unpaid txHash exit pending, unchallenged⟩, sound.paidOnce⟩,
          fun other record found listed => ?_, fun other record found listed => ?_⟩
        · obtain ⟨differs, before⟩ := remaining other record found
          refine sound.unpaid other record before (List.mem_of_ne_of_mem (fun same => ?_) listed)
          cases same
          exact differs rfl
        · obtain ⟨_, before⟩ := remaining other record found
          exact sound.shown other record before (List.mem_of_ne_of_mem (by simp) listed)

theorem Sound.after (sound : history.Sound) {call : ExitCall} (orderly : history.Orderly call) :
    (history.after call).Sound := by
  cases call with
  | setChallengePeriod blocks => exact sound.of_same rfl
  | submitBlock block => exact sound.of_same (submitBlock_exitRequests history.chain block)
  | requestExit request => exact sound.requestExit orderly
  | challengeExit txHash fraudProof => exact sound.challengeExit txHash fraudProof
  | finalizeExit txHash => exact sound.finalizeExit txHash

/-- In every run that does not request an exit again once it was finalized or
challenged, exits are paid once and not after a challenge. -/
theorem orderly_run_paidOnce {calls : List ExitCall}
    (run : Run (fun history call next => history.Orderly call ∧ next = history.after call) new calls
      history) : PaidOnce history.log := by
  have sound : history.Sound := by
    refine run.invariant new_sound fun before call next sound step => ?_
    obtain ⟨orderly, rfl⟩ := step
    exact sound.after orderly
  exact sound.paidOnce

/-! ## An exit that is paid twice -/

def blockAt (number : Nat) : PlasmaBlock where
  blockHash := zeroHash
  prevHash := zeroHash
  merkleRoot := buildMerkleRoot [zeroHash, zeroHash]
  blockNumber := .ofNat number
  timestamp := 0
  transactions := [zeroHash, zeroHash]

def exitAt (number : Nat) : ExitRequest where
  txHash := zeroHash
  plasmaBlockNumber := .ofNat number
  owner := []
  amount := 1
  merkleProof := inclusionProof [zeroHash, zeroHash] 0
  challengePeriodEnd := 0
  challenged := false

/-- The chain ends with the block of a number and has the challenge period it was made with. -/
structure EndsAt (history : ExitHistory) (number : Nat) : Prop where
  current : history.chain.currentBlockNumber = .ofNat number
  period : history.chain.challengePeriod = 100
  stored : history.chain.blocks[UInt64.ofNat number]? = some (blockAt number)

def submitNext (number count : Nat) : List ExitCall :=
  (List.range' (number + 1) count).map fun next => .submitBlock (blockAt next)

theorem submitBlock_next {chain : PlasmaChain} {number : Nat}
    (current : chain.currentBlockNumber = .ofNat number)
    (stored : chain.blocks[UInt64.ofNat number]? = some (blockAt number)) :
    (chain.submitBlock (blockAt (number + 1))).2 =
      { chain with
        blocks := chain.blocks.insert (.ofNat (number + 1)) (blockAt (number + 1))
        currentBlockNumber := .ofNat (number + 1) } := by
  have sequential : (blockAt (number + 1)).blockNumber = chain.currentBlockNumber + 1 := by
    rw [current]
    exact UInt64.ofNat_add number 1
  have linked : chain.follows (blockAt (number + 1)) = true := by
    unfold PlasmaChain.follows
    rw [current, stored]
    simp [blockAt]
  unfold PlasmaChain.submitBlock
  rw [if_neg (not_not.mpr sequential), if_neg (by simp [linked])]
  rfl

theorem EndsAt.submitNext {history : ExitHistory} {number : Nat} (ends : history.EndsAt number)
    (count : Nat) :
    ∃ later : ExitHistory, (ExitHistory.submitNext number count).foldl after history = later ∧
      later.EndsAt (number + count) ∧ later.log = history.log ∧
      later.chain.exitRequests = history.chain.exitRequests := by
  induction count generalizing history number with
  | zero => exact ⟨history, rfl, ends, rfl, rfl⟩
  | succ count ih =>
      have next : (history.after (.submitBlock (blockAt (number + 1)))).EndsAt (number + 1) := by
        dsimp only [ExitHistory.after]
        rw [submitBlock_next ends.current ends.stored]
        exact ⟨rfl, ends.period, ExtTreeMap.getElem?_insert_self⟩
      obtain ⟨later, reached, endsLater, sameLog, sameExits⟩ := ih next
      refine ⟨later, reached, ?_, sameLog, sameExits.trans (submitBlock_exitRequests _ _)⟩
      rwa [Nat.add_assoc, Nat.add_comm 1 count] at endsLater

/-- An exit with the blocks of its challenge period after it. -/
def exitCycle (number : Nat) : List ExitCall :=
  .requestExit (exitAt number) :: (submitNext number 100 ++ [.finalizeExit zeroHash])

theorem EndsAt.exitCycle {history : ExitHistory} {number : Nat} (ends : history.EndsAt number) :
    ((ExitHistory.exitCycle number).foldl after history).EndsAt (number + 100) ∧
      ((ExitHistory.exitCycle number).foldl after history).log =
        .finalized zeroHash :: history.log := by
  have proved := (inclusionProof_verifies_iff (by decide : 0 < [zeroHash, zeroHash].length)).mpr (by decide)
  have accepted : history.chain.requestExit (exitAt number) =
      (true, { history.chain with
        exitRequests := history.chain.exitRequests.insert zeroHash.bytes
          { exitAt number with
            challengePeriodEnd := history.chain.currentBlockNumber + history.chain.challengePeriod } }) := by
    have found : history.chain.getBlock (exitAt number).plasmaBlockNumber = some (blockAt number) :=
      ends.stored
    have verified : verifyMerkleProof (exitAt number).txHash (blockAt number).merkleRoot
        (exitAt number).merkleProof = true := proved
    simp only [PlasmaChain.requestExit, found, verified, Bool.not_true, Bool.false_eq_true, if_false]
    rfl
  have requested : (history.after (.requestExit (exitAt number))).EndsAt number := by
    dsimp only [ExitHistory.after]
    rw [accepted]
    exact ⟨ends.current, ends.period, ends.stored⟩
  obtain ⟨later, reached, endsLater, sameLog, sameExits⟩ := requested.submitNext 100
  have pending : later.chain.exitRequests[zeroHash.bytes]? = some
      { exitAt number with
        challengePeriodEnd := history.chain.currentBlockNumber + history.chain.challengePeriod } := by
    rw [sameExits]
    dsimp only [ExitHistory.after]
    rw [accepted]
    exact ExtTreeMap.getElem?_insert_self
  have elapsed : ¬ later.chain.currentBlockNumber <
      history.chain.currentBlockNumber + history.chain.challengePeriod := by
    rw [endsLater.current, ends.current, ends.period, UInt64.ofNat_add]
    exact UInt64.lt_irrefl _
  have finalized : later.chain.finalizeExit zeroHash =
      (true, { later.chain with exitRequests := later.chain.exitRequests.erase zeroHash.bytes }) := by
    unfold PlasmaChain.finalizeExit
    rw [pending]
    exact if_neg elapsed
  have last : (ExitHistory.exitCycle number).foldl after history = later.after (.finalizeExit zeroHash) := by
    rw [ExitHistory.exitCycle, List.foldl_cons, List.foldl_append, reached]
    rfl
  rw [last]
  dsimp only [ExitHistory.after]
  rw [finalized, if_pos rfl, sameLog]
  exact ⟨⟨endsLater.current, endsLater.period, endsLater.stored⟩, rfl⟩

def exitedOnce : List ExitCall :=
  [.setChallengePeriod 0, .submitBlock (blockAt 1), .requestExit (exitAt 1), .finalizeExit zeroHash]

theorem orderly_run_paidOnce_exitedOnce : PaidOnce (exitedOnce.foldl after new).log := by
  have orderly : Obeys Orderly after new exitedOnce :=
    ⟨trivial, trivial, fun _ => ⟨List.not_mem_nil, List.not_mem_nil⟩, trivial, trivial⟩
  generalize reached : exitedOnce.foldl after new = history
  have run : Run (fun history call next => Orderly history call ∧ next = history.after call) new
      ([] ++ exitedOnce) history := reached ▸ Run.start.extend orderly
  exact orderly_run_paidOnce run

/-- The first block and two exits of one transaction. -/
def exitedTwice : List ExitCall :=
  .submitBlock (blockAt 1) :: (exitCycle 1 ++ exitCycle 101)

theorem exitedTwice_not_paidOnce : ¬ PaidOnce (exitedTwice.foldl after new).log := by
  have opened : (new.after (.submitBlock (blockAt 1))).EndsAt 1 := ⟨rfl, rfl, ExtTreeMap.getElem?_insert_self⟩
  obtain ⟨endsFirst, firstLog⟩ := opened.exitCycle
  obtain ⟨_, secondLog⟩ := endsFirst.exitCycle
  have twice : (exitedTwice.foldl after new).log = [.finalized zeroHash, .finalized zeroHash] := by
    rw [exitedTwice, List.foldl_cons, List.foldl_append]
    exact secondLog.trans (congrArg _ firstLog)
  rw [twice]
  decide

end ExitHistory

end Parthenon.Plasma
