import Parthenon.Library.Runs
import Parthenon.Consensus.Retargeting
import Parthenon.Chainstate.ChainState

namespace Parthenon.Chainstate

open Parthenon.Library Parthenon.Crypto Parthenon.Primitives Parthenon.Consensus

/-! # The difficulty a chain requires

The headers of the accepted blocks, the first of them at height one, determine
the bits of the next block.  `ValidateBlock` tests a block against the target it
names itself, and never against these.
-/

/-- The time from the first to the last block of the interval just ended.  The
block of height zero is never applied, so the first interval starts at height one. -/
def intervalSpan (headers : List BlockHeader) : UInt32 :=
  match headers.drop (headers.length - Difficulty.difficultyAdjustmentInterval.toNat),
      headers.getLast? with
  | first :: _, some last => last.timestamp - first.timestamp
  | _, _ => 0

/-- The bits required of the block on top of these headers. -/
def requiredBits (headers : List BlockHeader) : Option UInt32 :=
  let height := headers.length + 1
  match headers.getLast? with
  | none => some Difficulty.getInitialBits
  | some previous =>
      if height < Difficulty.difficultyAdjustmentInterval.toNat then some Difficulty.getInitialBits
      else if height % Difficulty.difficultyAdjustmentInterval.toNat = 0 then
        Difficulty.calculateNextDifficulty previous.bits (intervalSpan headers)
          Difficulty.targetTimespan
      else some previous.bits

theorem requiredBits_exists (headers : List BlockHeader) :
    ∃ bits, requiredBits headers = some bits := by
  rw [requiredBits]
  cases last : headers.getLast? with
  | none => exact ⟨_, rfl⟩
  | some previous =>
      dsimp only
      split
      · exact ⟨_, rfl⟩
      · split
        · exact Difficulty.calculateNextDifficulty_exists previous.bits _ (by decide)
        · exact ⟨_, rfl⟩

/-- Each header carries what the headers before it require. -/
def CarriesRequired (headers : List BlockHeader) : Prop :=
  ∀ before header after, headers = before ++ header :: after →
    requiredBits before = some header.bits

theorem carriesRequired_nil : CarriesRequired [] := by
  intro before header after split
  cases before <;> cases split

theorem carriesRequired_snoc {headers : List BlockHeader} {header : BlockHeader} :
    CarriesRequired (headers ++ [header]) ↔
      CarriesRequired headers ∧ requiredBits headers = some header.bits := by
  constructor
  · intro carries
    refine ⟨?_, carries headers header [] rfl⟩
    intro before other after split
    refine carries before other (after ++ [header]) ?_
    rw [split, List.append_assoc, List.cons_append]
  · rintro ⟨carries, last⟩ before other after split
    rcases List.eq_nil_or_concat after with rfl | ⟨front, final, rfl⟩
    · obtain ⟨rfl, same⟩ := List.append_inj' split rfl
      cases same
      exact last
    · rw [List.concat_eq_append, ← List.cons_append, ← List.append_assoc] at split
      obtain ⟨rfl, -⟩ := List.append_inj' split rfl
      exact carries before other front rfl

/-- The chain state beside the headers of the blocks it accepted. -/
structure Followed where
  state : ChainState
  headers : List BlockHeader

namespace Followed

def fresh : Followed := { state := .fresh, headers := [] }

/-- One call of `ApplyBlock`. -/
def follow (followed : Followed) (block : Block) : Followed :=
  match followed.state.applyBlock block with
  | (some true, after) => { state := after, headers := followed.headers ++ [block.header] }
  | (_, after) => { state := after, headers := followed.headers }

theorem follow_headers (followed : Followed) (block : Block) :
    (followed.follow block).headers =
      if followed.state.validateBlock block = some true then followed.headers ++ [block.header]
      else followed.headers := by
  rcases followed.state.applyBlock_cases block with
    ⟨refused, unchanged⟩ | ⟨valid, _, _, _, _, applied⟩
  · rw [follow, unchanged, if_neg refused]
    split
    · rename_i accepted
      exact absurd (Prod.mk.inj accepted).1 refused
    · rfl
  · rw [follow, applied, if_pos valid]

end Followed

/-- What `ValidateBlock` asks of a block on top of a state: its structure with the
work for its own target, its place, and its rewards. -/
def ChainState.Fits (state : ChainState) (block : Block) : Prop :=
  block.isValid = true ∧
    block.header.prevBlockHash = (if state.height = 0 then zeroHash else state.tipHash) ∧
    ∃ coinbase rest, block.transactions = coinbase :: rest ∧
      ChainState.validateOutputs (state.height + 1) state.totalSupply
        (ChainState.getCoinbaseOutputs coinbase).toList = some true

namespace EasierTarget

def coinbase : Transaction := Sample.coinbase [Sample.output 0 ⟨[1], ByteVector.one_fits⟩]

/-- A first block whose miner names an easier target than the initial one. -/
def block : Block :=
  Sample.block zeroHash
    (.ofNat 32 0xcc8d66870bd37a29ff0c4045b7715e462cf01491bdabcc4dfb060e395912ae71) [coinbase]

theorem accepted : Followed.fresh.state.validateBlock block = some true := by
  refine ChainState.validateBlock_eq_true.mpr ⟨by decide +kernel, rfl, coinbase, [], rfl, ?_⟩
  decide +kernel

end EasierTarget

end Parthenon.Chainstate
