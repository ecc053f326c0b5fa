import Parthenon.Bridge.BridgeLaws
import Parthenon.Library.Runs

namespace Parthenon.Bridge

open Library Crypto Storage

/-! # Accounting and solvency

What each accepted call moves, and when the wrapped tokens stay covered by the
locked ones over a whole run.
-/

namespace BridgeCall

/-- An amount that the guard of its call leaves unpaid or unburned, or that is none. -/
def Idle (before : BridgeState) : BridgeCall → Prop
  | lock _ => False
  | unlock message _ _ => message.amount = 0 ∨ before.totalLocked < message.amount
  | mint message _ _ => message.amount = 0
  | burn intent => before.totalMinted < intent.amountBaseUnits

/-- One total changes by the whole amount: a lock adds to the locked tokens and an
unlock takes from them, a mint adds to the minted ones and a burn takes from them. -/
def Moves (before after : BridgeState) (call : BridgeCall) : Prop :=
  0 < call.amount ∧
  match call with
  | lock _ => after.totalMinted = before.totalMinted ∧
      after.totalLocked.toNat = before.totalLocked.toNat + call.amount.toNat
  | unlock _ _ _ => after.totalMinted = before.totalMinted ∧
      after.totalLocked.toNat + call.amount.toNat = before.totalLocked.toNat
  | mint _ _ _ => after.totalLocked = before.totalLocked ∧
      after.totalMinted.toNat = before.totalMinted.toNat + call.amount.toNat
  | burn _ => after.totalLocked = before.totalLocked ∧
      after.totalMinted.toNat + call.amount.toNat = before.totalMinted.toNat

/-- A refused call changes nothing, and an accepted one records its key, moves its
amount and keeps the rest. -/
structure Exact (before : BridgeState) (call : BridgeCall)
    (outcome : BridgeResult × BridgeState) : Prop where
  refused : outcome.1 ≠ .ok → outcome.2 = before
  recorded : outcome.1 = .ok → outcome.2.processedNonceKeys = insert call.key before.processedNonceKeys
  kept : outcome.2.trustedValidatorPubkeys = before.trustedValidatorPubkeys ∧
    outcome.2.minValidatorSigs = before.minValidatorSigs
  moved : outcome.1 = .ok → call.Moves before outcome.2

/-- The same, with no total changed by an idle amount. -/
structure Accounted (before : BridgeState) (call : BridgeCall)
    (outcome : BridgeResult × BridgeState) : Prop where
  refused : outcome.1 ≠ .ok → outcome.2 = before
  recorded : outcome.1 = .ok → outcome.2.processedNonceKeys = insert call.key before.processedNonceKeys
  kept : outcome.2.trustedValidatorPubkeys = before.trustedValidatorPubkeys ∧
    outcome.2.minValidatorSigs = before.minValidatorSigs
  moved : outcome.1 = .ok → ¬ call.Idle before → call.Moves before outcome.2
  idle : outcome.1 = .ok → call.Idle before →
    outcome.2.totalLocked = before.totalLocked ∧ outcome.2.totalMinted = before.totalMinted

end BridgeCall

namespace BridgeState

variable {secp : Secp256k1} {lane : Lane} {state : BridgeState} {call : BridgeCall}

theorem toNat_add_of_le_rest {total amount : UInt64} (fits : amount ≤ 0xffffffffffffffff - total) :
    (total + amount).toNat = total.toNat + amount.toNat := by
  have rest : (0xffffffffffffffff - total).toNat = 0xffffffffffffffff - total.toNat :=
    toNat_sub_of_le (UInt64.le_iff_toNat_le.mpr (Nat.le_of_lt_succ total.toNat_lt))
  have within := UInt64.le_iff_toNat_le.mp fits
  have word := total.toNat_lt
  exact toNat_add_of_fits (by omega)

theorem booked_moves (accepts : state.Accepts secp lane call) (active : ¬ call.Idle state) :
    call.Moves state (state.booked call) := by
  have positive_of_ne : ∀ {amount : UInt64}, amount ≠ 0 → 0 < amount := UInt64.pos_iff_ne_zero.mpr
  cases accepts with
  | lock _ _ positive fits _ => exact ⟨positive_of_ne positive, rfl, toNat_add_of_le_rest fits⟩
  | @unlock message _ _ passes =>
      obtain ⟨positive, within⟩ := not_or.mp active
      have paid := UInt64.not_lt.mp within
      refine ⟨positive_of_ne positive, rfl, ?_⟩
      have order := UInt64.le_iff_toNat_le.mp paid
      simp only [booked, lockedAfter, BridgeCall.amount]
      rw [if_pos ⟨positive_of_ne positive, paid⟩, toNat_sub_of_le paid]
      omega
  | mint passes mintable =>
      exact ⟨positive_of_ne active, rfl,
        toNat_add_of_le_rest (UInt64.not_lt.mp (not_or.mp mintable).2)⟩
  | burn _ _ positive _ =>
      have within := UInt64.not_lt.mp active
      refine ⟨positive_of_ne positive, rfl, ?_⟩
      have order := UInt64.le_iff_toNat_le.mp within
      simp only [booked, mintedAfter, BridgeCall.amount]
      rw [if_pos within, toNat_sub_of_le within]
      omega

theorem booked_idle (idle : call.Idle state) :
    (state.booked call).totalLocked = state.totalLocked ∧
      (state.booked call).totalMinted = state.totalMinted := by
  cases call with
  | lock intent => exact idle.elim
  | unlock message currentHeight lockHeight =>
      have unpaid : ¬ (message.amount > 0 ∧ message.amount ≤ state.totalLocked) := by
        rintro ⟨positive, within⟩
        rcases idle with zero | above
        · rw [zero] at positive
          exact UInt64.lt_irrefl 0 positive
        · exact UInt64.not_lt.mpr within above
      exact ⟨if_neg unpaid, rfl⟩
  | mint message currentHeight lockHeight =>
      refine ⟨rfl, ?_⟩
      have zero : message.amount = 0 := idle
      simp only [booked, mintedAfter, zero, UInt64.add_zero]
  | burn intent => exact ⟨rfl, if_neg (UInt64.not_le.mpr idle)⟩

end BridgeState

namespace Crossing

variable {secp : Secp256k1} (crossing : Crossing) {state : BridgeState} {call : BridgeCall}

/-- Every call of either bridge is accounted for. -/
theorem apply_accounted (secp : Secp256k1) (crossing : Crossing) (state : BridgeState)
    (call : BridgeCall) : call.Accounted state (crossing.apply secp state call) := by
  obtain ⟨result, refused, failed⟩ | ⟨accepts, booked⟩ := crossing.apply_outcome secp state call
  · rw [refused]
    exact
      { refused := fun _ => rfl
        recorded := fun ok => absurd ok failed
        kept := ⟨rfl, rfl⟩
        moved := fun ok => absurd ok failed
        idle := fun ok => absurd ok failed }
  · rw [booked]
    exact
      { refused := fun failed => absurd rfl failed
        recorded := fun _ => rfl
        kept := ⟨rfl, rfl⟩
        moved := fun _ => BridgeState.booked_moves accepts
        idle := fun _ => BridgeState.booked_idle }

/-- Five wrapped units are burned where none are minted: accepted, and nothing moves. -/
theorem apply_not_exact :
    ¬ ∀ (secp : Secp256k1) (crossing : Crossing) (state : BridgeState) (call : BridgeCall),
      call.Exact state (crossing.apply secp state call) := by
  intro always
  have moved := (always SampleBridge.library .talantonDrachma SampleBridge.opened
    (.burn (SampleBridge.intent .drachma .talanton 5))).moved (by decide +kernel)
  exact absurd moved.2.2 (by decide +kernel)

end Crossing

/-! ## Solvency -/

/-- The wrapped tokens are covered. -/
def BridgeState.Solvent (state : BridgeState) : Prop := state.totalMinted ≤ state.totalLocked

namespace Crossing

variable (secp : Secp256k1) (crossing : Crossing)

/-- An unlock that is paid leaves the minted tokens covered. -/
def Covered (state : BridgeState) : BridgeCall → Prop
  | .unlock message currentHeight lockHeight =>
      state.Passes secp crossing.lane.away crossing.lane.home crossing.lane.minConfirmations message
        currentHeight lockHeight →
      0 < message.amount → message.amount ≤ state.totalLocked →
        message.amount.toNat + state.totalMinted.toNat ≤ state.totalLocked.toNat
  | _ => True

/-- The state after a call, whatever it returns. -/
def next (state : BridgeState) (call : BridgeCall) : BridgeState := (crossing.apply secp state call).2

variable {secp crossing} {state : BridgeState}

theorem next_congr {call other : BridgeCall}
    (same : crossing.apply secp state call = crossing.apply secp state other) :
    crossing.next secp state call = crossing.next secp state other := congrArg Prod.snd same

/-- Only an unlock that is not covered makes a solvent bridge insolvent. -/
theorem next_solvent_iff (call : BridgeCall) (solvent : state.Solvent) :
    (crossing.next secp state call).Solvent ↔ crossing.Covered secp state call := by
  have before := UInt64.le_iff_toNat_le.mp solvent
  unfold next
  by_cases accepts : state.Accepts secp crossing.lane call
  · rw [apply_of_accepts accepts]
    unfold BridgeState.Solvent
    rw [UInt64.le_iff_toNat_le]
    cases accepts with
    | lock _ _ _ fits _ =>
        simp only [Covered, iff_true, BridgeState.booked, BridgeState.lockedAfter,
          BridgeState.mintedAfter, BridgeState.toNat_add_of_le_rest fits]
        omega
    | @unlock message _ _ passes =>
        simp only [Covered, passes, true_implies, BridgeState.booked, BridgeState.lockedAfter,
          BridgeState.mintedAfter]
        by_cases paid : message.amount > 0 ∧ message.amount ≤ state.totalLocked
        · have order := UInt64.le_iff_toNat_le.mp paid.2
          rw [if_pos paid, toNat_sub_of_le paid.2]
          constructor
          · intro covered _ _
            omega
          · intro covered
            have enough := covered paid.1 paid.2
            omega
        · rw [if_neg paid]
          exact ⟨fun _ positive within => absurd ⟨positive, within⟩ paid, fun _ => before⟩
    | @mint message _ _ _ mintable =>
        obtain ⟨backed, fits⟩ := not_or.mp mintable
        have within := UInt64.le_iff_toNat_le.mp (UInt64.not_lt.mp backed)
        rw [toNat_sub_of_le solvent] at within
        simp only [Covered, iff_true, BridgeState.booked, BridgeState.lockedAfter,
          BridgeState.mintedAfter, BridgeState.toNat_add_of_le_rest (UInt64.not_lt.mp fits)]
        omega
    | @burn intent _ _ _ _ =>
        simp only [Covered, iff_true, BridgeState.booked, BridgeState.lockedAfter,
          BridgeState.mintedAfter]
        split
        · rename_i within
          rw [toNat_sub_of_le within]
          omega
        · exact before
  · rw [apply_of_refused accepts]
    refine iff_of_true solvent ?_
    cases call with
    | unlock message currentHeight lockHeight => exact fun passes => absurd (.unlock passes) accepts
    | lock intent => trivial
    | mint message currentHeight lockHeight => trivial
    | burn intent => trivial

/-- From a bridge without tokens, a run is solvent in all its states if and only if
each of its unlocks is covered. -/
theorem run_solvent_iff (secp : Secp256k1) (crossing : Crossing) {start : BridgeState}
    (noneLocked : start.totalLocked = 0) (noneMinted : start.totalMinted = 0)
    (calls : List BridgeCall) :
    Obeys (crossing.Covered secp) (crossing.next secp) start calls ↔
      ∀ count, ((calls.take count).foldl (crossing.next secp) start).Solvent := by
  have started : start.Solvent := by
    unfold BridgeState.Solvent
    rw [noneLocked, noneMinted]
    exact UInt64.le_refl 0
  exact obeys_iff_prefixes (fun _ => True) (fun _ _ _ => trivial)
    (fun _ call _ solvent => next_solvent_iff call solvent) trivial started calls

end Crossing

namespace SampleBridge

/-- A lock of a hundred units, then a mint and an unlock that validators have signed. -/
def roundTrip (minted unlocked : UInt64) : List BridgeCall :=
  [.lock (intent .talanton .drachma 100), .mint (mintMessage minted) 10 1,
    .unlock (unlockMessage unlocked) 10 1]

/-- A hundred units are locked and some of them minted. -/
def minted (amount : UInt64) : BridgeState :=
  { opened with
    processedNonceKeys := {BridgeState.messageKey (mintMessage 0), makeNonceKey sender 1}
    totalLocked := 100
    totalMinted := amount }

theorem next_locked :
    Crossing.talantonDrachma.next library opened (.lock (intent .talanton .drachma 100)) =
      { opened with processedNonceKeys := {makeNonceKey sender 1}, totalLocked := 100 } := rfl

theorem next_minted {amount : UInt64} (within : amount ≤ 100) :
    Crossing.talantonDrachma.next library
        { opened with processedNonceKeys := {makeNonceKey sender 1}, totalLocked := 100 }
        (.mint (mintMessage amount) 10 1) = minted amount := by
  have passes : BridgeState.Passes
      { opened with processedNonceKeys := {makeNonceKey sender 1}, totalLocked := 100 } library
      .talanton .drachma 6 (mintMessage amount) 10 1 :=
    mintMessage_passes rfl rfl (by decide +kernel) amount
  have mintable : ¬ BridgeState.Unmintable
      { opened with processedNonceKeys := {makeNonceKey sender 1}, totalLocked := 100 }
      (mintMessage amount).amount := by
    rw [mintMessage_amount]
    exact not_or.mpr ⟨UInt64.not_lt.mpr within,
      UInt64.not_lt.mpr (UInt64.le_trans within (by decide))⟩
  rw [Crossing.next, Crossing.apply_of_accepts (.mint passes mintable)]
  simp only [BridgeState.booked, BridgeState.lockedAfter, BridgeState.mintedAfter, mintMessage_amount,
    opened, UInt64.zero_add]
  rfl

end SampleBridge

namespace Crossing

open SampleBridge

/-- Sixty units are minted and the other forty unlocked. -/
theorem run_solvent_roundTrip :
    (((roundTrip 60 40).take 3).foldl (talantonDrachma.next library) opened).Solvent := by
  refine (run_solvent_iff library .talantonDrachma rfl rfl (roundTrip 60 40)).mp ?_ 3
  refine ⟨trivial, trivial, ?_, trivial⟩
  rw [next_locked, next_minted (by decide)]
  intro _ _ _
  rw [unlockMessage_amount]
  decide

/-- A hundred units are minted, and sixty of the locked ones leave. -/
theorem run_not_solvent :
    ¬ ∀ (secp : Secp256k1) (crossing : Crossing) (start : BridgeState), start.totalLocked = 0 →
      start.totalMinted = 0 → ∀ calls : List BridgeCall,
        (calls.foldl (crossing.next secp) start).Solvent := by
  intro always
  have solvent := always library .talantonDrachma opened rfl rfl (roundTrip 100 60)
  rw [roundTrip, List.foldl_cons, List.foldl_cons, List.foldl_cons, List.foldl_nil, next_locked,
    next_minted (UInt64.le_refl 100)] at solvent
  have before : (minted 100).Solvent := UInt64.le_refl 100
  have covered := (next_solvent_iff _ before).mp solvent
    (unlockMessage_passes rfl rfl (by decide +kernel) 60)
    (by rw [unlockMessage_amount]; decide) (by rw [unlockMessage_amount]; decide)
  rw [unlockMessage_amount] at covered
  exact absurd covered (by decide)

end Crossing

end Parthenon.Bridge
