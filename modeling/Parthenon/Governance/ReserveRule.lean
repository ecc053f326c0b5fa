import Parthenon.Governance.TreasuryLaws
import Parthenon.Library.Sums
import Parthenon.Primitives.Asset

namespace Parthenon.Governance

open Library Primitives

/-! # The reserve rule

A share of the treasury stays on the emergency track.  The two sides of the comparison are
products on 64 bits.
-/

namespace Treasury

variable (treasury : Treasury)

/-- What a spend leaves behind is covered by the reserve, in exact arithmetic. -/
def ReserveRule (amount : UInt64) : Prop :=
  treasury.reserveRatioBps = 0 ∨
    amount.toNat < treasury.held ∧
      (treasury.held - amount.toNat) * treasury.reserveRatioBps.toNat ≤
        (treasury.balances .emergency).toNat * 10000

/-- All that `Spend` checks beside the reserve. -/
structure PassesOtherChecks (amount proposalId : UInt64) (track : Track) (blockHeight : UInt64) :
    Prop where
  authorised : proposalId ≠ 0
  positive : amount ≠ 0
  ordinary : track ≠ .emergency
  covered : amount ≤ treasury.balances track
  budgeted : treasury.isWithinBudget track amount blockHeight = true

/-- The comparison is not needed, or the two products keep their order on 64 bits. -/
def ReserveCompares (amount : UInt64) : Prop :=
  treasury.reserveRatioBps = 0 ∨ treasury.held ≤ amount.toNat ∨
    KeepsOrder (2 ^ 64) ((treasury.balances .emergency).toNat * 10000)
      ((treasury.held - amount.toNat) * treasury.reserveRatioBps.toNat)

variable {treasury}

theorem getTotalBalance_toNat : treasury.getTotalBalance.toNat = treasury.held % 2 ^ 64 := by
  have summed := toNat_foldl_wrapping (fun total track => total + treasury.balances track)
    (fun track => (treasury.balances track).toNat)
    (fun total track => UInt64.toNat_add total (treasury.balances track)) Track.all 0
  simpa [getTotalBalance, held] using summed

/-- No asset has more in it than the largest cap. -/
theorem held_lt (capped : ∀ track, treasury.balances track ≤ AssetSupply.oblMaxSupply) :
    treasury.held < 2 ^ 64 := by
  have below : ∀ track, (treasury.balances track).toNat ≤ 6100000000000000 := fun track =>
    UInt64.le_iff_toNat_le.mp (capped track)
  have first := below .coreDevelopment
  have second := below .grants
  have third := below .operations
  have fourth := below .emergency
  have fifth := below .uncategorized
  simp only [held, Track.all, List.map_cons, List.map_nil, List.sum_cons, List.sum_nil]
  omega

/-- The check is the comparison of the two products, each reduced to 64 bits. -/
theorem violatesReserve_eq_false_iff (fits : treasury.held < 2 ^ 64) {amount : UInt64} :
    treasury.violatesReserve amount = false ↔
      treasury.reserveRatioBps = 0 ∨
        amount.toNat < treasury.held ∧
          (treasury.held - amount.toNat) * treasury.reserveRatioBps.toNat % 2 ^ 64 ≤
            (treasury.balances .emergency).toNat * 10000 % 2 ^ 64 := by
  have total := treasury.getTotalBalance_toNat
  rw [Nat.mod_eq_of_lt fits] at total
  unfold violatesReserve
  by_cases off : treasury.reserveRatioBps = 0
  · simp [off]
  rw [if_neg off]
  by_cases empties : treasury.getTotalBalance ≤ amount
  · have le := UInt64.le_iff_toNat_le.mp empties
    rw [total] at le
    simp only [empties, if_true, off, false_or, Bool.true_eq_false, false_iff]
    omega
  · have less := UInt64.lt_iff_toNat_lt.mp (UInt64.not_le.mp empties)
    have after := toNat_sub_of_le (UInt64.le_of_lt (UInt64.not_le.mp empties))
    rw [total] at less after
    have reserve : (treasury.getReserveBalance * 10000).toNat =
        (treasury.balances .emergency).toNat * 10000 % 2 ^ 64 := UInt64.toNat_mul _ _
    have wanted : ((treasury.getTotalBalance - amount) * treasury.reserveRatioBps).toNat =
        (treasury.held - amount.toNat) * treasury.reserveRatioBps.toNat % 2 ^ 64 := by
      rw [UInt64.toNat_mul, after]
    rw [if_neg empties, decide_eq_false_iff_not, UInt64.not_lt, UInt64.le_iff_toNat_le, reserve,
      wanted]
    simp only [off, false_or, less, true_and]

theorem violatesReserve_exact_iff (fits : treasury.held < 2 ^ 64) {amount : UInt64} :
    (treasury.violatesReserve amount = false ↔ treasury.ReserveRule amount) ↔
      treasury.ReserveCompares amount := by
  rw [violatesReserve_eq_false_iff fits]
  unfold ReserveRule ReserveCompares
  by_cases off : treasury.reserveRatioBps = 0
  · simp [off]
  by_cases empties : treasury.held ≤ amount.toNat
  · simp [off, empties, Nat.not_lt.mpr empties]
  · have less := Nat.not_le.mp empties
    simp only [off, false_or, less, true_and, empties]
    exact mod_le_mod_iff

theorem spend_succeeds_iff {amount : UInt64} {recipient : Bytes} {proposalId : UInt64}
    {track : Track} {purpose : String} {blockHeight : UInt64}
    (others : treasury.PassesOtherChecks amount proposalId track blockHeight) :
    (treasury.spend amount recipient proposalId track purpose blockHeight).1 = true ↔
      treasury.violatesReserve amount = false := by
  unfold spend
  rw [if_neg others.authorised, if_neg others.positive, if_neg others.ordinary,
    if_neg (UInt64.not_lt.mpr others.covered), others.budgeted]
  cases treasury.violatesReserve amount with
  | true => simp
  | false => simp

/-- A spend that passes the other checks follows the reserve rule exactly when the products of
its comparison keep their order. -/
theorem reserve_exact_iff (treasury : Treasury)
    (capped : ∀ track, treasury.balances track ≤ AssetSupply.oblMaxSupply) {amount : UInt64}
    (recipient : Bytes) {proposalId : UInt64} {track : Track} (purpose : String)
    {blockHeight : UInt64}
    (others : treasury.PassesOtherChecks amount proposalId track blockHeight) :
    ((treasury.spend amount recipient proposalId track purpose blockHeight).1 = true ↔
        treasury.ReserveRule amount) ↔
      treasury.ReserveCompares amount := by
  rw [spend_succeeds_iff others]
  exact violatesReserve_exact_iff (held_lt capped)

/-- A treasury with a reserve and a balance for development. -/
def withReserve (reserve : UInt64) : Treasury :=
  [.deposit reserve [1] .emergency 0, .deposit 1000 [1] .coreDevelopment 0].foldl apply (.new 2 1000)

theorem reserve_exact_small :
    ((withReserve 100).spend 500 [2] 1 .coreDevelopment "audit" 5).1 = true ↔
      (withReserve 100).ReserveRule 500 :=
  (reserve_exact_iff (withReserve 100) (fun track => by cases track <;> decide +kernel) [2] "audit"
    ⟨by decide, by decide, by decide, by decide +kernel, by decide +kernel⟩).mpr
    (.inr (.inr (.inl (by decide +kernel))))

/-- Nearly everything is in the reserve, but ten thousand times the reserve turns over. -/
theorem large_reserve_refused :
    ¬ ∀ (treasury : Treasury) (amount : UInt64) (recipient : Bytes) (proposalId : UInt64)
      (track : Track) (purpose : String) (blockHeight : UInt64),
      (∀ track, treasury.balances track ≤ AssetSupply.oblMaxSupply) →
      treasury.reserveRatioBps ≤ 10000 →
      treasury.PassesOtherChecks amount proposalId track blockHeight →
        ((treasury.spend amount recipient proposalId track purpose blockHeight).1 = true ↔
          treasury.ReserveRule amount) := by
  intro claim
  have rule := claim (withReserve 1844674407370956) 100 [2] 1 .coreDevelopment "audit" 5
    (fun track => by cases track <;> decide +kernel) (by decide +kernel)
    ⟨by decide, by decide, by decide, by decide +kernel, by decide +kernel⟩
  have kept : (withReserve 1844674407370956).ReserveRule 100 :=
    .inr ⟨by decide +kernel, by decide +kernel⟩
  have refused : ((withReserve 1844674407370956).spend 100 [2] 1 .coreDevelopment "audit" 5).1 =
      false := by decide +kernel
  rw [rule.mpr kept] at refused
  cases refused

end Treasury

end Parthenon.Governance
