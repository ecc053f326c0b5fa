import Parthenon.Dex.Amm
import Parthenon.Library.Runs

namespace Parthenon.Dex

open Library Primitives Std

/-! # Shares of a pool

The shares of the providers are to add up to at most the total, so that a removal
never takes more than there is.
-/

namespace LiquidityPool

variable {pool : LiquidityPool} {provider : Bytes} {shares : UInt64}

/-- The exact sum of the shares of all providers. -/
def heldShares (pool : LiquidityPool) : Nat := total (fun _ held => held.toNat) pool.shares

/-- What a deposit is worth in shares, exactly. -/
def worth (pool : LiquidityPool) (amountA amountB : UInt64) : Nat :=
  if pool.totalShares = 0 then min (amountA.toNat * amountB.toNat) (2 ^ 64 - 1)
  else
    min (worthOfAmount amountA.toNat pool.totalShares.toNat pool.reserveA.toNat)
      (worthOfAmount amountB.toNat pool.totalShares.toNat pool.reserveB.toNat)

/-- The checks of a deposit pass. -/
def Takes (pool : LiquidityPool) (amountA amountB : UInt64) : Prop :=
  (pool.totalShares = 0 ∨ pool.reserveA ≠ 0 ∧ pool.reserveB ≠ 0) ∧
    pool.reserveA.toNat + amountA.toNat < 2 ^ 64 ∧ pool.reserveB.toNat + amountB.toNat < 2 ^ 64 ∧
    pool.totalShares.toNat + pool.worth amountA amountB < 2 ^ 64

instance (amountA amountB : UInt64) : Decidable (pool.Takes amountA amountB) :=
  inferInstanceAs (Decidable (_ ∧ _ ∧ _ ∧ _))

theorem sharesFor_some {amountA amountB : UInt64}
    (known : pool.sharesFor amountA amountB = some shares) :
    (pool.totalShares = 0 ∨ pool.reserveA ≠ 0 ∧ pool.reserveB ≠ 0) ∧
      shares.toNat = pool.worth amountA amountB := by
  unfold sharesFor at known
  unfold worth
  split at known
  · rename_i empty
    cases known
    rw [if_pos empty]
    exact ⟨.inl empty, cappedProduct_toNat amountA amountB⟩
  · rename_i filled
    split at known
    · cases known
    · rename_i reserves
      cases known
      rw [if_neg filled, UInt64.toNat_min, sharesOfAmount_toNat, sharesOfAmount_toNat]
      exact ⟨.inr (not_or.mp reserves), rfl⟩

theorem sharesFor_none {amountA amountB : UInt64} (unknown : pool.sharesFor amountA amountB = none) :
    pool.totalShares ≠ 0 ∧ (pool.reserveA = 0 ∨ pool.reserveB = 0) := by
  unfold sharesFor at unknown
  split at unknown
  · cases unknown
  · rename_i filled
    split at unknown
    · rename_i reserves
      exact ⟨filled, reserves⟩
    · cases unknown

@[simp] theorem sharesOf_setShares (value : UInt64) (other : Bytes) :
    (pool.setShares provider value).sharesOf other =
      if provider = other then value else pool.sharesOf other :=
  getD_insert_eq 0 pool.shares provider other value

/-- A write to the table of shares exchanges the provider's shares in the sum. -/
theorem heldShares_setShares (value : UInt64) :
    (pool.setShares provider value).heldShares + (pool.sharesOf provider).toNat =
      pool.heldShares + value.toNat := by
  have exchanged := total_insert_exchange (fun _ held => UInt64.toNat held) pool.shares provider value
  have read : (pool.shares[provider]?.map UInt64.toNat).getD 0 = (pool.sharesOf provider).toNat := by
    rw [sharesOf, ExtTreeMap.getD_eq_getD_getElem?]
    cases pool.shares[provider]? <;> rfl
  rw [read] at exchanged
  exact exchanged

@[simp] theorem sharesOf_deposit {amountA amountB : UInt64} :
    (pool.deposit amountA amountB shares).sharesOf provider = pool.sharesOf provider := rfl

@[simp] theorem sharesOf_enter : (pool.enter provider).sharesOf provider = pool.sharesOf provider := by
  rw [enter, sharesOf_setShares, if_pos rfl]

@[simp] theorem heldShares_enter : (pool.enter provider).heldShares = pool.heldShares :=
  Nat.add_right_cancel (heldShares_setShares (pool.sharesOf provider))

theorem sharesOf_le_heldShares : (pool.sharesOf provider).toNat ≤ pool.heldShares := by
  rw [sharesOf, ExtTreeMap.getD_eq_getD_getElem?]
  cases found : pool.shares[provider]? with
  | none => exact Nat.zero_le _
  | some held => exact weight_le_total (fun _ held => UInt64.toNat held) found

theorem sharesOf_credit :
    (pool.credit provider shares).sharesOf provider =
      if pool.sharesOf provider + shares > 0xFFFFFFFFFFFFFFFF - shares then 0xFFFFFFFFFFFFFFFF
      else pool.sharesOf provider + shares + shares := by
  rw [credit, sharesOf_setShares, if_pos rfl, sharesOf_setShares, if_pos rfl]

/-- A credit adds exactly the shares when there are none, or when they bring the
provider to the largest value. -/
theorem sharesOf_credit_exact_iff :
    ((pool.credit provider shares).sharesOf provider).toNat =
        (pool.sharesOf provider).toNat + shares.toNat ↔
      shares.toNat = 0 ∨ (pool.sharesOf provider).toNat + shares.toNat = 2 ^ 64 - 1 := by
  have small := shares.toNat_lt
  have heldSmall := (pool.sharesOf provider).toNat_lt
  have added : (pool.sharesOf provider + shares).toNat =
      ((pool.sharesOf provider).toNat + shares.toNat) % 2 ^ 64 := UInt64.toNat_add _ _
  have fits : ¬ pool.sharesOf provider + shares > 0xFFFFFFFFFFFFFFFF - shares ↔
      (pool.sharesOf provider + shares).toNat + shares.toNat < 2 ^ 64 := add_fits_iff
  rw [sharesOf_credit]
  split
  · rename_i exceeds
    have big := mt fits.mpr (not_not.mpr exceeds)
    have top : (0xFFFFFFFFFFFFFFFF : UInt64).toNat = 2 ^ 64 - 1 := rfl
    rw [top]
    omega
  · rename_i within
    rw [toNat_add_of_fits (fits.mp within)]
    have room := fits.mp within
    omega

/-- A credit exchanges the provider's shares in the sum. -/
theorem heldShares_credit :
    (pool.credit provider shares).heldShares + (pool.sharesOf provider).toNat =
      pool.heldShares + ((pool.credit provider shares).sharesOf provider).toNat := by
  have first : (pool.setShares provider (pool.sharesOf provider + shares)).heldShares +
      (pool.sharesOf provider).toNat =
        pool.heldShares + (pool.sharesOf provider + shares).toNat := heldShares_setShares _
  have second : (pool.credit provider shares).heldShares +
      ((pool.setShares provider (pool.sharesOf provider + shares)).sharesOf provider).toNat =
        (pool.setShares provider (pool.sharesOf provider + shares)).heldShares + _ :=
    heldShares_setShares _
  rw [sharesOf_setShares, if_pos rfl] at second
  rw [sharesOf_credit]
  omega

/-- A removal of shares that the provider has takes them from the sum. -/
theorem heldShares_removed {amountA amountB : UInt64} (enough : shares ≤ pool.sharesOf provider) :
    (((pool.enter provider).withdraw amountA amountB shares).setShares provider
      (pool.sharesOf provider - shares)).heldShares + shares.toNat = pool.heldShares := by
  have written : (((pool.enter provider).withdraw amountA amountB shares).setShares provider
      (pool.sharesOf provider - shares)).heldShares + ((pool.enter provider).sharesOf provider).toNat =
        (pool.enter provider).heldShares + (pool.sharesOf provider - shares).toNat :=
    heldShares_setShares _
  have enoughNat := UInt64.le_iff_toNat_le.mp enough
  rw [sharesOf_enter, heldShares_enter, toNat_sub_of_le enough] at written
  omega

end LiquidityPool

/-! ## Runs -/

inductive AmmCall
  | createPool (assetA assetB : AssetID) (initialA initialB feeRate : UInt64)
  | addLiquidity (poolId : Bytes) (amountA amountB : UInt64) (provider : Bytes)
  | removeLiquidity (poolId : Bytes) (shares : UInt64) (provider : Bytes)
  | swap (poolId : Bytes) (inputAsset : AssetID) (inputAmount minOutputAmount : UInt64)

namespace AutomatedMarketMaker

variable (amm : AutomatedMarketMaker)

def after : AmmCall → AutomatedMarketMaker
  | .createPool assetA assetB initialA initialB feeRate =>
      (amm.createPool assetA assetB initialA initialB feeRate).2
  | .addLiquidity poolId amountA amountB provider =>
      (amm.addLiquidity poolId amountA amountB provider).2
  | .removeLiquidity poolId shares provider => (amm.removeLiquidity poolId shares provider).2
  | .swap poolId inputAsset inputAmount minOutputAmount =>
      (amm.swap poolId inputAsset inputAmount minOutputAmount).2

/-- What a provider holds of a pool, nothing where there is no such pool. -/
def sharesAt (poolId provider : Bytes) : UInt64 :=
  (amm.pools[poolId]?.map fun pool => pool.sharesOf provider).getD 0

/-- The providers of each pool hold at most its total. -/
def Backed : Prop :=
  ∀ (poolId : Bytes) (pool : LiquidityPool), amm.pools[poolId]? = some pool →
    pool.heldShares ≤ pool.totalShares.toNat

/-- No reserve and no total of a pool is taken below zero by what is paid out. -/
def TakesNoMore (poolId : Bytes) (paid : UInt64 × UInt64) (next : AutomatedMarketMaker) : Prop :=
  ∀ before after : LiquidityPool, amm.pools[poolId]? = some before →
    next.pools[poolId]? = some after →
      after.reserveA.toNat + paid.1.toNat = before.reserveA.toNat ∧
      after.reserveB.toNat + paid.2.toNat = before.reserveB.toNat ∧
      after.totalShares ≤ before.totalShares

/-- A call does to the shares what it says it does. -/
def Exact : AmmCall → Prop
  | .createPool _ _ _ _ _ => True
  | .addLiquidity poolId amountA amountB provider =>
      ((amm.addLiquidity poolId amountA amountB provider).2.sharesAt poolId provider).toNat =
        (amm.sharesAt poolId provider).toNat +
          (amm.addLiquidity poolId amountA amountB provider).1.toNat
  | .removeLiquidity poolId shares provider =>
      amm.TakesNoMore poolId (amm.removeLiquidity poolId shares provider).1
        (amm.removeLiquidity poolId shares provider).2
  | .swap _ _ _ _ => True

/-- A call is exact and leaves every pool backed. -/
structure KeepsShares (call : AmmCall) : Prop where
  exact_ : amm.Exact call
  backed : (amm.after call).Backed

/-- A deposit that passes the checks is worth nothing, or brings its provider to the
largest value. -/
def Fair : AmmCall → Prop
  | .addLiquidity poolId amountA amountB provider =>
      ∀ pool ∈ amm.pools[poolId]?, pool.Takes amountA amountB →
        pool.worth amountA amountB = 0 ∨
          (pool.sharesOf provider).toNat + pool.worth amountA amountB = 2 ^ 64 - 1
  | .createPool _ _ _ _ _ => True
  | .removeLiquidity _ _ _ => True
  | .swap _ _ _ _ => True

variable {amm : AutomatedMarketMaker}

theorem new_backed : new.Backed :=
  fun _ _ found => absurd found not_found_empty

theorem Backed.setPool (backed : amm.Backed) {poolId : Bytes} {pool : LiquidityPool}
    (held : pool.heldShares ≤ pool.totalShares.toNat) : (amm.setPool poolId pool).Backed := by
  intro other found isPool
  rw [AutomatedMarketMaker.setPool, getElem?_insert_eq] at isPool
  split at isPool
  · cases isPool
    exact held
  · exact backed other found isPool

theorem setPool_found (poolId : Bytes) (pool : LiquidityPool) :
    (amm.setPool poolId pool).pools[poolId]? = some pool := by
  rw [setPool, getElem?_insert_eq, if_pos rfl]

theorem sharesAt_of_found {poolId provider : Bytes} {pool : LiquidityPool}
    (found : amm.pools[poolId]? = some pool) : amm.sharesAt poolId provider = pool.sharesOf provider := by
  rw [sharesAt, found]
  rfl

/-- A deposit is refused, or the pool takes it for what it is worth. -/
theorem addLiquidity_cases (amm : AutomatedMarketMaker) (poolId : Bytes) (amountA amountB : UInt64)
    (provider : Bytes) :
    (amm.addLiquidity poolId amountA amountB provider = (0, amm) ∧
        ∀ pool, amm.pools[poolId]? = some pool → ¬ pool.Takes amountA amountB) ∨
      ∃ pool shares, amm.pools[poolId]? = some pool ∧ pool.Takes amountA amountB ∧
        shares.toNat = pool.worth amountA amountB ∧
        amm.addLiquidity poolId amountA amountB provider =
          (shares, amm.setPool poolId ((pool.deposit amountA amountB shares).credit provider shares)) := by
  unfold addLiquidity
  cases found : amm.pools[poolId]? with
  | none => exact .inl ⟨rfl, nofun⟩
  | some pool =>
      dsimp only
      cases known : pool.sharesFor amountA amountB with
      | none =>
          obtain ⟨filled, reserves⟩ := LiquidityPool.sharesFor_none known
          refine .inl ⟨rfl, fun other isPool takes => ?_⟩
          cases isPool
          rcases takes.1 with empty | ⟨hasA, hasB⟩
          · exact filled empty
          · exact reserves.elim hasA hasB
      | some shares =>
          obtain ⟨open_, isWorth⟩ := LiquidityPool.sharesFor_some known
          dsimp only
          split
          · rename_i exceeds
            refine .inl ⟨rfl, fun other isPool takes => ?_⟩
            cases isPool
            obtain ⟨_, fitsA, fitsB, fitsShares⟩ := takes
            rw [← isWorth] at fitsShares
            rcases exceeds with overA | overB | overShares
            · exact add_fits_iff.mpr fitsA overA
            · exact add_fits_iff.mpr fitsB overB
            · exact add_fits_iff.mpr fitsShares overShares
          · rename_i fits
            rw [not_or, not_or, add_fits_iff, add_fits_iff, add_fits_iff, isWorth] at fits
            exact .inr ⟨pool, shares, rfl, ⟨open_, fits⟩, isWorth, rfl⟩

/-- A removal is refused, with the provider entered in the table if there is a pool,
or takes shares the provider has. -/
theorem removeLiquidity_cases (amm : AutomatedMarketMaker) (poolId : Bytes) (shares : UInt64)
    (provider : Bytes) :
    amm.removeLiquidity poolId shares provider = ((0, 0), amm) ∨
      ∃ pool, amm.pools[poolId]? = some pool ∧
        (amm.removeLiquidity poolId shares provider =
            ((0, 0), amm.setPool poolId (pool.enter provider)) ∨
          shares ≤ pool.sharesOf provider ∧ pool.totalShares ≠ 0 ∧
            ∃ amountA amountB, amountA = safeAmount shares pool.reserveA pool.totalShares ∧
              amountB = safeAmount shares pool.reserveB pool.totalShares ∧
              amm.removeLiquidity poolId shares provider =
                ((amountA, amountB),
                  amm.setPool poolId
                    (((pool.enter provider).withdraw amountA amountB shares).setShares provider
                      (pool.sharesOf provider - shares)))) := by
  unfold removeLiquidity
  cases found : amm.pools[poolId]? with
  | none => exact .inl rfl
  | some pool =>
      refine .inr ⟨pool, rfl, ?_⟩
      simp only [LiquidityPool.sharesOf_enter]
      split
      · exact .inl rfl
      · rename_i enough
        split
        · exact .inl rfl
        · rename_i filled
          exact .inr ⟨UInt64.not_lt.mp enough, filled, _, _, rfl, rfl, rfl⟩

/-- A deposit adds exactly what it returns when it is fair. -/
theorem exact_addLiquidity_iff {poolId provider : Bytes} {amountA amountB : UInt64} :
    amm.Exact (.addLiquidity poolId amountA amountB provider) ↔
      amm.Fair (.addLiquidity poolId amountA amountB provider) := by
  dsimp only [Exact, Fair]
  rcases addLiquidity_cases amm poolId amountA amountB provider with
    ⟨refused, untaken⟩ | ⟨pool, shares, found, takes, isWorth, taken⟩
  · rw [refused]
    refine ⟨fun _ pool isPool takes => (untaken pool isPool takes).elim, fun _ => ?_⟩
    rw [UInt64.toNat_zero, Nat.add_zero]
  · rw [taken, found]
    dsimp only
    rw [sharesAt_of_found (setPool_found _ _), sharesAt_of_found found]
    have exactly : (((pool.deposit amountA amountB shares).credit provider shares).sharesOf
        provider).toNat = (pool.sharesOf provider).toNat + shares.toNat ↔ _ :=
      LiquidityPool.sharesOf_credit_exact_iff
    rw [exactly, LiquidityPool.sharesOf_deposit, isWorth]
    refine ⟨fun fair other isPool _ => ?_, fun fair => fair pool rfl takes⟩
    cases isPool
    exact fair

theorem Backed.addLiquidity (backed : amm.Backed) {poolId provider : Bytes} {amountA amountB : UInt64}
    (fair : amm.Fair (.addLiquidity poolId amountA amountB provider)) :
    (amm.addLiquidity poolId amountA amountB provider).2.Backed := by
  rcases addLiquidity_cases amm poolId amountA amountB provider with
    ⟨refused, _⟩ | ⟨pool, shares, found, takes, isWorth, taken⟩
  · rw [refused]
    exact backed
  · have before := backed poolId pool found
    have fits := takes.2.2.2
    have here := fair pool found takes
    rw [← isWorth] at fits here
    have exactly := (pool.deposit amountA amountB shares).sharesOf_credit_exact_iff.mpr here
    have exchanged : ((pool.deposit amountA amountB shares).credit provider shares).heldShares +
        (pool.sharesOf provider).toNat = pool.heldShares + _ := LiquidityPool.heldShares_credit
    have total_ : ((pool.deposit amountA amountB shares).credit provider shares).totalShares.toNat =
        pool.totalShares.toNat + shares.toNat := toNat_add_of_fits fits
    rw [taken]
    apply backed.setPool
    rw [exactly, LiquidityPool.sharesOf_deposit] at exchanged
    omega

/-- A removal from a backed pool takes no more than there is. -/
theorem exact_removeLiquidity (backed : amm.Backed) (poolId : Bytes) (shares : UInt64)
    (provider : Bytes) : amm.Exact (.removeLiquidity poolId shares provider) := by
  dsimp only [Exact]
  intro before next isBefore isNext
  rcases removeLiquidity_cases amm poolId shares provider with
    refused | ⟨pool, found, refused | ⟨enough, filled, amountA, amountB, isA, isB, taken⟩⟩
  · rw [refused] at isNext ⊢
    rw [isBefore] at isNext
    cases isNext
    exact ⟨rfl, rfl, UInt64.le_refl _⟩
  · rw [refused, setPool_found] at isNext
    rw [found] at isBefore
    rw [refused]
    cases isBefore
    cases isNext
    exact ⟨rfl, rfl, UInt64.le_refl _⟩
  · rw [taken, setPool_found] at isNext
    rw [found] at isBefore
    rw [taken]
    cases isBefore
    cases isNext
    have held := backed poolId before found
    have provided : (before.sharesOf provider).toNat ≤ before.heldShares :=
      LiquidityPool.sharesOf_le_heldShares
    have within : shares ≤ before.totalShares := by
      rw [UInt64.le_iff_toNat_le] at enough ⊢
      omega
    have leA : amountA ≤ before.reserveA := isA ▸ safeAmount_le within filled
    have leB : amountB ≤ before.reserveB := isB ▸ safeAmount_le within filled
    refine ⟨?_, ?_, ?_⟩
    · exact (congrArg (· + amountA.toNat) (toNat_sub_of_le leA)).trans
        (Nat.sub_add_cancel (UInt64.le_iff_toNat_le.mp leA))
    · exact (congrArg (· + amountB.toNat) (toNat_sub_of_le leB)).trans
        (Nat.sub_add_cancel (UInt64.le_iff_toNat_le.mp leB))
    · rw [UInt64.le_iff_toNat_le]
      exact (toNat_sub_of_le within).trans_le (Nat.sub_le _ _)

theorem Backed.removeLiquidity (backed : amm.Backed) (poolId : Bytes) (shares : UInt64)
    (provider : Bytes) : (amm.removeLiquidity poolId shares provider).2.Backed := by
  rcases removeLiquidity_cases amm poolId shares provider with
    refused | ⟨pool, found, refused | ⟨enough, _, amountA, amountB, _, _, taken⟩⟩
  · rw [refused]
    exact backed
  · rw [refused]
    apply backed.setPool
    rw [LiquidityPool.heldShares_enter]
    exact backed poolId pool found
  · have held := backed poolId pool found
    have provided : (pool.sharesOf provider).toNat ≤ pool.heldShares :=
      LiquidityPool.sharesOf_le_heldShares
    have within : shares ≤ pool.totalShares := by
      rw [UInt64.le_iff_toNat_le] at enough ⊢
      omega
    have left : (((pool.enter provider).withdraw amountA amountB shares).setShares provider _).heldShares
        + shares.toNat = pool.heldShares := LiquidityPool.heldShares_removed enough
    rw [taken]
    apply backed.setPool
    have total_ : (((pool.enter provider).withdraw amountA amountB shares).setShares provider
        (pool.sharesOf provider - shares)).totalShares.toNat =
          pool.totalShares.toNat - shares.toNat := toNat_sub_of_le within
    omega

/-- A swap leaves the shares and the total of every pool. -/
theorem Backed.swap (backed : amm.Backed) (poolId : Bytes) (inputAsset : AssetID)
    (inputAmount minOutputAmount : UInt64) :
    (amm.swap poolId inputAsset inputAmount minOutputAmount).2.Backed := by
  unfold AutomatedMarketMaker.swap
  cases found : amm.pools[poolId]? with
  | none => exact backed
  | some pool =>
      have held := backed poolId pool found
      dsimp only
      split
      · split
        · exact backed
        · exact backed.setPool held
      · split
        · exact backed
        · exact backed.setPool held

theorem Backed.createPool (backed : amm.Backed) (assetA assetB : AssetID)
    (initialA initialB feeRate : UInt64) :
    (amm.createPool assetA assetB initialA initialB feeRate).2.Backed := by
  apply backed.setPool
  rw [LiquidityPool.heldShares, total_empty]
  exact Nat.zero_le _

theorem Backed.after (backed : amm.Backed) {call : AmmCall} (fair : amm.Fair call) :
    (amm.after call).Backed := by
  cases call with
  | createPool assetA assetB initialA initialB feeRate =>
      exact backed.createPool assetA assetB initialA initialB feeRate
  | addLiquidity poolId amountA amountB provider => exact backed.addLiquidity fair
  | removeLiquidity poolId shares provider => exact backed.removeLiquidity poolId shares provider
  | swap poolId inputAsset inputAmount minOutputAmount =>
      exact backed.swap poolId inputAsset inputAmount minOutputAmount

theorem Backed.keepsShares_iff (backed : amm.Backed) (call : AmmCall) :
    amm.KeepsShares call ↔ amm.Fair call := by
  constructor
  · intro keeps
    cases call with
    | addLiquidity poolId amountA amountB provider => exact exact_addLiquidity_iff.mp keeps.exact_
    | createPool assetA assetB initialA initialB feeRate => exact trivial
    | removeLiquidity poolId shares provider => exact trivial
    | swap poolId inputAsset inputAmount minOutputAmount => exact trivial
  · intro fair
    refine ⟨?_, backed.after fair⟩
    cases call with
    | addLiquidity poolId amountA amountB provider => exact exact_addLiquidity_iff.mpr fair
    | createPool assetA assetB initialA initialB feeRate => exact trivial
    | removeLiquidity poolId shares provider =>
        exact exact_removeLiquidity backed poolId shares provider
    | swap poolId inputAsset inputAmount minOutputAmount => exact trivial

/-- The share accounts of a run are sound exactly when every deposit that is taken is
worth nothing or brings its provider to the largest value. -/
theorem run_keepsShares_iff (calls : List AmmCall) :
    Obeys KeepsShares after new calls ↔ Obeys Fair after new calls :=
  obeys_congr Backed (fun _ _ backed fair => backed.after fair)
    (fun _ call backed => backed.keepsShares_iff call) new_backed calls

/-- A deposit of one unit of each asset in a new pool is credited twice. -/
theorem second_credit :
    ¬ Obeys KeepsShares after new
      [.createPool .talanton .drachma 1 1 30,
        .addLiquidity (poolIdOf .talanton .drachma) 1 1 [7]] := by
  rintro ⟨_, keeps, _⟩
  have fair := exact_addLiquidity_iff.mp keeps.exact_
  have created : (new.after (.createPool .talanton .drachma 1 1 30)).pools[poolIdOf .talanton .drachma]?
      = some _ := setPool_found _ _
  have worthless := fair _ created (by decide)
  revert worthless
  decide

end AutomatedMarketMaker

end Parthenon.Dex
