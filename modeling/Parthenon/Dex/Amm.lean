import Parthenon.Crypto.Sha256
import Parthenon.Library.OrderedMap
import Parthenon.Library.Sums
import Parthenon.Primitives.Asset
import Parthenon.Primitives.SafeMath

namespace Parthenon.Dex

open Library Crypto Primitives Std

/-! # Automated market maker

Pools of two reserves, with the shares of their providers beside the total.
-/

structure LiquidityPool where
  poolId : Bytes
  assetA : AssetID
  assetB : AssetID
  reserveA : UInt64
  reserveB : UInt64
  totalShares : UInt64
  shares : ExtTreeMap Bytes UInt64 compare
  feeRate : UInt64

structure AutomatedMarketMaker where
  pools : ExtTreeMap Bytes LiquidityPool compare

/-- The product of two amounts, capped at the largest value. -/
def cappedProduct (a b : UInt64) : UInt64 :=
  if a > 0 ∧ b > 0xFFFFFFFFFFFFFFFF / a then 0xFFFFFFFFFFFFFFFF
  else a * b

/-- The shares that one of the two amounts is worth. -/
def sharesOfAmount (amount totalShares reserve : UInt64) : UInt64 :=
  if totalShares > 0 ∧ amount > 0xFFFFFFFFFFFFFFFF / totalShares then 0xFFFFFFFFFFFFFFFF
  else amount * totalShares / reserve

/-- What a removal of shares pays from a reserve. -/
def safeAmount (shares reserve totalShares : UInt64) : UInt64 :=
  if reserve = 0 ∨ shares = 0 then 0
  else if shares ≤ 0xFFFFFFFFFFFFFFFF / reserve then shares * reserve / totalShares
  else
    let perShare := reserve / totalShares
    if perShare > 0 ∧ shares > 0xFFFFFFFFFFFFFFFF / perShare then reserve
    else perShare * shares

def getOutputAmount (inputAmount inputReserve outputReserve feeRate : UInt64) : UInt64 :=
  if feeRate ≥ 10000 then 0
  else if inputReserve = 0 ∨ outputReserve = 0 then 0
  else
    Option.getD (do
      let inputWithFee ← SafeMath.mul inputAmount (10000 - feeRate)
      let numerator ← SafeMath.mul inputWithFee outputReserve
      let reserveScaled ← SafeMath.mul inputReserve 10000
      let denominator ← SafeMath.add reserveScaled inputWithFee
      SafeMath.div numerator denominator) 0

namespace LiquidityPool

variable (pool : LiquidityPool)

/-- What the table of shares reads for a provider: an absent one has none. -/
def sharesOf (provider : Bytes) : UInt64 := pool.shares.getD provider 0

def setShares (provider : Bytes) (value : UInt64) : LiquidityPool :=
  { pool with shares := pool.shares.insert provider value }

/-- Reading the shares of a provider enters the provider in the table. -/
def enter (provider : Bytes) : LiquidityPool := pool.setShares provider (pool.sharesOf provider)

/-- The shares for a deposit, unless a reserve of a pool with shares is empty. -/
def sharesFor (amountA amountB : UInt64) : Option UInt64 :=
  if pool.totalShares = 0 then some (cappedProduct amountA amountB)
  else if pool.reserveA = 0 ∨ pool.reserveB = 0 then none
  else
    some (min (sharesOfAmount amountA pool.totalShares pool.reserveA)
      (sharesOfAmount amountB pool.totalShares pool.reserveB))

/-- The deposited shares are added to the provider's, and then added again unless the
sum would overflow. -/
def credit (provider : Bytes) (shares : UInt64) : LiquidityPool :=
  let credited := pool.setShares provider (pool.sharesOf provider + shares)
  let currentShares := credited.sharesOf provider
  credited.setShares provider
    (if currentShares > 0xFFFFFFFFFFFFFFFF - shares then 0xFFFFFFFFFFFFFFFF
    else currentShares + shares)

def deposit (amountA amountB shares : UInt64) : LiquidityPool :=
  { pool with
    reserveA := pool.reserveA + amountA
    reserveB := pool.reserveB + amountB
    totalShares := pool.totalShares + shares }

def withdraw (amountA amountB shares : UInt64) : LiquidityPool :=
  { pool with
    reserveA := pool.reserveA - amountA
    reserveB := pool.reserveB - amountB
    totalShares := pool.totalShares - shares }

end LiquidityPool

namespace AutomatedMarketMaker

def new : AutomatedMarketMaker where
  pools := ∅

variable (amm : AutomatedMarketMaker)

def setPool (poolId : Bytes) (pool : LiquidityPool) : AutomatedMarketMaker where
  pools := amm.pools.insert poolId pool

def poolIdOf (assetA assetB : AssetID) : Bytes :=
  (SHA256.hash256 [assetA.value, assetB.value]).bytes

/-- A pool of the same assets is replaced, and its providers are forgotten. -/
def createPool (assetA assetB : AssetID) (initialA initialB feeRate : UInt64) :
    Bytes × AutomatedMarketMaker :=
  let pool : LiquidityPool :=
    { poolId := poolIdOf assetA assetB
      assetA
      assetB
      reserveA := initialA
      reserveB := initialB
      totalShares := cappedProduct initialA initialB
      shares := ∅
      feeRate }
  (pool.poolId, amm.setPool pool.poolId pool)

def addLiquidity (poolId : Bytes) (amountA amountB : UInt64) (provider : Bytes) :
    UInt64 × AutomatedMarketMaker :=
  match amm.pools[poolId]? with
  | none => (0, amm)
  | some pool =>
      match pool.sharesFor amountA amountB with
      | none => (0, amm)
      | some shares =>
          if pool.reserveA > 0xFFFFFFFFFFFFFFFF - amountA ∨
              pool.reserveB > 0xFFFFFFFFFFFFFFFF - amountB ∨
              pool.totalShares > 0xFFFFFFFFFFFFFFFF - shares then (0, amm)
          else
            (shares,
              amm.setPool poolId ((pool.deposit amountA amountB shares).credit provider shares))

def removeLiquidity (poolId : Bytes) (shares : UInt64) (provider : Bytes) :
    (UInt64 × UInt64) × AutomatedMarketMaker :=
  match amm.pools[poolId]? with
  | none => ((0, 0), amm)
  | some stored =>
      let pool := stored.enter provider
      if pool.sharesOf provider < shares then ((0, 0), amm.setPool poolId pool)
      else if pool.totalShares = 0 then ((0, 0), amm.setPool poolId pool)
      else
        let amountA := safeAmount shares pool.reserveA pool.totalShares
        let amountB := safeAmount shares pool.reserveB pool.totalShares
        ((amountA, amountB),
          amm.setPool poolId ((pool.withdraw amountA amountB shares).setShares provider
            (pool.sharesOf provider - shares)))

/-- The reserve that takes the input may wrap. -/
def swap (poolId : Bytes) (inputAsset : AssetID) (inputAmount minOutputAmount : UInt64) :
    UInt64 × AutomatedMarketMaker :=
  match amm.pools[poolId]? with
  | none => (0, amm)
  | some pool =>
      let inputReserve := if inputAsset = pool.assetA then pool.reserveA else pool.reserveB
      let outputReserve := if inputAsset = pool.assetA then pool.reserveB else pool.reserveA
      let outputAmount := getOutputAmount inputAmount inputReserve outputReserve pool.feeRate
      if outputAmount < minOutputAmount then (0, amm)
      else
        (outputAmount,
          amm.setPool poolId
            (if inputAsset = pool.assetA then
              { pool with
                reserveA := pool.reserveA + inputAmount
                reserveB := pool.reserveB - outputAmount }
            else
              { pool with
                reserveB := pool.reserveB + inputAmount
                reserveA := pool.reserveA - outputAmount }))

def getPool (poolId : Bytes) : Option LiquidityPool := amm.pools[poolId]?

end AutomatedMarketMaker

/-! ## Arithmetic -/

theorem cappedProduct_toNat (a b : UInt64) :
    (cappedProduct a b).toNat = min (a.toNat * b.toNat) (2 ^ 64 - 1) :=
  cappedMul_toNat mul_exceeds_iff

/-- One amount's worth in shares, exactly. -/
def worthOfAmount (amount totalShares reserve : Nat) : Nat :=
  if amount * totalShares < 2 ^ 64 then amount * totalShares / reserve
  else 2 ^ 64 - 1

theorem sharesOfAmount_toNat (amount totalShares reserve : UInt64) :
    (sharesOfAmount amount totalShares reserve).toNat =
      worthOfAmount amount.toNat totalShares.toNat reserve.toNat := by
  unfold sharesOfAmount worthOfAmount
  rw [Nat.mul_comm amount.toNat totalShares.toNat]
  split
  · rename_i exceeds
    have big := mul_exceeds_iff.mp exceeds
    rw [if_neg (Nat.not_lt.mpr big)]
    rfl
  · rename_i fits
    have small := Nat.not_le.mp (mt mul_exceeds_iff.mpr fits)
    rw [if_pos small, UInt64.toNat_div, UInt64.toNat_mul, Nat.mul_comm, Nat.mod_eq_of_lt small]

theorem safeAmount_le {shares reserve totalShares : UInt64} (within : shares ≤ totalShares)
    (some_ : totalShares ≠ 0) : safeAmount shares reserve totalShares ≤ reserve := by
  have positive : 0 < totalShares.toNat := by
    apply Nat.pos_of_ne_zero
    intro zero
    exact some_ (UInt64.toNat_inj.mp zero)
  have le := UInt64.le_iff_toNat_le.mp within
  have small := reserve.toNat_lt
  unfold safeAmount
  split
  · exact UInt64.zero_le
  · rename_i nonzero
    obtain ⟨hasReserve, _⟩ := not_or.mp nonzero
    rw [UInt64.le_iff_toNat_le]
    split
    · rename_i fits
      have product := (mul_fits_iff hasReserve).mp (UInt64.not_lt.mpr fits)
      rw [UInt64.toNat_div, UInt64.toNat_mul, Nat.mul_comm, Nat.mod_eq_of_lt product]
      calc reserve.toNat * shares.toNat / totalShares.toNat
          ≤ reserve.toNat * totalShares.toNat / totalShares.toNat :=
            Nat.div_le_div_right (Nat.mul_le_mul_left _ le)
        _ = reserve.toNat := Nat.mul_div_cancel _ positive
    · dsimp only
      split
      · exact Nat.le_refl _
      · have perShare : (reserve / totalShares).toNat * shares.toNat ≤ reserve.toNat := by
          rw [UInt64.toNat_div]
          calc reserve.toNat / totalShares.toNat * shares.toNat
              ≤ reserve.toNat / totalShares.toNat * totalShares.toNat := Nat.mul_le_mul_left _ le
            _ ≤ reserve.toNat := Nat.div_mul_le_self _ _
        rw [UInt64.toNat_mul, Nat.mod_eq_of_lt (Nat.lt_of_le_of_lt perShare small)]
        exact perShare

theorem getOutputAmount_lt {inputAmount inputReserve outputReserve feeRate : UInt64}
    (some_ : outputReserve ≠ 0) :
    getOutputAmount inputAmount inputReserve outputReserve feeRate < outputReserve := by
  have positive : 0 < outputReserve := UInt64.pos_iff_ne_zero.mpr some_
  unfold getOutputAmount
  split
  · exact positive
  · split
    · exact positive
    · rename_i nonzero
      obtain ⟨hasInput, _⟩ := not_or.mp nonzero
      cases worked : (do
          let inputWithFee ← SafeMath.mul inputAmount (10000 - feeRate)
          let numerator ← SafeMath.mul inputWithFee outputReserve
          let reserveScaled ← SafeMath.mul inputReserve 10000
          let denominator ← SafeMath.add reserveScaled inputWithFee
          SafeMath.div numerator denominator : Option UInt64) with
      | none => exact positive
      | some amount =>
          obtain ⟨inputWithFee, _, worked⟩ := Option.bind_eq_some_iff.mp worked
          obtain ⟨numerator, isNumerator, worked⟩ := Option.bind_eq_some_iff.mp worked
          obtain ⟨reserveScaled, isScaled, worked⟩ := Option.bind_eq_some_iff.mp worked
          obtain ⟨denominator, isDenominator, divided⟩ := Option.bind_eq_some_iff.mp worked
          obtain ⟨_, rfl⟩ := SafeMath.div_some divided
          have scaled : 0 < reserveScaled.toNat := by
            rw [SafeMath.mul_some isScaled]
            exact Nat.mul_pos (UInt64.lt_iff_toNat_lt.mp (UInt64.pos_iff_ne_zero.mpr hasInput))
              (by decide)
          have larger : inputWithFee.toNat < denominator.toNat := by
            rw [SafeMath.add_some isDenominator]
            omega
          rw [Option.getD_some, UInt64.lt_iff_toNat_lt, UInt64.toNat_div,
            SafeMath.mul_some isNumerator, Nat.div_lt_iff_lt_mul (Nat.zero_lt_of_lt larger),
            Nat.mul_comm]
          exact Nat.mul_lt_mul_of_pos_left larger (UInt64.lt_iff_toNat_lt.mp positive)

end Parthenon.Dex
