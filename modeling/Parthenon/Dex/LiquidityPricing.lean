import Parthenon.Dex.AmmShares
import Parthenon.Library.Rounding

namespace Parthenon.Dex

open Library Primitives Std

/-! # The price of liquidity

A deposit is to bring no more shares than its exact part of either reserve, and a
removal is to pay its exact part of both.
-/

/-! ## Deposits -/

theorem worthOfAmount_of_fits {amount totalShares reserve : Nat}
    (fits : amount * totalShares < 2 ^ 64) :
    worthOfAmount amount totalShares reserve = amount * totalShares / reserve := if_pos fits

theorem worthOfAmount_of_exceeds {amount totalShares reserve : Nat}
    (exceeds : ¬ amount * totalShares < 2 ^ 64) :
    worthOfAmount amount totalShares reserve = 2 ^ 64 - 1 := if_neg exceeds

/-- The smaller worth that leaves room for the total is at most the exact worth of one amount
unless that one was capped while the other is the greater. -/
theorem minted_le_iff {amount other totalShares reserve otherReserve : Nat}
    (some_ : 0 < totalShares) (positive : 0 < reserve)
    (room : totalShares + min (worthOfAmount amount totalShares reserve)
      (worthOfAmount other totalShares otherReserve) < 2 ^ 64) :
    min (worthOfAmount amount totalShares reserve)
        (worthOfAmount other totalShares otherReserve) * reserve ≤ amount * totalShares ↔
      amount * totalShares < 2 ^ 64 ∨
        other * totalShares / otherReserve ≤ amount * totalShares / reserve := by
  rw [← Nat.le_div_iff_mul_le positive]
  by_cases fits : amount * totalShares < 2 ^ 64
  · rw [worthOfAmount_of_fits fits]
    exact iff_of_true (Nat.min_le_left _ _) (.inl fits)
  · rw [worthOfAmount_of_exceeds fits] at room ⊢
    by_cases otherFits : other * totalShares < 2 ^ 64
    · rw [worthOfAmount_of_fits otherFits] at room ⊢
      have isOther : min (2 ^ 64 - 1) (other * totalShares / otherReserve) =
          other * totalShares / otherReserve := by omega
      rw [isOther]
      exact ⟨.inr, fun either => either.resolve_left fits⟩
    · rw [worthOfAmount_of_exceeds otherFits] at room
      omega

/-! ## Removals -/

/-- A removal pays its exact part of a reserve unless the product exceeds a word and the rest
of the reserve makes up a unit. -/
theorem safeAmount_exact_iff {shares reserve totalShares : UInt64} (within : shares ≤ totalShares)
    (some_ : 0 < totalShares) :
    (safeAmount shares reserve totalShares).toNat =
        shares.toNat * reserve.toNat / totalShares.toNat ↔
      shares.toNat * reserve.toNat < 2 ^ 64 ∨
        shares.toNat * (reserve.toNat % totalShares.toNat) < totalShares.toNat := by
  have positive : 0 < totalShares.toNat := UInt64.lt_iff_toNat_lt.mp some_
  have le := UInt64.le_iff_toNat_le.mp within
  have small := reserve.toNat_lt
  unfold safeAmount
  split
  · rename_i empty
    have none : shares.toNat * reserve.toNat = 0 := by
      rcases empty with rfl | rfl
      · exact Nat.mul_zero _
      · exact Nat.zero_mul _
    rw [none, Nat.zero_div]
    exact iff_of_true rfl (.inl (by decide))
  · rename_i nonzero
    obtain ⟨hasReserve, _⟩ := not_or.mp nonzero
    split
    · rename_i fits
      have product := (mul_fits_iff hasReserve).mp (UInt64.not_lt.mpr fits)
      rw [Nat.mul_comm] at product
      rw [UInt64.toNat_div, UInt64.toNat_mul, Nat.mod_eq_of_lt product]
      exact iff_of_true rfl (.inl product)
    · rename_i exceeds
      have wide : ¬ shares.toNat * reserve.toNat < 2 ^ 64 := by
        rw [Nat.mul_comm]
        exact fun product => exceeds (UInt64.not_lt.mp ((mul_fits_iff hasReserve).mpr product))
      have room : (reserve / totalShares).toNat * shares.toNat < 2 ^ 64 := by
        rw [UInt64.toNat_div]
        calc reserve.toNat / totalShares.toNat * shares.toNat
            ≤ reserve.toNat / totalShares.toNat * totalShares.toNat := Nat.mul_le_mul_left _ le
          _ ≤ reserve.toNat := Nat.div_mul_le_self _ _
          _ < 2 ^ 64 := small
      dsimp only
      split
      · rename_i capped
        exact absurd room (Nat.not_lt.mpr (mul_exceeds_iff.mp capped))
      · rw [UInt64.toNat_mul, Nat.mod_eq_of_lt room, UInt64.toNat_div,
          Nat.mul_comm shares.toNat reserve.toNat, split_quotient _ _ positive,
          Nat.mul_comm shares.toNat (reserve.toNat % totalShares.toNat), eq_comm,
          Nat.add_eq_left, Nat.div_eq_zero_iff_lt positive, Nat.mul_comm reserve.toNat]
        exact ⟨.inr, fun either => either.resolve_left wide⟩

/-! ## Calls -/

namespace LiquidityPool

variable (pool : LiquidityPool)

/-- Both reserves and the shares are positive. -/
def Funded : Prop := 0 < pool.reserveA ∧ 0 < pool.reserveB ∧ 0 < pool.totalShares

/-- The shares that a deposit adds to the total are at most its part of either reserve. -/
def AddsFairly (amountA amountB shares : UInt64) (next : Option LiquidityPool) : Prop :=
  (∃ after, next = some after ∧
    after.totalShares.toNat = pool.totalShares.toNat + shares.toNat) ∧
  shares.toNat * pool.reserveA.toNat ≤ amountA.toNat * pool.totalShares.toNat ∧
  shares.toNat * pool.reserveB.toNat ≤ amountB.toNat * pool.totalShares.toNat

/-- What is paid for shares is their part of each reserve, rounded down. -/
def PaysExactly (shares : UInt64) (paid : UInt64 × UInt64) : Prop :=
  paid.1.toNat = shares.toNat * pool.reserveA.toNat / pool.totalShares.toNat ∧
  paid.2.toNat = shares.toNat * pool.reserveB.toNat / pool.totalShares.toNat

end LiquidityPool

namespace AutomatedMarketMaker

variable (amm : AutomatedMarketMaker)

/-- A deposit into a funded pool brings at most its part of the shares, a removal pays
its part of the reserves. -/
def PricesFairly : AmmCall → Prop
  | .addLiquidity poolId amountA amountB provider =>
      ∀ pool, amm.pools[poolId]? = some pool → pool.Funded →
        pool.AddsFairly amountA amountB (amm.addLiquidity poolId amountA amountB provider).1
          ((amm.addLiquidity poolId amountA amountB provider).2.pools[poolId]?)
  | .removeLiquidity poolId shares provider =>
      ∀ pool, amm.pools[poolId]? = some pool → pool.Funded →
        shares ≤ pool.sharesOf provider → shares ≤ pool.totalShares →
          pool.PaysExactly shares (amm.removeLiquidity poolId shares provider).1
  | .createPool _ _ _ _ _ => True
  | .swap _ _ _ _ => True

/-- Where a product exceeds a word, it is that of the amount worth more, or what the
division drops of the reserve is worth less than a unit. -/
def PricedWithinWords : AmmCall → Prop
  | .addLiquidity poolId amountA amountB _ =>
      ∀ pool, amm.pools[poolId]? = some pool → pool.Funded → pool.Takes amountA amountB →
        (amountA.toNat * pool.totalShares.toNat < 2 ^ 64 ∨
          amountB.toNat * pool.totalShares.toNat / pool.reserveB.toNat ≤
            amountA.toNat * pool.totalShares.toNat / pool.reserveA.toNat) ∧
        (amountB.toNat * pool.totalShares.toNat < 2 ^ 64 ∨
          amountA.toNat * pool.totalShares.toNat / pool.reserveA.toNat ≤
            amountB.toNat * pool.totalShares.toNat / pool.reserveB.toNat)
  | .removeLiquidity poolId shares provider =>
      ∀ pool, amm.pools[poolId]? = some pool → pool.Funded →
        shares ≤ pool.sharesOf provider → shares ≤ pool.totalShares →
          ∀ reserve ∈ [pool.reserveA, pool.reserveB],
            shares.toNat * reserve.toNat < 2 ^ 64 ∨
              shares.toNat * (reserve.toNat % pool.totalShares.toNat) < pool.totalShares.toNat
  | .createPool _ _ _ _ _ => True
  | .swap _ _ _ _ => True

variable {amm : AutomatedMarketMaker}

theorem addLiquidity_fair_iff {poolId provider : Bytes} {amountA amountB : UInt64} :
    amm.PricesFairly (.addLiquidity poolId amountA amountB provider) ↔
      amm.PricedWithinWords (.addLiquidity poolId amountA amountB provider) := by
  refine forall_congr' fun pool => forall_congr' fun found => forall_congr' fun funded => ?_
  obtain ⟨someA, someB, someShares⟩ := funded
  rcases addLiquidity_cases amm poolId amountA amountB provider with
    ⟨refused, untaken⟩ | ⟨other, shares, isPool, takes, isWorth, taken⟩
  · rw [refused]
    apply iff_of_true
    · exact ⟨⟨pool, found, rfl⟩, by simp, by simp⟩
    · exact fun takes => absurd takes (untaken pool found)
  · rw [found] at isPool
    cases isPool
    rw [taken]
    dsimp only
    rw [setPool_found]
    have room := takes.2.2.2
    have total : (pool.totalShares + shares).toNat =
        pool.totalShares.toNat + shares.toNat := by
      rw [← isWorth] at room
      exact toNat_add_of_fits room
    have filled : pool.totalShares ≠ 0 := UInt64.pos_iff_ne_zero.mp someShares
    rw [LiquidityPool.worth, if_neg filled] at isWorth room
    have left := minted_le_iff (UInt64.lt_iff_toNat_lt.mp someShares)
      (UInt64.lt_iff_toNat_lt.mp someA) room
    rw [Nat.min_comm] at room
    have right := minted_le_iff (UInt64.lt_iff_toNat_lt.mp someShares)
      (UInt64.lt_iff_toNat_lt.mp someB) room
    rw [Nat.min_comm, ← isWorth] at right
    rw [← isWorth] at left
    rw [LiquidityPool.AddsFairly, left, right]
    exact ⟨fun fair _ => fair.2, fun priced => ⟨⟨_, rfl, total⟩, priced takes⟩⟩

theorem removeLiquidity_paid {poolId provider : Bytes} {shares : UInt64} {pool : LiquidityPool}
    (found : amm.pools[poolId]? = some pool) (owns : shares ≤ pool.sharesOf provider)
    (some_ : pool.totalShares ≠ 0) :
    (amm.removeLiquidity poolId shares provider).1 =
      (safeAmount shares pool.reserveA pool.totalShares,
        safeAmount shares pool.reserveB pool.totalShares) := by
  simp only [removeLiquidity, found, LiquidityPool.sharesOf_enter,
    if_neg (UInt64.not_lt.mpr owns)]
  rw [if_neg (by exact some_)]
  rfl

theorem removeLiquidity_fair_iff {poolId provider : Bytes} {shares : UInt64} :
    amm.PricesFairly (.removeLiquidity poolId shares provider) ↔
      amm.PricedWithinWords (.removeLiquidity poolId shares provider) := by
  refine forall_congr' fun pool => forall_congr' fun found => forall_congr' fun funded =>
    forall_congr' fun owns => forall_congr' fun within => ?_
  have some_ := funded.2.2
  rw [removeLiquidity_paid found owns (UInt64.pos_iff_ne_zero.mp some_), LiquidityPool.PaysExactly,
    safeAmount_exact_iff within some_, safeAmount_exact_iff within some_]
  simp

/-- Liquidity is priced fairly exactly where no product that matters exceeds a word. -/
theorem pricesFairly_iff (amm : AutomatedMarketMaker) (call : AmmCall) :
    amm.PricesFairly call ↔ amm.PricedWithinWords call := by
  cases call with
  | createPool => exact Iff.rfl
  | addLiquidity => exact addLiquidity_fair_iff
  | removeLiquidity => exact removeLiquidity_fair_iff
  | swap => exact Iff.rfl

/-! ## Where a product exceeds a word -/

/-- A pool with much of one asset and little of the other. -/
def lopsided : AutomatedMarketMaker := (new.createPool .talanton .drachma 1099511627776 2 30).2

def lopsidedPool : LiquidityPool where
  poolId := poolIdOf .talanton .drachma
  assetA := .talanton
  assetB := .drachma
  reserveA := 1099511627776
  reserveB := 2
  totalShares := 2199023255552
  shares := ∅
  feeRate := 30

theorem lopsided_found : lopsided.pools[poolIdOf .talanton .drachma]? = some lopsidedPool :=
  setPool_found _ _

def doubled : AutomatedMarketMaker :=
  (lopsided.addLiquidity (poolIdOf .talanton .drachma) 1099511627776 2 [7]).2

def doubledPool : LiquidityPool :=
  (lopsidedPool.deposit 1099511627776 2 2199023255552).credit [7] 2199023255552

theorem doubled_found : doubled.pools[poolIdOf .talanton .drachma]? = some doubledPool := by
  have takes : lopsidedPool.Takes 1099511627776 2 := by decide
  rcases addLiquidity_cases lopsided (poolIdOf .talanton .drachma) 1099511627776 2 [7] with
    ⟨-, untaken⟩ | ⟨pool, shares, found, -, isWorth, taken⟩
  · exact absurd takes (untaken _ lopsided_found)
  · rw [lopsided_found] at found
    cases found
    have isShares : shares = 2199023255552 := UInt64.toNat_inj.mp (isWorth.trans (by decide))
    rw [doubled, taken, isShares]
    exact setPool_found _ _

/-- A deposit of much of the scarce asset dilutes the pool, and half of the shares are paid
nothing of the other one. -/
theorem prices_unfair :
    ¬ lopsided.PricesFairly (.addLiquidity (poolIdOf .talanton .drachma) 8388608 4194304 [7]) ∧
      ¬ doubled.PricesFairly (.removeLiquidity (poolIdOf .talanton .drachma) 2199023255552 [7]) := by
  constructor
  · rw [addLiquidity_fair_iff]
    intro priced
    have funded : lopsidedPool.Funded := ⟨by decide, by decide, by decide⟩
    have words := (priced lopsidedPool lopsided_found funded (by decide)).1
    exact absurd words (by decide)
  · rw [removeLiquidity_fair_iff]
    intro priced
    have owns : (2199023255552 : UInt64) ≤ doubledPool.sharesOf [7] := by
      rw [doubledPool, LiquidityPool.sharesOf_credit]
      decide
    have funded : doubledPool.Funded := ⟨by decide, by decide, by decide⟩
    have words := priced doubledPool doubled_found funded owns (by decide) doubledPool.reserveA
      List.mem_cons_self
    exact absurd words (by decide)

end AutomatedMarketMaker

end Parthenon.Dex
