import Parthenon.Dex.AmmShares
import Parthenon.Library.Rounding

namespace Parthenon.Dex

open Library Primitives Std

/-! # Swaps

A swap is to move two reserves by exactly what it takes and gives, without lowering their
product, or to leave the pool as it is.
-/

/-! ## Quotes -/

/-- The words that a quote goes through suffice for it. -/
def QuoteFits (input inputReserve outputReserve feeRate : Nat) : Prop :=
  input * (10000 - feeRate) * outputReserve < 2 ^ 64 ∧
    inputReserve * 10000 + input * (10000 - feeRate) < 2 ^ 64

instance (input inputReserve outputReserve feeRate : Nat) :
    Decidable (QuoteFits input inputReserve outputReserve feeRate) :=
  inferInstanceAs (Decidable (_ ∧ _))

/-- What a swap is offered, exactly: nothing where the fee takes all, a reserve is empty or
a word is too small. -/
def quotedOutput (input inputReserve outputReserve feeRate : Nat) : Nat :=
  if feeRate < 10000 ∧ 0 < inputReserve ∧ 0 < outputReserve ∧
      QuoteFits input inputReserve outputReserve feeRate then
    productOutput 10000 (input * (10000 - feeRate)) inputReserve outputReserve
  else 0

/-- The steps of a quote, for what the fee leaves of the input. -/
def quoteSteps (input inputReserve outputReserve multiplier : UInt64) : Option UInt64 := do
  let inputWithFee ← SafeMath.mul input multiplier
  let numerator ← SafeMath.mul inputWithFee outputReserve
  let reserveScaled ← SafeMath.mul inputReserve 10000
  let denominator ← SafeMath.add reserveScaled inputWithFee
  SafeMath.div numerator denominator

theorem quoteSteps_some {input inputReserve outputReserve multiplier quote : UInt64}
    (made : quoteSteps input inputReserve outputReserve multiplier = some quote) :
    input.toNat * multiplier.toNat * outputReserve.toNat < 2 ^ 64 ∧
      inputReserve.toNat * 10000 + input.toNat * multiplier.toNat < 2 ^ 64 ∧
      quote.toNat = productOutput 10000 (input.toNat * multiplier.toNat) inputReserve.toNat
        outputReserve.toNat := by
  obtain ⟨inputWithFee, isWithFee, made⟩ := Option.bind_eq_some_iff.mp made
  obtain ⟨numerator, isNumerator, made⟩ := Option.bind_eq_some_iff.mp made
  obtain ⟨reserveScaled, isScaled, made⟩ := Option.bind_eq_some_iff.mp made
  obtain ⟨denominator, isDenominator, divided⟩ := Option.bind_eq_some_iff.mp made
  obtain ⟨-, rfl⟩ := SafeMath.div_some divided
  have scaled : reserveScaled.toNat = inputReserve.toNat * 10000 := SafeMath.mul_some isScaled
  rw [productOutput, UInt64.toNat_div, ← SafeMath.mul_some isWithFee,
    ← SafeMath.mul_some isNumerator, ← scaled, ← SafeMath.add_some isDenominator]
  exact ⟨numerator.toNat_lt, denominator.toNat_lt, rfl⟩

theorem quoteSteps_of_fits {input inputReserve outputReserve multiplier : UInt64}
    (hasInput : 0 < inputReserve.toNat) (hasOutput : 0 < outputReserve.toNat)
    (fitsNumerator : input.toNat * multiplier.toNat * outputReserve.toNat < 2 ^ 64)
    (fitsDenominator : inputReserve.toNat * 10000 + input.toNat * multiplier.toNat < 2 ^ 64) :
    ∃ quote, quoteSteps input inputReserve outputReserve multiplier = some quote := by
  have withFee := SafeMath.mul_of_fits
    (Nat.lt_of_le_of_lt (Nat.le_mul_of_pos_right _ hasOutput) fitsNumerator)
  have whole : (10000 : UInt64).toNat = 10000 := rfl
  rw [← whole] at fitsDenominator
  have scaled := SafeMath.mul_of_fits (Nat.lt_of_le_of_lt (Nat.le_add_right _ _) fitsDenominator)
  rw [← SafeMath.mul_some withFee] at fitsNumerator fitsDenominator
  have isScaled := SafeMath.mul_some scaled
  rw [← isScaled] at fitsDenominator
  have numerator := SafeMath.mul_of_fits fitsNumerator
  have denominator := SafeMath.add_of_fits fitsDenominator
  have nonzero : inputReserve * 10000 + input * multiplier ≠ 0 := by
    intro zero
    have sum := SafeMath.add_some denominator
    rw [zero, isScaled, whole, UInt64.toNat_zero] at sum
    omega
  exact ⟨_, Option.bind_eq_some_iff.mpr ⟨_, withFee, Option.bind_eq_some_iff.mpr ⟨_, numerator,
    Option.bind_eq_some_iff.mpr ⟨_, scaled, Option.bind_eq_some_iff.mpr ⟨_, denominator,
      SafeMath.div_of_ne_zero nonzero⟩⟩⟩⟩⟩

theorem getOutputAmount_toNat (input inputReserve outputReserve feeRate : UInt64) :
    (getOutputAmount input inputReserve outputReserve feeRate).toNat =
      quotedOutput input.toNat inputReserve.toNat outputReserve.toNat feeRate.toNat := by
  have whole : (10000 : UInt64).toNat = 10000 := rfl
  have steps : getOutputAmount input inputReserve outputReserve feeRate =
      if feeRate ≥ 10000 then 0
      else if inputReserve = 0 ∨ outputReserve = 0 then 0
      else (quoteSteps input inputReserve outputReserve (10000 - feeRate)).getD 0 := rfl
  rw [steps]
  by_cases fee : feeRate.toNat < 10000
  · have below : ¬ feeRate ≥ 10000 := by
      rw [ge_iff_le, UInt64.not_le, UInt64.lt_iff_toNat_lt]
      exact fee
    have multiplier : (10000 - feeRate).toNat = 10000 - feeRate.toNat :=
      toNat_sub_of_le (UInt64.le_of_lt (UInt64.not_le.mp below))
    rw [if_neg below]
    by_cases empty : inputReserve = 0 ∨ outputReserve = 0
    · rw [if_pos empty, quotedOutput, if_neg]
      · rfl
      · rintro ⟨-, hasInput, hasOutput, -⟩
        rcases empty with rfl | rfl
        · exact Nat.lt_irrefl 0 hasInput
        · exact Nat.lt_irrefl 0 hasOutput
    · obtain ⟨someInput, someOutput⟩ := not_or.mp empty
      have hasInput := UInt64.lt_iff_toNat_lt.mp (UInt64.pos_iff_ne_zero.mpr someInput)
      have hasOutput := UInt64.lt_iff_toNat_lt.mp (UInt64.pos_iff_ne_zero.mpr someOutput)
      rw [if_neg empty, quotedOutput]
      cases made : quoteSteps input inputReserve outputReserve (10000 - feeRate) with
      | none =>
          rw [if_neg]
          · rfl
          · rintro ⟨-, -, -, fits⟩
            rw [QuoteFits, ← multiplier] at fits
            obtain ⟨quote, isQuote⟩ := quoteSteps_of_fits hasInput hasOutput fits.1 fits.2
            rw [made] at isQuote
            cases isQuote
      | some quote =>
          obtain ⟨fitsNumerator, fitsDenominator, isQuote⟩ := quoteSteps_some made
          rw [multiplier] at fitsNumerator fitsDenominator isQuote
          rw [if_pos ⟨fee, hasInput, hasOutput, fitsNumerator, fitsDenominator⟩]
          exact isQuote
  · have above : feeRate ≥ 10000 := by
      rw [ge_iff_le, UInt64.le_iff_toNat_le]
      exact Nat.not_lt.mp fee
    rw [if_pos above, quotedOutput, if_neg fun fits => fee fits.1]
    rfl

theorem quotedOutput_zero_input (inputReserve outputReserve feeRate : Nat) :
    quotedOutput 0 inputReserve outputReserve feeRate = 0 := by
  simp [quotedOutput, productOutput]

/-- A quote for something is within its words, and for no more than the input. -/
theorem quotedOutput_pos {input inputReserve outputReserve feeRate : Nat}
    (some_ : 0 < quotedOutput input inputReserve outputReserve feeRate) :
    inputReserve + input < 2 ^ 64 ∧
      quotedOutput input inputReserve outputReserve feeRate < outputReserve ∧
      inputReserve * outputReserve ≤ (inputReserve + input) *
        (outputReserve - quotedOutput input inputReserve outputReserve feeRate) := by
  unfold quotedOutput at some_ ⊢
  split at some_
  · rename_i fits
    rw [if_pos fits]
    obtain ⟨fee, hasInput, hasOutput, -, fitsDenominator⟩ := fits
    have counts : input ≤ input * (10000 - feeRate) := Nat.le_mul_of_pos_right _ (by omega)
    refine ⟨by omega, productOutput_lt (by omega) hasOutput, le_product_after (by decide) ?_⟩
    exact Nat.mul_le_mul_left input (Nat.sub_le _ _)
  · cases some_

/-! ## Swaps -/

namespace LiquidityPool

variable (pool : LiquidityPool) (inputAsset : AssetID)

def inputReserve : UInt64 := if inputAsset = pool.assetA then pool.reserveA else pool.reserveB

def outputReserve : UInt64 := if inputAsset = pool.assetA then pool.reserveB else pool.reserveA

/-- The pool after it takes one amount and gives the other. -/
def exchange (input output : UInt64) : LiquidityPool :=
  if inputAsset = pool.assetA then
    { pool with reserveA := pool.reserveA + input, reserveB := pool.reserveB - output }
  else { pool with reserveB := pool.reserveB + input, reserveA := pool.reserveA - output }

/-- What a swap may do to a pool: nothing when it returns zero, and else an exact exchange of
the two assets. -/
structure SwapsSafely (after : LiquidityPool) (input output : UInt64) : Prop where
  unchanged : output = 0 → after = pool
  known : output ≠ 0 → inputAsset = pool.assetA ∨ inputAsset = pool.assetB
  taken : output ≠ 0 →
    (after.inputReserve inputAsset).toNat = (pool.inputReserve inputAsset).toNat + input.toNat
  given : output ≠ 0 →
    (after.outputReserve inputAsset).toNat + output.toNat = (pool.outputReserve inputAsset).toNat
  below : output ≠ 0 → output < pool.outputReserve inputAsset
  product : pool.reserveA.toNat * pool.reserveB.toNat ≤
    after.reserveA.toNat * after.reserveB.toNat

variable {pool inputAsset} {input output : UInt64}

@[simp] theorem inputReserve_exchange :
    (pool.exchange inputAsset input output).inputReserve inputAsset =
      pool.inputReserve inputAsset + input := by
  unfold exchange inputReserve
  split <;> simp_all

@[simp] theorem outputReserve_exchange :
    (pool.exchange inputAsset input output).outputReserve inputAsset =
      pool.outputReserve inputAsset - output := by
  unfold exchange outputReserve
  split <;> simp_all

theorem product_eq (pool : LiquidityPool) (inputAsset : AssetID) :
    pool.reserveA.toNat * pool.reserveB.toNat =
      (pool.inputReserve inputAsset).toNat * (pool.outputReserve inputAsset).toNat := by
  unfold inputReserve outputReserve
  split
  · rfl
  · exact Nat.mul_comm _ _

theorem exchange_zero : pool.exchange inputAsset 0 0 = pool := by
  unfold exchange
  split <;> simp

/-- An exchange that gives nothing changes the pool unless it takes nothing. -/
theorem exchange_eq_self (same : pool.exchange inputAsset input 0 = pool) : input = 0 := by
  have taken : (pool.exchange inputAsset input 0).inputReserve inputAsset =
      pool.inputReserve inputAsset := by rw [same]
  rw [inputReserve_exchange] at taken
  exact UInt64.add_eq_left.mp taken

theorem SwapsSafely.refused : pool.SwapsSafely inputAsset pool input 0 where
  unchanged _ := rfl
  known some_ := absurd rfl some_
  taken some_ := absurd rfl some_
  given some_ := absurd rfl some_
  below some_ := absurd rfl some_
  product := Nat.le_refl _

end LiquidityPool

namespace AutomatedMarketMaker

variable {amm : AutomatedMarketMaker} {poolId : Bytes} {pool : LiquidityPool}

/-- The offer for an input, exactly. -/
def offered (pool : LiquidityPool) (inputAsset : AssetID) (input : UInt64) : Nat :=
  quotedOutput input.toNat (pool.inputReserve inputAsset).toNat
    (pool.outputReserve inputAsset).toNat pool.feeRate.toNat

/-- A swap is refused where the offer is too small, and else exchanges it for the input. -/
theorem swap_cases (found : amm.pools[poolId]? = some pool) (inputAsset : AssetID)
    (input minOutput : UInt64) :
    ∃ output, output.toNat = offered pool inputAsset input ∧
      amm.swap poolId inputAsset input minOutput =
        if output < minOutput then (0, amm)
        else (output, amm.setPool poolId (pool.exchange inputAsset input output)) := by
  refine ⟨_, getOutputAmount_toNat input (pool.inputReserve inputAsset)
    (pool.outputReserve inputAsset) pool.feeRate, ?_⟩
  rw [swap, found]
  rfl

/-- A swap leaves a pool that it may leave. -/
def SwapIsSafe (amm : AutomatedMarketMaker) (poolId : Bytes) (inputAsset : AssetID)
    (input minOutput : UInt64) : Prop :=
  ∀ pool, amm.pools[poolId]? = some pool →
    ∃ after, (amm.swap poolId inputAsset input minOutput).2.pools[poolId]? = some after ∧
      pool.SwapsSafely inputAsset after input (amm.swap poolId inputAsset input minOutput).1

/-- The offer is below the least that is asked for, nothing is put in, or something is
offered for an asset of the pool. -/
def SwapIsSound (amm : AutomatedMarketMaker) (poolId : Bytes) (inputAsset : AssetID)
    (input minOutput : UInt64) : Prop :=
  ∀ pool, amm.pools[poolId]? = some pool →
    offered pool inputAsset input < minOutput.toNat ∨ input = 0 ∨
      (0 < offered pool inputAsset input ∧
        (inputAsset = pool.assetA ∨ inputAsset = pool.assetB))

/-- An exchange of the offer for an input is safe when there is an offer, for an asset of the
pool. -/
theorem exchange_safe {inputAsset : AssetID} {input output : UInt64}
    (isOffered : output.toNat = offered pool inputAsset input)
    (some_ : 0 < offered pool inputAsset input)
    (known : inputAsset = pool.assetA ∨ inputAsset = pool.assetB) :
    pool.SwapsSafely inputAsset (pool.exchange inputAsset input output) input output := by
  obtain ⟨room, below, product⟩ := quotedOutput_pos some_
  rw [offered] at isOffered some_
  rw [← isOffered] at below product some_
  have le : output ≤ pool.outputReserve inputAsset :=
    UInt64.le_iff_toNat_le.mpr (Nat.le_of_lt below)
  have taken : (pool.inputReserve inputAsset + input).toNat =
      (pool.inputReserve inputAsset).toNat + input.toNat := toNat_add_of_fits room
  have given : (pool.outputReserve inputAsset - output).toNat =
      (pool.outputReserve inputAsset).toNat - output.toNat := toNat_sub_of_le le
  constructor
  · intro zero
    rw [zero] at some_
    cases some_
  · exact fun _ => known
  · intro _
    rw [LiquidityPool.inputReserve_exchange, taken]
  · intro _
    rw [LiquidityPool.outputReserve_exchange, given, Nat.sub_add_cancel (Nat.le_of_lt below)]
  · exact fun _ => UInt64.lt_iff_toNat_lt.mpr below
  · rw [LiquidityPool.product_eq pool inputAsset,
      LiquidityPool.product_eq (pool.exchange inputAsset input output) inputAsset,
      LiquidityPool.inputReserve_exchange, LiquidityPool.outputReserve_exchange, taken, given]
    exact product

theorem offered_zero_input (inputAsset : AssetID) : offered pool inputAsset 0 = 0 :=
  quotedOutput_zero_input _ _ _

/-- A swap is safe exactly where it is refused, takes nothing, or has an offer for an asset of
the pool. -/
theorem swap_safe_iff (amm : AutomatedMarketMaker) (poolId : Bytes) (inputAsset : AssetID)
    (input minOutput : UInt64) :
    amm.SwapIsSafe poolId inputAsset input minOutput ↔
      amm.SwapIsSound poolId inputAsset input minOutput := by
  refine forall_congr' fun pool => forall_congr' fun found => ?_
  obtain ⟨output, isOffered, swapped⟩ := swap_cases found inputAsset input minOutput
  rw [swapped]
  by_cases small : output < minOutput
  · rw [if_pos small]
    apply iff_of_true
    · exact ⟨pool, found, .refused⟩
    · left
      rw [← isOffered]
      exact UInt64.lt_iff_toNat_lt.mp small
  · have enough : ¬ offered pool inputAsset input < minOutput.toNat := by
      rw [← isOffered, ← UInt64.lt_iff_toNat_lt]
      exact small
    rw [if_neg small, or_iff_right enough]
    dsimp only
    rw [setPool_found]
    constructor
    · rintro ⟨after, isAfter, safe⟩
      cases isAfter
      by_cases none : output = 0
      · subst none
        exact .inl (LiquidityPool.exchange_eq_self (safe.unchanged rfl))
      · right
        rw [← isOffered]
        exact ⟨UInt64.lt_iff_toNat_lt.mp (UInt64.pos_iff_ne_zero.mpr none), safe.known none⟩
    · rintro (rfl | ⟨some_, known⟩)
      · rw [offered_zero_input] at isOffered
        have none : output = 0 := UInt64.toNat_inj.mp isOffered
        subst none
        rw [LiquidityPool.exchange_zero]
        exact ⟨pool, rfl, .refused⟩
      · exact ⟨_, rfl, exchange_safe isOffered some_ known⟩

/-! ## A swap for nothing -/

def even : AutomatedMarketMaker := (new.createPool .talanton .drachma 1000 1000 30).2

def evenPool : LiquidityPool where
  poolId := poolIdOf .talanton .drachma
  assetA := .talanton
  assetB := .drachma
  reserveA := 1000
  reserveB := 1000
  totalShares := 1000000
  shares := ∅
  feeRate := 30

theorem even_found : even.pools[poolIdOf .talanton .drachma]? = some evenPool :=
  setPool_found _ _

/-- A swap that gets past the least output with nothing for it is not safe, nor one of an asset
that the pool does not have. -/
theorem swaps_unsafe :
    ¬ even.SwapIsSafe (poolIdOf .talanton .drachma) .talanton 1 0 ∧
      ¬ even.SwapIsSafe (poolIdOf .talanton .drachma) .obolos 100 1 := by
  constructor
  · intro safe
    obtain ⟨after, isAfter, kept⟩ := safe evenPool even_found
    obtain ⟨output, isOffered, swapped⟩ := swap_cases even_found .talanton 1 0
    have none : output = 0 := UInt64.toNat_inj.mp (isOffered.trans (by decide))
    rw [swapped, none, if_neg (by decide)] at isAfter kept
    rw [setPool_found] at isAfter
    cases isAfter
    cases LiquidityPool.exchange_eq_self (kept.unchanged rfl)
  · intro safe
    obtain ⟨after, -, kept⟩ := safe evenPool even_found
    obtain ⟨output, isOffered, swapped⟩ := swap_cases even_found .obolos 100 1
    have some_ : output = 90 := UInt64.toNat_inj.mp (isOffered.trans (by decide))
    rw [swapped, some_, if_neg (by decide)] at kept
    exact absurd (kept.known (by decide)) (by decide)

end AutomatedMarketMaker

end Parthenon.Dex
