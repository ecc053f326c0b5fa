import Parthenon.Monetary.Decimals
import Parthenon.Primitives.Asset

namespace Parthenon.Monetary

open Library Primitives Storage

/-! # Units

The tokens of every asset have eight places, so an amount in base units is a decimal number of
tokens with a fixed number of places.
-/

def talDecimals : Nat := 8

def drDecimals : Nat := 8

def obDecimals : Nat := 8

def talBaseUnit : UInt64 := 100000000

def drBaseUnit : UInt64 := 100000000

def obBaseUnit : UInt64 := 100000000

def ratioDrPerTal : UInt64 := 6000

def ratioObPerDr : UInt64 := 6

def getTokenDecimals (asset : AssetID) : Nat :=
  if asset = .talanton then talDecimals
  else if asset = .drachma then drDecimals
  else if asset = .obolos then obDecimals
  else talDecimals

def getTokenBaseUnit (asset : AssetID) : UInt64 :=
  if asset = .talanton then talBaseUnit
  else if asset = .drachma then drBaseUnit
  else if asset = .obolos then obBaseUnit
  else talBaseUnit

def convertTalToDr (talRaw : UInt64) : Option UInt64 := mulOverflow talRaw ratioDrPerTal

def convertDrToOb (drRaw : UInt64) : Option UInt64 := mulOverflow drRaw ratioObPerDr

def formatAmount (amountRaw : UInt64) (asset : AssetID) : Bytes :=
  let base := getTokenBaseUnit asset
  let whole := amountRaw / base
  let frac := amountRaw % base
  decimal whole.toNat ++ 46 :: zeroPadded (getTokenDecimals asset) (decimal frac.toNat)

def parseDisplayAmount (value : Bytes) (asset : AssetID) : Option UInt64 :=
  parseScaledDecimal value (getTokenDecimals asset)

@[simp] theorem getTokenDecimals_eq (asset : AssetID) : getTokenDecimals asset = 8 := by
  simp [getTokenDecimals, talDecimals, drDecimals, obDecimals]

@[simp] theorem getTokenBaseUnit_toNat (asset : AssetID) :
    (getTokenBaseUnit asset).toNat = 10 ^ 8 := by
  simp only [getTokenBaseUnit, talBaseUnit, drBaseUnit, obBaseUnit, ite_self]
  rfl

theorem formatAmount_eq (amountRaw : UInt64) (asset : AssetID) :
    formatAmount amountRaw asset = fixedText amountRaw.toNat (getTokenDecimals asset) := by
  simp only [formatAmount, UInt64.toNat_div, UInt64.toNat_mod, getTokenBaseUnit_toNat,
    getTokenDecimals_eq, fixedText, Nat.reduceLT, if_true]

/-- A formatted amount is read back, and a text that is read is a decimal with no more places
than the token has, worth exactly the amount. -/
theorem amounts_round_trip (asset : AssetID) :
    (∀ amount : UInt64, parseDisplayAmount (formatAmount amount asset) asset = some amount) ∧
      ∀ (value : Bytes) (amount : UInt64), parseDisplayAmount value asset = some amount →
        ∃ whole frac, IsDecimal value whole frac ∧ frac.length ≤ getTokenDecimals asset ∧
          decimalValue whole frac * 10 ^ getTokenDecimals asset = amount.toNat := by
  have some_ : 0 < getTokenDecimals asset := by simp
  have small : getTokenDecimals asset ≤ 19 := by simp
  constructor
  · intro amount
    rw [parseDisplayAmount, formatAmount_eq]
    exact parseScaledDecimal_fixedText amount some_ small
  · intro value amount parsed
    obtain ⟨whole, frac, isDecimal, short, isAmount⟩ :=
      (parseScaledDecimal_eq_some_iff small).mp parsed
    refine ⟨whole, frac, isDecimal, short, ?_⟩
    rw [← scaledValue_eq short, isAmount]

/-- One and a half drachmas, with three of the eight places. -/
theorem amounts_round_trip_drachma :
    parseDisplayAmount (formatAmount 150000000 .drachma) .drachma = some 150000000 ∧
      ∃ whole frac, IsDecimal (text "1.500".toList) whole frac ∧
        frac.length ≤ getTokenDecimals .drachma ∧
          decimalValue whole frac * 10 ^ getTokenDecimals .drachma =
            (150000000 : UInt64).toNat := by
  have parsed : parseDisplayAmount (text "1.500".toList) .drachma = some 150000000 := by
    decide +kernel
  exact ⟨(amounts_round_trip .drachma).1 _, (amounts_round_trip .drachma).2 _ _ parsed⟩

end Parthenon.Monetary
