import Mathlib.Data.List.DropRight
import Parthenon.Common.Commitment
import Parthenon.Primitives.Asset

namespace Parthenon.Monetary

open Library Primitives Storage Common

/-! # Denominations

The units in which an amount of an asset may be written, by name, symbol or alias.
-/

structure DenominationDefinition where
  name : Bytes
  symbol : Bytes
  asset : AssetID
  tokenUnitsNumerator : UInt64
  tokenUnitsDenominator : UInt64
  allowedDecimals : Nat
  allowInput : Bool
  approximateDisplay : Bool
  aliases : List Bytes
deriving DecidableEq, Repr

/-- `tolower` in the C locale. -/
def toLower (byte : UInt8) : UInt8 := if 65 ≤ byte && byte ≤ 90 then byte + 32 else byte

/-- A text without the blanks around it. -/
def trim (value : Bytes) : Bytes := (value.dropWhile isSpace).rdropWhile isSpace

def lower (value : Bytes) : Bytes := value.map toLower

def lowerTrimmed (value : Bytes) : Bytes :=
  (trim value).map fun byte => if byte < 128 then toLower byte else byte

def talDenoms : List DenominationDefinition :=
  [{ name := text "talanton".toList
     symbol := text "TAL".toList
     asset := .talanton
     tokenUnitsNumerator := 1
     tokenUnitsDenominator := 1
     allowedDecimals := 8
     allowInput := true
     approximateDisplay := false
     aliases := [text "tal".toList, text "talanton".toList, text "talanta".toList] },
   { name := text "mina".toList
     symbol := text "MNA".toList
     asset := .talanton
     tokenUnitsNumerator := 1
     tokenUnitsDenominator := 60
     allowedDecimals := 8
     allowInput := false
     approximateDisplay := true
     aliases := [text "mina".toList, text "mina".toList] }]

def drDenoms : List DenominationDefinition :=
  [{ name := text "drachma".toList
     symbol := text "DR".toList
     asset := .drachma
     tokenUnitsNumerator := 1
     tokenUnitsDenominator := 1
     allowedDecimals := 8
     allowInput := true
     approximateDisplay := false
     aliases := [text "dr".toList, text "drachma".toList, text "drachmas".toList] },
   { name := text "obol".toList
     symbol := text "OB".toList
     asset := .drachma
     tokenUnitsNumerator := 1
     tokenUnitsDenominator := 6
     allowedDecimals := 8
     allowInput := true
     approximateDisplay := true
     aliases := [text "ob".toList, text "obol".toList] },
   { name := text "tetradrachm".toList
     symbol := text "4DR".toList
     asset := .drachma
     tokenUnitsNumerator := 4
     tokenUnitsDenominator := 1
     allowedDecimals := 8
     allowInput := true
     approximateDisplay := false
     aliases := [text "tetradrachm".toList, text "tetradrachma".toList, text "tetra".toList] },
   { name := text "mina".toList
     symbol := text "MNA".toList
     asset := .drachma
     tokenUnitsNumerator := 100
     tokenUnitsDenominator := 1
     allowedDecimals := 8
     allowInput := true
     approximateDisplay := false
     aliases := [text "mina".toList, text "mina".toList] }]

def obDenoms : List DenominationDefinition :=
  [{ name := text "obol".toList
     symbol := text "OB".toList
     asset := .obolos
     tokenUnitsNumerator := 1
     tokenUnitsDenominator := 1
     allowedDecimals := 8
     allowInput := true
     approximateDisplay := false
     aliases := [text "ob".toList, text "obol".toList, text "obolos".toList] },
   { name := text "hemiobol".toList
     symbol := text "1/2OB".toList
     asset := .obolos
     tokenUnitsNumerator := 1
     tokenUnitsDenominator := 2
     allowedDecimals := 8
     allowInput := false
     approximateDisplay := false
     aliases := [text "hemiobol".toList, text "hemi-obol".toList] }]

def getAtticDisplayDenominations (asset : AssetID) : List DenominationDefinition :=
  if asset = .talanton then talDenoms
  else if asset = .drachma then drDenoms
  else if asset = .obolos then obDenoms
  else talDenoms

/-- Whether a denomination goes by a name that is in lower case. -/
def DenominationDefinition.answersTo (denom : DenominationDefinition) (needle : Bytes) : Bool :=
  lowerTrimmed denom.name == needle || lowerTrimmed denom.symbol == needle ||
    denom.aliases.any fun alias_ => lowerTrimmed alias_ == needle

/-- A name with a byte that is negative as a character is not looked for. -/
def resolveDenomination (asset : AssetID) (nameOrAlias : Bytes) : Option DenominationDefinition :=
  if nameOrAlias.any fun byte => byte ≥ 128 then none
  else
    let needle := lowerTrimmed nameOrAlias
    if needle.isEmpty then none
    else (getAtticDisplayDenominations asset).find? fun denom => denom.answersTo needle

def defaultDenominationName (asset : AssetID) : Bytes :=
  ((getAtticDisplayDenominations asset).head?.map DenominationDefinition.name).getD []

/-! ## Names -/

theorem toLower_cases (byte : UInt8) :
    (65 ≤ byte.toNat ∧ byte.toNat ≤ 90 ∧ (toLower byte).toNat = byte.toNat + 32) ∨
      ((byte.toNat < 65 ∨ 90 < byte.toNat) ∧ toLower byte = byte) := by
  by_cases upper : 65 ≤ byte.toNat ∧ byte.toNat ≤ 90
  · left
    have isUpper : (65 ≤ byte && byte ≤ 90) = true := by
      simpa [UInt8.le_iff_toNat_le] using upper
    have sum : (byte + 32).toNat = byte.toNat + 32 := by
      have offset : (32 : UInt8).toNat = 32 := rfl
      rw [UInt8.toNat_add, offset]
      omega
    rw [toLower, if_pos isUpper, sum]
    exact ⟨upper.1, upper.2, rfl⟩
  · right
    have other : ¬ (65 ≤ byte && byte ≤ 90) = true := by
      simpa [UInt8.le_iff_toNat_le] using upper
    rw [toLower, if_neg other]
    exact ⟨by omega, rfl⟩

theorem lowerTrimmed_eq (value : Bytes) : lowerTrimmed value = lower (trim value) := by
  apply List.map_congr_left
  intro byte _
  split
  · rfl
  · rename_i high
    have ascii : (128 : UInt8).toNat = 128 := rfl
    rw [UInt8.lt_iff_toNat_lt, ascii] at high
    rcases toLower_cases byte with ⟨_, low, _⟩ | ⟨-, same⟩
    · omega
    · exact same.symm

theorem isSpace_toLower (byte : UInt8) : isSpace (toLower byte) = isSpace byte := by
  rcases toLower_cases byte with ⟨least, most, isLower⟩ | ⟨-, same⟩
  · have notSpace : ∀ other : UInt8, 33 ≤ other.toNat → isSpace other = false := by
      intro other high
      simp only [isSpace, Bool.or_eq_false_iff, beq_eq_false_iff_ne, ne_eq, Bool.and_eq_false_iff,
        decide_eq_false_iff_not, UInt8.le_iff_toNat_le, ← UInt8.toNat_inj, UInt8.reduceToNat]
      omega
    rw [notSpace byte (by omega), notSpace (toLower byte) (by omega)]
  · rw [same]

theorem toLower_toLower (byte : UInt8) : toLower (toLower byte) = toLower byte := by
  rcases toLower_cases byte with ⟨least, most, isLower⟩ | ⟨-, same⟩
  · rcases toLower_cases (toLower byte) with ⟨_, _, _⟩ | ⟨-, again⟩
    · omega
    · exact again
  · rw [same, same]

theorem lower_lower (value : Bytes) : lower (lower value) = lower value := by
  simp [lower, List.map_map, Function.comp_def, toLower_toLower]

theorem trim_lower (value : Bytes) : trim (lower value) = lower (trim value) := by
  have spaces : isSpace ∘ toLower = isSpace := funext isSpace_toLower
  rw [trim, lower, List.dropWhile_map, spaces, List.rdropWhile, ← List.map_reverse,
    List.dropWhile_map, spaces, ← List.map_reverse]
  rfl

theorem trim_trim (value : Bytes) : trim (trim value) = trim value := by
  have front : (trim value).dropWhile isSpace = trim value := by
    obtain ⟨blanks, joined⟩ : trim value <+: value.dropWhile isSpace :=
      List.rdropWhile_prefix isSpace _
    cases trimmed : trim value with
    | nil => rfl
    | cons first rest =>
        rw [trimmed] at joined
        have visible : ¬ isSpace first = true := by
          have head : (value.dropWhile isSpace).head? = some first := by
            rw [← joined]
            rfl
          have checked := List.head?_dropWhile_not isSpace value
          rw [head] at checked
          simpa using checked
        exact List.dropWhile_cons_of_neg visible
  rw [trim, front]
  exact List.rdropWhile_idempotent _ _

theorem lower_trim_ascii {name : Bytes} (ascii : ¬ name.any (fun byte => byte ≥ 128) = true) :
    ¬ (lower (trim name)).any (fun byte => byte ≥ 128) = true := by
  have bound : (128 : UInt8).toNat = 128 := rfl
  simp only [List.any_eq_true, decide_eq_true_eq, ge_iff_le, UInt8.le_iff_toNat_le, bound] at ascii ⊢
  rintro ⟨lowered, member, high⟩
  obtain ⟨byte, kept, rfl⟩ := List.mem_map.mp member
  have inName : byte ∈ name :=
    (List.dropWhile_sublist _).mem ((List.rdropWhile_prefix isSpace _).mem kept)
  rcases toLower_cases byte with ⟨_, least, isLower⟩ | ⟨-, same⟩
  · omega
  · exact ascii ⟨byte, inName, same ▸ high⟩

theorem resolveDenomination_lower_trim {asset : AssetID} {name : Bytes}
    {denom : DenominationDefinition} (resolved : resolveDenomination asset name = some denom) :
    resolveDenomination asset (lower (trim name)) = some denom ∧ lower (trim name) ≠ [] := by
  have again : lowerTrimmed (lower (trim name)) = lowerTrimmed name := by
    rw [lowerTrimmed_eq, lowerTrimmed_eq, trim_lower, trim_trim, lower_lower]
  rw [resolveDenomination] at resolved
  split at resolved
  · cases resolved
  · rename_i ascii
    dsimp only at resolved
    split at resolved
    · cases resolved
    · rename_i some_
      have stillAscii := lower_trim_ascii ascii
      rw [resolveDenomination, if_neg stillAscii]
      dsimp only
      rw [again, if_neg some_]
      refine ⟨resolved, fun none => some_ ?_⟩
      rw [lowerTrimmed_eq, none]
      rfl

/-- What is found is in the table of the asset. -/
theorem mem_of_resolved {asset : AssetID} {name : Bytes} {denom : DenominationDefinition}
    (resolved : resolveDenomination asset name = some denom) :
    denom ∈ getAtticDisplayDenominations asset := by
  rw [resolveDenomination] at resolved
  split at resolved
  · cases resolved
  · dsimp only at resolved
    split at resolved
    · cases resolved
    · exact List.mem_of_find?_eq_some resolved

theorem getAtticDisplayDenominations_mem (asset : AssetID) :
    getAtticDisplayDenominations asset ∈ [talDenoms, drDenoms, obDenoms] := by
  simp only [getAtticDisplayDenominations]
  split_ifs <;> simp

theorem resolveDenomination_name {asset : AssetID} {denom : DenominationDefinition}
    (member : denom ∈ getAtticDisplayDenominations asset) :
    resolveDenomination asset denom.name = some denom := by
  have found : ∀ table ∈ [talDenoms, drDenoms, obDenoms], ∀ denom ∈ table,
      (¬ denom.name.any (fun byte => byte ≥ 128) ∧ ¬ (lowerTrimmed denom.name).isEmpty) ∧
        table.find? (fun other => other.answersTo (lowerTrimmed denom.name)) = some denom := by
    decide +kernel
  obtain ⟨⟨ascii, some_⟩, isFirst⟩ :=
    found _ (getAtticDisplayDenominations_mem asset) denom member
  rw [resolveDenomination, if_neg ascii]
  dsimp only
  rw [if_neg some_]
  exact isFirst

end Parthenon.Monetary
