import Parthenon.Library.OrderedMap
import Parthenon.Library.ByteCodec

namespace Parthenon.Primitives

open Parthenon.Library

/-- An asset identifier.  The enumeration has a byte underneath and the parser
casts any byte to it, so the three native assets are not its only values. -/
@[ext] structure AssetID where
  value : UInt8
deriving DecidableEq, Repr

namespace AssetID

def talanton : AssetID := ⟨0⟩

def drachma : AssetID := ⟨1⟩

def obolos : AssetID := ⟨2⟩

/-- The assets the enumeration names. -/
def native : List AssetID := [talanton, drachma, obolos]

instance : Ord AssetID where
  compare left right := compare left.value right.value

instance : Std.TransOrd AssetID where
  eq_swap {left right} := Std.OrientedOrd.eq_swap (a := left.value) (b := right.value)
  isLE_trans {left middle right} := Std.TransOrd.isLE_trans (a := left.value) (b := middle.value)
    (c := right.value)

instance : Std.LawfulEqOrd AssetID where
  compare_self {asset} := Std.ReflOrd.compare_self (a := asset.value)
  eq_of_compare {_ _} same := AssetID.ext (Std.LawfulEqOrd.eq_of_compare same)

end AssetID

namespace AssetSupply

def baseUnit : UInt64 := 100000000

def halvingInterval : UInt64 := 210000

def talnMaxSupply : UInt64 := 21000000 * baseUnit

def drmMaxSupply : UInt64 := 41000000 * baseUnit

def oblMaxSupply : UInt64 := 61000000 * baseUnit

def getMaxSupply (asset : AssetID) : UInt64 :=
  if asset = .talanton then talnMaxSupply
  else if asset = .drachma then drmMaxSupply
  else if asset = .obolos then oblMaxSupply
  else 0

def isValidAmount (asset : AssetID) (amount : UInt64) : Bool :=
  amount ≤ getMaxSupply asset

end AssetSupply

@[ext] structure AssetAmount where
  asset : AssetID
  amount : UInt64
deriving DecidableEq, Repr

namespace AssetAmount

def isValid (value : AssetAmount) : Bool := AssetSupply.isValidAmount value.asset value.amount

def serialize (value : AssetAmount) : Bytes :=
  value.asset.value :: littleEndian 8 value.amount.toNat

end AssetAmount

/-- Amounts by asset, as the validators accumulate them: an absent asset reads
as zero and additions wrap at 64 bits. -/
abbrev AmountMap := Std.ExtTreeMap AssetID UInt64 compare

namespace AmountMap

def add (amounts : AmountMap) (value : AssetAmount) : AmountMap :=
  amounts.insert value.asset (amounts.getD value.asset 0 + value.amount)

def sum (values : List AssetAmount) : AmountMap := values.foldl add ∅

/-- Every output amount is at most the input amount of the same asset. -/
def covers (inputs outputs : AmountMap) : Bool :=
  outputs.toList.all fun entry => !(inputs.getD entry.1 0 < entry.2)

/-- The sum of the amounts of one asset, without the wrap at 64 bits. -/
def exactSum (asset : AssetID) (values : List AssetAmount) : Nat :=
  (values.map fun value => if value.asset = asset then value.amount.toNat else 0).sum

theorem getD_add (amounts : AmountMap) (value : AssetAmount) (asset : AssetID) :
    (amounts.add value).getD asset 0 =
      if value.asset = asset then amounts.getD asset 0 + value.amount else amounts.getD asset 0 := by
  rw [add, getD_insert_eq]
  split
  · rename_i same
    rw [same]
  · rfl

private theorem getD_foldl_add (values : List AssetAmount) (amounts : AmountMap) (asset : AssetID) :
    ((values.foldl add amounts).getD asset 0).toNat =
      ((amounts.getD asset 0).toNat + exactSum asset values) % 2 ^ 64 := by
  induction values generalizing amounts with
  | nil =>
      have small := (amounts.getD asset 0).toNat_lt
      rw [exactSum, List.map_nil, List.sum_nil, Nat.add_zero, Nat.mod_eq_of_lt small]
      rfl
  | cons value rest ih =>
      rw [List.foldl_cons, ih, getD_add]
      simp only [exactSum, List.map_cons, List.sum_cons]
      split
      · rw [UInt64.toNat_add]
        omega
      · rw [Nat.zero_add]

/-- An accumulated amount is the exact sum modulo `2 ^ 64`. -/
theorem sum_toNat (values : List AssetAmount) (asset : AssetID) :
    ((sum values).getD asset 0).toNat = exactSum asset values % 2 ^ 64 := by
  have zero : (∅ : AmountMap).getD asset 0 = 0 := Std.ExtTreeMap.getD_empty
  rw [sum, getD_foldl_add, zero]
  simp

theorem sum_toNat_of_lt {values : List AssetAmount} {asset : AssetID}
    (small : exactSum asset values < 2 ^ 64) :
    ((sum values).getD asset 0).toNat = exactSum asset values := by
  rw [sum_toNat, Nat.mod_eq_of_lt small]

theorem covers_iff {inputs outputs : AmountMap} :
    inputs.covers outputs = true ↔ ∀ asset, outputs.getD asset 0 ≤ inputs.getD asset 0 := by
  rw [covers, all_toList_iff]
  constructor
  · intro covered asset
    cases found : outputs[asset]? with
    | none =>
        rw [Std.ExtTreeMap.getD_eq_getD_getElem?, found]
        exact UInt64.zero_le
    | some amount =>
        have enough := covered asset amount found
        rw [Std.ExtTreeMap.getD_eq_getD_getElem?, found]
        simpa using enough
  · intro covered asset amount found
    have enough := covered asset
    rw [Std.ExtTreeMap.getD_eq_getD_getElem? (t := outputs), found] at enough
    simpa using enough

@[simp] theorem exactSum_nil (asset : AssetID) : exactSum asset [] = 0 := rfl

theorem exactSum_cons (asset : AssetID) (value : AssetAmount) (rest : List AssetAmount) :
    exactSum asset (value :: rest) =
      (if value.asset = asset then value.amount.toNat else 0) + exactSum asset rest := by
  simp [exactSum]

/-- A sum has an entry for each asset that occurs. -/
theorem isSome_sum (values : List AssetAmount) (asset : AssetID) :
    (sum values)[asset]?.isSome = true ↔ ∃ value ∈ values, value.asset = asset := by
  have started (amounts : AmountMap) :
      (values.foldl add amounts)[asset]?.isSome = true ↔
        amounts[asset]?.isSome = true ∨ ∃ value ∈ values, value.asset = asset := by
    induction values generalizing amounts with
    | nil => simp
    | cons value rest ih =>
        rw [List.foldl_cons, ih, add, getElem?_insert_eq, List.exists_mem_cons_iff]
        by_cases same : value.asset = asset
        · rw [if_pos same]
          simp [same]
        · rw [if_neg same]
          simp [same]
  rw [sum, started]
  exact or_iff_right fun found => by simp at found

end AmountMap

end Parthenon.Primitives
