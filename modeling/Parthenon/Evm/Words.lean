import Parthenon.Evm.State
import Mathlib.Data.List.Defs

namespace Parthenon.Evm

open Library

/-! # Words

The arithmetic of the virtual machine on 32 bytes, the most significant first,
as the loops of the machine compute it.
-/

/-- The eight low bytes of a word. -/
def toUint256 (value : UInt64) : Uint256 :=
  ⟨List.replicate 24 0 ++ (littleEndian 8 value.toNat).reverse, by simp⟩

def toUint64 (value : Uint256) : UInt64 :=
  UInt64.ofNat (ofLittleEndian (value.bytes.drop 24).reverse)

/-- A number of at most 32 bytes, at the low end of a word. -/
def Address.toUint256 (addr : Address) : Uint256 :=
  ⟨List.replicate 12 0 ++ addr.bytes, by simp [addr.length_eq]⟩

namespace VM

def addByte (a b : UInt8) (carry : UInt16) : UInt16 × UInt8 :=
  let sum := a.toUInt16 + b.toUInt16 + carry
  (sum >>> 8, sum.toUInt8)

def add (a b : Uint256) : Uint256 :=
  ⟨(List.mapAccumr₂ addByte a.bytes b.bytes 0).2, by
    rw [List.length_mapAccumr₂, a.length_eq, b.length_eq, min_self]⟩

def subByte (a b : UInt8) (borrow : Int) : Int × UInt8 :=
  let diff : Int := a.toNat - b.toNat - borrow
  if diff < 0 then (1, UInt8.ofNat (diff + 256).toNat) else (0, UInt8.ofNat diff.toNat)

def sub (a b : Uint256) : Uint256 :=
  ⟨(List.mapAccumr₂ subByte a.bytes b.bytes 0).2, by
    rw [List.length_mapAccumr₂, a.length_eq, b.length_eq, min_self]⟩

/-- The indices of a word from the last to the first. -/
def downward : List Nat := (List.range 32).reverse

/-- The inner loop of `Mul` for byte `i` of `b`.  Its target is to the right of
`j`, as the source has it. -/
def mulRow (a : Uint256) (digit : UInt8) (i : Nat) (result : Uint256) : Uint256 :=
  (downward.foldl (fun (result, carry) j =>
    let resultIdx := j + (31 - i)
    if resultIdx ≥ 32 then (result, carry)
    else
      let product := (a.get j).toUInt32 * digit.toUInt32 + (result.get resultIdx).toUInt32 + carry
      (result.set resultIdx product.toUInt8, (product >>> 8).toUInt16.toUInt32))
    (result, (0 : UInt32))).1

def mul (a b : Uint256) : Uint256 :=
  downward.foldl (fun result i => if b.get i = 0 then result else mulRow a (b.get i) i result)
    (.zero 32)

def ltBytes : Bytes → Bytes → Bool
  | a :: as, b :: bs => if a < b then true else if a > b then false else ltBytes as bs
  | _, _ => false

def lt (a b : Uint256) : Bool := ltBytes a.bytes b.bytes

def gt (a b : Uint256) : Bool := lt b a

def eq (a b : Uint256) : Bool := a.bytes == b.bytes

def isZero (a : Uint256) : Bool := a.bytes.all (· == 0)

/-- The bit of a word at a distance from its most significant bit. -/
def bitAt (a : Uint256) (i : Nat) : Bool := (a.get (i / 8)).toNat.testBit (7 - i % 8)

def doubleByte (byte : UInt8) (carry : UInt16) : UInt16 × UInt8 :=
  let shifted := (byte.toUInt16 <<< 1) ||| carry
  (shifted >>> 8, shifted.toUInt8)

/-- The remainder moved left by one bit, with the next bit of the dividend. -/
def bringDown (a remainder : Uint256) (i : Nat) : Uint256 :=
  let shifted : Uint256 :=
    ⟨(List.mapAccumr doubleByte remainder.bytes 0).2, by
      rw [List.length_mapAccumr, remainder.length_eq]⟩
  if bitAt a i then shifted.set 31 (shifted.get 31 ||| 1) else shifted

/-- The loop of `Div` and `Mod`, with the quotient that only `Div` keeps. -/
def longDivision (a b : Uint256) : Uint256 × Uint256 :=
  (List.range 256).foldl (fun (quotient, remainder) i =>
    let remainder := bringDown a remainder i
    if !lt remainder b then
      (quotient.set (i / 8) (quotient.get (i / 8) ||| (1 <<< UInt8.ofNat (7 - i % 8))),
        sub remainder b)
    else (quotient, remainder)) (.zero 32, .zero 32)

def div (a b : Uint256) : Uint256 := if isZero b then .zero 32 else (longDivision a b).1

def mod (a b : Uint256) : Uint256 := if isZero b then .zero 32 else (longDivision a b).2

/-- The loop of `Exp` over the bits that are left, the lowest first. -/
def expLoop (exponent : Uint256) : List Nat → Uint256 → Uint256 → Uint256
  | [], result, _ => result
  | i :: rest, result, currentBase =>
      let result := if bitAt exponent (255 - i) then mul result currentBase else result
      let currentBase := mul currentBase currentBase
      if isZero currentBase then result
      else if eq currentBase (toUint256 1) && !eq result (toUint256 1) then result
      else expLoop exponent rest result currentBase

def exp (base exponent : Uint256) : Uint256 :=
  if isZero exponent then toUint256 1
  else if isZero base then .zero 32
  else expLoop exponent (List.range 256) (toUint256 1) base

def zipBytes (combine : UInt8 → UInt8 → UInt8) (a b : Uint256) : Uint256 :=
  ⟨List.zipWith combine a.bytes b.bytes, by
    rw [List.length_zipWith, a.length_eq, b.length_eq, min_self]⟩

def and (a b : Uint256) : Uint256 := zipBytes (· &&& ·) a b

def or (a b : Uint256) : Uint256 := zipBytes (· ||| ·) a b

def xor (a b : Uint256) : Uint256 := zipBytes (· ^^^ ·) a b

def not (a : Uint256) : Uint256 := ⟨a.bytes.map (~~~ ·), by rw [List.length_map, a.length_eq]⟩

def shlBits (bitShift : UInt8) (byte carry : UInt8) : UInt8 × UInt8 :=
  (byte >>> (8 - bitShift), (byte <<< bitShift) ||| carry)

def shl (shift value : Uint256) : Uint256 :=
  let shiftAmount := toUint64 shift
  if shiftAmount ≥ 256 then .zero 32
  else
    let byteShift := shiftAmount.toNat / 8
    let bitShift := UInt8.ofNat (shiftAmount.toNat % 8)
    let moved := value.bytes.drop byteShift ++ List.replicate (min byteShift 32) 0
    let result := if bitShift > 0 then (List.mapAccumr (shlBits bitShift) moved 0).2 else moved
    ⟨result, by
      have width := value.length_eq
      have movedWidth : moved.length = 32 := by
        simp only [moved, List.length_append, List.length_drop, List.length_replicate, width]
        omega
      simp only [result]
      split
      · rw [List.length_mapAccumr, movedWidth]
      · exact movedWidth⟩

def shrBits (bitShift : UInt8) (byte carry : UInt8) : UInt8 × UInt8 :=
  (byte <<< (8 - bitShift), (byte >>> bitShift) ||| carry)

/-- The carry goes from the first byte to the last. -/
def shr (shift value : Uint256) : Uint256 :=
  let shiftAmount := toUint64 shift
  if shiftAmount ≥ 256 then .zero 32
  else
    let byteShift := shiftAmount.toNat / 8
    let bitShift := UInt8.ofNat (shiftAmount.toNat % 8)
    let moved := List.replicate (min byteShift 32) 0 ++ value.bytes.take (32 - byteShift)
    let result :=
      if bitShift > 0 then (List.mapAccumr (shrBits bitShift) moved.reverse 0).2.reverse else moved
    ⟨result, by
      have width := value.length_eq
      have movedWidth : moved.length = 32 := by
        simp only [moved, List.length_append, List.length_take, List.length_replicate, width]
        omega
      simp only [result]
      split
      · rw [List.length_reverse, List.length_mapAccumr, List.length_reverse, movedWidth]
      · exact movedWidth⟩

end VM

end Parthenon.Evm
