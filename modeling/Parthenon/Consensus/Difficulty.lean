import Parthenon.Crypto.Sha256

namespace Parthenon.Consensus

open Parthenon.Library Parthenon.Crypto

namespace Difficulty

/-- Write bytes into a zero target from an offset on. -/
def place (offset : Nat) (bytes : Bytes) : Hash :=
  ⟨(List.replicate 32 0).mapIdx fun index _ =>
      if offset ≤ index then bytes.getD (index - offset) 0 else 0, by simp⟩

/-- The target of a compact difficulty, least significant byte first.  An
exponent above 32 leaves the zero target. -/
def compactToBits256 (compact : UInt32) : Hash :=
  let exponent := (compact >>> 24).toNat
  let mantissa := compact &&& 0x00FFFFFF
  if exponent = 0 then zeroHash
  else if exponent ≤ 3 then
    let shifted := (mantissa >>> UInt32.ofNat (8 * (3 - exponent))).toNat
    place 0 ((littleEndian 3 shifted).take exponent)
  else if exponent ≤ 32 then place (exponent - 3) (littleEndian 3 mantissa.toNat)
  else zeroHash

/-- Count down to the most significant byte that is not zero. -/
def significantBytes (target : Hash) : Nat → Nat
  | 0 => 0
  | exponent + 1 =>
      if target.bytes.getD exponent 0 = 0 then significantBytes target exponent else exponent + 1

def bits256ToCompact (target : Hash) : UInt32 :=
  let byte := fun index => (target.bytes.getD index 0).toUInt32
  let exponent := significantBytes target 32
  if exponent = 0 then 0
  else
    let mantissa :=
      if exponent ≥ 3 then
        (byte (exponent - 1) <<< 8 ||| byte (exponent - 2)) <<< 8 ||| byte (exponent - 3)
      else if exponent = 2 then byte (exponent - 1) <<< 8 ||| byte (exponent - 2)
      else byte 0
    if mantissa &&& 0x00800000 ≠ 0 then
      UInt32.ofNat (exponent + 1) <<< 24 ||| mantissa >>> 8
    else UInt32.ofNat exponent <<< 24 ||| mantissa

/-- Compare two numbers given with the most significant byte first. -/
def compareBytes : Bytes → Bytes → Int
  | left :: lefts, right :: rights =>
      if left < right then -1 else if left > right then 1 else compareBytes lefts rights
  | _, _ => 0

def compare256 (a b : Hash) : Int := compareBytes a.bytes.reverse b.bytes.reverse

def checkProofOfWork (hash : Hash) (compactBits : UInt32) : Bool :=
  compare256 hash (compactToBits256 compactBits) ≤ 0

def getInitialBits : UInt32 := 0x207fffff

def difficultyAdjustmentInterval : UInt32 := 2016

def targetSpacing : UInt32 := 600

def targetTimespan : UInt32 := difficultyAdjustmentInterval * targetSpacing

def minTimespan : UInt32 := targetTimespan / 4

def maxTimespan : UInt32 := targetTimespan * 4

/-- The timewarp limits on a measured span. -/
def clampTimespan (timeSpan : UInt32) : UInt32 :=
  let timeSpan := if timeSpan < minTimespan then minTimespan else timeSpan
  if timeSpan > maxTimespan then maxTimespan else timeSpan

/-- Shift a mantissa down to three bytes, counted by the bytes of the 64-bit
product it comes from. -/
def shiftDown : Nat → Nat → Nat → Nat × Nat
  | 0, exponent, mantissa => (exponent, mantissa)
  | bytes + 1, exponent, mantissa =>
      if mantissa ≥ 0x1000000 then shiftDown bytes (exponent + 1) (mantissa >>> 8)
      else (exponent, mantissa)

/-- Shift a mantissa up until its third byte is in use or the exponent is three. -/
def shiftUp : Nat → Nat → Nat × Nat
  | 0, mantissa => (0, mantissa)
  | exponent + 1, mantissa =>
      if mantissa < 0x010000 ∧ exponent + 1 > 3 then shiftUp exponent (mantissa <<< 8)
      else (exponent + 1, mantissa)

/-- The exponent and mantissa of a scaled mantissa, bit 23 being kept clear. -/
def normalize (exponent mantissa : Nat) : Nat × Nat :=
  let down := shiftDown 8 exponent mantissa
  let up := shiftUp down.1 down.2
  if up.2 &&& 0x800000 ≠ 0 then (up.1 + 1, up.2 >>> 8) else up

/-- The product of a mantissa and a span stays below 2^47.  `none` is a division by
zero. -/
def calculateNextDifficulty (currentBits timeSpan expectedTime : UInt32) : Option UInt32 :=
  let exponent := (currentBits >>> 24).toNat
  let mantissa := (currentBits &&& 0x00FFFFFF).toNat
  if exponent = 0 ∨ mantissa = 0 then some currentBits
  else if expectedTime = 0 then none
  else
    let scaled := normalize exponent
      (mantissa * (clampTimespan timeSpan).toNat / expectedTime.toNat)
    some (UInt32.ofNat (min scaled.1 0x20) <<< 24 ||| UInt32.ofNat (scaled.2 &&& 0x00FFFFFF))

end Difficulty

end Parthenon.Consensus
