import Parthenon.Library.ByteCodec

namespace Parthenon.Crypto

open Parthenon.Library

/-! # SHA-256

The hasher of `crypto/sha256.cpp` with its block buffer.  Words are naturals
below `2 ^ 32`; every operation that can leave that range reduces its result.
-/

abbrev Hash := FixedBytes 32

instance Hash.transOrd : Std.TransOrd Hash := inferInstance

def zeroHash : Hash := FixedBytes.zero 32

abbrev Word := Nat

def roundConstants : List Word := [
  0x428a2f98, 0x71374491, 0xb5c0fbcf, 0xe9b5dba5, 0x3956c25b, 0x59f111f1, 0x923f82a4, 0xab1c5ed5,
  0xd807aa98, 0x12835b01, 0x243185be, 0x550c7dc3, 0x72be5d74, 0x80deb1fe, 0x9bdc06a7, 0xc19bf174,
  0xe49b69c1, 0xefbe4786, 0x0fc19dc6, 0x240ca1cc, 0x2de92c6f, 0x4a7484aa, 0x5cb0a9dc, 0x76f988da,
  0x983e5152, 0xa831c66d, 0xb00327c8, 0xbf597fc7, 0xc6e00bf3, 0xd5a79147, 0x06ca6351, 0x14292967,
  0x27b70a85, 0x2e1b2138, 0x4d2c6dfc, 0x53380d13, 0x650a7354, 0x766a0abb, 0x81c2c92e, 0x92722c85,
  0xa2bfe8a1, 0xa81a664b, 0xc24b8b70, 0xc76c51a3, 0xd192e819, 0xd6990624, 0xf40e3585, 0x106aa070,
  0x19a4c116, 0x1e376c08, 0x2748774c, 0x34b0bcb5, 0x391c0cb3, 0x4ed8aa4a, 0x5b9cca4f, 0x682e6ff3,
  0x748f82ee, 0x78a5636f, 0x84c87814, 0x8cc70208, 0x90befffa, 0xa4506ceb, 0xbef9a3f7, 0xc67178f2]

def rotr (x n : Word) : Word := ((x >>> n) ||| (x <<< (32 - n))) % 2 ^ 32

def ch (x y z : Word) : Word := (x &&& y) ^^^ ((x ^^^ 0xffffffff) &&& z)

def maj (x y z : Word) : Word := (x &&& y) ^^^ (x &&& z) ^^^ (y &&& z)

def bigSigma0 (x : Word) : Word := rotr x 2 ^^^ rotr x 13 ^^^ rotr x 22

def bigSigma1 (x : Word) : Word := rotr x 6 ^^^ rotr x 11 ^^^ rotr x 25

def smallSigma0 (x : Word) : Word := rotr x 7 ^^^ rotr x 18 ^^^ (x >>> 3)

def smallSigma1 (x : Word) : Word := rotr x 17 ^^^ rotr x 19 ^^^ (x >>> 10)

/-- The big-endian words of a chunk. -/
def readBE32 : Bytes → List Word
  | a :: b :: c :: d :: rest =>
      ((a.toNat <<< 24) ||| (b.toNat <<< 16) ||| (c.toNat <<< 8) ||| d.toNat) :: readBE32 rest
  | _ => []

def writeBE32 (value : Word) : Bytes :=
  [UInt8.ofNat (value >>> 24), UInt8.ofNat (value >>> 16), UInt8.ofNat (value >>> 8),
    UInt8.ofNat value]

def writeBE64 (value : Nat) : Bytes :=
  [UInt8.ofNat (value >>> 56), UInt8.ofNat (value >>> 48), UInt8.ofNat (value >>> 40),
    UInt8.ofNat (value >>> 32), UInt8.ofNat (value >>> 24), UInt8.ofNat (value >>> 16),
    UInt8.ofNat (value >>> 8), UInt8.ofNat value]

/-- Extend the message schedule, kept with its newest word first, by `count` words. -/
def extendSchedule : Nat → List Word → List Word
  | 0, newest => newest
  | count + 1, newest =>
      let word := (smallSigma1 (newest.getD 1 0) + newest.getD 6 0 +
        smallSigma0 (newest.getD 14 0) + newest.getD 15 0) % 2 ^ 32
      extendSchedule count (word :: newest)

structure SHA256.State where
  a : Word
  b : Word
  c : Word
  d : Word
  e : Word
  f : Word
  g : Word
  h : Word
deriving DecidableEq, Repr

namespace SHA256.State

/-- One round on the working variables with round constant `k` and schedule word `w`. -/
def round (s : State) (kw : Word × Word) : State :=
  let t1 := (s.h + bigSigma1 s.e + ch s.e s.f s.g + kw.1 + kw.2) % 2 ^ 32
  let t2 := (bigSigma0 s.a + maj s.a s.b s.c) % 2 ^ 32
  { a := (t1 + t2) % 2 ^ 32, b := s.a, c := s.b, d := s.c,
    e := (s.d + t1) % 2 ^ 32, f := s.e, g := s.f, h := s.g }

def transform (s : State) (chunk : Bytes) : State :=
  let schedule := (extendSchedule 48 (readBE32 chunk).reverse).reverse
  let r := (roundConstants.zip schedule).foldl round s
  { a := (s.a + r.a) % 2 ^ 32, b := (s.b + r.b) % 2 ^ 32, c := (s.c + r.c) % 2 ^ 32,
    d := (s.d + r.d) % 2 ^ 32, e := (s.e + r.e) % 2 ^ 32, f := (s.f + r.f) % 2 ^ 32,
    g := (s.g + r.g) % 2 ^ 32, h := (s.h + r.h) % 2 ^ 32 }

def initial : State :=
  { a := 0x6a09e667, b := 0xbb67ae85, c := 0x3c6ef372, d := 0xa54ff53a,
    e := 0x510e527f, f := 0x9b05688c, g := 0x1f83d9ab, h := 0x5be0cd19 }

def digest (s : State) : Hash where
  bytes := writeBE32 s.a ++ writeBE32 s.b ++ writeBE32 s.c ++ writeBE32 s.d ++
    writeBE32 s.e ++ writeBE32 s.f ++ writeBE32 s.g ++ writeBE32 s.h
  length_eq := rfl

end SHA256.State

structure SHA256 where
  state : SHA256.State
  buffer : Bytes
  byteCount : Nat
  bufferSize : Nat
deriving DecidableEq, Repr

namespace SHA256

def blockSize : Nat := 64

def reset : SHA256 :=
  { state := .initial, buffer := List.replicate blockSize 0, byteCount := 0, bufferSize := 0 }

/-- One pass of the copy loop of `Write`: fill the buffer, and compress it once
it holds a whole block. -/
def absorb (hasher : SHA256) (data : Bytes) : SHA256 :=
  let filled := hasher.bufferSize + data.length
  let buffer := hasher.buffer.take hasher.bufferSize ++ data ++ hasher.buffer.drop filled
  let byteCount := (hasher.byteCount + data.length) % 2 ^ 64
  if filled = blockSize then
    { state := hasher.state.transform buffer, buffer, byteCount, bufferSize := 0 }
  else
    { hasher with buffer, byteCount, bufferSize := filled }

/-- The copy loop of `Write`.  Each pass takes at least one byte while the
buffer is not full, so the number of bytes bounds the number of passes. -/
def writeLoop : Nat → SHA256 → Bytes → SHA256
  | 0, hasher, _ => hasher
  | _ + 1, hasher, [] => hasher
  | fuel + 1, hasher, data =>
      let toCopy := min data.length (blockSize - hasher.bufferSize)
      writeLoop fuel (hasher.absorb (data.take toCopy)) (data.drop toCopy)

def write (hasher : SHA256) (data : Bytes) : SHA256 := writeLoop data.length hasher data

def finalize (hasher : SHA256) : Hash × SHA256 :=
  let paddingLen := if hasher.bufferSize < 56 then 56 - hasher.bufferSize
    else 120 - hasher.bufferSize
  let padding := (0x80 :: List.replicate 127 0 : Bytes).take paddingLen ++
    writeBE64 (hasher.byteCount * 8 % 2 ^ 64)
  ((hasher.write padding).state.digest, reset)

def hash256 (data : Bytes) : Hash := (reset.write data).finalize.1

example : (hash256 [0x61, 0x62, 0x63]).bytes.take 4 = [0xba, 0x78, 0x16, 0xbf] := by decide +kernel

end SHA256

def SHA256d.hash256d (data : Bytes) : Hash := SHA256.hash256 (SHA256.hash256 data).bytes

end Parthenon.Crypto
