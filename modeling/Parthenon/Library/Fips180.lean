import Mathlib.Data.Nat.NthRoot.Defs
import Parthenon.Library.ByteCodec

namespace Parthenon.Library.Fips180

/-! # SHA-256 as FIPS 180-4 defines it

Words are bit vectors, the schedule is a recurrence on its index, and the
constants are the root fractions the standard describes.
-/

abbrev Word := BitVec 32

def bigEndian (width value : Nat) : Bytes := (littleEndian width value).reverse

def ofBigEndian (bytes : Bytes) : Nat := ofLittleEndian bytes.reverse

/-! ## Functions and constants -/

def ch (x y z : Word) : Word := (x &&& y) ^^^ (~~~x &&& z)

def maj (x y z : Word) : Word := (x &&& y) ^^^ (x &&& z) ^^^ (y &&& z)

def bigSigma0 (x : Word) : Word := x.rotateRight 2 ^^^ x.rotateRight 13 ^^^ x.rotateRight 22

def bigSigma1 (x : Word) : Word := x.rotateRight 6 ^^^ x.rotateRight 11 ^^^ x.rotateRight 25

def smallSigma0 (x : Word) : Word := x.rotateRight 7 ^^^ x.rotateRight 18 ^^^ (x >>> 3)

def smallSigma1 (x : Word) : Word := x.rotateRight 17 ^^^ x.rotateRight 19 ^^^ (x >>> 10)

/-- The first sixty-four primes. -/
def primes : List Nat := [
  2, 3, 5, 7, 11, 13, 17, 19, 23, 29, 31, 37, 41, 43, 47, 53, 59, 61, 67, 71, 73, 79, 83, 89, 97,
  101, 103, 107, 109, 113, 127, 131, 137, 139, 149, 151, 157, 163, 167, 173, 179, 181, 191, 193,
  197, 199, 211, 223, 227, 229, 233, 239, 241, 251, 257, 263, 269, 271, 277, 281, 283, 293, 307, 311]

/-- The first 32 bits of the fractional part of a root of `n`. -/
def rootFraction (degree n : Nat) : Word :=
  BitVec.ofNat 32 (Nat.nthRoot degree (n * 2 ^ (32 * degree)))

def k (t : Nat) : Word := rootFraction 3 (primes.getD t 0)

/-! ## Padding -/

theorem zeros_exist (length : Nat) : ∃ zeros, (length + 1 + zeros) % 64 = 56 :=
  ⟨(119 - length % 64) % 64, by omega⟩

/-- The least number of zero bytes that leaves eight bytes of the last block. -/
def zeros (length : Nat) : Nat := Nat.find (zeros_exist length)

theorem zeros_eq (length : Nat) : zeros length = (119 - length % 64) % 64 := by
  have least : zeros length ≤ (119 - length % 64) % 64 := Nat.find_min' (zeros_exist length) (by omega)
  have reached : (length + 1 + zeros length) % 64 = 56 := Nat.find_spec (zeros_exist length)
  omega

/-- A message whose length in bits has a 64-bit representation. -/
structure Message where
  bytes : Bytes
  short : bytes.length < 2 ^ 61

namespace Message

def bitLength (message : Message) : BitVec 64 :=
  BitVec.ofNatLT (8 * message.bytes.length) (by have := message.short; omega)

def padded (message : Message) : Bytes :=
  message.bytes ++ 0x80 :: List.replicate (zeros message.bytes.length) 0 ++
    bigEndian 8 message.bitLength.toNat

theorem padded_length_mod (message : Message) : message.padded.length % 64 = 0 := by
  have zeroCount := zeros_eq message.bytes.length
  simp only [padded, bigEndian, List.length_append, List.length_cons, List.length_replicate,
    List.length_reverse, littleEndian_length]
  omega

/-- Word `t` of a block. -/
def word (message : Message) (block t : Nat) : Word :=
  BitVec.ofNat 32 (ofBigEndian ((message.padded.drop (64 * block + 4 * t)).take 4))

end Message

/-! ## Hash computation -/

/-- The message schedule of a block. -/
def schedule (block : Nat → Word) (t : Nat) : Word :=
  if t < 16 then block t
  else smallSigma1 (schedule block (t - 2)) + schedule block (t - 7) +
    smallSigma0 (schedule block (t - 15)) + schedule block (t - 16)

/-- The working variables, or the words of a hash value. -/
structure Variables where
  a : Word
  b : Word
  c : Word
  d : Word
  e : Word
  f : Word
  g : Word
  h : Word

namespace Variables

def initial : Variables :=
  { a := rootFraction 2 2, b := rootFraction 2 3, c := rootFraction 2 5, d := rootFraction 2 7,
    e := rootFraction 2 11, f := rootFraction 2 13, g := rootFraction 2 17, h := rootFraction 2 19 }

def round (s : Variables) (k w : Word) : Variables :=
  let t1 := s.h + bigSigma1 s.e + ch s.e s.f s.g + k + w
  let t2 := bigSigma0 s.a + maj s.a s.b s.c
  { a := t1 + t2, b := s.a, c := s.b, d := s.c, e := s.d + t1, f := s.e, g := s.f, h := s.g }

/-- The working variables after the first `count` rounds on a block. -/
def rounds (s : Variables) (block : Nat → Word) : Nat → Variables
  | 0 => s
  | count + 1 => (s.rounds block count).round (k count) (schedule block count)

def add (s r : Variables) : Variables :=
  { a := s.a + r.a, b := s.b + r.b, c := s.c + r.c, d := s.d + r.d,
    e := s.e + r.e, f := s.f + r.f, g := s.g + r.g, h := s.h + r.h }

def compress (s : Variables) (block : Nat → Word) : Variables := (s.rounds block 64).add s

def digest (s : Variables) : Bytes :=
  [s.a, s.b, s.c, s.d, s.e, s.f, s.g, s.h].flatMap fun word => bigEndian 4 word.toNat

end Variables

namespace Message

/-- The hash value after the first `count` blocks. -/
def hashValue (message : Message) : Nat → Variables
  | 0 => .initial
  | count + 1 => (message.hashValue count).compress (message.word count)

def sha256 (message : Message) : Bytes := (message.hashValue (message.padded.length / 64)).digest

end Message

end Parthenon.Library.Fips180
