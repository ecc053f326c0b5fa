import Parthenon.Crypto.Sha256

namespace Parthenon.Crypto

open Parthenon.Library

/-! # The hasher as one function of the message

A hasher that has been given a message has compressed its whole blocks and holds
the bytes after them, however the message was cut into writes.  The hash of a
message is the compression of its padded blocks.
-/

namespace SHA256

/-- What `Finalize` appends to a message of a given length. -/
def padding (length : Nat) : Bytes :=
  let paddingLen := if length % 64 < 56 then 56 - length % 64
    else 120 - length % 64
  (0x80 :: List.replicate 127 0 : Bytes).take paddingLen ++ writeBE64 (length * 8 % 2 ^ 64)

namespace State

/-- Compress the first blocks of a message. -/
def transformBlocks (s : State) (data : Bytes) : Nat → State
  | 0 => s
  | blocks + 1 =>
      (s.transformBlocks data blocks).transform ((data.drop (64 * blocks)).take 64)

theorem transformBlocks_append (s : State) {data : Bytes} (more : Bytes) {blocks : Nat}
    (enough : 64 * blocks ≤ data.length) :
    s.transformBlocks (data ++ more) blocks = s.transformBlocks data blocks := by
  induction blocks with
  | zero => rfl
  | succ blocks ih =>
      rw [Nat.mul_succ] at enough
      have block : (data.drop (64 * blocks)).length ≥ 64 := by
        rw [List.length_drop]
        omega
      rw [transformBlocks, transformBlocks, ih (by omega),
        List.drop_append_of_le_length (by omega), List.take_append_of_le_length block]

end State

/-- The hasher has been given `data`. -/
structure Holds (hasher : SHA256) (data : Bytes) : Prop where
  state : hasher.state = State.initial.transformBlocks data (data.length / 64)
  buffered : hasher.buffer.take hasher.bufferSize =
    data.drop (64 * (data.length / 64))
  bufferSize : hasher.bufferSize = data.length % 64
  byteCount : hasher.byteCount = data.length % 2 ^ 64
  bufferLength : hasher.buffer.length = 64

theorem reset_holds : reset.Holds [] where
  state := rfl
  buffered := rfl
  bufferSize := rfl
  byteCount := rfl
  bufferLength := rfl

section Absorb

variable {hasher : SHA256} {data : Bytes} (holds : hasher.Holds data) (more : Bytes)

include holds

/-- The bytes that wait in the buffer are those after the last whole block. -/
theorem Holds.waiting : (hasher.buffer.take hasher.bufferSize).length = data.length % 64 := by
  rw [List.length_take, holds.bufferLength, holds.bufferSize]
  have := Nat.mod_lt data.length (show 0 < 64 by decide)
  omega

theorem Holds.waiting_append : (data ++ more).drop (64 * (data.length / 64)) =
    hasher.buffer.take hasher.bufferSize ++ more := by
  rw [List.drop_append_of_le_length (Nat.mul_div_le _ _), holds.buffered]

theorem Holds.counted :
    (hasher.byteCount + more.length) % 2 ^ 64 = (data ++ more).length % 2 ^ 64 := by
  rw [holds.byteCount, Nat.mod_add_mod, List.length_append]

theorem Holds.before : State.initial.transformBlocks (data ++ more) (data.length / 64) =
    hasher.state := by
  rw [holds.state, State.transformBlocks_append _ _ (Nat.mul_div_le _ _)]

/-- The buffer is full and is compressed. -/
theorem Holds.absorb_full (full : data.length % 64 + more.length = 64) :
    (hasher.absorb more).Holds (data ++ more) := by
  have blocks : (data ++ more).length / 64 = data.length / 64 + 1 := by
    rw [List.length_append]
    omega
  have rest : hasher.buffer.drop 64 = [] := List.drop_eq_nil_of_le holds.bufferLength.le
  have buffer : ((data ++ more).drop (64 * (data.length / 64))).take 64 =
      hasher.buffer.take hasher.bufferSize ++ more := by
    rw [holds.waiting_append, List.take_of_length_le]
    rw [List.length_append, holds.waiting]
    omega
  have result : hasher.absorb more =
      { state := hasher.state.transform (hasher.buffer.take hasher.bufferSize ++ more)
        buffer := hasher.buffer.take hasher.bufferSize ++ more
        byteCount := (hasher.byteCount + more.length) % 2 ^ 64
        bufferSize := 0 } := by
    rw [← holds.bufferSize] at full
    simp only [SHA256.absorb, blockSize, full, if_true, rest, List.append_nil]
  rw [result]
  refine ⟨?_, ?_, ?_, holds.counted more, ?_⟩
  · rw [blocks, State.transformBlocks, holds.before, buffer]
  · have ends : (data ++ more).length ≤ 64 * (data.length / 64 + 1) := by
      rw [List.length_append]
      omega
    rw [blocks, List.drop_eq_nil_of_le ends]
    rfl
  · rw [List.length_append]
    dsimp only
    omega
  · rw [List.length_append, holds.waiting, full]

/-- The buffer has room left. -/
theorem Holds.absorb_room (room : data.length % 64 + more.length < 64) :
    (hasher.absorb more).Holds (data ++ more) := by
  have blocks : (data ++ more).length / 64 = data.length / 64 := by
    rw [List.length_append]
    omega
  have result : hasher.absorb more =
      { state := hasher.state
        buffer := hasher.buffer.take hasher.bufferSize ++ more ++
          hasher.buffer.drop (hasher.bufferSize + more.length)
        byteCount := (hasher.byteCount + more.length) % 2 ^ 64
        bufferSize := hasher.bufferSize + more.length } := by
    rw [← holds.bufferSize] at room
    simp only [SHA256.absorb, blockSize, room.ne, if_false]
  rw [result]
  refine ⟨?_, ?_, ?_, holds.counted more, ?_⟩
  · rw [blocks, holds.before]
  · have together : (hasher.buffer.take hasher.bufferSize ++ more).length =
        hasher.bufferSize + more.length := by
      rw [List.length_append, holds.waiting, holds.bufferSize]
    rw [blocks, holds.waiting_append]
    exact List.take_left' together
  · rw [List.length_append, holds.bufferSize]
    dsimp only
    omega
  · rw [List.length_append, List.length_append, holds.waiting, List.length_drop,
      holds.bufferLength, holds.bufferSize]
    omega

/-- A pass of the copy loop that does not overflow the buffer. -/
theorem Holds.absorb (fits : more.length ≤ 64 - hasher.bufferSize) :
    (hasher.absorb more).Holds (data ++ more) := by
  have inBlock := Nat.mod_lt data.length (show 0 < 64 by decide)
  rw [holds.bufferSize] at fits
  rcases Nat.lt_or_eq_of_le (show data.length % 64 + more.length ≤ 64 by omega) with room | full
  · exact holds.absorb_room more room
  · exact holds.absorb_full more full

end Absorb

theorem Holds.writeLoop {fuel : Nat} {hasher : SHA256} {data more : Bytes}
    (holds : hasher.Holds data) (enough : more.length ≤ fuel) :
    (SHA256.writeLoop fuel hasher more).Holds (data ++ more) := by
  induction fuel generalizing hasher data more with
  | zero =>
      rw [List.eq_nil_of_length_eq_zero (Nat.le_zero.mp enough), List.append_nil]
      exact holds
  | succ fuel ih =>
      cases more with
      | nil =>
          rw [List.append_nil]
          exact holds
      | cons byte rest =>
          have room : hasher.bufferSize < 64 := by
            rw [holds.bufferSize]
            exact Nat.mod_lt _ (by decide)
          let toCopy := min (byte :: rest).length (64 - hasher.bufferSize)
          have atLeastOne : 1 ≤ toCopy := by
            have := List.length_pos_of_ne_nil (List.cons_ne_nil byte rest)
            omega
          have fits : ((byte :: rest).take toCopy).length ≤ 64 - hasher.bufferSize := by
            rw [List.length_take]
            omega
          have pass := holds.absorb _ fits
          have shorter : ((byte :: rest).drop toCopy).length ≤ fuel := by
            rw [List.length_drop]
            omega
          have later := ih pass shorter
          rw [List.append_assoc, List.take_append_drop] at later
          exact later

theorem Holds.write {hasher : SHA256} {data : Bytes} (holds : hasher.Holds data) (more : Bytes) :
    (hasher.write more).Holds (data ++ more) := holds.writeLoop (Nat.le_refl _)

/-- However it is written, a message hashes to the compression of its padded blocks. -/
theorem Holds.finalize {hasher : SHA256} {data : Bytes} (holds : hasher.Holds data) :
    hasher.finalize.1 = (State.initial.transformBlocks (data ++ padding data.length)
      ((data ++ padding data.length).length / 64)).digest := by
  have appended : hasher.finalize.1 = (hasher.write (padding data.length)).state.digest := by
    have bits : data.length % 2 ^ 64 * 8 % 2 ^ 64 = data.length * 8 % 2 ^ 64 := Nat.mod_mul_mod _ _ _
    simp only [SHA256.finalize, holds.bufferSize, holds.byteCount, bits, padding]
  rw [appended, (holds.write _).state]

theorem hash256_eq (data : Bytes) :
    hash256 data = (State.initial.transformBlocks (data ++ padding data.length)
      ((data ++ padding data.length).length / 64)).digest :=
  (reset_holds.write data).finalize

theorem finalize_write_write (first second : Bytes) :
    ((reset.write first).write second).finalize.1 = hash256 (first ++ second) := by
  have once := reset_holds.write (first ++ second)
  have twice := (reset_holds.write first).write second
  rw [List.nil_append] at once twice
  unfold hash256
  rw [once.finalize, twice.finalize]

/-! ## The schedule as a window

The rounds need the last sixteen schedule words alone.  Compressed this way, with
every word evaluated as it is made, a block can be hashed inside a proof.
-/

namespace State

theorem extendSchedule_append (count : Nat) (newest old : List Word)
    (window : 16 ≤ newest.length) :
    extendSchedule count (newest ++ old) = extendSchedule count newest ++ old := by
  induction count generalizing newest with
  | zero => rfl
  | succ count ih =>
      have recent (index : Nat) (inside : index < 16) :
          (newest ++ old).getD index 0 = newest.getD index 0 := by
        rw [List.getD_eq_getElem?_getD, List.getD_eq_getElem?_getD,
          List.getElem?_append_left (by omega)]
      rw [extendSchedule, extendSchedule, recent 1 (by decide), recent 6 (by decide),
        recent 14 (by decide), recent 15 (by decide), ← List.cons_append]
      exact ih _ (by rw [List.length_cons]; omega)

theorem extendSchedule_add (count more : Nat) (newest : List Word) :
    extendSchedule (count + more) newest = extendSchedule more (extendSchedule count newest) := by
  induction count generalizing newest with
  | zero => rw [Nat.zero_add]; rfl
  | succ count ih =>
      rw [Nat.succ_add, extendSchedule, extendSchedule]
      exact ih _

theorem extendSchedule_length (count : Nat) (newest : List Word) :
    (extendSchedule count newest).length = count + newest.length := by
  induction count generalizing newest with
  | zero => rw [Nat.zero_add]; rfl
  | succ count ih =>
      rw [extendSchedule, ih, List.length_cons]
      omega

/-- The sum that ends a compression. -/
def plus (s r : State) : State :=
  { a := (s.a + r.a) % 2 ^ 32, b := (s.b + r.b) % 2 ^ 32, c := (s.c + r.c) % 2 ^ 32,
    d := (s.d + r.d) % 2 ^ 32, e := (s.e + r.e) % 2 ^ 32, f := (s.f + r.f) % 2 ^ 32,
    g := (s.g + r.g) % 2 ^ 32, h := (s.h + r.h) % 2 ^ 32 }

theorem transform_eq_plus (s : State) (chunk : Bytes) :
    s.transform chunk = s.plus ((roundConstants.zip
      (extendSchedule 48 (readBE32 chunk).reverse).reverse).foldl round s) := rfl

theorem extendSchedule_suffix (count : Nat) (newest : List Word) :
    ∃ front, extendSchedule count newest = front ++ newest := by
  induction count generalizing newest with
  | zero => exact ⟨[], rfl⟩
  | succ count ih =>
      obtain ⟨front, later⟩ := ih (_ :: newest)
      exact ⟨front ++ [_], by rw [extendSchedule, later, List.append_assoc]; rfl⟩

end State

/-- The function at the word once it is a number. -/
def evaluated {α : Type} (word : Word) (next : Word → α) : α :=
  match word with
  | 0 => next 0
  | n + 1 => next (n + 1)

theorem evaluated_eq {α : Type} (word : Word) (next : Word → α) : evaluated word next = next word := by
  cases word <;> rfl

/-- The function at the state once it is a tuple. -/
def State.evaluated {α : Type} (s : State) (next : State → α) : α :=
  match s with
  | ⟨a, b, c, d, e, f, g, h⟩ => next ⟨a, b, c, d, e, f, g, h⟩

theorem State.evaluated_eq {α : Type} (s : State) (next : State → α) : s.evaluated next = next s := by
  cases s
  rfl

section Window

-- The functions on numbers that the kernel computes with.
open Nat (add mod land lor xor shiftLeft shiftRight)

def rotated (x right left : Word) : Word := mod (lor (shiftRight x right) (shiftLeft x left)) 0x100000000

def windowT1 (e f g h k w : Word) : Word :=
  mod (add (add (add (add h (xor (xor (rotated e 6 26) (rotated e 11 21)) (rotated e 25 7)))
    (xor (land e f) (land (xor e 0xffffffff) g))) k) w) 0x100000000

def windowT2 (a b c : Word) : Word :=
  mod (add (xor (xor (rotated a 2 30) (rotated a 13 19)) (rotated a 22 10))
    (xor (xor (land a b) (land a c)) (land b c))) 0x100000000

def windowNext (w0 w1 w9 w14 : Word) : Word :=
  mod (add (add (add (xor (xor (rotated w14 17 15) (rotated w14 19 13)) (shiftRight w14 10)) w9)
    (xor (xor (rotated w1 7 25) (rotated w1 18 14)) (shiftRight w1 3))) w0) 0x100000000

def windowSum (x y : Word) : Word := mod (add x y) 0x100000000

/-- The rounds on the working variables `a` to `h` with the window `w0` to `w15`,
and the sum with the state. -/
def windowRounds (s : State) : List Word →
    Word → Word → Word → Word → Word → Word → Word → Word →
    Word → Word → Word → Word → Word → Word → Word → Word →
    Word → Word → Word → Word → Word → Word → Word → Word → State
  | [], a, b, c, d, e, f, g, h, _, _, _, _, _, _, _, _, _, _, _, _, _, _, _, _ =>
      evaluated (windowSum s.a a) fun a => evaluated (windowSum s.b b) fun b =>
      evaluated (windowSum s.c c) fun c => evaluated (windowSum s.d d) fun d =>
      evaluated (windowSum s.e e) fun e => evaluated (windowSum s.f f) fun f =>
      evaluated (windowSum s.g g) fun g => evaluated (windowSum s.h h) fun h =>
      { a, b, c, d, e, f, g, h }
  | k :: ks, a, b, c, d, e, f, g, h,
      w0, w1, w2, w3, w4, w5, w6, w7, w8, w9, w10, w11, w12, w13, w14, w15 =>
      evaluated (windowT1 e f g h k w0) fun t1 =>
      evaluated (windowSum t1 (windowT2 a b c)) fun newA =>
      evaluated (windowSum d t1) fun newE =>
      evaluated (windowNext w0 w1 w9 w14) fun w16 =>
      windowRounds s ks newA a b c newE e f g
        w1 w2 w3 w4 w5 w6 w7 w8 w9 w10 w11 w12 w13 w14 w15 w16

/-- `Transform` on the words of a block. -/
def transformWords (s : State)
    (w0 w1 w2 w3 w4 w5 w6 w7 w8 w9 w10 w11 w12 w13 w14 w15 : Word) : State :=
  windowRounds s roundConstants s.a s.b s.c s.d s.e s.f s.g s.h
    w0 w1 w2 w3 w4 w5 w6 w7 w8 w9 w10 w11 w12 w13 w14 w15

def transformList (s : State) : List Word → State
  | [w0, w1, w2, w3, w4, w5, w6, w7, w8, w9, w10, w11, w12, w13, w14, w15] =>
      transformWords s w0 w1 w2 w3 w4 w5 w6 w7 w8 w9 w10 w11 w12 w13 w14 w15
  | _ => s

end Window

theorem windowRounds_eq (start s : State) (ks : List Word)
    (w0 w1 w2 w3 w4 w5 w6 w7 w8 w9 w10 w11 w12 w13 w14 w15 : Word) :
    windowRounds start ks s.a s.b s.c s.d s.e s.f s.g s.h
        w0 w1 w2 w3 w4 w5 w6 w7 w8 w9 w10 w11 w12 w13 w14 w15 =
      start.plus ((ks.zip (extendSchedule ks.length
        [w15, w14, w13, w12, w11, w10, w9, w8, w7, w6, w5, w4, w3, w2, w1, w0]).reverse).foldl
          State.round s) := by
  induction ks generalizing s w0 w1 w2 w3 w4 w5 w6 w7 w8 w9 w10 w11 w12 w13 w14 w15 with
  | nil =>
      simp only [windowRounds, evaluated_eq]
      rfl
  | cons k ks ih =>
      let window := [windowNext w0 w1 w9 w14,
        w15, w14, w13, w12, w11, w10, w9, w8, w7, w6, w5, w4, w3, w2, w1]
      have schedule : extendSchedule (ks.length + 1)
            [w15, w14, w13, w12, w11, w10, w9, w8, w7, w6, w5, w4, w3, w2, w1, w0] =
          extendSchedule ks.length window ++ [w0] :=
        State.extendSchedule_append ks.length window [w0] (Nat.le_refl 16)
      rw [List.length_cons, schedule, List.reverse_append, List.reverse_singleton,
        List.singleton_append, List.zip_cons_cons, List.foldl_cons]
      simp only [windowRounds, evaluated_eq]
      exact ih (s.round (k, w0)) w1 w2 w3 w4 w5 w6 w7 w8 w9 w10 w11 w12 w13 w14 w15
        (windowNext w0 w1 w9 w14)

theorem transformWords_eq (s : State) {chunk : Bytes}
    {w0 w1 w2 w3 w4 w5 w6 w7 w8 w9 w10 w11 w12 w13 w14 w15 : Word}
    (words : readBE32 chunk =
      [w0, w1, w2, w3, w4, w5, w6, w7, w8, w9, w10, w11, w12, w13, w14, w15]) :
    s.transform chunk =
      transformWords s w0 w1 w2 w3 w4 w5 w6 w7 w8 w9 w10 w11 w12 w13 w14 w15 := by
  have longer : roundConstants.zip (extendSchedule 64 (readBE32 chunk).reverse).reverse =
      roundConstants.zip (extendSchedule 48 (readBE32 chunk).reverse).reverse := by
    obtain ⟨later, suffix⟩ :=
      State.extendSchedule_suffix 16 (extendSchedule 48 (readBE32 chunk).reverse)
    have sameLength : roundConstants.length =
        (extendSchedule 48 (readBE32 chunk).reverse).reverse.length := by
      rw [List.length_reverse, State.extendSchedule_length, List.length_reverse, words]
      rfl
    rw [State.extendSchedule_add 48 16, suffix, List.reverse_append]
    calc roundConstants.zip ((extendSchedule 48 (readBE32 chunk).reverse).reverse ++ later.reverse)
        = (roundConstants ++ []).zip
            ((extendSchedule 48 (readBE32 chunk).reverse).reverse ++ later.reverse) := by
          rw [List.append_nil]
      _ = roundConstants.zip (extendSchedule 48 (readBE32 chunk).reverse).reverse ++
            [].zip later.reverse := List.zip_append sameLength
      _ = roundConstants.zip (extendSchedule 48 (readBE32 chunk).reverse).reverse := by
          rw [List.zip_nil_left, List.append_nil]
  have reversed : [w15, w14, w13, w12, w11, w10, w9, w8, w7, w6, w5, w4, w3, w2, w1, w0] =
      (readBE32 chunk).reverse := by rw [words]; rfl
  have rounds : roundConstants.length = 64 := rfl
  rw [transformWords, windowRounds_eq, rounds, reversed, longer, State.transform_eq_plus]

theorem transform_eq_transformList (s : State) {chunk : Bytes} (words : (readBE32 chunk).length = 16) :
    s.transform chunk = transformList s (readBE32 chunk) := by
  generalize listed : readBE32 chunk = given at words
  match given, words with
  | [w0, w1, w2, w3, w4, w5, w6, w7, w8, w9, w10, w11, w12, w13, w14, w15], _ =>
      exact transformWords_eq s listed

/-! ## The words of a digest -/

namespace State

/-- The words of the state fit in 32 bits. -/
def InRange (s : State) : Prop :=
  s.a < 2 ^ 32 ∧ s.b < 2 ^ 32 ∧ s.c < 2 ^ 32 ∧ s.d < 2 ^ 32 ∧
    s.e < 2 ^ 32 ∧ s.f < 2 ^ 32 ∧ s.g < 2 ^ 32 ∧ s.h < 2 ^ 32

theorem transform_inRange (s : State) (chunk : Bytes) : (s.transform chunk).InRange := by
  have reduced (n : Nat) : n % 2 ^ 32 < 2 ^ 32 := Nat.mod_lt n (by decide)
  exact ⟨reduced _, reduced _, reduced _, reduced _, reduced _, reduced _, reduced _, reduced _⟩

def words (s : State) : List Word := [s.a, s.b, s.c, s.d, s.e, s.f, s.g, s.h]

end State

theorem readBE32_writeBE32 {word : Word} (inRange : word < 2 ^ 32) (rest : Bytes) :
    readBE32 (writeBE32 word ++ rest) = word :: readBE32 rest := by
  have joined : (((UInt8.ofNat (word >>> 24)).toNat <<< 24) |||
      ((UInt8.ofNat (word >>> 16)).toNat <<< 16) ||| ((UInt8.ofNat (word >>> 8)).toNat <<< 8) |||
      (UInt8.ofNat word).toNat) = word := by
    have small : @LT.lt Nat _ word (2 ^ 32) := inRange
    simp only [UInt8.toNat_ofNat', Nat.or_assoc]
    rw [← Nat.shiftLeft_add_eq_or_of_lt (i := 8) (by omega),
      ← Nat.shiftLeft_add_eq_or_of_lt (i := 16) (by omega),
      ← Nat.shiftLeft_add_eq_or_of_lt (i := 24) (by omega)]
    omega
  simp only [writeBE32, List.cons_append, List.nil_append, readBE32, joined]

theorem length_lt_four {data : Bytes}
    (short : ∀ a b c d rest, data = a :: b :: c :: d :: rest → False) : data.length < 4 := by
  match data, short with
  | [], _ => simp
  | [_], _ => simp
  | [_, _], _ => simp
  | [_, _, _], _ => simp
  | a :: b :: c :: d :: rest, short => exact (short a b c d rest rfl).elim

theorem readBE32_length (data : Bytes) : (readBE32 data).length = data.length / 4 := by
  induction data using readBE32.induct with
  | case1 a b c d rest ih =>
      simp only [readBE32, List.length_cons, ih]
      omega
  | case2 data short =>
      have few := length_lt_four short
      rw [readBE32, List.length_nil]
      · omega
      · exact short

theorem readBE32_append {data : Bytes} (rest : Bytes) (whole : data.length % 4 = 0) :
    readBE32 (data ++ rest) = readBE32 data ++ readBE32 rest := by
  induction data using readBE32.induct with
  | case1 a b c d later ih =>
      simp only [List.length_cons] at whole
      simp only [List.cons_append, readBE32, ih (by omega)]
  | case2 data short =>
      have few := length_lt_four short
      obtain rfl := List.eq_nil_of_length_eq_zero (show data.length = 0 by omega)
      rfl

theorem readBE32_digest {s : State} (inRange : s.InRange) : readBE32 s.digest.bytes = s.words := by
  obtain ⟨a, b, c, d, e, f, g, h⟩ := inRange
  have last := readBE32_writeBE32 h []
  rw [List.append_nil] at last
  simp only [State.digest, List.append_assoc]
  rw [readBE32_writeBE32 a, readBE32_writeBE32 b, readBE32_writeBE32 c, readBE32_writeBE32 d,
    readBE32_writeBE32 e, readBE32_writeBE32 f, readBE32_writeBE32 g, last]
  rfl

theorem readBE32_drop (data : Bytes) (count : Nat) :
    readBE32 (data.drop (4 * count)) = (readBE32 data).drop count := by
  induction count generalizing data with
  | zero => rfl
  | succ count ih =>
      induction data using readBE32.induct with
      | case1 a b c d rest _ => exact ih rest
      | case2 data short =>
          have few := length_lt_four short
          rw [List.drop_eq_nil_of_le (by omega), List.drop_eq_nil_of_le (by
            rw [readBE32_length]
            omega)]
          rfl

theorem readBE32_take (data : Bytes) (count : Nat) :
    readBE32 (data.take (4 * count)) = (readBE32 data).take count := by
  induction count generalizing data with
  | zero => rfl
  | succ count ih =>
      induction data using readBE32.induct with
      | case1 a b c d rest _ =>
          have taken : (a :: b :: c :: d :: rest).take (4 * (count + 1)) =
              a :: b :: c :: d :: rest.take (4 * count) := rfl
          rw [taken, readBE32, readBE32, List.take_succ_cons, ih]
      | case2 data short =>
          have few := length_lt_four short
          rw [List.take_of_length_le (by omega), List.take_of_length_le (by
            rw [readBE32_length]
            omega)]

/-- `transformBlocks` on the words of a message. -/
def transformWordBlocks (s : State) (words : List Word) : Nat → State
  | 0 => s
  | blocks + 1 =>
      transformList (transformWordBlocks s words blocks) ((words.drop (16 * blocks)).take 16)

theorem transformBlocks_eq_words (s : State) {data : Bytes} {blocks : Nat}
    (enough : 64 * blocks ≤ data.length) :
    s.transformBlocks data blocks = transformWordBlocks s (readBE32 data) blocks := by
  induction blocks with
  | zero => rfl
  | succ blocks ih =>
      have bytes : 64 * blocks = 4 * (16 * blocks) := by omega
      have words : readBE32 ((data.drop (64 * blocks)).take 64) =
          ((readBE32 data).drop (16 * blocks)).take 16 := by
        rw [bytes, ← readBE32_drop, ← readBE32_take]
      rw [State.transformBlocks, ih (by omega), transformWordBlocks, ← words]
      apply transform_eq_transformList
      rw [readBE32_length, List.length_take, List.length_drop]
      omega

/-- The hash of a message from the words of its padded blocks. -/
theorem hash256_eq_words (data : Bytes) :
    hash256 data = (transformWordBlocks .initial (readBE32 (data ++ padding data.length))
      ((data ++ padding data.length).length / 64)).digest := by
  rw [hash256_eq, transformBlocks_eq_words .initial (Nat.mul_div_le _ _)]

/-- The hash on words, for a message that is written out. -/
def wordHash (data : Bytes) : Hash :=
  (transformWordBlocks .initial (readBE32 (data ++ padding data.length))
    ((data ++ padding data.length).length / 64)).digest

theorem hash256_eq_wordHash (data : Bytes) : hash256 data = wordHash data := hash256_eq_words data

end SHA256

theorem SHA256d.hash256d_eq_words (data : Bytes) :
    hash256d data = SHA256.wordHash (SHA256.wordHash data).bytes := by
  rw [hash256d, SHA256.hash256_eq_wordHash, SHA256.hash256_eq_wordHash]

end Parthenon.Crypto
