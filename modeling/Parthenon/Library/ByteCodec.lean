import Mathlib.Data.List.Basic
import Mathlib.Tactic.Ring

namespace Parthenon.Library

/-! # Byte codecs

Little-endian numbers and readers that consume a byte list from the front.
A reader `Parses` a writer when it accepts exactly the inputs with a written
value at their front, and one reader `Extends` another when it accepts at least
the same inputs with the same results.
-/

abbrev Bytes := List UInt8

/-- A digit in base 16. -/
instance neZeroSixteen : NeZero 16 := ⟨by decide⟩

def littleEndian : Nat → Nat → Bytes
  | 0, _ => []
  | width + 1, value => UInt8.ofNat value :: littleEndian width (value >>> 8)

def ofLittleEndian : Bytes → Nat
  | [] => 0
  | byte :: rest => byte.toNat + (ofLittleEndian rest <<< 8)

@[simp] theorem littleEndian_length (width value : Nat) : (littleEndian width value).length = width := by
  induction width generalizing value with
  | zero => rfl
  | succ width ih => simp [littleEndian, ih]

theorem littleEndian_take {count width : Nat} (within : count ≤ width) (value : Nat) :
    (littleEndian width value).take count = littleEndian count value := by
  induction count generalizing width value with
  | zero => rfl
  | succ count ih =>
      cases width with
      | zero => omega
      | succ width =>
          rw [littleEndian, littleEndian, List.take_succ_cons, ih (Nat.le_of_succ_le_succ within)]

theorem ofLittleEndian_lt (bytes : Bytes) : ofLittleEndian bytes < 256 ^ bytes.length := by
  induction bytes with
  | nil => simp [ofLittleEndian]
  | cons byte rest ih =>
      have low := UInt8.toNat_lt byte
      simp only [ofLittleEndian, Nat.shiftLeft_eq, List.length_cons, Nat.pow_succ]
      omega

theorem ofLittleEndian_littleEndian (width value : Nat) :
    ofLittleEndian (littleEndian width value) = value % 256 ^ width := by
  induction width generalizing value with
  | zero => simp [littleEndian, ofLittleEndian, Nat.mod_one]
  | succ width ih =>
      simp only [littleEndian, ofLittleEndian, ih, Nat.shiftLeft_eq, Nat.shiftRight_eq_div_pow,
        UInt8.toNat_ofNat', Nat.reducePow]
      rw [show 256 ^ (width + 1) = 256 * 256 ^ width from Nat.pow_succ', Nat.mod_mul]
      omega

theorem littleEndian_ofLittleEndian (bytes : Bytes) :
    littleEndian bytes.length (ofLittleEndian bytes) = bytes := by
  induction bytes with
  | nil => rfl
  | cons byte rest ih =>
      have low := UInt8.toNat_lt byte
      have digit : UInt8.ofNat (byte.toNat + (ofLittleEndian rest <<< 8)) = byte := by
        apply UInt8.toNat_inj.mp
        rw [UInt8.toNat_ofNat', Nat.shiftLeft_eq]
        omega
      have quotient : (byte.toNat + (ofLittleEndian rest <<< 8)) >>> 8 = ofLittleEndian rest := by
        rw [Nat.shiftLeft_eq, Nat.shiftRight_eq_div_pow]
        omega
      simp only [List.length_cons, littleEndian, ofLittleEndian, digit, quotient, ih]

theorem littleEndian_inj {width left right : Nat} (leftFits : left < 256 ^ width)
    (rightFits : right < 256 ^ width) (same : littleEndian width left = littleEndian width right) :
    left = right := by
  have values := congrArg ofLittleEndian same
  rwa [ofLittleEndian_littleEndian, ofLittleEndian_littleEndian, Nat.mod_eq_of_lt leftFits,
    Nat.mod_eq_of_lt rightFits] at values

theorem ofLittleEndian_append (low high : Bytes) :
    ofLittleEndian (low ++ high) = ofLittleEndian low + 256 ^ low.length * ofLittleEndian high := by
  induction low with
  | nil => simp [ofLittleEndian]
  | cons byte rest ih =>
      simp only [List.cons_append, ofLittleEndian, ih, Nat.shiftLeft_eq, List.length_cons,
        Nat.pow_succ]
      ring

theorem ofLittleEndian_zeros (count : Nat) : ofLittleEndian (List.replicate count 0) = 0 := by
  induction count with
  | zero => rfl
  | succ count ih => rw [List.replicate_succ, ofLittleEndian, ih]; rfl

theorem ofLittleEndian_drop (bytes : Bytes) (place : Nat) :
    ofLittleEndian (bytes.drop place) = ofLittleEndian bytes / 256 ^ place := by
  induction bytes generalizing place with
  | nil => rw [List.drop_nil, ofLittleEndian, Nat.zero_div]
  | cons byte rest ih =>
      cases place with
      | zero => rw [List.drop_zero, Nat.pow_zero, Nat.div_one]
      | succ place =>
          have low := UInt8.toNat_lt byte
          have quotient : (byte.toNat + 256 * ofLittleEndian rest) / 256 = ofLittleEndian rest := by
            omega
          rw [List.drop_succ_cons, ih, ofLittleEndian, Nat.shiftLeft_eq, Nat.mul_comm _ (2 ^ 8),
            show 256 ^ (place + 1) = 256 * 256 ^ place from Nat.pow_succ',
            ← Nat.div_div_eq_div_mul, show 2 ^ 8 = 256 from rfl, quotient]

theorem getD_toNat (bytes : Bytes) (place : Nat) :
    (bytes.getD place 0).toNat = ofLittleEndian bytes / 256 ^ place % 256 := by
  rw [← ofLittleEndian_drop, List.getD_eq_getElem?_getD, ← List.head?_drop]
  cases bytes.drop place with
  | nil => rfl
  | cons byte rest =>
      have low := UInt8.toNat_lt byte
      rw [ofLittleEndian, Nat.shiftLeft_eq, List.head?_cons, Option.getD_some]
      omega

/-- Two lists cut at the last place of a separator. -/
theorem append_separator_inj {α : Type u} {separator : α} {left right first second : List α}
    (notFirst : separator ∉ first) (notSecond : separator ∉ second)
    (same : left ++ separator :: first = right ++ separator :: second) :
    left = right ∧ first = second := by
  induction left generalizing right with
  | nil =>
      cases right with
      | nil => exact ⟨rfl, (List.cons.inj same).2⟩
      | cons byte rest =>
          have inside : separator ∈ rest ++ separator :: second :=
            List.mem_append_right _ List.mem_cons_self
          rw [List.nil_append, List.cons_append] at same
          exact absurd ((List.cons.inj same).2 ▸ inside) notFirst
  | cons byte left ih =>
      cases right with
      | nil =>
          have inside : separator ∈ left ++ separator :: first :=
            List.mem_append_right _ List.mem_cons_self
          rw [List.nil_append, List.cons_append] at same
          exact absurd ((List.cons.inj same).2 ▸ inside) notSecond
      | cons other right =>
          rw [List.cons_append, List.cons_append] at same
          obtain ⟨rfl, rest⟩ := List.cons.inj same
          obtain ⟨rfl, tails⟩ := ih rest
          exact ⟨rfl, tails⟩

/-- Pieces of one size can be told apart in what they make up together. -/
theorem flatMap_eq_of_length {α : Type u} {size : Nat} {left right : α → Bytes}
    (leftSize : ∀ value, (left value).length = size) (rightSize : ∀ value, (right value).length = size)
    {values : List α} (same : values.flatMap left = values.flatMap right) :
    ∀ value ∈ values, left value = right value := by
  induction values with
  | nil => simp
  | cons value rest ih =>
      rw [List.flatMap_cons, List.flatMap_cons] at same
      obtain ⟨here, later⟩ := List.append_inj same ((leftSize value).trans (rightSize value).symm)
      exact List.forall_mem_cons.mpr ⟨here, ih later⟩

section Positions

variable {data back : Bytes} {pos : Nat}

/-- What follows a part of the data that was found at a position. -/
theorem drop_past (front : Bytes) (there : data.drop pos = front ++ back) :
    data.drop (pos + front.length) = back := by
  rw [← List.drop_drop, there, List.drop_left]

theorem getD_drop {byte : UInt8} (there : data.drop pos = byte :: back) : data.getD pos 0 = byte := by
  have first := congrArg (fun bytes : Bytes => bytes[0]?) there
  rw [List.getElem?_drop, Nat.add_zero, List.getElem?_cons_zero] at first
  rw [List.getD_eq_getElem?_getD, first, Option.getD_some]

end Positions

/-- An array of a fixed number of bytes. -/
@[ext] structure FixedBytes (size : Nat) where
  bytes : Bytes
  length_eq : bytes.length = size
deriving DecidableEq, Repr

namespace FixedBytes

def zero (size : Nat) : FixedBytes size := ⟨List.replicate size 0, List.length_replicate⟩

/-- The array with the little-endian bytes of a number. -/
def ofNat (size value : Nat) : FixedBytes size := ⟨littleEndian size value, littleEndian_length size value⟩

/-- The array with exactly the given bytes, if there are as many as it holds. -/
def ofBytes? (size : Nat) (bytes : Bytes) : Option (FixedBytes size) :=
  if fits : bytes.length = size then some ⟨bytes, fits⟩ else none

/-- The byte at an index. -/
def get (array : FixedBytes size) (index : Nat) : UInt8 := array.bytes.getD index 0

def set (array : FixedBytes size) (index : Nat) (byte : UInt8) : FixedBytes size :=
  ⟨array.bytes.set index byte, by rw [List.length_set, array.length_eq]⟩

theorem ofBytes?_bytes (array : FixedBytes size) : ofBytes? size array.bytes = some array := by
  rw [ofBytes?, dif_pos array.length_eq]

/-- The array with the bytes at the front, where the caller knows that there are enough. -/
def copy (size : Nat) (bytes : Bytes) : FixedBytes size :=
  (ofBytes? size (bytes.take size)).getD (zero size)

theorem copy_append (array : FixedBytes size) (rest : Bytes) :
    copy size (array.bytes ++ rest) = array := by
  rw [copy, List.take_left' array.length_eq, ofBytes?_bytes]
  rfl

/-- Enough bytes are as many arrays as are asked for, and what is left. -/
theorem exists_arrays (size count : Nat) {bytes : Bytes} (enough : size * count ≤ bytes.length) :
    ∃ (arrays : List (FixedBytes size)) (rest : Bytes),
      arrays.length = count ∧ bytes = arrays.flatMap FixedBytes.bytes ++ rest := by
  induction count generalizing bytes with
  | zero => exact ⟨[], bytes, rfl, rfl⟩
  | succ count ih =>
      rw [Nat.mul_succ] at enough
      have later : size * count ≤ (bytes.drop size).length := by
        rw [List.length_drop]
        omega
      obtain ⟨arrays, rest, length, same⟩ := ih later
      let first : FixedBytes size := ⟨bytes.take size, List.length_take_of_le (by omega)⟩
      refine ⟨first :: arrays, rest, congrArg Nat.succ length, ?_⟩
      rw [List.flatMap_cons, List.append_assoc, ← same]
      exact (List.take_append_drop size bytes).symm

instance : Inhabited (FixedBytes size) := ⟨zero size⟩

instance : Ord (FixedBytes size) where
  compare left right := compare left.bytes right.bytes

instance : Std.TransOrd (FixedBytes size) where
  eq_swap {left right} := Std.OrientedOrd.eq_swap (a := left.bytes) (b := right.bytes)
  isLE_trans {left middle right} := Std.TransOrd.isLE_trans (a := left.bytes) (b := middle.bytes)
    (c := right.bytes)

instance : Std.LawfulEqOrd (FixedBytes size) where
  compare_self {value} := Std.ReflOrd.compare_self (a := value.bytes)
  eq_of_compare {_ _} same := FixedBytes.ext (Std.LawfulEqOrd.eq_of_compare same)

end FixedBytes

/-- A byte vector no longer than an allocator can serve: a length from
`2 ^ 63 - 4` on exceeds the address space, so no such vector exists. -/
@[ext] structure ByteVector where
  bytes : Bytes
  fits : bytes.length < 2 ^ 63 - 4
deriving DecidableEq, Repr

namespace ByteVector

def empty : ByteVector := ⟨[], by decide⟩

def size (vector : ByteVector) : Nat := vector.bytes.length

def ofBytes? (bytes : Bytes) : Option ByteVector :=
  if fits : bytes.length < 2 ^ 63 - 4 then some ⟨bytes, fits⟩ else none

def ofArray {count : Nat} (array : FixedBytes count) (small : count < 2 ^ 63 - 4) : ByteVector :=
  ⟨array.bytes, by rw [array.length_eq]; exact small⟩

theorem one_fits : [(1 : UInt8)].length < 2 ^ 63 - 4 := by decide

theorem hash_small : 32 < 2 ^ 63 - 4 := by decide

theorem signature_small : 64 < 2 ^ 63 - 4 := by decide

theorem size_lt_word (vector : ByteVector) : vector.size < 2 ^ 64 := by
  have small : vector.size < 2 ^ 63 - 4 := vector.fits
  omega

end ByteVector

/-- A reader consumes bytes from the front and fails with a fault. -/
abbrev Reader (ε α : Type) := StateT Bytes (Except ε) α

namespace Reader

variable {ε α β : Type}

theorem bind_ok {read : Reader ε α} {next : α → Reader ε β} {input : Bytes} {result : β × Bytes} :
    (read >>= next) input = .ok result ↔
      ∃ value rest, read input = .ok (value, rest) ∧ next value rest = .ok result := by
  change (read input >>= fun step => next step.1 step.2) = .ok result ↔ _
  cases outcome : read input with
  | error fault =>
      change (Except.error fault : Except ε _) = .ok result ↔ _
      simp
  | ok step =>
      obtain ⟨value, rest⟩ := step
      change next value rest = .ok result ↔ _
      simp

theorem bind_of_ok {read : Reader ε α} {next : α → Reader ε β} {input rest : Bytes} {value : α}
    (accepted : read input = .ok (value, rest)) : (read >>= next) input = next value rest := by
  change (read input >>= fun step => next step.1 step.2) = _
  rw [accepted]
  rfl

theorem bind_of_error {read : Reader ε α} {next : α → Reader ε β} {input : Bytes} {fault : ε}
    (failed : read input = .error fault) : (read >>= next) input = .error fault := by
  change (read input >>= fun step => next step.1 step.2) = _
  rw [failed]
  rfl

/-- A sequence fails where its first part fails, or where its second does after it. -/
theorem bind_error {read : Reader ε α} {next : α → Reader ε β} {input : Bytes} {fault : ε} :
    (read >>= next) input = .error fault ↔
      read input = .error fault ∨
        ∃ value rest, read input = .ok (value, rest) ∧ next value rest = .error fault := by
  cases outcome : read input with
  | error other =>
      rw [bind_of_error outcome]
      simp
  | ok result =>
      obtain ⟨value, rest⟩ := result
      rw [bind_of_ok outcome]
      simp

@[simp] theorem pure_apply (value : α) (input : Bytes) :
    (pure value : Reader ε α) input = .ok (value, input) := rfl

/-- Take exactly `count` bytes. -/
def take (fault : ε) (count : Nat) : Reader ε Bytes := fun input =>
  if input.length < count then .error fault else .ok (input.take count, input.drop count)

theorem take_ok {fault : ε} {count : Nat} {input bytes rest : Bytes} :
    take fault count input = .ok (bytes, rest) ↔ input = bytes ++ rest ∧ bytes.length = count := by
  unfold take
  constructor
  · intro accepted
    split at accepted
    · contradiction
    · rename_i enough
      cases accepted
      exact ⟨(List.take_append_drop _ _).symm, by rw [List.length_take]; omega⟩
  · rintro ⟨rfl, rfl⟩
    simp

theorem take_append (fault : ε) (bytes rest : Bytes) :
    take fault bytes.length (bytes ++ rest) = .ok (bytes, rest) :=
  take_ok.mpr ⟨rfl, rfl⟩

/-- Take a fixed number of bytes as an array of that size. -/
def takeFixed (fault : ε) (count : Nat) : Reader ε (FixedBytes count) := fun input =>
  if enough : count ≤ input.length then
    .ok (⟨input.take count, List.length_take_of_le enough⟩, input.drop count)
  else .error fault

theorem takeFixed_ok {fault : ε} {count : Nat} {input rest : Bytes} {array : FixedBytes count} :
    takeFixed fault count input = .ok (array, rest) ↔ input = array.bytes ++ rest := by
  unfold takeFixed
  constructor
  · intro accepted
    split at accepted
    · cases accepted
      exact (List.take_append_drop _ _).symm
    · contradiction
  · rintro rfl
    have enough : count ≤ (array.bytes ++ rest).length := by
      rw [List.length_append, array.length_eq]
      exact Nat.le_add_right _ _
    rw [dif_pos enough]
    have front : (array.bytes ++ rest).take count = array.bytes :=
      List.take_left' array.length_eq
    have back : (array.bytes ++ rest).drop count = rest := List.drop_left' array.length_eq
    simp only [front, back]

/-- Read `count` values one after another. -/
def many (read : Reader ε α) : Nat → Reader ε (List α)
  | 0 => pure []
  | count + 1 => do
      let value ← read
      let values ← many read count
      pure (value :: values)

/-- A reader parses what a writer produces: it accepts an input exactly when a
written valid value stands at its front. -/
def Parses (read : Reader ε α) (write : α → Bytes) (valid : α → Prop) : Prop :=
  ∀ input value rest, read input = .ok (value, rest) ↔ input = write value ++ rest ∧ valid value

def Extends (wider narrower : Reader ε α) : Prop :=
  ∀ input result, narrower input = .ok result → wider input = .ok result

theorem Extends.refl (read : Reader ε α) : Extends read read := fun _ _ accepted => accepted

theorem Extends.bind {wider narrower : Reader ε α} {widerNext narrowerNext : α → Reader ε β}
    (first : Extends wider narrower) (second : ∀ value, Extends (widerNext value) (narrowerNext value)) :
    Extends (wider >>= widerNext) (narrower >>= narrowerNext) := by
  intro input result accepted
  obtain ⟨value, rest, head, tail⟩ := bind_ok.mp accepted
  exact bind_ok.mpr ⟨value, rest, first _ _ head, second value _ _ tail⟩

theorem Extends.many {wider narrower : Reader ε α} (one : Extends wider narrower) (count : Nat) :
    Extends (many wider count) (many narrower count) := by
  induction count with
  | zero => exact .refl _
  | succ count ih => exact one.bind fun value => ih.bind fun values => .refl _

theorem Parses.many {read : Reader ε α} {write : α → Bytes} {valid : α → Prop}
    (one : Parses read write valid) (count : Nat) :
    Parses (many read count) (fun values => values.flatMap write)
      (fun values => values.length = count ∧ ∀ value ∈ values, valid value) := by
  intro input values rest
  induction count generalizing input values with
  | zero =>
      constructor
      · intro accepted
        cases accepted
        simp
      · rintro ⟨rfl, empty, _⟩
        rw [List.eq_nil_of_length_eq_zero empty]
        rfl
  | succ count ih =>
      constructor
      · intro accepted
        obtain ⟨value, afterOne, head, tail⟩ := bind_ok.mp accepted
        obtain ⟨others, afterAll, tail, done⟩ := bind_ok.mp tail
        cases done
        obtain ⟨rfl, valueValid⟩ := (one _ _ _).mp head
        obtain ⟨rfl, length, othersValid⟩ := (ih _ _).mp tail
        refine ⟨by simp, by simp [length], List.forall_mem_cons.mpr ⟨valueValid, othersValid⟩⟩
      · rintro ⟨rfl, length, allValid⟩
        cases values with
        | nil => simp at length
        | cons value others =>
            obtain ⟨valueValid, othersValid⟩ := List.forall_mem_cons.mp allValid
            have head := (one (write value ++ (others.flatMap write ++ rest)) value
              (others.flatMap write ++ rest)).mpr ⟨rfl, valueValid⟩
            have tail := (ih (others.flatMap write ++ rest) others).mpr
              ⟨rfl, Nat.succ.inj length, othersValid⟩
            have front : (value :: others).flatMap write ++ rest =
                write value ++ (others.flatMap write ++ rest) := by simp
            change Reader.many read (count + 1) ((value :: others).flatMap write ++ rest) = _
            rw [front]
            exact bind_ok.mpr ⟨value, _, head, bind_ok.mpr ⟨others, _, tail, rfl⟩⟩

theorem takeFixed_parses (fault : ε) (count : Nat) :
    Parses (takeFixed fault count) FixedBytes.bytes fun _ => True :=
  fun _ _ _ => takeFixed_ok.trans (and_iff_left trivial).symm

theorem many_length {read : Reader ε α} {count : Nat} {input rest : Bytes} {values : List α}
    (accepted : many read count input = .ok (values, rest)) : values.length = count := by
  induction count generalizing input values with
  | zero => cases accepted; rfl
  | succ count ih =>
      obtain ⟨value, afterOne, _, tail⟩ := bind_ok.mp accepted
      obtain ⟨others, afterAll, tail, done⟩ := bind_ok.mp tail
      cases done
      rw [List.length_cons, ih tail]

/-- A sequence of values fails at the value that cannot be read. -/
theorem many_error {read : Reader ε α} {count : Nat} {input : Bytes} {fault : ε} :
    many read count input = .error fault ↔
      ∃ index < count, ∃ values rest,
        many read index input = .ok (values, rest) ∧ read rest = .error fault := by
  induction count generalizing input with
  | zero =>
      refine ⟨fun failed => (nomatch failed), ?_⟩
      rintro ⟨index, below, _⟩
      exact (Nat.not_lt_zero index below).elim
  | succ count ih =>
      rw [many, bind_error]
      constructor
      · rintro (failed | ⟨value, rest, accepted, failed⟩)
        · exact ⟨0, Nat.succ_pos count, [], input, rfl, failed⟩
        · obtain failed | ⟨values, last, _, done⟩ := bind_error.mp failed
          · obtain ⟨index, below, values, stop, before, here⟩ := ih.mp failed
            refine ⟨index + 1, Nat.succ_lt_succ below, value :: values, stop, ?_, here⟩
            exact bind_ok.mpr ⟨value, rest, accepted, bind_ok.mpr ⟨values, stop, before, rfl⟩⟩
          · exact (nomatch done)
      · rintro ⟨index, below, values, stop, before, here⟩
        cases index with
        | zero =>
            cases before
            exact .inl here
        | succ index =>
            obtain ⟨value, rest, accepted, tail⟩ := bind_ok.mp before
            obtain ⟨others, _, othersRead, done⟩ := bind_ok.mp tail
            cases done
            refine .inr ⟨value, rest, accepted, bind_error.mpr (.inl (ih.mpr ?_))⟩
            exact ⟨index, Nat.lt_of_succ_lt_succ below, others, _, othersRead, here⟩

/-- What every single value satisfies holds of all values read. -/
theorem many_forall {read : Reader ε α} (holds : α → Prop)
    (one : ∀ input value rest, read input = .ok (value, rest) → holds value)
    {count : Nat} {input rest : Bytes} {values : List α}
    (accepted : many read count input = .ok (values, rest)) : ∀ value ∈ values, holds value := by
  induction count generalizing input values with
  | zero => cases accepted; simp
  | succ count ih =>
      obtain ⟨value, afterOne, head, tail⟩ := bind_ok.mp accepted
      obtain ⟨others, afterAll, tail, done⟩ := bind_ok.mp tail
      cases done
      exact List.forall_mem_cons.mpr ⟨one _ _ _ head, ih tail⟩

/-- A value read and put into a one-field record. -/
theorem Parses.map {read : Reader ε α} {write : α → Bytes} {valid : α → Prop}
    (parses : Parses read write valid) (make : α → β) (field : β → α)
    (field_make : ∀ value, field (make value) = value)
    (make_field : ∀ record, make (field record) = record) :
    Parses (do let value ← read; pure (make value)) (fun record => write (field record))
      (fun record => valid (field record)) := by
  intro input record rest
  constructor
  · intro accepted
    obtain ⟨value, afterValue, head, done⟩ := bind_ok.mp accepted
    obtain ⟨written, isValid⟩ := (parses _ _ _).mp head
    cases done
    change input = write (field (make value)) ++ rest ∧ valid (field (make value))
    rw [field_make]
    exact ⟨written, isValid⟩
  · intro accepted
    refine bind_ok.mpr ⟨field record, rest, (parses _ _ _).mpr accepted, ?_⟩
    rw [make_field]
    rfl

/-- What one reader parses can be told apart from anything longer. -/
theorem Parses.prefix_free {read : Reader ε α} {write : α → Bytes} {valid : α → Prop}
    (parses : Parses read write valid) {short long : α} (shortValid : valid short)
    (longValid : valid long) {missing : Bytes} (same : write short ++ missing = write long) :
    short = long ∧ missing = [] := by
  have readShort := (parses (write long) short missing).mpr ⟨same.symm, shortValid⟩
  have readLong := (parses (write long) long []).mpr ⟨(List.append_nil _).symm, longValid⟩
  rw [readShort] at readLong
  cases readLong
  exact ⟨rfl, rfl⟩

/-- Read a value from the whole input. -/
def whole (fault : ε) (read : Reader ε α) (input : Bytes) : Except ε α := do
  let (value, rest) ← read input
  if rest.isEmpty then pure value else .error fault

theorem whole_ok {fault : ε} {read : Reader ε α} {input : Bytes} {value : α} :
    whole fault read input = .ok value ↔ read input = .ok (value, []) := by
  rw [whole]
  cases outcome : read input with
  | error fault =>
      change (Except.error fault : Except ε α) = .ok value ↔ _
      simp
  | ok step =>
      obtain ⟨first, rest⟩ := step
      change (if rest.isEmpty then pure first else Except.error fault) = .ok value ↔ _
      cases rest with
      | nil =>
          change Except.ok first = .ok value ↔ _
          simp
      | cons byte rest => simp

end Reader

/-- A decoder takes exactly the written valid values. -/
def Decodes {ε α : Type} (decode : Bytes → Except ε α) (write : α → Bytes) (valid : α → Prop) : Prop :=
  ∀ input value, decode input = .ok value ↔ input = write value ∧ valid value

theorem Reader.Parses.whole {ε α : Type} {read : Reader ε α} {write : α → Bytes} {valid : α → Prop}
    (parses : Parses read write valid) (fault : ε) :
    Decodes (Reader.whole fault read) write valid := by
  intro input value
  rw [whole_ok, parses, List.append_nil]

/-- An input that ends early: some of its last bytes are missing. -/
def EndsEarly (input full : Bytes) : Prop := ∃ missing, missing ≠ [] ∧ input ++ missing = full

theorem Decodes.rejects_early {ε α : Type} {decode : Bytes → Except ε α} {read : Reader ε α}
    {write : α → Bytes} {valid : α → Prop} (decodes : Decodes decode write valid)
    (parses : Reader.Parses read write valid) {value other : α} (valueValid : valid value)
    {input : Bytes} (early : EndsEarly input (write value)) : decode input ≠ .ok other := by
  intro accepted
  obtain ⟨missing, someMissing, same⟩ := early
  obtain ⟨written, otherValid⟩ := (decodes input other).mp accepted
  rw [written] at same
  exact someMissing (parses.prefix_free otherValid valueValid same).2

/-! ## UTF-8

The encoding of a scalar value as bytes, told by numbers.
-/

/-- The encoding of a character by the length of it. -/
theorem utf8EncodeChar_cases (char : Char) :
    (char.toNat ≤ 0x7F ∧ String.utf8EncodeChar char = [.ofNat char.toNat]) ∨
    ((0x80 ≤ char.toNat ∧ char.toNat ≤ 0x7FF) ∧ String.utf8EncodeChar char =
      [.ofNat (char.toNat / 64 + 0xC0), .ofNat (char.toNat % 64 + 0x80)]) ∨
    ((0x800 ≤ char.toNat ∧ char.toNat ≤ 0xFFFF) ∧ String.utf8EncodeChar char =
      [.ofNat (char.toNat / 4096 + 0xE0), .ofNat (char.toNat / 64 % 64 + 0x80),
        .ofNat (char.toNat % 64 + 0x80)]) ∨
    ((0x10000 ≤ char.toNat ∧ char.toNat < 0x110000) ∧ String.utf8EncodeChar char =
      [.ofNat (char.toNat / 262144 + 0xF0), .ofNat (char.toNat / 4096 % 64 + 0x80),
        .ofNat (char.toNat / 64 % 64 + 0x80), .ofNat (char.toNat % 64 + 0x80)]) := by
  have isScalar := char.valid
  have isNat : char.val.toNat = char.toNat := rfl
  have bound : char.toNat < 0x110000 := by
    rcases isScalar with low | high
    · exact Nat.lt_trans low (by decide)
    · exact high.2
  unfold String.utf8EncodeChar
  dsimp only
  rw [isNat]
  by_cases one : char.toNat ≤ 0x7F
  · rw [if_pos one]
    exact .inl ⟨one, rfl⟩
  · rw [if_neg one]
    by_cases two : char.toNat ≤ 0x7FF
    · have small : char.toNat / 64 % 0x20 = char.toNat / 64 := by omega
      rw [if_pos two, small]
      exact .inr (.inl ⟨by omega, rfl⟩)
    · rw [if_neg two]
      by_cases three : char.toNat ≤ 0xFFFF
      · have small : char.toNat / 4096 % 0x10 = char.toNat / 4096 := by omega
        rw [if_pos three, small]
        exact .inr (.inr (.inl ⟨by omega, rfl⟩))
      · have small : char.toNat / 262144 % 0x08 = char.toNat / 262144 := by omega
        rw [if_neg three, small]
        exact .inr (.inr (.inr ⟨by omega, rfl⟩))

theorem toNat_ofNat_char {code : Nat} (valid : code.isValidChar) : (Char.ofNat code).toNat = code := by
  rw [Char.ofNat, dif_pos valid]
  rfl

/-- Bytes that are characters one after another. -/
def IsUtf8 (bytes : Bytes) : Prop := ∃ chars : List Char, bytes = chars.flatMap String.utf8EncodeChar

theorem isUtf8_nil : IsUtf8 [] := ⟨[], rfl⟩

/-- Bytes are characters when they are none, or begin with one that characters follow. -/
theorem isUtf8_cons_iff {byte : UInt8} {bytes : Bytes} :
    IsUtf8 (byte :: bytes) ↔
      ∃ char rest, byte :: bytes = String.utf8EncodeChar char ++ rest ∧ IsUtf8 rest := by
  constructor
  · rintro ⟨chars, isChars⟩
    cases chars with
    | nil => cases isChars
    | cons char more => exact ⟨char, more.flatMap String.utf8EncodeChar, isChars, more, rfl⟩
  · rintro ⟨char, rest, isBytes, more, rfl⟩
    exact ⟨char :: more, isBytes⟩

end Parthenon.Library
