import Parthenon.Primitives.WirePointers

namespace Parthenon.Primitives

open Parthenon.Library Parthenon.Crypto

/-! # Script lengths the parsers let through

A script length near `2 ^ 63` or above turns negative, or wraps, before it is compared
with the bytes that remain.  The parsers stay inside their input and ask for no more
than it holds exactly when they meet no such length.
-/

/-- A script length whose check passes though so many bytes do not remain. -/
def AbsurdLength (trailing length remaining : Nat) : Prop :=
  2 ^ 63 ≤ length + trailing ∧ length + trailing ≤ 2 ^ 64 + remaining

theorem readScript_throws {trailing length : Nat} {input : Bytes} (few : trailing ≤ 4)
    (word : length < 2 ^ 64) (fits : input.length < 2 ^ 63 - 4) :
    readScript trailing length input = .error .resizeThrows ↔
      AbsurdLength trailing length input.length := by
  have difference : toPtrdiff (length + trailing) =
      if length + trailing < 2 ^ 63 then ((length + trailing : Nat) : Int)
      else ((length + trailing : Nat) : Int) - 2 ^ 64 := by
    unfold toPtrdiff
    split <;> split <;> omega
  rw [readScript, difference, AbsurdLength]
  by_cases small : length + trailing < 2 ^ 63
  · rw [if_pos small]
    refine iff_of_false ?_ (by omega)
    split
    · simp
    · rw [dif_pos (by omega)]
      simp
  · rw [if_neg small]
    split
    · refine iff_of_false (by simp) (by omega)
    · rw [dif_neg (by omega)]
      exact iff_of_true rfl (by omega)

/-! ## Readers that do not resize -/

/-- The reader has no other failure than giving up. -/
def GivesUp {α : Type} (read : Read α) : Prop := ∀ input, read input ≠ .error .resizeThrows

theorem GivesUp.bind {α β : Type} {read : Read α} {next : α → Read β} (first : GivesUp read)
    (second : ∀ value, GivesUp (next value)) : GivesUp (read >>= next) := by
  intro input threw
  obtain failed | ⟨value, rest, _, failed⟩ := Reader.bind_error.mp threw
  · exact first input failed
  · exact second value rest failed

theorem GivesUp.pure {α : Type} (value : α) : GivesUp (Pure.pure value : Read α) :=
  fun _ threw => (nomatch threw)

theorem GivesUp.throw {α : Type} : GivesUp (throw .nullopt : Read α) := fun _ threw => (nomatch threw)

theorem take_givesUp (count : Nat) : GivesUp (Reader.take .nullopt count) := by
  intro input threw
  rw [Reader.take] at threw
  split at threw <;> cases threw

theorem takeFixed_givesUp (count : Nat) : GivesUp (Reader.takeFixed .nullopt count) := by
  intro input threw
  rw [Reader.takeFixed] at threw
  split at threw <;> cases threw

theorem readNat_givesUp (width : Nat) : GivesUp (readNat width) :=
  (take_givesUp width).bind fun _ => .pure _

theorem readUInt32_givesUp : GivesUp readUInt32 := (readNat_givesUp 4).bind fun _ => .pure _

theorem readUInt64_givesUp : GivesUp readUInt64 := (readNat_givesUp 8).bind fun _ => .pure _

theorem readByte_givesUp : GivesUp readByte := (readNat_givesUp 1).bind fun _ => .pure _

theorem readSizeAtLeast_givesUp (least width : Nat) : GivesUp (readSizeAtLeast least width) := by
  refine (readNat_givesUp width).bind fun size => ?_
  split
  · exact .throw
  · exact .pure size

theorem readCompactSizeWith_givesUp (leastTwo leastFour leastEight : Nat) :
    GivesUp (readCompactSizeWith leastTwo leastFour leastEight) := by
  refine readByte_givesUp.bind fun first => ?_
  split
  · exact .pure _
  · split
    · exact readSizeAtLeast_givesUp _ _
    · split
      · exact readSizeAtLeast_givesUp _ _
      · exact readSizeAtLeast_givesUp _ _

theorem OutPoint.deserialize_givesUp : GivesUp deserialize :=
  (takeFixed_givesUp 32).bind fun _ => readUInt32_givesUp.bind fun _ => .pure _

theorem AssetAmount.deserialize_givesUp : GivesUp deserialize :=
  readByte_givesUp.bind fun _ => readUInt64_givesUp.bind fun _ => .pure _

theorem BlockHeader.deserialize_givesUp : GivesUp deserialize :=
  readUInt32_givesUp.bind fun _ => (takeFixed_givesUp 32).bind fun _ =>
    (takeFixed_givesUp 32).bind fun _ => readUInt32_givesUp.bind fun _ =>
      readUInt32_givesUp.bind fun _ => readUInt32_givesUp.bind fun _ =>
        readUInt64_givesUp.bind fun _ => readUInt64_givesUp.bind fun _ =>
          readUInt64_givesUp.bind fun _ => .pure _

/-- A sequence that starts with a reader that only gives up throws in its second part. -/
theorem throws_after {α β : Type} {read : Read α} {next : α → Read β} {input : Bytes}
    (first : GivesUp read) :
    (read >>= next) input = .error .resizeThrows ↔
      ∃ value rest, read input = .ok (value, rest) ∧ next value rest = .error .resizeThrows :=
  Reader.bind_error.trans (or_iff_right (first input))

/-- A sequence that ends with readers that only give up throws in its first part. -/
theorem throws_before {α β : Type} {read : Read α} {next : α → Read β} {input : Bytes}
    (second : ∀ value, GivesUp (next value)) :
    (read >>= next) input = .error .resizeThrows ↔ read input = .error .resizeThrows := by
  refine Reader.bind_error.trans (or_iff_left ?_)
  intro later
  obtain ⟨value, rest, _, threw⟩ := later
  exact second value rest threw

/-! ## Where the parsers meet such a length -/

/-- Such a script length stands behind what `front` reads. -/
def ScriptMeetsAbsurd {α : Type} (front : Read α) (trailing : Nat) (input : Bytes) : Prop :=
  ∃ value afterFront, front input = .ok (value, afterFront) ∧
    ∃ scriptLen afterLen,
      Transaction.readCompactSizeChecked afterFront = .ok (scriptLen, afterLen) ∧
        AbsurdLength trailing scriptLen afterLen.length

/-- The input at the front has one; its sequence number follows the script. -/
def TxInput.MeetsAbsurd : Bytes → Prop := ScriptMeetsAbsurd OutPoint.deserialize 4

/-- The output at the front has one. -/
def TxOutput.MeetsAbsurd : Bytes → Prop := ScriptMeetsAbsurd AssetAmount.deserialize 0

/-- One of `count` values does, after those before it were read. -/
def ManyMeet {α : Type} (one : Read α) (meets : Bytes → Prop) (count : Nat) (input : Bytes) : Prop :=
  ∃ index < count, ∃ values rest, Reader.many one index input = .ok (values, rest) ∧ meets rest

/-- One value of a counted list does. -/
def CountedMeets {α : Type} (one : Read α) (meets : Bytes → Prop) (input : Bytes) : Prop :=
  ∃ count afterCount, Transaction.readCompactSizeChecked input = .ok (count, afterCount) ∧
    count ≤ Transaction.maxCount ∧ ManyMeet one meets count afterCount

/-- An input or an output of the transaction at the front does. -/
def Transaction.MeetsAbsurd (input : Bytes) : Prop :=
  10 ≤ input.length ∧ ∃ version afterVersion, readUInt32 input = .ok (version, afterVersion) ∧
    (CountedMeets (TxInput.deserializeWith readCompactSizeChecked) TxInput.MeetsAbsurd afterVersion ∨
      ∃ inputs afterInputs, readCounted readCompactSizeChecked maxCount
          (TxInput.deserializeWith readCompactSizeChecked) afterVersion = .ok (inputs, afterInputs) ∧
        CountedMeets (TxOutput.deserializeWith readCompactSizeChecked) TxOutput.MeetsAbsurd
          afterInputs)

/-- A transaction of the block does. -/
def Block.MeetsAbsurd (data : Bytes) : Prop :=
  105 ≤ data.length ∧ ∃ header afterHeader, BlockHeader.deserialize data = .ok (header, afterHeader) ∧
    ∃ txCount afterCount, readCompactSizeChecked afterHeader = .ok (txCount, afterCount) ∧
      CountWithinLimits txCount ∧
        ManyMeet (Transaction.deserializeFrontWith Transaction.readCompactSizeChecked)
          Transaction.MeetsAbsurd txCount afterCount

theorem script_throws_iff {α β : Type} {front : Read α} {next : α → ByteVector → Read β}
    {trailing : Nat} {input : Bytes} (few : trailing ≤ 4) (givesUp : GivesUp front)
    (shrinks : ∀ value rest, front input = .ok (value, rest) → rest.length ≤ input.length)
    (lastGiveUp : ∀ value script, GivesUp (next value script)) (fits : input.length < 2 ^ 63 - 4) :
    (do
      let value ← front
      let scriptLen ← Transaction.readCompactSizeChecked
      let script ← readScript trailing scriptLen
      next value script) input = .error .resizeThrows ↔ ScriptMeetsAbsurd front trailing input := by
  refine (throws_after givesUp).trans ?_
  refine exists_congr fun value => exists_congr fun afterFront => and_congr_right fun head => ?_
  refine (throws_after (readCompactSizeWith_givesUp 0 0 0)).trans ?_
  refine exists_congr fun scriptLen => exists_congr fun afterLen => and_congr_right fun sized => ?_
  refine (throws_before (lastGiveUp value)).trans ?_
  have shorter := (readCompactSizeChecked_tight _ _ _ sized).1
  have shortest := shrinks value afterFront head
  exact readScript_throws few (readCompactSizeChecked_word sized) (by omega)

theorem TxInput.throws_iff {input : Bytes} (fits : input.length < 2 ^ 63 - 4) :
    deserializeWith Transaction.readCompactSizeChecked input = .error .resizeThrows ↔
      MeetsAbsurd input := by
  refine script_throws_iff (Nat.le_refl 4) OutPoint.deserialize_givesUp ?_
    (fun _ _ => readUInt32_givesUp.bind fun _ => .pure _) fits
  intro prevout rest head
  rw [OutPoint.deserialize_ok.mp head, List.length_append]
  exact Nat.le_add_left _ _

theorem TxOutput.throws_iff {input : Bytes} (fits : input.length < 2 ^ 63 - 4) :
    deserializeWith Transaction.readCompactSizeChecked input = .error .resizeThrows ↔
      MeetsAbsurd input := by
  refine script_throws_iff (Nat.zero_le 4) AssetAmount.deserialize_givesUp ?_
    (fun _ _ => .pure _) fits
  intro value rest head
  rw [AssetAmount.deserialize_ok.mp head, List.length_append]
  exact Nat.le_add_left _ _

theorem many_throws_iff {α : Type} {one : Read α} {write : α → Bytes} {meets : Bytes → Prop}
    (tight : Tight one write)
    (throws_iff : ∀ {input : Bytes}, input.length < 2 ^ 63 - 4 →
      (one input = .error .resizeThrows ↔ meets input))
    {count : Nat} {input : Bytes} (fits : input.length < 2 ^ 63 - 4) :
    Reader.many one count input = .error .resizeThrows ↔ ManyMeet one meets count input := by
  refine Reader.many_error.trans ?_
  refine exists_congr fun index => and_congr_right fun _ => exists_congr fun values =>
    exists_congr fun rest => and_congr_right fun before => throws_iff ?_
  have shorter := (tight.many index _ _ _ before).1
  omega

theorem counted_throws_iff {α : Type} {one : Read α} {write : α → Bytes} {meets : Bytes → Prop}
    (tight : Tight one write)
    (throws_iff : ∀ {input : Bytes}, input.length < 2 ^ 63 - 4 →
      (one input = .error .resizeThrows ↔ meets input))
    {input : Bytes} (fits : input.length < 2 ^ 63 - 4) :
    readCounted Transaction.readCompactSizeChecked Transaction.maxCount one input =
        .error .resizeThrows ↔ CountedMeets one meets input := by
  refine (throws_after (readCompactSizeWith_givesUp 0 0 0)).trans ?_
  refine exists_congr fun count => exists_congr fun afterCount => and_congr_right fun counted => ?_
  have shorter := (readCompactSizeChecked_tight _ _ _ counted).1
  by_cases few : count > Transaction.maxCount
  · rw [if_pos few]
    exact iff_of_false (GivesUp.throw afterCount) fun meets => Nat.not_le_of_lt few meets.1
  · rw [if_neg few]
    refine (many_throws_iff tight throws_iff (by omega)).trans ?_
    exact (and_iff_right (Nat.le_of_not_lt few)).symm

/-- Wanting the whole input throws nothing itself. -/
theorem whole_throws_iff {α : Type} {read : Read α} {data : Bytes} :
    Reader.whole .nullopt read data = .error .resizeThrows ↔ read data = .error .resizeThrows := by
  rw [Reader.whole]
  cases outcome : read data with
  | error fault =>
      change (Except.error fault : Except Fault α) = .error .resizeThrows ↔ _
      rw [Except.error.injEq, Except.error.injEq]
  | ok result =>
      obtain ⟨value, rest⟩ := result
      refine iff_of_false ?_ (by simp)
      change (if rest.isEmpty then pure value else Except.error Fault.nullopt) ≠ _
      split
      · intro threw
        cases threw
      · simp

namespace Transaction

theorem readFields_throws_iff {input : Bytes} (fits : input.length < 2 ^ 63 - 4)
    (long : 10 ≤ input.length) :
    readFields readCompactSizeChecked input = .error .resizeThrows ↔ MeetsAbsurd input := by
  refine (throws_after readUInt32_givesUp).trans ((and_iff_right long).trans ?_).symm
  refine (exists_congr fun version => exists_congr fun afterVersion => and_congr_right fun head => ?_)
  obtain rfl := readUInt32_ok.mp head
  rw [List.length_append] at fits
  refine (Reader.bind_error.trans (or_congr ?_ ?_)).symm
  · exact counted_throws_iff TxInput.deserialize_tight TxInput.throws_iff (by omega)
  · refine exists_congr fun inputs => exists_congr fun afterInputs => and_congr_right fun inputsRead => ?_
    have shorter := (readCounted_tight TxInput.deserialize_tight _ _ _ inputsRead).1
    refine (throws_before fun _ => readUInt32_givesUp.bind fun _ => .pure _).trans ?_
    exact counted_throws_iff TxOutput.deserialize_tight TxOutput.throws_iff (by omega)

theorem deserializeFront_throws_iff {input : Bytes} (fits : input.length < 2 ^ 63 - 4) :
    deserializeFrontWith readCompactSizeChecked input = .error .resizeThrows ↔ MeetsAbsurd input := by
  rw [deserializeFrontWith]
  by_cases short : input.length < 10
  · rw [if_pos short]
    exact iff_of_false (by simp) fun meets => Nat.not_le_of_lt short meets.1
  · rw [if_neg short, ← readFields_throws_iff fits (Nat.le_of_not_lt short)]
    cases readFields readCompactSizeChecked input with
    | error fault =>
        change (Except.error fault : Except Fault (CachedTransaction × Bytes)) = _ ↔ _
        rw [Except.error.injEq, Except.error.injEq]
    | ok result =>
        refine iff_of_false (fun threw => ?_) (by simp)
        cases threw

theorem deserializeFront_tight :
    Tight (deserializeFrontWith readCompactSizeChecked) fun object => object.serialize := by
  intro input object rest accepted
  exact readFields_tight _ _ _ (deserializeFront_ok.mp accepted).2.1

theorem deserialize_throws_iff (data : ByteVector) :
    deserialize data.bytes = .error .resizeThrows ↔ MeetsAbsurd data.bytes :=
  whole_throws_iff.trans (deserializeFront_throws_iff data.fits)

end Transaction

namespace Block

theorem readFields_throws_iff {data : Bytes} (fits : data.length < 2 ^ 63 - 4)
    (long : 105 ≤ data.length) :
    readFieldsWith Transaction.readCompactSizeChecked data = .error .resizeThrows ↔
      MeetsAbsurd data := by
  refine (throws_after BlockHeader.deserialize_givesUp).trans ((and_iff_right long).trans ?_).symm
  refine exists_congr fun header => exists_congr fun afterHeader => and_congr_right fun head => ?_
  obtain rfl := BlockHeader.deserialize_ok.mp head
  rw [List.length_append] at fits
  refine ((throws_after (readCompactSizeWith_givesUp _ _ _)).trans ?_).symm
  refine exists_congr fun txCount => exists_congr fun afterCount => and_congr_right fun counted => ?_
  obtain ⟨rfl, _⟩ := (readCompactSizeChecked_parses _ _ _).mp counted
  rw [List.length_append] at fits
  by_cases refused : txCount = 0 ∨ txCount > maxTransactions
  · rw [if_pos refused]
    refine iff_of_false (GivesUp.throw afterCount) fun meets => ?_
    obtain ⟨⟨some_, few⟩, _⟩ := meets
    omega
  · rw [if_neg refused]
    have limits : CountWithinLimits txCount := by
      rw [CountWithinLimits]
      omega
    refine (throws_before fun _ => .pure _).trans ?_
    refine (many_throws_iff Transaction.deserializeFront_tight
      Transaction.deserializeFront_throws_iff (by omega)).trans ?_
    exact (and_iff_right limits).symm

theorem deserialize_throws_iff (data : ByteVector) :
    deserialize data.bytes = .error .resizeThrows ↔ MeetsAbsurd data.bytes := by
  rw [deserialize, deserializeWith]
  by_cases short : data.bytes.length < 105
  · rw [if_pos short]
    exact iff_of_false (by simp) fun meets => Nat.not_le_of_lt short meets.1
  · rw [if_neg short]
    exact whole_throws_iff.trans (readFields_throws_iff data.fits (Nat.le_of_not_lt short))

end Block

/-! ## Total and bounded parsing -/

/-- A parser answers with a value or with none: it neither read outside its input nor
asked for more than remained. -/
def Answers {α : Type} : Except Misstep α → Prop
  | .ok _ => True
  | .error misstep => misstep = .nullopt

theorem answers_mapError_iff {α : Type} (outcome : Except Fault α) :
    Answers (outcome.mapError Fault.misstep) ↔ ¬ outcome = .error .resizeThrows := by
  cases outcome with
  | ok value => exact iff_of_true trivial (fun threw => (nomatch threw))
  | error fault =>
      cases fault with
      | nullopt => exact iff_of_true rfl (by simp)
      | resizeThrows => exact iff_of_false (fun none_ => (nomatch none_)) (not_not_intro rfl)

/-- The parsers stay within their input and ask for no more than remains exactly on the
byte strings in which they meet no script length that their check lets through. -/
theorem parsers_bounded_iff (data : ByteVector) :
    (Answers (Transaction.deserializeAt data) ↔ ¬ Transaction.MeetsAbsurd data.bytes) ∧
      (Answers (Block.deserializeAt data) ↔ ¬ Block.MeetsAbsurd data.bytes) := by
  rw [Transaction.deserializeAt_eq, Block.deserializeAt_eq, answers_mapError_iff,
    answers_mapError_iff, Transaction.deserialize_throws_iff, Block.deserialize_throws_iff]
  exact ⟨Iff.rfl, Iff.rfl⟩

/-- Not even such a length makes a parser read a byte outside its input. -/
theorem parsers_never_overrun (data : ByteVector) :
    Transaction.deserializeAt data ≠ .error .overrun ∧ Block.deserializeAt data ≠ .error .overrun := by
  have kept {α : Type} (outcome : Except Fault α) :
      outcome.mapError Fault.misstep ≠ .error .overrun := by
    cases outcome with
    | ok value => exact fun threw => (nomatch threw)
    | error fault => cases fault <;> exact fun threw => (nomatch threw)
  rw [Transaction.deserializeAt_eq, Block.deserializeAt_eq]
  exact ⟨kept _, kept _⟩

/-- A transaction whose first script length is the largest number of eight bytes. -/
def absurdInput : Bytes :=
  [1, 0, 0, 0, 1] ++ List.replicate 36 0 ++ List.replicate 9 255 ++ [0, 0, 0]

def absurdBlockInput : Bytes := List.replicate 104 0 ++ [1] ++ absurdInput

theorem absurdInput_fits : absurdInput.length < 2 ^ 63 - 4 := by decide +kernel

theorem absurdBlockInput_fits : absurdBlockInput.length < 2 ^ 63 - 4 := by decide +kernel

def absurdTransaction : ByteVector := ⟨absurdInput, absurdInput_fits⟩

def absurdBlock : ByteVector := ⟨absurdBlockInput, absurdBlockInput_fits⟩

/-- The length wraps to three, three bytes remain, and the script is asked for. -/
theorem absurd_oversized :
    Transaction.deserializeAt absurdTransaction = .error .oversized ∧
      Block.deserializeAt absurdBlock = .error .oversized := by
  decide +kernel

theorem absurd_not_answered :
    ¬ Answers (Transaction.deserializeAt absurdTransaction) ∧
      ¬ Answers (Block.deserializeAt absurdBlock) := by
  obtain ⟨transaction, block⟩ := absurd_oversized
  rw [transaction, block]
  exact ⟨fun none_ => (nomatch none_), fun none_ => (nomatch none_)⟩

end Parthenon.Primitives
