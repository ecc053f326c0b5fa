import Parthenon.Library.Cursor
import Parthenon.Primitives.ParsedLengths

namespace Parthenon.Primitives

open Parthenon.Library Parthenon.Crypto

/-! # The parsers on pointers

The parsers of `transaction.cpp` and `block.cpp` once more, with the position of
the read pointer, the checks the source makes before it reads, and the reads it
makes without a check.  They follow the readers of the wire format: no read leaves
the input, and where a reader's resize throws the pointer parser has asked for a
script longer than the bytes that remain.
-/

/-- What stops a parser on pointers: it gives up, it reads a byte outside the input,
or it asks for a script longer than the bytes that remain. -/
inductive Misstep
  | nullopt
  | overrun
  | oversized
deriving DecidableEq, Repr

abbrev Walk := Cursor Misstep

def Fault.misstep : Fault → Misstep
  | .nullopt => .nullopt
  | .resizeThrows => .oversized

section Pointers

variable (data : ByteVector)

/-- Give up unless `count` bytes remain. -/
def requireAt (count : Nat) : Walk Unit := Cursor.require data.bytes .nullopt count

/-- The bytes that the source puts together with shifts. -/
def numberAt (width : Nat) : Walk Nat := do
  let bytes ← Cursor.next data.bytes .overrun width
  pure (ofLittleEndian bytes)

def uint32At : Walk UInt32 := do
  let value ← numberAt data 4
  pure (UInt32.ofNat value)

def uint64At : Walk UInt64 := do
  let value ← numberAt data 8
  pure (UInt64.ofNat value)

def byteAt : Walk UInt8 := do
  let value ← numberAt data 1
  pure (UInt8.ofNat value)

def arrayAt (size : Nat) : Walk (FixedBytes size) := fun position =>
  if inside : position + size ≤ data.bytes.length then
    .ok (⟨(data.bytes.drop position).take size,
      List.length_take_of_le (by rw [List.length_drop]; omega)⟩, position + size)
  else .error .overrun

def sizeAtLeastAt (least width : Nat) : Walk Nat := do
  requireAt data width
  let size ← numberAt data width
  if size < least then throw .nullopt else pure size

/-- `ReadCompactSizeChecked`, with the least value each long form may carry. -/
def compactSizeAtWith (leastTwo leastFour leastEight : Nat) : Walk Nat := do
  requireAt data 1
  let first ← byteAt data
  if first < 253 then pure first.toNat
  else if first = 253 then sizeAtLeastAt data leastTwo 2
  else if first = 254 then sizeAtLeastAt data leastFour 4
  else sizeAtLeastAt data leastEight 8

def Transaction.compactSizeAt : Walk Nat := compactSizeAtWith data 0 0 0

def Block.compactSizeAt : Walk Nat := compactSizeAtWith data 253 0x10000 0x100000000

/-- Resize a script and copy its bytes. -/
def copyAt (length : Nat) : Walk ByteVector := fun position =>
  if length ≤ data.bytes.length - position then
    .ok (⟨(data.bytes.drop position).take length, by
      have := data.fits
      rw [List.length_take, List.length_drop]
      omega⟩, position + length)
  else .error .oversized

/-- A script that `trailing` more bytes must follow.  The sum wraps and is compared
with a signed difference. -/
def scriptAt (trailing length : Nat) : Walk ByteVector := do
  Cursor.require data.bytes .nullopt (toPtrdiff (length + trailing))
  copyAt data length

def OutPoint.deserializeAt : Walk OutPoint := do
  let txid ← arrayAt data 32
  let vout ← uint32At data
  pure { txid, vout }

def AssetAmount.deserializeAt : Walk AssetAmount := do
  let asset ← byteAt data
  let amount ← uint64At data
  pure { asset := ⟨asset⟩, amount }

def TxInput.deserializeAt : Walk TxInput := do
  requireAt data 36
  let prevout ← OutPoint.deserializeAt data
  let scriptLen ← Transaction.compactSizeAt data
  let signatureScript ← scriptAt data 4 scriptLen
  let sequence ← uint32At data
  pure { prevout, signatureScript, sequence }

def TxOutput.deserializeAt : Walk TxOutput := do
  requireAt data 9
  let value ← AssetAmount.deserializeAt data
  let scriptLen ← Transaction.compactSizeAt data
  let pubkeyScript ← scriptAt data 0 scriptLen
  pure { value, pubkeyScript }

def countedAt {α : Type} (most : Nat) (one : Walk α) : Walk (List α) := do
  let count ← Transaction.compactSizeAt data
  if count > most then throw .nullopt
  else Cursor.many one count

def Transaction.fieldsAt : Walk Transaction := do
  requireAt data 4
  let version ← uint32At data
  let inputs ← countedAt data maxCount (TxInput.deserializeAt data)
  let outputs ← countedAt data maxCount (TxOutput.deserializeAt data)
  requireAt data 4
  let locktime ← uint32At data
  pure { version, inputs, outputs, locktime }

/-- `Deserialize(data, len, consumed)`. -/
def Transaction.deserializeFrontAt : Walk CachedTransaction := do
  requireAt data 10
  let start ← get
  let tx ← fieldsAt data
  let stop ← get
  pure { tx with cachedTxID := none, cachedSerializedSize := some (stop - start) }

/-- The value, once the whole input was consumed. -/
def finished {α : Type} : Except Misstep (α × Nat) → Except Misstep α
  | .ok (value, stop) => if stop = data.bytes.length then .ok value else .error .nullopt
  | .error misstep => .error misstep

/-- `Deserialize(data, len)`. -/
def Transaction.deserializeAt : Except Misstep CachedTransaction :=
  finished data (deserializeFrontAt data 0)

def BlockHeader.deserializeAt : Walk BlockHeader := do
  let version ← uint32At data
  let prevBlockHash ← arrayAt data 32
  let merkleRoot ← arrayAt data 32
  let timestamp ← uint32At data
  let bits ← uint32At data
  let nonce ← uint32At data
  let baseFeePerGas ← uint64At data
  let gasUsed ← uint64At data
  let gasLimit ← uint64At data
  pure ⟨version, prevBlockHash, merkleRoot, timestamp, bits, nonce, baseFeePerGas, gasUsed, gasLimit⟩

/-- A transaction of a block, with the test of the bytes it consumed. -/
def Block.transactionAt : Walk CachedTransaction := do
  let start ← get
  let tx ← Transaction.deserializeFrontAt data
  let stop ← get
  if stop - start = 0 ∨ stop - start > data.bytes.length - start then throw .nullopt else pure tx

def Block.fieldsAt : Walk CachedBlock := do
  requireAt data 105
  let header ← BlockHeader.deserializeAt data
  let txCount ← compactSizeAt data
  if txCount = 0 ∨ txCount > maxTransactions then throw .nullopt
  else
    let transactions ← Cursor.many (transactionAt data) txCount
    pure { header, transactions }

def Block.deserializeAt : Except Misstep CachedBlock := finished data (fieldsAt data 0)

end Pointers

/-! ## The pointer parsers follow the readers -/

variable {data : ByteVector} {position : Nat}

/-- What a pointer parser does where a reader of the wire format is known. -/
abbrev WalksAt {α : Type} (data : ByteVector) (position : Nat) (walk : Walk α) (read : Read α) : Prop :=
  Cursor.FollowsAt data.bytes Fault.misstep position walk read

abbrev Walks {α : Type} (data : ByteVector) (walk : Walk α) (read : Read α) : Prop :=
  Cursor.Follows data.bytes Fault.misstep walk read

/-! ### Unchecked reads -/

theorem numberAt_spans (width : Nat) :
    Cursor.Spans data.bytes width (numberAt data width) (readNat width) :=
  (Cursor.Spans.next _ _ width).bind fun _ => .pure _

theorem uint32At_spans : Cursor.Spans data.bytes 4 (uint32At data) readUInt32 :=
  (numberAt_spans 4).bind fun _ => .pure _

theorem uint64At_spans : Cursor.Spans data.bytes 8 (uint64At data) readUInt64 :=
  (numberAt_spans 8).bind fun _ => .pure _

theorem byteAt_spans : Cursor.Spans data.bytes 1 (byteAt data) readByte :=
  (numberAt_spans 1).bind fun _ => .pure _

theorem arrayAt_spans (size : Nat) :
    Cursor.Spans data.bytes size (arrayAt data size) (Reader.takeFixed Fault.nullopt size) := by
  intro position enough
  have remain : size ≤ (data.bytes.drop position).length := by
    rw [List.length_drop]
    omega
  refine ⟨⟨(data.bytes.drop position).take size, List.length_take_of_le remain⟩, ?_, ?_⟩
  · rw [Reader.takeFixed, dif_pos remain, List.drop_drop]
  · rw [arrayAt, dif_pos enough]

theorem OutPoint.deserializeAt_spans :
    Cursor.Spans data.bytes 36 (deserializeAt data) deserialize :=
  (arrayAt_spans 32).bind fun _ => uint32At_spans.bind fun _ => .pure _

theorem AssetAmount.deserializeAt_spans :
    Cursor.Spans data.bytes 9 (deserializeAt data) deserialize :=
  byteAt_spans.bind fun _ => uint64At_spans.bind fun _ => .pure _

theorem BlockHeader.deserializeAt_spans :
    Cursor.Spans data.bytes 104 (deserializeAt data) deserialize :=
  uint32At_spans.bind fun _ => (arrayAt_spans 32).bind fun _ => (arrayAt_spans 32).bind fun _ =>
    uint32At_spans.bind fun _ => uint32At_spans.bind fun _ => uint32At_spans.bind fun _ =>
      uint64At_spans.bind fun _ => uint64At_spans.bind fun _ => uint64At_spans.bind fun _ => .pure _

/-! ### Reads of too few bytes -/

theorem readNat_short {width : Nat} {input : Bytes} (short : input.length < width) :
    readNat width input = .error .nullopt := by
  refine Reader.bind_of_error ?_
  rw [Reader.take, if_pos short]

theorem readUInt32_short {input : Bytes} (short : input.length < 4) :
    readUInt32 input = .error .nullopt := Reader.bind_of_error (readNat_short short)

theorem readByte_short {input : Bytes} (short : input.length < 1) :
    readByte input = .error .nullopt := Reader.bind_of_error (readNat_short short)

theorem OutPoint.deserialize_short {input : Bytes} (short : input.length < 36) :
    deserialize input = .error .nullopt := by
  by_cases enough : 32 ≤ input.length
  · have read : Reader.takeFixed Fault.nullopt 32 input =
        .ok (⟨input.take 32, List.length_take_of_le enough⟩, input.drop 32) := by
      rw [Reader.takeFixed, dif_pos enough]
    refine Reader.bind_error.mpr (.inr ⟨_, _, read, Reader.bind_of_error (readUInt32_short ?_)⟩)
    rw [List.length_drop]
    omega
  · refine Reader.bind_of_error ?_
    rw [Reader.takeFixed, dif_neg enough]

theorem AssetAmount.deserialize_short {input : Bytes} (short : input.length < 9) :
    deserialize input = .error .nullopt := by
  by_cases enough : 1 ≤ input.length
  · obtain ⟨first, rest, rfl⟩ := List.exists_cons_of_length_pos enough
    refine Reader.bind_error.mpr (.inr ⟨first, rest, readByte_ok.mpr rfl, ?_⟩)
    refine Reader.bind_of_error (Reader.bind_of_error (readNat_short ?_))
    rw [List.length_cons] at short
    omega
  · exact Reader.bind_of_error (readByte_short (Nat.lt_of_not_le enough))

/-- A check of as many bytes as the reader needs. -/
theorem requireAt_walks {α : Type} {walk : Walk α} {read : Read α} {count : Nat}
    (inside : position ≤ data.bytes.length)
    (short : ∀ input : Bytes, input.length < count → read input = .error .nullopt)
    (enough : position + count ≤ data.bytes.length → WalksAt data position walk read) :
    WalksAt data position (requireAt data count >>= fun _ => walk) read := by
  have same : Fault.nullopt.misstep = .nullopt := rfl
  refine Cursor.FollowsAt.require same (fun few => ?_) (fun there => ?_)
  · refine short _ ?_
    rw [List.length_drop]
    omega
  · exact enough (by omega)

/-! ### Checked reads -/

theorem sizeAtLeastAt_walks (least width : Nat) :
    Walks data (sizeAtLeastAt data least width) (readSizeAtLeast least width) := by
  intro position inside
  refine requireAt_walks inside (fun input short => Reader.bind_of_error (readNat_short short))
    fun enough => ?_
  refine ((numberAt_spans width).followsAt enough).bind fun size stop within _ => ?_
  split
  · exact Cursor.Follows.throw Fault.nullopt stop within
  · exact .pure within size

theorem compactSizeAtWith_walks (leastTwo leastFour leastEight : Nat) :
    Walks data (compactSizeAtWith data leastTwo leastFour leastEight)
      (readCompactSizeWith leastTwo leastFour leastEight) := by
  intro position inside
  refine requireAt_walks inside (fun input short => Reader.bind_of_error (readByte_short short))
    fun enough => ?_
  refine (byteAt_spans.followsAt enough).bind fun first stop within _ => ?_
  split
  · exact .pure within _
  · split
    · exact sizeAtLeastAt_walks _ _ stop within
    · split
      · exact sizeAtLeastAt_walks _ _ stop within
      · exact sizeAtLeastAt_walks _ _ stop within

/-- The copy asks for too much exactly where the reader's resize throws. -/
theorem scriptAt_walks (trailing length : Nat) :
    Walks data (scriptAt data trailing length) (readScript trailing length) := by
  intro position inside
  have fits := data.fits
  have remain : ((data.bytes.drop position).length : Int) = (data.bytes.length : Int) - position := by
    rw [List.length_drop]
    omega
  refine Cursor.FollowsAt.require (show Fault.nullopt.misstep = .nullopt from rfl)
    (fun few => ?_) (fun there => ?_)
  · rw [readScript, if_pos (by omega)]
  · by_cases enough : length ≤ data.bytes.length - position
    · have taken : length ≤ (data.bytes.drop position).length ∧ length < 2 ^ 63 - 4 := by
        rw [List.length_drop]
        omega
      have read : readScript trailing length (data.bytes.drop position) =
          .ok (⟨(data.bytes.drop position).take length, by
            rw [List.length_take_of_le taken.1]
            exact taken.2⟩, data.bytes.drop (position + length)) := by
        rw [readScript, if_neg (by omega), dif_pos taken, List.drop_drop]
      refine .of_ok (show position + length ≤ data.bytes.length by omega) read ?_
      rw [copyAt, if_pos enough]
    · have lacking : ¬ (length ≤ (data.bytes.drop position).length ∧ length < 2 ^ 63 - 4) := by
        rw [List.length_drop]
        omega
      have threw : readScript trailing length (data.bytes.drop position) = .error .resizeThrows := by
        rw [readScript, if_neg (by omega), dif_neg lacking]
      refine .of_error threw ?_
      rw [copyAt, if_neg enough]
      rfl

theorem TxInput.deserializeAt_walks :
    Walks data (deserializeAt data) (deserializeWith Transaction.readCompactSizeChecked) := by
  intro position inside
  refine requireAt_walks inside
    (fun input short => Reader.bind_of_error (OutPoint.deserialize_short short)) fun enough => ?_
  refine (OutPoint.deserializeAt_spans.followsAt enough).bind fun prevout afterPrevout within _ => ?_
  refine (compactSizeAtWith_walks 0 0 0 afterPrevout within).bind
    fun scriptLen afterLen within sized => ?_
  refine (scriptAt_walks 4 scriptLen afterLen within).bind fun script afterScript within scripted => ?_
  -- The check before the script left four bytes for the sequence number.
  obtain ⟨_, _, four⟩ := (readScript_ok (Nat.le_refl 4) (readCompactSizeChecked_word sized)).mp scripted
  rw [List.length_drop] at four
  exact (uint32At_spans.followsAt (by omega)).bind fun sequence stop within _ => .pure within _

theorem TxOutput.deserializeAt_walks :
    Walks data (deserializeAt data) (deserializeWith Transaction.readCompactSizeChecked) := by
  intro position inside
  refine requireAt_walks inside
    (fun input short => Reader.bind_of_error (AssetAmount.deserialize_short short)) fun enough => ?_
  refine (AssetAmount.deserializeAt_spans.followsAt enough).bind fun value afterValue within _ => ?_
  refine (compactSizeAtWith_walks 0 0 0 afterValue within).bind fun scriptLen afterLen within _ => ?_
  exact (scriptAt_walks 0 scriptLen afterLen within).bind fun script stop within _ => .pure within _

theorem countedAt_walks {α : Type} {walk : Walk α} {read : Read α} (most : Nat)
    (one : Walks data walk read) :
    Walks data (countedAt data most walk)
      (readCounted Transaction.readCompactSizeChecked most read) := by
  intro position inside
  refine (compactSizeAtWith_walks 0 0 0 position inside).bind fun count stop within _ => ?_
  split
  · exact Cursor.Follows.throw Fault.nullopt stop within
  · exact one.many count stop within

/-- Both want the whole input. -/
theorem finished_eq {α : Type} {walk : Walk α} {read : Read α} (walks : WalksAt data 0 walk read) :
    finished data (walk 0) = (Reader.whole .nullopt read data.bytes).mapError Fault.misstep := by
  obtain ⟨value, stop, within, done, walked⟩ | ⟨fault, failed, walked⟩ := walks.cases
  · rw [List.drop_zero] at done
    by_cases all : stop = data.bytes.length
    · have rest : data.bytes.drop stop = [] := List.drop_eq_nil_of_le (by omega)
      rw [rest] at done
      rw [Reader.whole_ok.mpr done, walked, finished, if_pos all]
      rfl
    · have some_ : (data.bytes.drop stop).isEmpty = false := by
        rw [List.isEmpty_eq_false_iff]
        intro empty
        have none_ := List.drop_eq_nil_iff.mp empty
        omega
      have refused : Reader.whole .nullopt read data.bytes = .error .nullopt := by
        rw [Reader.whole, done]
        change (if (data.bytes.drop stop).isEmpty then pure value else Except.error Fault.nullopt) = _
        rw [some_]
        rfl
      rw [refused, walked, finished, if_neg all]
      rfl
  · rw [List.drop_zero] at failed
    have refused : Reader.whole .nullopt read data.bytes = .error fault := by
      rw [Reader.whole, failed]
      rfl
    rw [refused, walked]
    rfl

namespace Transaction

theorem fieldsAt_walks : Walks data (fieldsAt data) (readFields readCompactSizeChecked) := by
  intro position inside
  refine requireAt_walks inside (fun input short => Reader.bind_of_error (readUInt32_short short))
    fun enough => ?_
  refine (uint32At_spans.followsAt enough).bind fun version afterVersion within _ => ?_
  refine (countedAt_walks maxCount TxInput.deserializeAt_walks afterVersion within).bind
    fun inputs afterInputs within _ => ?_
  refine (countedAt_walks maxCount TxOutput.deserializeAt_walks afterInputs within).bind
    fun outputs afterOutputs within _ => ?_
  refine requireAt_walks within (fun input short => Reader.bind_of_error (readUInt32_short short))
    fun enough => ?_
  exact (uint32At_spans.followsAt enough).bind fun locktime stop within _ => .pure within _

theorem deserializeFrontAt_walks :
    Walks data (deserializeFrontAt data) (deserializeFrontWith readCompactSizeChecked) := by
  intro position inside
  refine requireAt_walks inside (fun input short => ?_) fun enough => ?_
  · rw [deserializeFrontWith, if_pos short]
  · have long : ¬ (data.bytes.drop position).length < 10 := by
      rw [List.length_drop]
      omega
    obtain ⟨tx, stop, within, done, walked⟩ | ⟨fault, failed, walked⟩ :=
      (fieldsAt_walks position inside).cases
    · have consumed : (data.bytes.drop position).length - (data.bytes.drop stop).length =
          stop - position := by
        rw [List.length_drop, List.length_drop]
        omega
      refine .of_ok within ?_ (show _ = Except.ok (({ tx with
          cachedTxID := none, cachedSerializedSize := some (stop - position) } : CachedTransaction),
        stop) from ?_)
      · rw [deserializeFrontWith, if_neg long, done, ← consumed]
        rfl
      · rw [Cursor.get_bind, Cursor.bind_ok_of walked, Cursor.get_bind]
        rfl
    · refine .of_error (show _ = Except.error fault from ?_) ?_
      · rw [deserializeFrontWith, if_neg long, failed]
        rfl
      · rw [Cursor.get_bind, Cursor.bind_error_of walked]

/-- The pointer parser answers what the parser answers, and where that one throws it has
asked for too long a script. -/
theorem deserializeAt_eq : deserializeAt data = (deserialize data.bytes).mapError Fault.misstep :=
  finished_eq (deserializeFrontAt_walks 0 (Nat.zero_le _))

end Transaction

namespace Block

/-- A parsed transaction takes at least ten bytes and none that is not there. -/
theorem transactionAt_walks :
    Walks data (transactionAt data)
      (Transaction.deserializeFrontWith Transaction.readCompactSizeChecked) := by
  intro position inside
  obtain ⟨tx, stop, within, done, walked⟩ | ⟨fault, failed, walked⟩ :=
    (Transaction.deserializeFrontAt_walks position inside).cases
  · have fields := (Transaction.deserializeFront_ok.mp done).2.1
    have consumed := (Transaction.readFields_tight _ _ _ fields).1
    have long := tx.serialize_length_ge
    rw [List.length_drop, List.length_drop] at consumed
    refine .of_ok within done ?_
    rw [transactionAt, Cursor.get_bind, Cursor.bind_ok_of walked, Cursor.get_bind, if_neg (by omega)]
    rfl
  · refine .of_error failed ?_
    rw [transactionAt, Cursor.get_bind, Cursor.bind_error_of walked]

/-- Once the length of the smallest block is there, the header is read without a check. -/
theorem fieldsAt_walks {position : Nat} (enough : position + 105 ≤ data.bytes.length) :
    WalksAt data position (fieldsAt data) (readFieldsWith Transaction.readCompactSizeChecked) := by
  have same : Fault.nullopt.misstep = .nullopt := rfl
  refine Cursor.FollowsAt.require same (fun few => ?_) (fun _ => ?_)
  · omega
  · refine (BlockHeader.deserializeAt_spans.followsAt (by omega)).bind
      fun header afterHeader within _ => ?_
    refine (compactSizeAtWith_walks 253 0x10000 0x100000000 afterHeader within).bind
      fun txCount afterCount within _ => ?_
    split
    · exact Cursor.Follows.throw Fault.nullopt afterCount within
    · exact (transactionAt_walks.many txCount afterCount within).bind
        fun transactions stop within _ => .pure within _

/-- The pointer parser answers what the parser answers, and where that one throws it has
asked for too long a script. -/
theorem deserializeAt_eq : deserializeAt data = (deserialize data.bytes).mapError Fault.misstep := by
  by_cases short : data.bytes.length < 105
  · have refused : fieldsAt data 0 = .error .nullopt := by
      refine Cursor.bind_error_of ?_
      rw [requireAt, Cursor.require, if_pos (by omega)]
    rw [deserializeAt, refused, deserialize, deserializeWith, if_pos short]
    rfl
  · have walks := finished_eq (fieldsAt_walks (show 0 + 105 ≤ data.bytes.length by omega))
    rw [deserializeAt, walks, deserialize, deserializeWith, if_neg short]
    rfl

end Block

end Parthenon.Primitives
