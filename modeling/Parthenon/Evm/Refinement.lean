import Parthenon.Evm.MemoryAccess
import Parthenon.Evm.Stop
import Parthenon.Evm.WordViews

namespace Parthenon.Evm

open Library Machine

/-! # The virtual machine refines the machine on numbers

An execution on bytes, with its 64-bit gas, its growing memory and its exceptions, ends
as one on numbers does, as long as no product, power, shift, address or `STOP` on the way
is one of those that the virtual machine gets wrong.
-/

/-- What the slots of an address hold. -/
def WorldState.slots (state : WorldState) (addr : Address) : BitVec 256 → BitVec 256 :=
  fun key => (state.getStorage addr (Uint256.ofWord key)).word

def ExecutionContext.environment (ctx : ExecutionContext) : Environment where
  gasLimit := ctx.gasLimit.toNat
  isStatic := ctx.isStatic
  address := ctx.address.toUint256.word
  caller := ctx.caller.toUint256.word
  value := ctx.value.word
  gasPrice := (toUint256 ctx.gasPrice).word
  timestamp := (toUint256 ctx.timestamp).word
  blockNumber := (toUint256 ctx.blockNumber).word
  difficulty := (toUint256 ctx.difficulty).word
  gasLimitBlock := (toUint256 ctx.gasLimitBlock).word
  chainId := (toUint256 ctx.chainId).word
  baseFee := (toUint256 ctx.baseFee).word

namespace VM

/-- A virtual machine seen as a machine on numbers. -/
def machine (vm : VM) : Machine where
  stack := vm.stack.map Uint256.word
  memory := EndlessMemory.ofList vm.memory
  size := vm.memory.length
  storage := vm.state.slots vm.ctx.address
  gas := vm.gasUsed.toNat

/-- The gas covers the memory and the stack is within its limit. -/
structure Sound (vm : VM) : Prop where
  covered : 3 * words vm.memory.length ≤ vm.gasUsed.toNat
  limited : vm.gasUsed.toNat ≤ vm.ctx.gasLimit.toNat
  stack : vm.stack.length ≤ maxStackSize

/-- What an opcode does not change before it ends the execution. -/
structure Kept (vm after : VM) : Prop where
  ctx : after.ctx = vm.ctx
  returnData : after.returnData = vm.returnData
  sound : vm.Sound → after.Sound

theorem Kept.trans {first second third : VM} (here : Kept first second) (later : Kept second third) :
    Kept first third :=
  ⟨later.ctx.trans here.ctx, later.returnData.trans here.returnData,
    fun sound => later.sound (here.sound sound)⟩

/-- An action ends as an operation on numbers does; where that has no result, it throws with
the gas and the world as they were. -/
def Follows (vm : VM) (abstract : Option Machine) (outcome : EStateM.Result Fault VM Unit) : Prop :=
  match abstract with
  | some machine => ∃ after, outcome = .ok () after ∧ after.machine = machine ∧ Kept vm after
  | none => ∃ what after, outcome = .error (.runtimeError what) after ∧
      after.gasUsed = vm.gasUsed ∧ SameWorld vm after

/-! ## The stack -/

section Stack

variable {vm : VM}

theorem Follows.popped {rest : List Uint256} (shorter : rest.length ≤ vm.stack.length)
    {abstract : Option Machine} {outcome : EStateM.Result Fault VM Unit}
    (follows : Follows { vm with stack := rest } abstract outcome) : Follows vm abstract outcome := by
  cases abstract with
  | none => exact follows
  | some machine =>
      obtain ⟨after, done, same, kept⟩ := follows
      exact ⟨after, done, same, kept.ctx, kept.returnData, fun sound =>
        kept.sound ⟨sound.covered, sound.limited, shorter.trans sound.stack⟩⟩

theorem push_eq (value : Uint256) (vm : VM) :
    push value vm =
      if vm.stack.length ≥ maxStackSize then .error (.runtimeError "Stack overflow") vm
      else .ok () { vm with stack := value :: vm.stack } := by
  change (if vm.stack.length ≥ maxStackSize then _ else _ : Action Unit) vm = _
  split <;> rfl

theorem push_follows (value : Uint256) (vm : VM) :
    Follows vm (vm.machine.push value.word) (push value vm) := by
  rw [push_eq, Machine.push]
  have length : vm.machine.stack.length = vm.stack.length := List.length_map _
  by_cases full : vm.stack.length ≥ maxStackSize
  · rw [if_pos full, if_neg (by rw [length]; exact Nat.not_lt.mpr full)]
    exact ⟨_, vm, rfl, rfl, .refl vm⟩
  · rw [if_neg full, if_pos (by rw [length]; exact Nat.not_le.mp full)]
    refine ⟨_, rfl, rfl, rfl, rfl, fun sound => ⟨sound.covered, sound.limited, ?_⟩⟩
    exact Nat.not_le.mp full

theorem pop_follows {next : Uint256 → Action Unit} {abstract : BitVec 256 × Machine → Option Machine}
    (later : ∀ value rest, vm.stack = value :: rest →
      Follows { vm with stack := rest } (abstract (value.word, VM.machine { vm with stack := rest }))
        (next value { vm with stack := rest })) :
    Follows vm (vm.machine.pop >>= abstract) ((pop >>= next) vm) := by
  change Follows vm _ (EStateM.bind pop next vm)
  rw [EStateM.bind, pop_eq, Machine.pop]
  cases shape : vm.stack with
  | nil =>
      simp only [VM.machine, shape, List.map_nil]
      exact ⟨_, vm, rfl, rfl, .refl vm⟩
  | cons value rest =>
      have follows := later value rest shape
      simp only [VM.machine, shape, List.map_cons]
      exact follows.popped (by rw [shape]; exact Nat.le_succ _)

theorem unary_follows {operation : Uint256 → Uint256} {onWords : BitVec 256 → BitVec 256}
    (exactly : ∀ a, (operation a).word = onWords a.word) :
    Follows vm (vm.machine.unary onWords) (unary operation vm) := by
  apply pop_follows
  intro a rest _
  dsimp only
  rw [← exactly]
  exact push_follows _ _

theorem binary_follows {operation : Uint256 → Uint256 → Uint256}
    {onWords : BitVec 256 → BitVec 256 → BitVec 256}
    (exactly : ∀ b a rest, vm.stack = b :: a :: rest →
      (operation a b).word = onWords a.word b.word) :
    Follows vm (vm.machine.binary onWords) (binary operation vm) := by
  apply pop_follows
  intro b rest shape
  apply pop_follows
  intro a others shapeRest
  dsimp only at shapeRest ⊢
  rw [← exactly b a others (by rw [shape, shapeRest])]
  exact push_follows _ _

theorem dup_follows {depth : Nat} (positive : 0 < depth) (vm : VM) :
    Follows vm (vm.machine.dup depth) (dup depth vm) := by
  have found : vm.machine.stack[depth - 1]? = (vm.stack[depth - 1]?).map Uint256.word :=
    List.getElem?_map
  have peeked (value : Uint256) (there : vm.stack[depth - 1]? = some value) :
      peek (depth - 1) vm = .ok value vm := by
    simp only [peek, bind, EStateM.bind, get, getThe, MonadStateOf.get]
    delta EStateM.get
    simp only [there]
    rfl
  have whole : dup depth vm = if depth = 0 ∨ depth > vm.stack.length then
      .error (.runtimeError "Invalid DUP depth") vm
      else EStateM.bind (peek (depth - 1)) push vm := by
    change (if depth = 0 ∨ depth > vm.stack.length then
      (do throw (.runtimeError "Invalid DUP depth"); push (← peek (depth - 1)))
      else (do push (← peek (depth - 1))) : Action Unit) vm = _
    split <;> rfl
  rw [whole, Machine.dup, found]
  by_cases deep : depth > vm.stack.length
  · rw [if_pos (.inr deep), List.getElem?_eq_none (by omega)]
    exact ⟨_, vm, rfl, rfl, .refl vm⟩
  · have there := List.getElem?_eq_getElem (l := vm.stack) (i := depth - 1) (by omega)
    rw [if_neg (by omega), EStateM.bind, peeked _ there, there]
    exact push_follows _ vm

theorem swap_follows (depth : Nat) (vm : VM) :
    Follows vm (vm.machine.swap (depth + 1)) (swap (depth + 1) vm) := by
  rw [swap_succ_eq, Machine.swap, Machine.pop]
  cases shape : vm.stack with
  | nil =>
      simp only [VM.machine, shape, List.map_nil]
      exact ⟨_, vm, rfl, rfl, .refl vm⟩
  | cons top rest =>
      have found : (rest.map Uint256.word)[depth]? = (rest[depth]?).map Uint256.word :=
        List.getElem?_map
      simp only [VM.machine, shape, List.map_cons, Nat.add_sub_cancel]
      change Follows vm ((rest.map Uint256.word)[depth]?.bind _) _
      rw [found]
      cases rest[depth]? with
      | none => exact ⟨_, vm, rfl, rfl, .refl vm⟩
      | some value =>
          refine ⟨_, rfl, ?_, rfl, rfl, fun sound => ⟨sound.covered, sound.limited, ?_⟩⟩
          · simp only [VM.machine, List.map_cons, List.map_set]
          · have short := sound.stack
            rw [shape, List.length_cons] at short
            rwa [List.length_cons, List.length_set]

end Stack

/-! ## The memory -/

section Memory

variable {allocates : VM → UInt64 → Bool}

/-- Every vector of a possible length is served. -/
def Serves (allocates : VM → UInt64 → Bool) : Prop :=
  ∀ vm size, size.toNat < 2 ^ 63 → allocates vm size = true

variable (serves : Serves allocates) {vm : VM}

include serves in
theorem growMemory_served {size : UInt64} (small : size.toNat < 2 ^ 63) (vm : VM) :
    growMemory allocates size vm =
      .ok () { vm with memory := vm.memory ++ List.replicate (size.toNat - vm.memory.length) 0 } := by
  have served : (decide (size < 2 ^ 63) && allocates vm size) = true := by
    rw [serves vm size small, Bool.and_true, decide_eq_true_iff, vectorLimit]
    exact UInt64.lt_iff_toNat_lt.mpr small
  unfold growMemory
  refine bind_ok_iff.mpr ⟨vm, vm, rfl, ?_⟩
  rw [if_pos served]
  rfl

theorem Sound.memory_short (sound : vm.Sound) (limit : vm.ctx.gasLimit.toNat < 2 ^ 59) :
    vm.memory.length < 2 ^ 63 := by
  have covered := sound.covered
  have limited := sound.limited
  unfold words at covered
  omega

/-- The gas after a growth, counted on 64 bits. -/
theorem expansion_counts (sound : vm.Sound) (limit : vm.ctx.gasLimit.toNat < 2 ^ 59) {size : UInt64}
    (small : size.toNat ≤ 2 ^ 64 - 32) (grows : vm.memory.length < size.toNat) :
    (vm.gasUsed + expansionCost vm.memory size).toNat =
      vm.gasUsed.toNat + 3 * (words size.toNat - words vm.memory.length) := by
  have short := sound.memory_short limit
  have limited := sound.limited
  have newWords : ((size + 31) / 32).toNat = words size.toNat := by
    rw [UInt64.toNat_div, UInt64.toNat_add, show (31 : UInt64).toNat = 31 from rfl,
      show (32 : UInt64).toNat = 32 from rfl, Nat.mod_eq_of_lt (by omega), words]
  have oldWords : ((UInt64.ofNat vm.memory.length + 31) / 32).toNat = words vm.memory.length := by
    rw [UInt64.toNat_div, UInt64.toNat_add, UInt64.toNat_ofNat', show (31 : UInt64).toNat = 31 from rfl,
      show (32 : UInt64).toNat = 32 from rfl,
      Nat.mod_eq_of_lt (show vm.memory.length < 2 ^ 64 by omega), Nat.mod_eq_of_lt (by omega), words]
  have ordered : words vm.memory.length ≤ words size.toNat := by
    unfold words
    omega
  have most : words size.toNat ≤ 2 ^ 59 := by
    unfold words
    omega
  rw [UInt64.toNat_add, expansionCost, UInt64.toNat_mul, UInt64.toNat_sub_of_le _ _
    (UInt64.le_iff_toNat_le.mpr (by rw [newWords, oldWords]; exact ordered)), newWords, oldWords,
    show (3 : UInt64).toNat = 3 from rfl]
  omega

include serves in
theorem expandMemory_follows (sound : vm.Sound) (limit : vm.ctx.gasLimit.toNat < 2 ^ 59)
    {size : UInt64} (small : size.toNat ≤ 2 ^ 64 - 32) :
    Follows vm (vm.machine.touch vm.ctx.environment size.toNat) (expandMemory allocates size vm) := by
  rw [expandMemory_eq, touch]
  change Follows vm (if vm.memory.length < size.toNat then _ else _) _
  by_cases grows : vm.memory.length < size.toNat
  · have counts := expansion_counts sound limit small grows
    rw [if_pos grows, if_pos grows]
    change Follows vm (if vm.gasUsed.toNat + 3 * (words size.toNat - words vm.memory.length) ≤
      vm.ctx.gasLimit.toNat then _ else _) _
    by_cases spent : vm.gasUsed + expansionCost vm.memory size > vm.ctx.gasLimit
    · have above := UInt64.lt_iff_toNat_lt.mp spent
      rw [counts] at above
      rw [if_pos spent, if_neg (Nat.not_le.mpr above)]
      exact ⟨_, vm, rfl, rfl, .refl vm⟩
    · have within := UInt64.le_iff_toNat_le.mp (UInt64.not_lt.mp spent)
      rw [counts] at within
      have covered := sound.covered
      -- gas below the limit does not pay for more than a vector can hold
      have possible : size.toNat < 2 ^ 63 := by
        unfold words at within covered
        omega
      have grown : (vm.memory ++ List.replicate (size.toNat - vm.memory.length) 0).length =
          size.toNat := by
        rw [List.length_append, List.length_replicate]
        omega
      rw [if_neg spent, if_pos within, growMemory_served serves possible]
      refine ⟨_, rfl, ?_, rfl, rfl, fun _ => ⟨?_, ?_, sound.stack⟩⟩
      · simp only [VM.machine, counts, grown, words]
        congr 1
        exact EndlessMemory.ofList_grow vm.memory _
      · dsimp only
        rw [grown, counts]
        unfold words at covered ⊢
        omega
      · dsimp only
        rw [counts]
        exact within
  · rw [if_neg grows, if_neg grows]
    exact ⟨vm, rfl, rfl, rfl, rfl, id⟩

/-- The end of a range, as the virtual machine adds it up. -/
theorem range_end {offset : Uint256} {length : UInt64}
    (small : offset.toNat + length.toNat ≤ 2 ^ 64 - 32) :
    (toUint64 offset).toNat = offset.toNat ∧
      (toUint64 offset + length).toNat = offset.toNat + length.toNat := by
  have low : (toUint64 offset).toNat = offset.toNat := by
    rw [toUint64_toNat]
    omega
  refine ⟨low, ?_⟩
  rw [UInt64.toNat_add, low]
  omega

theorem touch_stack {env : Environment} {machine after : Machine} {size : Nat}
    (touched : machine.touch env size = some after) :
    after.stack = machine.stack ∧ size ≤ after.size := by
  rcases touch_cases touched with ⟨within, rfl⟩ | ⟨_, _, rfl⟩
  · exact ⟨rfl, within⟩
  · exact ⟨rfl, Nat.le_refl _⟩

include serves in
/-- Growing the memory for a range throws, or brings the range into the memory. -/
theorem range_cases (sound : vm.Sound) (limit : vm.ctx.gasLimit.toNat < 2 ^ 59) {offset : Uint256}
    {length : UInt64} (small : offset.toNat + length.toNat ≤ 2 ^ 64 - 32) :
    (vm.machine.touch vm.ctx.environment (offset.toNat + length.toNat) = none ∧
      ∃ what after,
        expandMemory allocates (toUint64 offset + length) vm = .error (.runtimeError what) after ∧
        after.gasUsed = vm.gasUsed ∧ SameWorld vm after) ∨
    ∃ after,
      vm.machine.touch vm.ctx.environment (offset.toNat + length.toNat) = some after.machine ∧
      expandMemory allocates (toUint64 offset + length) vm = .ok () after ∧ Kept vm after ∧
      after.stack.length = vm.stack.length ∧
      (toUint64 offset).toNat + length.toNat ≤ after.memory.length := by
  obtain ⟨low, ending⟩ := range_end small
  have expanded := expandMemory_follows serves sound limit (ending.trans_le small)
  rw [ending] at expanded
  cases touched : vm.machine.touch vm.ctx.environment (offset.toNat + length.toNat) with
  | none =>
      rw [touched] at expanded
      exact .inl ⟨rfl, expanded⟩
  | some machine =>
      rw [touched] at expanded
      obtain ⟨after, done, rfl, kept⟩ := expanded
      obtain ⟨sameStack, reached⟩ := touch_stack touched
      have sameLength := congrArg List.length sameStack
      rw [VM.machine, VM.machine, List.length_map, List.length_map] at sameLength
      exact .inr ⟨after, rfl, done, kept, sameLength, by rw [low]; exact reached⟩

include serves in
/-- Both stores write as many bytes as they have grown the memory for. -/
theorem store_follows (sound : vm.Sound) (limit : vm.ctx.gasLimit.toNat < 2 ^ 59) {offset : Uint256}
    {length : UInt64} {bytes : Bytes} (width : bytes.length = length.toNat)
    (small : offset.toNat + length.toNat ≤ 2 ^ 64 - 32) :
    Follows vm (vm.machine.store vm.ctx.environment offset.word bytes)
      ((do
        expandMemory allocates (toUint64 offset + length)
        writeMemory (toUint64 offset) bytes : Action Unit) vm) := by
  rw [store, Uint256.word_toNat, width]
  change Follows vm _ (EStateM.bind _ _ vm)
  rw [EStateM.bind]
  rcases range_cases serves sound limit small with
    ⟨none_, what, after, thrown, same⟩ | ⟨after, touched, done, kept, _, reached⟩
  · rw [none_, thrown]
    exact ⟨what, after, rfl, same⟩
  · have low := (range_end small).1
    rw [low, ← width] at reached
    have sameLength : (after.memory.take offset.toNat ++ bytes ++
        after.memory.drop (offset.toNat + bytes.length)).length = after.memory.length := by
      simp only [List.length_append, List.length_take, List.length_drop]
      omega
    rw [touched, done]
    dsimp only
    rw [writeMemory_eq, low, if_pos reached]
    refine ⟨_, rfl, ?_, kept.ctx, kept.returnData, fun before => ?_⟩
    · simp only [VM.machine, sameLength]
      rw [← EndlessMemory.ofList_write _ _ reached]
    · obtain ⟨covered, limited, stack⟩ := kept.sound before
      exact ⟨by rw [sameLength]; exact covered, limited, stack⟩

/-- A range of the memory is read as the range of the memory without end. -/
theorem read_range {after : VM} {offset : Uint256} {length : UInt64}
    (small : offset.toNat + length.toNat ≤ 2 ^ 64 - 32)
    (reached : (toUint64 offset).toNat + length.toNat ≤ after.memory.length) :
    readMemory (toUint64 offset) length after =
      .ok (after.machine.memory.read offset.toNat length.toNat) after := by
  have low := (range_end small).1
  rw [readMemory_eq, if_pos reached, low]
  rw [low] at reached
  rw [show after.machine.memory = EndlessMemory.ofList after.memory from rfl,
    EndlessMemory.ofList_read_of_le _ reached]

theorem memoryLoad_ok {after : VM} {offset : Uint256}
    (small : offset.toNat + (32 : UInt64).toNat ≤ 2 ^ 64 - 32)
    (done : expandMemory allocates (toUint64 offset + 32) vm = .ok () after)
    (reached : (toUint64 offset).toNat + (32 : UInt64).toNat ≤ after.memory.length) :
    ∃ value : Uint256, memoryLoad allocates (toUint64 offset) vm = .ok value after ∧
      value.word = bytesWord (after.machine.memory.read offset.toNat 32) := by
  have wide : (after.machine.memory.read offset.toNat 32).length = 32 :=
    EndlessMemory.read_length _ _ _
  refine ⟨⟨_, wide⟩, ?_, rfl⟩
  refine bind_ok_iff.mpr ⟨(), after, done, bind_ok_iff.mpr ⟨_, after, read_range small reached, ?_⟩⟩
  rw [FixedBytes.ofBytes?, show (32 : UInt64).toNat = 32 from rfl, dif_pos wide]
  rfl

include serves in
theorem mload_follows (sound : vm.Sound) (limit : vm.ctx.gasLimit.toNat < 2 ^ 59)
    (room : vm.stack.length < maxStackSize) {offset : Uint256}
    (small : offset.toNat + (32 : UInt64).toNat ≤ 2 ^ 64 - 32) :
    Follows vm
      (do
        let (bytes, machine) ← vm.machine.load vm.ctx.environment offset.word 32
        machine.push (bytesWord bytes))
      ((memoryLoad allocates (toUint64 offset) >>= push) vm) := by
  rw [load, Uint256.word_toNat]
  rcases range_cases serves sound limit small with
    ⟨none_, what, after, thrown, same⟩ | ⟨after, touched, done, kept, sameStack, reached⟩
  · rw [show (32 : UInt64).toNat = 32 from rfl] at none_
    rw [none_]
    exact ⟨what, after, bind_error_iff.mpr (.inl (bind_error_iff.mpr (.inl thrown))), same⟩
  · obtain ⟨value, loaded, isWord⟩ := memoryLoad_ok small done reached
    rw [show (32 : UInt64).toNat = 32 from rfl] at touched
    have pushed := push_follows value after
    have roomAfter : after.machine.stack.length < maxStackSize := by
      rw [VM.machine, List.length_map, sameStack]
      exact room
    rw [isWord, Machine.push, if_pos roomAfter] at pushed
    obtain ⟨last, put, isMachine, keptLast⟩ := pushed
    rw [touched]
    change Follows vm (after.machine.push _) _
    rw [Machine.push, if_pos roomAfter]
    exact ⟨last, bind_ok_iff.mpr ⟨value, after, loaded, put⟩, isMachine, kept.trans keptLast⟩

end Memory

/-! ## Opcodes -/

/-- Where an opcode is right: the rows of a product and the squares of a power come out, a shift
word or an address has 64 bits where more would count, and nothing stands behind a `STOP`. -/
def Exact (code : Bytes) (pc : Nat) (op : Opcode) (stack : List (BitVec 256)) : Prop :=
  match op, stack with
  | .stop, _ => ∀ byte ∈ code.drop (pc + 1), byte = 0
  | .mul, b :: a :: _ => RowsAgree a.toNat b.toNat
  | .exp, b :: a :: _ => b.toNat = 0 ∨ a.toNat = 0 ∨ a.toNat ^ 2 ^ Nat.log2 b.toNat < 256
  | .shl, value :: shift :: _ =>
      shift.toNat < 2 ^ 64 ∨ 2 ^ (256 - shift.toNat % 2 ^ 64) ∣ value.toNat
  | .shr, value :: shift :: _ =>
      shift.toNat < 2 ^ 64 ∨ value.toNat < 2 ^ (shift.toNat % 2 ^ 64)
  | .mload, offset :: _ => offset.toNat + 32 ≤ 2 ^ 64 - 32
  | .mstore, offset :: _ => offset.toNat + 32 ≤ 2 ^ 64 - 32
  | .mstore8, offset :: _ => offset.toNat + 1 ≤ 2 ^ 64 - 32
  | .return, offset :: length :: _ => offset.toNat + length.toNat ≤ 2 ^ 64 - 32
  | .revert, offset :: length :: _ => offset.toNat + length.toNat ≤ 2 ^ 64 - 32
  | _, _ => True

/-- An opcode ends as it does on numbers. -/
def Performs (vm : VM) (effect : Option Effect)
    (outcome : EStateM.Result Fault VM (ExecResult × Nat)) : Prop :=
  match effect with
  | some (.goes machine pc) => ∃ after, outcome = .ok (.success, pc) after ∧
      after.machine = machine ∧ Kept vm after
  | some (.ends result data machine) => result ≠ .success ∧ ∃ pc after,
      outcome = .ok (result, pc) after ∧ after.returnData = data ∧
      after.gasUsed.toNat = machine.gas ∧ after.state.slots vm.ctx.address = machine.storage
  | none => ∃ what after, outcome = .error (.runtimeError what) after ∧
      after.gasUsed = vm.gasUsed ∧ SameWorld vm after

theorem Follows.performs {vm : VM} {abstract : Option Machine} {action : Action Unit}
    (follows : Follows vm abstract (action vm)) (pc : Nat) :
    Performs vm (abstract.map (.goes · pc))
      ((do action; return (ExecResult.success, pc) : Action (ExecResult × Nat)) vm) := by
  cases abstract with
  | none =>
      obtain ⟨what, after, thrown, same⟩ := follows
      exact ⟨what, after, bind_error_iff.mpr (.inl thrown), same⟩
  | some machine =>
      obtain ⟨after, done, same⟩ := follows
      exact ⟨after, bind_ok_iff.mpr ⟨(), after, done, rfl⟩, same⟩

section Opcodes

variable {allocates : VM → UInt64 → Bool} (code : Bytes) (pc : Nat) {vm : VM}

theorem getStorage_setStorage (state : WorldState) (addr : Address) (key other value : Uint256) :
    (state.setStorage addr key value).getStorage addr other =
      if key = other then value else state.getStorage addr other := by
  have slot : (⟨addr, key⟩ : StorageKey) = ⟨addr, other⟩ ↔ key = other := by
    rw [StorageKey.ext_iff, and_iff_right rfl]
  by_cases zero : isZero value = true
  · have storage : (state.setStorage addr key value).storage = state.storage.erase ⟨addr, key⟩ :=
      if_pos zero
    have isZeros : FixedBytes.zero 32 = value :=
      Uint256.toNat_inj (Uint256.toNat_zero.trans (isZero_iff.mp zero).symm)
    rw [WorldState.getStorage, storage, getElem?_erase_eq, WorldState.getStorage]
    simp only [slot]
    split
    · exact isZeros
    · rfl
  · have storage : (state.setStorage addr key value).storage =
        state.storage.insert ⟨addr, key⟩ value := if_neg zero
    rw [WorldState.getStorage, storage, getElem?_insert_eq, WorldState.getStorage]
    simp only [slot]
    split
    · rfl
    · rfl

theorem slots_setStorage (state : WorldState) (addr : Address) (key value : Uint256) :
    (state.setStorage addr key value).slots addr =
      Function.update (state.slots addr) key.word value.word := by
  funext slot
  rw [WorldState.slots, getStorage_setStorage, Function.update_apply]
  by_cases same : slot = key.word
  · rw [if_pos same, if_pos (by rw [same, Uint256.ofWord_word])]
  · rw [if_neg same, if_neg fun here => same (by rw [here, Uint256.word_ofWord])]
    rfl

theorem sstore_performs (empty : vm.returnData = []) :
    Performs vm (vm.machine.perform vm.ctx.environment code pc .sstore)
      (executeOpcode allocates .sstore code pc vm) := by
  rw [executeOpcode_sstore, Machine.perform]
  change Performs vm (if vm.ctx.isStatic = true then _ else _) _
  cases static : vm.ctx.isStatic with
  | true => exact ⟨by decide, pc, vm, rfl, empty, rfl, rfl⟩
  | false =>
      simp only [Bool.false_eq_true, if_false]
      rcases shape : vm.stack with _ | ⟨key, _ | ⟨value, rest⟩⟩
      · simp only [VM.machine, shape, List.map_nil]
        exact ⟨_, vm, rfl, rfl, .refl vm⟩
      · simp only [VM.machine, shape, List.map_cons, List.map_nil]
        exact ⟨_, _, rfl, rfl, .refl vm⟩
      · simp only [VM.machine, shape, List.map_cons]
        refine ⟨_, rfl, ?_, rfl, rfl, fun sound => ⟨sound.covered, sound.limited, ?_⟩⟩
        · simp only [VM.machine, slots_setStorage]
        · have short := sound.stack
          rw [shape, List.length_cons, List.length_cons] at short
          dsimp only
          omega

/-- An execution that ends with a range of the memory. -/
theorem finish_performs (serves : Serves allocates) (sound : vm.Sound)
    (limit : vm.ctx.gasLimit.toNat < 2 ^ 59) {result : ExecResult} (notSuccess : result ≠ .success)
    (small : ∀ offset length rest, vm.stack = offset :: length :: rest →
      offset.toNat + length.toNat ≤ 2 ^ 64 - 32) :
    Performs vm (vm.machine.finish vm.ctx.environment result)
      ((do
        let offset ← pop
        let length ← pop
        expandMemory allocates (toUint64 offset + toUint64 length)
        assignReturnData allocates (toUint64 offset) (toUint64 length)
        return (result, pc) : Action (ExecResult × Nat)) vm) := by
  rcases shape : vm.stack with _ | ⟨offset, _ | ⟨length, rest⟩⟩
  · simp only [Machine.finish, VM.machine, Machine.pop, shape, List.map_nil]
    exact ⟨"Stack underflow", vm, bind_error_iff.mpr (.inl (by rw [pop_eq, shape])), rfl, .refl vm⟩
  · simp only [Machine.finish, VM.machine, Machine.pop, shape, List.map_cons, List.map_nil]
    refine ⟨"Stack underflow", { vm with stack := [] }, ?_, rfl, .refl vm⟩
    refine bind_error_iff.mpr (.inr ⟨offset, _, by rw [pop_eq, shape], ?_⟩)
    exact bind_error_iff.mpr (.inl (by rw [pop_eq]))
  · have bound := small offset length rest shape
    have lengthLow : (toUint64 length).toNat = length.toNat := by
      rw [toUint64_toNat]
      omega
    rw [← lengthLow] at bound
    have popped : pop vm = .ok offset { vm with stack := length :: rest } := by rw [pop_eq, shape]
    have poppedLength : pop { vm with stack := length :: rest } = .ok length { vm with stack := rest } := by
      rw [pop_eq]
    have ending : vm.machine.finish vm.ctx.environment result =
        ((VM.machine { vm with stack := rest }).load vm.ctx.environment offset.word
          (toUint64 length).toNat).map fun loaded => .ends result loaded.1 loaded.2 := by
      simp only [Machine.finish, VM.machine, Machine.pop, shape, List.map_cons]
      rw [lengthLow, ← Uint256.word_toNat length]
      exact Option.map_eq_bind.symm
    have soundRest : Sound { vm with stack := rest } := by
      refine ⟨sound.covered, sound.limited, ?_⟩
      have short := sound.stack
      rw [shape, List.length_cons, List.length_cons] at short
      dsimp only
      omega
    rw [ending, load, Uint256.word_toNat]
    rcases range_cases serves soundRest limit bound with
      ⟨none_, what, after, thrown, same⟩ | ⟨after, touched, done, kept, _, reached⟩
    · rw [none_]
      refine ⟨what, after, ?_, same⟩
      refine bind_error_iff.mpr (.inr ⟨offset, _, popped, ?_⟩)
      refine bind_error_iff.mpr (.inr ⟨length, _, poppedLength, ?_⟩)
      exact bind_error_iff.mpr (.inl thrown)
    · have memoryShort := (kept.sound soundRest).memory_short (by rw [kept.ctx]; exact limit)
      have assigned : assignReturnData allocates (toUint64 offset) (toUint64 length) after =
          .ok () { after with
            returnData := after.machine.memory.read offset.toNat (toUint64 length).toNat } := by
        refine bind_ok_iff.mpr ⟨_, after, read_range bound reached, ?_⟩
        refine bind_ok_iff.mpr ⟨after, after, rfl, ?_⟩
        rw [if_pos (serves after _ (by omega))]
        rfl
      rw [touched]
      refine ⟨notSuccess, pc, { after with
        returnData := after.machine.memory.read offset.toNat (toUint64 length).toNat },
        ?_, rfl, rfl, ?_⟩
      · refine bind_ok_iff.mpr ⟨offset, _, popped, ?_⟩
        refine bind_ok_iff.mpr ⟨length, _, poppedLength, ?_⟩
        refine bind_ok_iff.mpr ⟨(), _, done, ?_⟩
        exact bind_ok_iff.mpr ⟨(), _, assigned, rfl⟩
      · rw [← show after.ctx = vm.ctx from kept.ctx]
        rfl

theorem pushData_word {size : Nat} (small : size ≤ 32) :
    (pushData code pc size small).word =
      bytesWord ((EndlessMemory.ofList code).read (pc + 1) size) := by
  have front (bytes : Bytes) : ofLittleEndian (List.replicate (32 - size) 0 ++ bytes).reverse =
      ofLittleEndian bytes.reverse := by
    rw [ofLittleEndian_reverse_append, List.reverse_replicate, ofLittleEndian_zeros, Nat.zero_mul,
      Nat.zero_add]
  rw [EndlessMemory.ofList_read, bytesWord, ← front, ← List.append_assoc]
  rfl

theorem lowByte_eq (value : Uint256) :
    (toUint64 value).toUInt8 = UInt8.ofNat value.word.toNat := by
  apply UInt8.toNat_inj.mp
  rw [UInt64.toNat_toUInt8, toUint64_toNat, UInt8.toNat_ofNat', Uint256.word_toNat]
  exact Nat.mod_mod_of_dvd _ (by decide)

theorem gas_word (sound : vm.Sound) :
    (toUint256 vm.getGasRemaining).word =
      BitVec.ofNat 256 (vm.ctx.environment.gasLimit - vm.machine.gas) := by
  rw [toUint256_word, getGasRemaining,
    UInt64.toNat_sub_of_le _ _ (UInt64.le_iff_toNat_le.mpr sound.limited)]
  rfl

/-- A value of the environment is pushed. -/
theorem push_performs (value : VM → Uint256) {onWords : BitVec 256}
    (same : (value vm).word = onWords) :
    Performs vm ((vm.machine.push onWords).map (.goes · pc))
      ((do
        push (value (← get))
        return (ExecResult.success, pc) : Action (ExecResult × Nat)) vm) := by
  rw [← same]
  exact Follows.performs (push_follows (value vm) vm) pc

theorem Sound.popped {value : Uint256} {rest : List Uint256} (sound : vm.Sound)
    (shape : vm.stack = value :: rest) :
    Sound { vm with stack := rest } ∧ rest.length < maxStackSize := by
  have short := sound.stack
  rw [shape, List.length_cons] at short
  exact ⟨⟨sound.covered, sound.limited, Nat.le_of_succ_le short⟩, short⟩

theorem perform_follows (serves : Serves allocates) (sound : vm.Sound)
    (limit : vm.ctx.gasLimit.toNat < 2 ^ 59) (empty : vm.returnData = []) {op : Opcode}
    (notStop : op ≠ .stop) (exactly : Exact code pc op vm.machine.stack) :
    Performs vm (vm.machine.perform vm.ctx.environment code pc op)
      (executeOpcode allocates op code pc vm) := by
  cases op with
  | stop => exact absurd rfl notStop
  | add => exact (binary_follows fun b a _ _ => add_word a b).performs pc
  | sub => exact (binary_follows fun b a _ _ => sub_word a b).performs pc
  | div => exact (binary_follows fun b a _ _ => div_word a b).performs pc
  | mod => exact (binary_follows fun b a _ _ => mod_word a b).performs pc
  | lt => exact (binary_follows fun b a _ _ => lt_flag_word a b).performs pc
  | gt => exact (binary_follows fun b a _ _ => lt_flag_word b a).performs pc
  | eq => exact (binary_follows fun b a _ _ => eq_flag_word a b).performs pc
  | and => exact (binary_follows fun b a _ _ => and_word a b).performs pc
  | or => exact (binary_follows fun b a _ _ => or_word a b).performs pc
  | xor => exact (binary_follows fun b a _ _ => xor_word a b).performs pc
  | iszero => exact (unary_follows isZero_flag_word).performs pc
  | not => exact (unary_follows not_word).performs pc
  | mul =>
      refine (binary_follows fun b a rest shape => ?_).performs pc
      simp only [VM.machine, shape, List.map_cons, Exact, Uint256.word_toNat] at exactly
      exact mul_word a b exactly
  | exp =>
      refine (binary_follows fun b a rest shape => ?_).performs pc
      simp only [VM.machine, shape, List.map_cons, Exact, Uint256.word_toNat] at exactly
      exact exp_word a b exactly
  | shl =>
      refine (binary_follows fun value shift rest shape => ?_).performs pc
      simp only [VM.machine, shape, List.map_cons, Exact, Uint256.word_toNat] at exactly
      exact shl_word shift value exactly
  | shr =>
      refine (binary_follows fun value shift rest shape => ?_).performs pc
      simp only [VM.machine, shape, List.map_cons, Exact, Uint256.word_toNat] at exactly
      exact shr_word shift value exactly
  | mload =>
      have follows : Follows vm (vm.machine.mload vm.ctx.environment)
          ((do
            let offset ← pop
            push (← memoryLoad allocates (toUint64 offset)) : Action Unit) vm) := by
        refine pop_follows fun offset rest shape => ?_
        simp only [VM.machine, shape, List.map_cons, Exact, Uint256.word_toNat] at exactly
        obtain ⟨soundRest, room⟩ := sound.popped shape
        exact mload_follows serves soundRest limit room exactly
      have performs := follows.performs pc
      rw [bind_assoc] at performs
      simp only [bind_assoc] at performs
      exact performs
  | mstore =>
      have follows : Follows vm (vm.machine.mstore vm.ctx.environment)
          ((do
            let offset ← pop
            let value ← pop
            memoryStore allocates (toUint64 offset) value : Action Unit) vm) := by
        refine pop_follows fun offset rest shape => ?_
        simp only [VM.machine, shape, List.map_cons, Exact, Uint256.word_toNat] at exactly
        obtain ⟨soundRest, _⟩ := sound.popped shape
        refine pop_follows fun value others shapeRest => ?_
        obtain ⟨soundOthers, _⟩ := soundRest.popped shapeRest
        dsimp only
        rw [Uint256.wordBytes_word]
        exact store_follows serves soundOthers limit value.length_eq exactly
      have performs := follows.performs pc
      simp only [bind_assoc] at performs
      exact performs
  | mstore8 =>
      have follows : Follows vm (vm.machine.mstore8 vm.ctx.environment)
          ((do
            let offset ← pop
            let value ← pop
            memoryStore8 allocates (toUint64 offset) (toUint64 value).toUInt8 : Action Unit) vm) := by
        refine pop_follows fun offset rest shape => ?_
        simp only [VM.machine, shape, List.map_cons, Exact, Uint256.word_toNat] at exactly
        obtain ⟨soundRest, _⟩ := sound.popped shape
        refine pop_follows fun value others shapeRest => ?_
        obtain ⟨soundOthers, _⟩ := soundRest.popped shapeRest
        dsimp only
        rw [lowByte_eq]
        exact store_follows serves soundOthers limit
          (show [UInt8.ofNat value.word.toNat].length = (1 : UInt64).toNat from rfl) exactly
      have performs := follows.performs pc
      simp only [bind_assoc] at performs
      exact performs
  | sload =>
      have follows : Follows vm (vm.machine.unary vm.machine.storage)
          ((do
            let key ← pop
            let vm ← get
            push (vm.state.getStorage vm.ctx.address key) : Action Unit) vm) := by
        refine pop_follows fun key rest _ => ?_
        have pushed := push_follows (vm.state.getStorage vm.ctx.address key) { vm with stack := rest }
        rw [show (vm.state.getStorage vm.ctx.address key).word = vm.machine.storage key.word by
          simp only [VM.machine, WorldState.slots, Uint256.ofWord_word]] at pushed
        exact pushed
      have performs := follows.performs pc
      simp only [bind_assoc] at performs
      exact performs
  | sstore => exact sstore_performs code pc empty
  | pop =>
      have follows : Follows vm vm.machine.discard ((discard pop : Action Unit) vm) := by
        refine pop_follows fun value rest shape => ?_
        exact ⟨_, rfl, rfl, rfl, rfl, id⟩
      exact follows.performs pc
  | push place =>
      have pushed := push_follows (pushData code pc _ (Opcode.getPushSize_le (.push place))) vm
      rw [pushData_word] at pushed
      exact pushed.performs (pc + (Opcode.push place).getPushSize)
  | dup place => exact (dup_follows (Nat.succ_pos _) vm).performs pc
  | swap place => exact (swap_follows _ vm).performs pc
  | address => exact push_performs pc (·.ctx.address.toUint256) rfl
  | caller => exact push_performs pc (·.ctx.caller.toUint256) rfl
  | callvalue => exact push_performs pc (·.ctx.value) rfl
  | gas => exact push_performs pc (fun vm => toUint256 vm.getGasRemaining) (gas_word sound)
  | gasprice => exact push_performs pc (fun vm => toUint256 vm.ctx.gasPrice) rfl
  | timestamp => exact push_performs pc (fun vm => toUint256 vm.ctx.timestamp) rfl
  | number => exact push_performs pc (fun vm => toUint256 vm.ctx.blockNumber) rfl
  | difficulty => exact push_performs pc (fun vm => toUint256 vm.ctx.difficulty) rfl
  | gaslimit => exact push_performs pc (fun vm => toUint256 vm.ctx.gasLimitBlock) rfl
  | chainid => exact push_performs pc (fun vm => toUint256 vm.ctx.chainId) rfl
  | basefee => exact push_performs pc (fun vm => toUint256 vm.ctx.baseFee) rfl
  | «return» =>
      refine finish_performs pc serves sound limit (by decide) fun offset length rest shape => ?_
      simpa only [VM.machine, shape, List.map_cons, Exact, Uint256.word_toNat] using exactly
  | revert =>
      refine finish_performs pc serves sound limit (by decide) fun offset length rest shape => ?_
      simpa only [VM.machine, shape, List.map_cons, Exact, Uint256.word_toNat] using exactly
  | jumpdest => exact ⟨vm, rfl, rfl, rfl, rfl, id⟩
  | _ => exact ⟨by decide, pc, vm, rfl, empty, rfl, rfl⟩

end Opcodes

/-! ## Executions -/

section Executions

variable {allocates : VM → UInt64 → Bool} {code : Bytes}

/-- Every opcode that is paid for on the way is right. -/
def ExactFrom (env : Environment) (code : Bytes) : Nat → Nat → Machine → Prop
  | 0, _, _ => True
  | turns + 1, pc, machine =>
      match code[pc]? with
      | none => True
      | some byte =>
          match machine.pay env (.ofByte byte) with
          | none => True
          | some paid =>
              Exact code pc (.ofByte byte) paid.stack ∧
                match paid.perform env code pc (.ofByte byte) with
                | some (.goes after pc) => ExactFrom env code turns (pc + 1) after
                | _ => True

theorem Sound.bounded {vm : VM} (sound : vm.Sound) (limit : vm.ctx.gasLimit.toNat < 2 ^ 59) :
    vm.Bounded := by
  have covered := sound.covered
  have limited := sound.limited
  refine ⟨limited, ?_, sound.stack⟩
  unfold words at covered
  omega

/-- The gas of an opcode, counted on 64 bits. -/
theorem Sound.paid_counts {vm : VM} (sound : vm.Sound) (limit : vm.ctx.gasLimit.toNat < 2 ^ 59)
    (op : Opcode) :
    (vm.gasUsed + op.getOpcodeCost).toNat = vm.gasUsed.toNat + op.getOpcodeCost.toNat := by
  have cheap := getOpcodeCost_le op
  have limited := sound.limited
  rw [UInt64.toNat_add]
  omega

theorem Sound.pay_machine {vm : VM} (sound : vm.Sound) (limit : vm.ctx.gasLimit.toNat < 2 ^ 59)
    (op : Opcode) :
    vm.machine.pay vm.ctx.environment op =
      if vm.gasUsed + op.getOpcodeCost > vm.ctx.gasLimit then none
      else some (VM.machine { vm with gasUsed := vm.gasUsed + op.getOpcodeCost }) := by
  have counts := sound.paid_counts limit op
  rw [Machine.pay]
  change (if vm.gasUsed.toNat + op.getOpcodeCost.toNat ≤ vm.ctx.gasLimit.toNat then _ else _) = _
  rw [← counts]
  by_cases spent : vm.gasUsed + op.getOpcodeCost > vm.ctx.gasLimit
  · rw [if_pos spent, if_neg (Nat.not_le.mpr (UInt64.lt_iff_toNat_lt.mp spent))]
  · rw [if_neg spent, if_pos (UInt64.le_iff_toNat_le.mp (UInt64.not_lt.mp spent))]
    simp only [VM.machine, counts]

theorem Sound.paid {vm : VM} (sound : vm.Sound) (limit : vm.ctx.gasLimit.toNat < 2 ^ 59)
    {op : Opcode} (affordable : ¬ vm.gasUsed + op.getOpcodeCost > vm.ctx.gasLimit) :
    Sound { vm with gasUsed := vm.gasUsed + op.getOpcodeCost } := by
  refine ⟨?_, UInt64.le_iff_toNat_le.mp (UInt64.not_lt.mp affordable), sound.stack⟩
  dsimp only
  rw [sound.paid_counts limit op]
  exact sound.covered.trans (Nat.le_add_right _ _)

theorem executeFrom_refines (serves : Serves allocates) (turns : Nat) {pc : Nat} {vm : VM}
    (sound : vm.Sound) (limit : vm.ctx.gasLimit.toNat < 2 ^ 59) (empty : vm.returnData = [])
    (exactly : ExactFrom vm.ctx.environment code turns pc vm.machine) :
    ∃ result data after, executeFrom allocates code turns pc vm = .ok (result, data) after ∧
      runFrom vm.ctx.environment code turns pc vm.machine =
        ⟨result, data, after.gasUsed.toNat, after.state.slots vm.ctx.address⟩ := by
  induction turns generalizing pc vm with
  | zero => exact ⟨.success, [], vm, rfl, rfl⟩
  | succ turns ih =>
      rw [ExactFrom] at exactly
      rw [executeFrom_succ, runFrom]
      cases found : code[pc]? with
      | none => exact ⟨.success, [], vm, rfl, rfl⟩
      | some byte =>
          rw [found] at exactly
          dsimp only at exactly ⊢
          rw [sound.pay_machine limit] at exactly ⊢
          rw [turn_eq]
          by_cases spent : vm.gasUsed + (Opcode.ofByte byte).getOpcodeCost > vm.ctx.gasLimit
          · rw [if_pos spent, if_pos spent]
            exact ⟨.outOfGas, [], vm, rfl, rfl⟩
          · rw [if_neg spent] at exactly
            rw [if_neg spent, if_neg spent]
            dsimp only at exactly ⊢
            obtain ⟨here, later⟩ := exactly
            have soundPaid := sound.paid limit spent
            generalize isPaid : { vm with gasUsed := vm.gasUsed + (Opcode.ofByte byte).getOpcodeCost } =
              paid at here later soundPaid ⊢
            have sameCtx : paid.ctx = vm.ctx := by rw [← isPaid]
            have noData : paid.returnData = [] := by rw [← isPaid]; exact empty
            rw [← sameCtx] at limit later ⊢
            by_cases stops : Opcode.ofByte byte = .stop
            · rw [stops] at here ⊢
              refine ⟨.success, [], paid, ?_, rfl⟩
              change executeFrom allocates code turns (pc + 1) paid = _
              exact executeFrom_zeros (soundPaid.bounded limit) here
            · have performs := perform_follows code pc serves soundPaid limit noData stops here
              cases performed : paid.machine.perform paid.ctx.environment code pc (.ofByte byte) with
              | none =>
                  rw [performed] at performs
                  obtain ⟨what, after, thrown, sameGas, sameState, _⟩ := performs
                  rw [thrown]
                  refine ⟨.invalidOpcode, [], after, rfl, ?_⟩
                  simp only [Machine.report, VM.machine, sameGas, sameState]
              | some effect =>
                  rw [performed] at performs later
                  cases effect with
                  | goes machine counter =>
                      obtain ⟨after, done, rfl, kept⟩ := performs
                      rw [done]
                      simp only [if_true]
                      rw [← kept.ctx] at later limit ⊢
                      exact ih (kept.sound soundPaid) limit (kept.returnData.trans noData) later
                  | ends result data machine =>
                      obtain ⟨notSuccess, counter, after, done, sameData, sameGas, sameSlots⟩ := performs
                      rw [done]
                      simp only [if_neg notSuccess]
                      refine ⟨result, after.returnData, after, rfl, ?_⟩
                      simp only [Machine.report, sameData, sameGas, sameSlots]

theorem machine_new (state : WorldState) (ctx : ExecutionContext) :
    (new state ctx).machine = Machine.start (state.slots ctx.address) := rfl

/-- An execution in which every opcode is right returns what the machine on numbers does, with
its data, its gas and its storage, for every limit on the gas below 2^59. -/
theorem execute_refines (serves : Serves allocates) (state : WorldState) (ctx : ExecutionContext)
    (limit : ctx.gasLimit.toNat < 2 ^ 59)
    (exactly : ExactFrom ctx.environment code code.length 0 (.start (state.slots ctx.address))) :
    ∃ result data after, execute allocates code (new state ctx) = .ok (result, data) after ∧
      Machine.run ctx.environment code (state.slots ctx.address) =
        ⟨result, data, after.gasUsed.toNat, after.state.slots ctx.address⟩ :=
  executeFrom_refines serves code.length
    ⟨(by decide : 3 * words 0 ≤ 0), Nat.zero_le _, Nat.zero_le _⟩ limit rfl exactly

/-- A right opcode that goes on, in front of an execution that is right. -/
theorem exactFrom_goes {env : Environment} {turns pc next : Nat} {byte : UInt8}
    {machine paid after : Machine} (found : code[pc]? = some byte)
    (pays : machine.pay env (.ofByte byte) = some paid) (right : Exact code pc (.ofByte byte) paid.stack)
    (performed : paid.perform env code pc (.ofByte byte) = some (.goes after next))
    (later : ExactFrom env code turns (next + 1) after) :
    ExactFrom env code (turns + 1) pc machine := by
  simp only [ExactFrom, found, pays, performed]
  exact ⟨right, later⟩

theorem exactFrom_ends {env : Environment} {turns pc : Nat} {byte : UInt8} {machine paid last : Machine}
    {result : ExecResult} {data : Bytes} (found : code[pc]? = some byte)
    (pays : machine.pay env (.ofByte byte) = some paid) (right : Exact code pc (.ofByte byte) paid.stack)
    (performed : paid.perform env code pc (.ofByte byte) = some (.ends result data last)) :
    ExactFrom env code (turns + 1) pc machine := by
  simp only [ExactFrom, found, pays, performed]
  exact ⟨right, trivial⟩

end Executions

namespace SixTimesSeven

def context : ExecutionContext where
  caller := .zero 20
  address := .zero 20
  value := .zero 32
  gasLimit := 100000
  gasPrice := 0
  blockNumber := 0
  timestamp := 0
  difficulty := 0
  gasLimitBlock := 0
  chainId := 0
  baseFee := 0
  isStatic := false

/-- `PUSH1 7, PUSH1 6, MUL, DUP1, PUSH1 1, SSTORE, PUSH1 0, MSTORE, PUSH1 32, PUSH1 0, RETURN` -/
def code : Bytes :=
  [0x60, 7, 0x60, 6, 0x02, 0x80, 0x60, 1, 0x55, 0x60, 0, 0x52, 0x60, 32, 0x60, 0, 0xf3]

theorem exactly : ExactFrom context.environment code code.length 0
    (.start (WorldState.fresh.slots context.address)) := by
  refine exactFrom_goes rfl rfl trivial rfl ?_
  refine exactFrom_goes rfl rfl trivial rfl ?_
  refine exactFrom_goes rfl rfl (rowsAgree_of_byte _ (by decide)) rfl ?_
  refine exactFrom_goes rfl rfl trivial rfl ?_
  refine exactFrom_goes rfl rfl trivial rfl ?_
  refine exactFrom_goes rfl rfl trivial rfl ?_
  refine exactFrom_goes rfl rfl trivial rfl ?_
  refine exactFrom_goes rfl rfl (by decide : 0 + 32 ≤ 2 ^ 64 - 32) rfl ?_
  refine exactFrom_goes rfl rfl trivial rfl ?_
  refine exactFrom_goes rfl rfl trivial rfl ?_
  exact exactFrom_ends rfl rfl (by decide : 0 + 32 ≤ 2 ^ 64 - 32) rfl

theorem execute_refines_product : ∃ result data after,
    execute (fun _ _ => true) code (new .fresh context) = .ok (result, data) after ∧
      Machine.run context.environment code (WorldState.fresh.slots context.address) =
        ⟨result, data, after.gasUsed.toNat, after.state.slots context.address⟩ :=
  execute_refines (fun _ _ _ => rfl) .fresh context (by decide) exactly

example : (Machine.run context.environment code fun _ => 0).data = List.replicate 31 0 ++ [42] := by
  decide +kernel

end SixTimesSeven

end VM

end Parthenon.Evm
