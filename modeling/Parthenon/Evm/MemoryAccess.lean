import Parthenon.Evm.GasAccounting

namespace Parthenon.Evm.VM

open Library

/-! # Accesses to the memory

An opcode that works on the memory first grows it to the end of its range, and the
end is a sum on 64 bits.  A sum that wraps leaves the memory as it is, and the
opcode reads or writes behind it.
-/

/-- The range an opcode reads or writes, as an offset and a length, and the stack
without its operands. -/
def memoryAccess (op : Opcode) (stack : List Uint256) : Option (UInt64 × UInt64 × List Uint256) :=
  match op, stack with
  | .mload, offset :: rest => some (toUint64 offset, 32, rest)
  | .mstore, offset :: _ :: rest => some (toUint64 offset, 32, rest)
  | .mstore8, offset :: _ :: rest => some (toUint64 offset, 1, rest)
  | .return, offset :: length :: rest => some (toUint64 offset, toUint64 length, rest)
  | .revert, offset :: length :: rest => some (toUint64 offset, toUint64 length, rest)
  | _, _ => none

/-- A range of bytes of which each is in the memory. -/
def InBounds (vm : VM) (offset length : UInt64) : Prop :=
  ∀ index, offset.toNat ≤ index → index < offset.toNat + length.toNat → index < vm.memory.length

/-! ## Where an opcode leaves the memory -/

section Operations

variable {α β : Type} {vm after : VM} {offset length : UInt64}

theorem readMemory_eq (offset length : UInt64) (vm : VM) :
    readMemory offset length vm =
      if offset.toNat + length.toNat ≤ vm.memory.length then
        .ok ((vm.memory.drop offset.toNat).take length.toNat) vm
      else .error .undefined vm := by
  change (if offset.toNat + length.toNat ≤ vm.memory.length then _ else _ : Action Bytes) vm = _
  split <;> rfl

theorem writeMemory_eq (offset : UInt64) (bytes : Bytes) (vm : VM) :
    writeMemory offset bytes vm =
      if offset.toNat + bytes.length ≤ vm.memory.length then
        .ok () { vm with
          memory := vm.memory.take offset.toNat ++ bytes ++
            vm.memory.drop (offset.toNat + bytes.length) }
      else .error .undefined vm := by
  change (if offset.toNat + bytes.length ≤ vm.memory.length then _ else _ : Action Unit) vm = _
  split <;> rfl

theorem readMemory_undefined_iff :
    readMemory offset length vm = .error .undefined after ↔
      vm.memory.length < offset.toNat + length.toNat ∧ after = vm := by
  rw [readMemory_eq]
  split
  · rename_i inside
    simp [Nat.not_lt.mpr inside]
  · rename_i outside
    simp [Nat.not_le.mp outside, eq_comm]

theorem writeMemory_undefined_iff {bytes : Bytes} :
    writeMemory offset bytes vm = .error .undefined after ↔
      vm.memory.length < offset.toNat + bytes.length ∧ after = vm := by
  rw [writeMemory_eq]
  split
  · rename_i inside
    simp [Nat.not_lt.mpr inside]
  · rename_i outside
    simp [Nat.not_le.mp outside, eq_comm]

theorem push_avoids (value : Uint256) : Avoids .undefined (push value) := by
  apply avoids_getBind
  intro vm
  split
  · exact avoids_bind (avoids_throw nofun) fun _ => avoids_modify _
  · exact avoids_modify _

theorem pop_avoids : Avoids .undefined pop := by
  apply avoids_getBind
  intro vm
  split
  · exact avoids_throw nofun
  · exact avoids_bind (avoids_modify _) fun _ => avoids_pure _

theorem peek_avoids (depth : Nat) : Avoids .undefined (peek depth) := by
  apply avoids_getBind
  intro vm
  split
  · exact avoids_throw nofun
  · exact avoids_pure _

theorem dup_avoids (depth : Nat) : Avoids .undefined (dup depth) := by
  apply avoids_getBind
  intro vm
  split
  · exact avoids_bind (avoids_throw nofun) fun _ => avoids_bind (peek_avoids _) push_avoids
  · exact avoids_bind (peek_avoids _) push_avoids

theorem swap_avoids (depth : Nat) : Avoids .undefined (swap depth) := by
  apply avoids_getBind
  intro vm
  split
  · split
    · exact avoids_modify _
    · exact avoids_throw nofun
  · exact avoids_throw nofun

theorem useGas_avoids (amount : UInt64) : Avoids .undefined (useGas amount) := by
  apply avoids_getBind
  intro vm
  split
  · exact avoids_bind (avoids_pure _) fun _ => avoids_pure _
  · exact avoids_bind (avoids_modify _) fun _ => avoids_pure _

variable (allocates : VM → UInt64 → Bool)

theorem growMemory_avoids (size : UInt64) : Avoids .undefined (growMemory allocates size) := by
  apply avoids_getBind
  intro vm
  split
  · exact avoids_modify _
  · exact avoids_bind (avoids_throw nofun) fun _ => avoids_modify _

theorem expandMemory_avoids (size : UInt64) : Avoids .undefined (expandMemory allocates size) := by
  apply avoids_getBind
  intro vm
  dsimp only
  split
  · apply avoids_bind (useGas_avoids _)
    intro paid
    cases paid with
    | true => exact growMemory_avoids allocates size
    | false => exact avoids_bind (avoids_throw nofun) fun _ => growMemory_avoids allocates size
  · exact avoids_pure _

/-- The memory an opcode has grown does not reach the end of its range. -/
def FallsShort (offset length : UInt64) (vm after : VM) : Prop :=
  expandMemory allocates (offset + length) vm = .ok () after ∧
    after.memory.length < offset.toNat + length.toNat

/-- What comes after the growth has no meaning where the range is not in the memory. -/
theorem expand_undefined_iff {next : Action β}
    (outside : ∀ vm after, next vm = .error .undefined after ↔
      vm.memory.length < offset.toNat + length.toNat ∧ after = vm) :
    (do
      expandMemory allocates (offset + length)
      next) vm = .error .undefined after ↔ FallsShort allocates offset length vm after := by
  rw [bind_faults_later (expandMemory_avoids allocates _)]
  simp only [outside]
  constructor
  · intro faults
    obtain ⟨_, reached, grown, short, rfl⟩ := faults
    exact ⟨grown, short⟩
  · intro short
    exact ⟨(), after, short.1, short.2, rfl⟩

/-- Both stores write as many bytes as they have grown the memory for. -/
theorem store_undefined_iff {bytes : Bytes} (width : bytes.length = length.toNat) :
    (do
      expandMemory allocates (offset + length)
      writeMemory offset bytes : Action Unit) vm = .error .undefined after ↔
      FallsShort allocates offset length vm after := by
  apply expand_undefined_iff
  intro vm after
  rw [writeMemory_undefined_iff, width]

theorem memoryLoad_undefined_iff :
    memoryLoad allocates offset vm = .error .undefined after ↔
      FallsShort allocates offset 32 vm after := by
  apply expand_undefined_iff
  intro vm after
  constructor
  · intro faults
    rcases bind_error_iff.mp faults with outside | ⟨bytes, state, read, rest⟩
    · exact readMemory_undefined_iff.mp outside
    · rw [readMemory_eq] at read
      split at read
      · rename_i inside
        cases read
        have whole : ((vm.memory.drop offset.toNat).take (32 : UInt64).toNat).length = 32 := by
          rw [List.length_take, List.length_drop]
          change min 32 _ = 32
          change _ + 32 ≤ _ at inside
          omega
        simp only [FixedBytes.ofBytes?, whole] at rest
        cases rest
      · cases read
  · intro outside
    exact bind_error_iff.mpr (.inl (readMemory_undefined_iff.mpr outside))

theorem assignReturnData_undefined_iff :
    (do
      expandMemory allocates (offset + length)
      assignReturnData allocates offset length : Action Unit) vm = .error .undefined after ↔
      FallsShort allocates offset length vm after := by
  have assigns (bytes : Bytes) : Avoids .undefined
      (do
        unless allocates (← get) length do throw .allocation
        modify fun vm => { vm with returnData := bytes } : Action Unit) := by
    apply avoids_getBind
    intro vm
    split
    · exact avoids_modify _
    · exact avoids_bind (avoids_throw nofun) fun _ => avoids_modify _
  apply expand_undefined_iff
  intro vm after
  rw [assignReturnData, bind_faults_first assigns, readMemory_undefined_iff]

theorem pop_undefined_iff {next : Uint256 → Action β} :
    (pop >>= next) vm = .error .undefined after ↔
      ∃ value rest, vm.stack = value :: rest ∧
        next value { vm with stack := rest } = .error .undefined after := by
  rw [bind_faults_later pop_avoids, pop_eq]
  cases shape : vm.stack with
  | nil => simp
  | cons value rest =>
      constructor
      · intro faults
        obtain ⟨_, _, popped, later⟩ := faults
        cases popped
        exact ⟨value, rest, rfl, later⟩
      · intro faults
        obtain ⟨_, _, same, later⟩ := faults
        cases same
        exact ⟨value, _, rfl, later⟩

end Operations

section Opcodes

variable (allocates : VM → UInt64 → Bool) (code : Bytes) (pc : Nat)

/-- An opcode that goes on at its own counter. -/
theorem avoids_then {action : Action Unit} (here : Avoids .undefined action) (pc : Nat) :
    Avoids .undefined (do action; return (ExecResult.success, pc)) :=
  avoids_bind here fun _ => avoids_pure _

theorem unary_avoids (operation : Uint256 → Uint256) : Avoids .undefined (unary operation) :=
  avoids_bind pop_avoids fun _ => push_avoids _

theorem binary_avoids (operation : Uint256 → Uint256 → Uint256) :
    Avoids .undefined (binary operation) :=
  avoids_bind pop_avoids fun _ => avoids_bind pop_avoids fun _ => push_avoids _

/-- The opcodes that never ask for memory. -/
theorem executeOpcode_avoids {op : Opcode}
    (other : op ≠ .mload ∧ op ≠ .mstore ∧ op ≠ .mstore8 ∧ op ≠ .return ∧ op ≠ .revert) :
    Avoids .undefined (executeOpcode allocates op code pc) := by
  cases op with
  | mload | mstore | mstore8 | «return» | revert => simp at other
  | add | mul | sub | div | mod | exp | lt | gt | eq | and | or | xor | shl | shr =>
      exact avoids_then (binary_avoids _) pc
  | iszero | not => exact avoids_then (unary_avoids _) pc
  | sload =>
      apply avoids_bind pop_avoids
      intro key
      exact avoids_getBind fun _ => avoids_then (push_avoids _) pc
  | sstore =>
      apply avoids_getBind
      intro vm
      split
      · exact avoids_pure _
      · apply avoids_bind pop_avoids
        intro key
        apply avoids_bind pop_avoids
        intro value
        exact avoids_then (avoids_modify _) pc
  | pop => exact avoids_then (avoids_bind pop_avoids fun _ => avoids_pure _) pc
  | push place => exact avoids_bind (push_avoids _) fun _ => avoids_pure _
  | dup place => exact avoids_then (dup_avoids _) pc
  | swap place => exact avoids_then (swap_avoids _) pc
  | address | caller | callvalue | gas | gasprice | timestamp | number | difficulty | gaslimit
  | chainid | basefee => exact avoids_getBind fun _ => avoids_then (push_avoids _) pc
  | _ => exact avoids_pure _

theorem operands_undefined_iff {β : Type} {next : Uint256 → Uint256 → Action β} {vm after : VM} :
    (do
      let first ← pop
      let second ← pop
      next first second) vm = .error .undefined after ↔
      ∃ first second rest, vm.stack = first :: second :: rest ∧
        next first second { vm with stack := rest } = .error .undefined after := by
  simp only [pop_undefined_iff]
  constructor
  · intro faults
    obtain ⟨first, _, shape, second, rest, rfl, later⟩ := faults
    exact ⟨first, second, rest, shape, later⟩
  · intro faults
    obtain ⟨first, second, rest, shape, later⟩ := faults
    exact ⟨first, _, shape, second, rest, rfl, later⟩

/-- An opcode has no meaning exactly where the memory it has grown is too short. -/
theorem executeOpcode_undefined_iff {op : Opcode} {vm after : VM} :
    executeOpcode allocates op code pc vm = .error .undefined after ↔
      ∃ offset length rest, memoryAccess op vm.stack = some (offset, length, rest) ∧
        FallsShort allocates offset length { vm with stack := rest } after := by
  cases op with
  | mload =>
      rw [executeOpcode, pop_undefined_iff]
      simp only [bind_faults_first fun _ => avoids_then (push_avoids _) pc,
        memoryLoad_undefined_iff]
      rcases vm.stack with _ | ⟨offset, rest⟩ <;> simp [memoryAccess]
  | mstore =>
      rw [executeOpcode, operands_undefined_iff]
      simp only [bind_faults_first fun _ => avoids_pure _, memoryStore,
        store_undefined_iff allocates (FixedBytes.length_eq _)]
      rcases vm.stack with _ | ⟨offset, _ | ⟨value, rest⟩⟩ <;> simp [memoryAccess]
  | mstore8 =>
      rw [executeOpcode, operands_undefined_iff]
      have one (byte : UInt8) : [byte].length = (1 : UInt64).toNat := rfl
      simp only [bind_faults_first fun _ => avoids_pure _, memoryStore8,
        store_undefined_iff allocates (one _)]
      rcases vm.stack with _ | ⟨offset, _ | ⟨value, rest⟩⟩ <;> simp [memoryAccess]
  | «return» | revert =>
      rw [executeOpcode, operands_undefined_iff]
      simp only [← bind_assoc]
      simp only [bind_faults_first fun _ => avoids_pure _, assignReturnData_undefined_iff]
      rcases vm.stack with _ | ⟨offset, _ | ⟨length, rest⟩⟩ <;> simp [memoryAccess]
  | _ =>
      constructor
      · intro faults
        exact absurd faults (executeOpcode_avoids allocates code pc (by simp) _ _)
      · intro access
        obtain ⟨_, _, _, none_, _⟩ := access
        cases none_

end Opcodes

/-! ## Executions -/

section Executions

variable (allocates : VM → UInt64 → Bool) (code : Bytes)

/-- An execution reaches an opcode that works on the memory, pays for it and gets past the
growth of the memory. -/
def Accesses (start : VM) (offset length : UInt64) (expanded : VM) : Prop :=
  ∃ ops pc vm byte rest, Runs allocates code 0 start ops pc vm ∧ code[pc]? = some byte ∧
    ¬ vm.gasUsed + (Opcode.ofByte byte).getOpcodeCost > vm.ctx.gasLimit ∧
    memoryAccess (.ofByte byte) vm.stack = some (offset, length, rest) ∧
    expandMemory allocates (offset + length)
      { vm with gasUsed := vm.gasUsed + (Opcode.ofByte byte).getOpcodeCost, stack := rest } =
        .ok () expanded

variable {allocates code}

theorem expandMemory_reaches {size : UInt64} {vm expanded : VM}
    (grown : expandMemory allocates size vm = .ok () expanded) :
    size.toNat ≤ expanded.memory.length := by
  rw [expandMemory_eq] at grown
  split at grown
  · split at grown
    · cases grown
    · obtain ⟨_, rfl⟩ := growMemory_ok grown
      rw [List.length_append, List.length_replicate]
      omega
  · rename_i reaches
    cases grown
    exact Nat.not_lt.mp reaches

/-- Behind a sum that does not wrap the range is in the memory; behind one that wraps its
last index is not, since no memory is that long. -/
theorem inBounds_iff {vm expanded : VM} {offset length : UInt64} (bounded : vm.Bounded)
    (grown : expandMemory allocates (offset + length) vm = .ok () expanded) :
    InBounds expanded offset length ↔ offset.toNat + length.toNat < 2 ^ 64 := by
  have reaches := expandMemory_reaches grown
  obtain ⟨after, _⟩ := expandMemory_accounts _ _ _ _ grown bounded
  have short := after.memory
  rw [UInt64.toNat_add] at reaches
  constructor
  · intro inside
    have offsetFits := offset.toNat_lt
    by_contra wraps
    have last := inside (2 ^ 64 - 1) (by omega) (by omega)
    omega
  · intro fits index _ below
    omega

theorem memoryAccess_rest {op : Opcode} {stack rest : List Uint256} {offset length : UInt64}
    (known : memoryAccess op stack = some (offset, length, rest)) : rest.length ≤ stack.length := by
  unfold memoryAccess at known
  split at known <;> cases known <;> simp only [List.length_cons] <;> omega

/-- The machine that grows its memory for an opcode that a bounded one has paid for. -/
theorem Bounded.operands {vm : VM} {op : Opcode} {offset length : UInt64} {rest : List Uint256}
    (bounded : vm.Bounded) (paid : ¬ vm.gasUsed + op.getOpcodeCost > vm.ctx.gasLimit)
    (known : memoryAccess op vm.stack = some (offset, length, rest)) :
    Bounded { vm with gasUsed := vm.gasUsed + op.getOpcodeCost, stack := rest } where
  gas := UInt64.le_iff_toNat_le.mp (UInt64.not_lt.mp paid)
  memory := bounded.memory
  stack := (memoryAccess_rest known).trans bounded.stack

theorem turn_undefined_iff {op : Opcode} {pc : Nat} {vm after : VM} :
    turn allocates op code pc vm = .error .undefined after ↔
      ¬ vm.gasUsed + op.getOpcodeCost > vm.ctx.gasLimit ∧
        executeOpcode allocates op code pc { vm with gasUsed := vm.gasUsed + op.getOpcodeCost } =
          .error .undefined after := by
  rw [turn_eq]
  by_cases spent : vm.gasUsed + op.getOpcodeCost > vm.ctx.gasLimit
  · simp [spent]
  · rw [if_neg spent]
    simp only [spent, not_false_iff, true_and]
    cases executeOpcode allocates op code pc { vm with gasUsed := vm.gasUsed + op.getOpcodeCost } with
    | error fault reached => cases fault <;> simp
    | ok pair reached =>
        obtain ⟨result, next⟩ := pair
        by_cases success : result = .success
        · simp [success]
        · simp [success]

/-- An execution without a meaning is one that reaches an opcode without a meaning. -/
theorem executeFrom_undefined {fuel pc : Nat} {vm after : VM}
    (faults : executeFrom allocates code fuel pc vm = .error .undefined after) :
    ∃ ops here reached byte, Runs allocates code pc vm ops here reached ∧
      code[here]? = some byte ∧
      turn allocates (.ofByte byte) code here reached = .error .undefined after := by
  induction fuel generalizing pc vm with
  | zero => cases faults
  | succ fuel ih =>
      rw [executeFrom_succ] at faults
      cases present : code[pc]? with
      | none =>
          rw [present] at faults
          cases faults
      | some byte =>
          simp only [present] at faults
          cases taken : turn allocates (.ofByte byte) code pc vm with
          | error fault reached =>
              rw [taken] at faults
              cases faults
              exact ⟨[], pc, vm, byte, .start, present, taken⟩
          | ok outcome reached =>
              rw [taken] at faults
              cases outcome with
              | inr ending => cases faults
              | inl counter =>
                  obtain ⟨next, rfl, completes⟩ := turn_inl_iff.mp taken
                  obtain ⟨ops, here, last, other, runs, found, stuck⟩ := ih faults
                  exact ⟨.ofByte byte :: ops, here, last, other, .cons present completes runs,
                    found, stuck⟩

/-- An execution leaves the memory exactly when it gets past a growth whose sum wraps. -/
theorem execute_undefined_iff (state : WorldState) (ctx : ExecutionContext) {after : VM} :
    execute allocates code (new state ctx) = .error .undefined after ↔
      ∃ offset length, Accesses allocates code (new state ctx) offset length after ∧
        2 ^ 64 ≤ offset.toNat + length.toNat := by
  constructor
  · intro faults
    obtain ⟨ops, pc, vm, byte, runs, present, stuck⟩ := executeFrom_undefined faults
    obtain ⟨paid, ran⟩ := turn_undefined_iff.mp stuck
    obtain ⟨offset, length, rest, known, grown, short⟩ :=
      (executeOpcode_undefined_iff allocates code pc).mp ran
    refine ⟨offset, length, ⟨ops, pc, vm, byte, rest, runs, present, paid, known, grown⟩, ?_⟩
    have reaches := expandMemory_reaches grown
    rw [UInt64.toNat_add] at reaches
    omega
  · intro wraps
    obtain ⟨offset, length, ⟨ops, pc, vm, byte, rest, runs, present, paid, known, grown⟩, long⟩ :=
      wraps
    obtain ⟨bounded, _⟩ := runs.accounts (new_bounded state ctx)
    obtain ⟨expanded, _⟩ :=
      expandMemory_accounts _ _ _ _ grown (bounded.operands paid known)
    have short := expanded.memory
    have stuck := turn_undefined_iff.mpr ⟨paid, (executeOpcode_undefined_iff allocates code pc).mpr
      ⟨offset, length, rest, known, grown, by omega⟩⟩
    obtain ⟨same, _⟩ := runs.execute (Nat.le_add_left code.length 0)
    have inside := (List.getElem?_eq_some_iff.mp present).1
    rw [execute, same, ← executeFrom_enough allocates code pc (by omega), executeFrom_succ, present]
    simp only [stuck]

/-- Every byte that is read or written is in the memory exactly when the sum of offset and
length does not wrap. -/
theorem memory_in_bounds_iff (allocates : VM → UInt64 → Bool) (code : Bytes) (state : WorldState)
    (ctx : ExecutionContext) {offset length : UInt64} {expanded : VM}
    (accesses : Accesses allocates code (new state ctx) offset length expanded) :
    InBounds expanded offset length ↔ offset.toNat + length.toNat < 2 ^ 64 := by
  obtain ⟨ops, pc, vm, byte, rest, runs, _, paid, known, grown⟩ := accesses
  obtain ⟨bounded, _⟩ := runs.accounts (new_bounded state ctx)
  exact inBounds_iff (bounded.operands paid known) grown

end Executions

open FirstLoad in
theorem memory_in_bounds_firstLoad :
    InBounds (finalState (expandMemory (fun _ _ => true) (0 + 32)
        { pushed with gasUsed := 6, stack := [] })) 0 32 ↔
      (0 : UInt64).toNat + (32 : UInt64).toNat < 2 ^ 64 :=
  memory_in_bounds_iff (fun _ _ => true) code .fresh StoreThenFail.context
    ⟨[.ofByte 0x60], 2, pushed, 0x51, [], .turn .start rfl push_completes, rfl, by decide,
      by decide +kernel, eq_ok_of_returnValue (by decide +kernel)⟩

/-! A load at the last word of the address space. -/
namespace WrappedLoad

/-- `PUSH8 0xFFFFFFFFFFFFFFE0, MLOAD` -/
def code : Bytes := [0x67, 0xff, 0xff, 0xff, 0xff, 0xff, 0xff, 0xff, 0xe0, 0x51]

def start : VM := new .fresh StoreThenFail.context

def offset : UInt64 := 0xffffffffffffffe0

def pushed : VM := { start with gasUsed := 3, stack := [toUint256 offset] }

theorem push_completes :
    Completes (fun _ _ => true) code (.ofByte 0x67) 0 start .success 8 pushed :=
  ⟨by decide, rfl⟩

theorem accesses :
    Accesses (fun _ _ => true) code start offset 32 { start with gasUsed := 6 } :=
  ⟨[.ofByte 0x67], 9, pushed, 0x51, [], .turn .start rfl push_completes, rfl, by decide,
    by decide +kernel, rfl⟩

end WrappedLoad

open WrappedLoad in
/-- A memory that holds nothing is read at the end of the address space. -/
theorem memory_read_outside :
    ¬ ∀ (allocates : VM → UInt64 → Bool) (code : Bytes) (state : WorldState)
      (ctx : ExecutionContext) (offset length : UInt64) (expanded : VM),
      Accesses allocates code (new state ctx) offset length expanded →
      InBounds expanded offset length := by
  intro claim
  have inside := claim _ _ _ _ _ _ _ accesses offset.toNat (Nat.le_refl _) (by decide)
  exact absurd inside (Nat.not_lt_zero _)

end Parthenon.Evm.VM
