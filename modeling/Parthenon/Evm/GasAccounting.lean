import Parthenon.Evm.VmEffects

namespace Parthenon.Evm.VM

open Library

/-! # Gas and stack accounting

Every opcode is charged its cost before it runs, and the memory is charged by the
words it grows.  The gas used is the sum of the two modulo 2^64, and is the sum
itself as long as the limit leaves room to count.
-/

/-- What a memory has been charged for. -/
def memoryGas (memory : Bytes) : Nat := 3 * ((memory.length + 31) / 32)

/-- Gas, memory and stack are within their limits. -/
structure Bounded (vm : VM) : Prop where
  gas : vm.gasUsed.toNat ≤ vm.ctx.gasLimit.toNat
  memory : vm.memory.length < 2 ^ 63
  stack : vm.stack.length ≤ maxStackSize

/-- From a bounded machine, gas is used for the growth of the memory and for nothing else. -/
def Accounts (vm after : VM) : Prop :=
  vm.Bounded → after.Bounded ∧ after.ctx = vm.ctx ∧ vm.memory.length ≤ after.memory.length ∧
    after.gasUsed.toNat + memoryGas vm.memory ≡
      vm.gasUsed.toNat + memoryGas after.memory [MOD 2 ^ 64]

namespace Accounts

theorem refl (vm : VM) : Accounts vm vm := fun bounded => ⟨bounded, rfl, Nat.le_refl _, .refl _⟩

theorem trans (first second third : VM) (here : Accounts first second)
    (later : Accounts second third) : Accounts first third := by
  intro bounded
  obtain ⟨reached, sameCtx, grows, paid⟩ := here bounded
  obtain ⟨after, laterCtx, growsLater, laterPaid⟩ := later reached
  refine ⟨after, laterCtx.trans sameCtx, grows.trans growsLater, ?_⟩
  unfold Nat.ModEq at paid laterPaid ⊢
  omega

/-- An operation that touches neither gas nor memory only has to keep the stack short. -/
theorem of_stack {vm after : VM} (ctx : after.ctx = vm.ctx) (gasUsed : after.gasUsed = vm.gasUsed)
    (memory : after.memory.length = vm.memory.length)
    (stack : vm.stack.length ≤ maxStackSize → after.stack.length ≤ maxStackSize) :
    Accounts vm after := by
  intro bounded
  refine ⟨⟨?_, ?_, stack bounded.stack⟩, ctx, memory.ge, ?_⟩
  · rw [ctx, gasUsed]
    exact bounded.gas
  · rw [memory]
    exact bounded.memory
  · rw [memoryGas, memoryGas, gasUsed, memory]

end Accounts

section Operations

variable {α β : Type}

theorem accounts_pure (value : α) : Ensures Accounts (pure value : Action α) :=
  ensures_pure .refl value

theorem accounts_bind {action : Action α} {next : α → Action β} (here : Ensures Accounts action)
    (later : ∀ value, Ensures Accounts (next value)) : Ensures Accounts (action >>= next) :=
  ensures_bind .trans here later

theorem accounts_getBind {next : VM → Action β} (later : ∀ vm, Ensures Accounts (next vm)) :
    Ensures Accounts (get >>= next) :=
  ensures_getBind fun vm => later vm vm

theorem push_accounts (value : Uint256) : Ensures Accounts (push value) := by
  apply ensures_getBind
  intro vm outcome after done
  split at done
  · cases done
  · rename_i room
    cases done
    refine .of_stack rfl rfl rfl fun _ => ?_
    rw [List.length_cons]
    omega

theorem pop_eq (vm : VM) :
    pop vm = match vm.stack with
      | [] => .error (.runtimeError "Stack underflow") vm
      | value :: rest => .ok value { vm with stack := rest } := by
  obtain ⟨state, ctx, stack, memory, returnData, gasUsed⟩ := vm
  cases stack <;> rfl

theorem pop_accounts : Ensures Accounts pop := by
  intro vm value after done
  rw [pop_eq] at done
  cases shape : vm.stack with
  | nil =>
      rw [shape] at done
      cases done
  | cons top rest =>
      rw [shape] at done
      cases done
      refine .of_stack rfl rfl rfl fun short => ?_
      rw [shape, List.length_cons] at short
      exact Nat.le_of_succ_le short

theorem peek_accounts (depth : Nat) : Ensures Accounts (peek depth) := by
  apply accounts_getBind
  intro vm
  split
  · exact ensures_throw _
  · exact accounts_pure _

theorem dup_accounts (depth : Nat) : Ensures Accounts (dup depth) := by
  apply accounts_getBind
  intro vm
  split
  · exact accounts_bind (ensures_throw _) fun _ => accounts_bind (peek_accounts _) push_accounts
  · exact accounts_bind (peek_accounts _) push_accounts

theorem swap_succ_eq (depth : Nat) (vm : VM) :
    swap (depth + 1) vm = match vm.stack with
      | [] => .error (.runtimeError "Invalid SWAP depth") vm
      | top :: rest => match rest[depth]? with
        | some value => .ok () { vm with stack := value :: rest.set depth top }
        | none => .error (.runtimeError "Invalid SWAP depth") vm := by
  obtain ⟨state, ctx, stack, memory, returnData, gasUsed⟩ := vm
  cases stack with
  | nil => rfl
  | cons top rest =>
      change (match rest[depth]? with
        | some value => modify fun vm => { vm with stack := value :: rest.set depth top }
        | none => throw (.runtimeError "Invalid SWAP depth") : Action Unit) _ = _
      dsimp only
      cases rest[depth]? <;> rfl

theorem swap_accounts (depth : Nat) : Ensures Accounts (swap depth) := by
  intro vm value after done
  cases depth with
  | zero =>
      change EStateM.Result.error _ _ = _ at done
      cases done
  | succ depth =>
      rw [swap_succ_eq] at done
      cases shape : vm.stack with
      | nil =>
          rw [shape] at done
          cases done
      | cons top rest =>
          simp only [shape] at done
          cases found : rest[depth]? with
          | none =>
              rw [found] at done
              cases done
          | some other =>
              rw [found] at done
              cases done
              refine .of_stack rfl rfl rfl fun short => ?_
              rw [shape, List.length_cons] at short
              rwa [List.length_cons, List.length_set]

end Operations

section Memory

variable {allocates : VM → UInt64 → Bool}

/-- What the growth of a memory to a size is charged. -/
def expansionCost (memory : Bytes) (size : UInt64) : UInt64 :=
  ((size + 31) / 32 - (UInt64.ofNat memory.length + 31) / 32) * 3

theorem expandMemory_eq (size : UInt64) (vm : VM) :
    expandMemory allocates size vm =
      if vm.memory.length < size.toNat then
        if vm.gasUsed + expansionCost vm.memory size > vm.ctx.gasLimit then
          .error (.runtimeError "Out of gas during memory expansion") vm
        else growMemory allocates size
          { vm with gasUsed := vm.gasUsed + expansionCost vm.memory size }
      else .ok () vm := by
  change (if vm.memory.length < size.toNat then
    (do
      unless ← useGas (expansionCost vm.memory size) do
        throw (.runtimeError "Out of gas during memory expansion")
      growMemory allocates size)
    else pure () : Action Unit) vm = _
  split
  · change EStateM.bind (useGas _) _ vm = _
    rw [EStateM.bind, useGas_eq]
    by_cases spent : vm.gasUsed + expansionCost vm.memory size > vm.ctx.gasLimit
    · rw [if_pos spent, if_pos spent]
      rfl
    · rw [if_neg spent, if_neg spent]
      rfl
  · rfl

theorem vectorLimit : (2 : UInt64) ^ 63 = 0x8000000000000000 := by decide +kernel

/-- A memory that grows has a size a vector can have. -/
theorem growMemory_ok {size : UInt64} {vm after : VM} {value : Unit}
    (done : growMemory allocates size vm = .ok value after) :
    size.toNat < 2 ^ 63 ∧
      after = { vm with
        memory := vm.memory ++ List.replicate (size.toNat - vm.memory.length) 0 } := by
  unfold growMemory at done
  obtain ⟨read, reached, got, rest⟩ := bind_ok_iff.mp done
  cases got
  split at rest
  · rename_i served
    cases rest
    obtain ⟨small, _⟩ := Bool.and_eq_true_iff.mp served
    rw [vectorLimit] at small
    exact ⟨UInt64.lt_iff_toNat_lt.mp (of_decide_eq_true small), rfl⟩
  · cases rest

/-- Below the largest size of a vector the charge is for the words that are new. -/
theorem expansionCost_toNat {memory : Bytes} {size : UInt64} (grows : memory.length < size.toNat)
    (small : size.toNat < 2 ^ 63) :
    (expansionCost memory size).toNat =
      3 * ((size.toNat + 31) / 32) - 3 * ((memory.length + 31) / 32) := by
  have newWords : ((size + 31) / 32).toNat = (size.toNat + 31) / 32 := by
    rw [UInt64.toNat_div, UInt64.toNat_add, show (31 : UInt64).toNat = 31 from rfl,
      show (32 : UInt64).toNat = 32 from rfl, Nat.mod_eq_of_lt (by omega)]
  have oldWords : ((UInt64.ofNat memory.length + 31) / 32).toNat = (memory.length + 31) / 32 := by
    rw [UInt64.toNat_div, UInt64.toNat_add, UInt64.toNat_ofNat', show (31 : UInt64).toNat = 31 from rfl,
      show (32 : UInt64).toNat = 32 from rfl,
      Nat.mod_eq_of_lt (show memory.length < 2 ^ 64 by omega), Nat.mod_eq_of_lt (by omega)]
  have ordered : (memory.length + 31) / 32 ≤ (size.toNat + 31) / 32 := by omega
  rw [expansionCost, UInt64.toNat_mul, UInt64.toNat_sub_of_le _ _
    (UInt64.le_iff_toNat_le.mpr (by rw [newWords, oldWords]; exact ordered)),
    newWords, oldWords, show (3 : UInt64).toNat = 3 from rfl, Nat.mod_eq_of_lt (by omega)]
  omega

theorem expandMemory_accounts (size : UInt64) : Ensures Accounts (expandMemory allocates size) := by
  intro vm value after done bounded
  rw [expandMemory_eq] at done
  split at done
  · rename_i grows
    split at done
    · cases done
    · rename_i paid
      obtain ⟨small, isAfter⟩ := growMemory_ok done
      have cost := expansionCost_toNat grows small
      have grown : (vm.memory ++ List.replicate (size.toNat - vm.memory.length) 0).length =
          size.toNat := by
        rw [List.length_append, List.length_replicate]
        omega
      rw [isAfter]
      refine ⟨⟨UInt64.le_iff_toNat_le.mp (UInt64.not_lt.mp paid), ?_, bounded.stack⟩, rfl, ?_, ?_⟩
      · rw [grown]
        exact small
      · rw [grown]
        exact grows.le
      · rw [UInt64.toNat_add, memoryGas, memoryGas, grown, cost]
        unfold Nat.ModEq
        omega
  · cases done
    exact Accounts.refl vm bounded

theorem readMemory_accounts (offset length : UInt64) :
    Ensures Accounts (readMemory offset length) := by
  apply accounts_getBind
  intro vm
  dsimp only
  split
  · exact accounts_pure _
  · exact ensures_throw _

theorem writeMemory_accounts (offset : UInt64) (bytes : Bytes) :
    Ensures Accounts (writeMemory offset bytes) := by
  apply ensures_getBind
  intro vm value after done
  split at done
  · rename_i inside
    cases done
    refine .of_stack rfl rfl ?_ fun short => short
    simp only [List.length_append, List.length_take, List.length_drop]
    omega
  · cases done

theorem memoryLoad_accounts (offset : UInt64) : Ensures Accounts (memoryLoad allocates offset) := by
  apply accounts_bind (expandMemory_accounts _)
  intro _
  apply accounts_bind (readMemory_accounts offset 32)
  intro bytes
  split
  · exact accounts_pure _
  · exact ensures_throw _

theorem assignReturnData_accounts (offset length : UInt64) :
    Ensures Accounts (assignReturnData allocates offset length) := by
  apply accounts_bind (readMemory_accounts offset length)
  intro bytes
  have assigned : Ensures Accounts
      (modify fun vm => { vm with returnData := bytes } : Action Unit) :=
    ensures_modify fun _ => .of_stack rfl rfl rfl fun short => short
  apply accounts_getBind
  intro vm
  split
  · exact assigned
  · exact accounts_bind (ensures_throw _) fun _ => assigned

end Memory

section Opcodes

variable (allocates : VM → UInt64 → Bool) (code : Bytes) (pc : Nat)

/-- An opcode that goes on at its own counter. -/
theorem accounts_then {action : Action Unit} (here : Ensures Accounts action) (pc : Nat) :
    Ensures Accounts (do action; return (ExecResult.success, pc)) :=
  accounts_bind here fun _ => accounts_pure _

theorem unary_accounts (operation : Uint256 → Uint256) : Ensures Accounts (unary operation) :=
  accounts_bind pop_accounts fun _ => push_accounts _

theorem binary_accounts (operation : Uint256 → Uint256 → Uint256) :
    Ensures Accounts (binary operation) :=
  accounts_bind pop_accounts fun _ => accounts_bind pop_accounts fun _ => push_accounts _

/-- An opcode that completes has used gas for its memory only. -/
theorem executeOpcode_accounts (op : Opcode) :
    Ensures Accounts (executeOpcode allocates op code pc) := by
  cases op with
  | stop => exact accounts_pure _
  | add | mul | sub | div | mod | exp | lt | gt | eq | and | or | xor | shl | shr =>
      exact accounts_then (binary_accounts _) pc
  | iszero | not => exact accounts_then (unary_accounts _) pc
  | mload =>
      apply accounts_bind pop_accounts
      intro offset
      exact accounts_bind (memoryLoad_accounts _) fun _ => accounts_then (push_accounts _) pc
  | mstore | mstore8 =>
      apply accounts_bind pop_accounts
      intro offset
      apply accounts_bind pop_accounts
      intro value
      apply accounts_then
      exact accounts_bind (expandMemory_accounts _) fun _ => writeMemory_accounts _ _
  | sload =>
      apply accounts_bind pop_accounts
      intro key
      exact accounts_getBind fun _ => accounts_then (push_accounts _) pc
  | sstore =>
      apply accounts_getBind
      intro vm
      split
      · exact accounts_pure _
      · apply accounts_bind pop_accounts
        intro key
        apply accounts_bind pop_accounts
        intro value
        apply accounts_then
        exact ensures_modify fun _ => .of_stack rfl rfl rfl fun short => short
  | pop => exact accounts_then (accounts_bind pop_accounts fun _ => accounts_pure _) pc
  | push place => exact accounts_bind (push_accounts _) fun _ => accounts_pure _
  | dup place => exact accounts_then (dup_accounts _) pc
  | swap place => exact accounts_then (swap_accounts _) pc
  | address | caller | callvalue | gas | gasprice | timestamp | number | difficulty | gaslimit
  | chainid | basefee => exact accounts_getBind fun _ => accounts_then (push_accounts _) pc
  | jumpdest => exact accounts_pure _
  | «return» | revert =>
      apply accounts_bind pop_accounts
      intro offset
      apply accounts_bind pop_accounts
      intro length
      apply accounts_bind (expandMemory_accounts _)
      intro _
      exact accounts_bind (assignReturnData_accounts _ _) fun _ => accounts_pure _
  | _ => exact accounts_pure _

end Opcodes

/-! ## Runs of the loop -/

section Runs

variable (allocates : VM → UInt64 → Bool) (code : Bytes)

/-- An opcode is paid for and completes, with what it returns. -/
def Completes (op : Opcode) (pc : Nat) (vm : VM) (result : ExecResult) (next : Nat) (after : VM) :
    Prop :=
  ¬ vm.gasUsed + op.getOpcodeCost > vm.ctx.gasLimit ∧
    executeOpcode allocates op code pc { vm with gasUsed := vm.gasUsed + op.getOpcodeCost } =
      .ok (result, next) after

/-- From a counter on, the loop has completed the opcodes and stands at another counter. -/
inductive Runs (start : Nat) (vm : VM) : List Opcode → Nat → VM → Prop
  | start : Runs start vm [] start vm
  | turn {ops : List Opcode} {pc : Nat} {reached : VM} {byte : UInt8} {next : Nat} {after : VM} :
      Runs start vm ops pc reached → code[pc]? = some byte →
      Completes allocates code (.ofByte byte) pc reached .success next after →
      Runs start vm (ops ++ [.ofByte byte]) (next + 1) after

variable {allocates code} {vm : VM}

/-- A turn goes on exactly when its opcode completes with success. -/
theorem turn_inl_iff {op : Opcode} {pc counter : Nat} {after : VM} :
    turn allocates op code pc vm = .ok (.inl counter) after ↔
      ∃ next, counter = next + 1 ∧ Completes allocates code op pc vm .success next after := by
  rw [turn_eq]
  by_cases spent : vm.gasUsed + op.getOpcodeCost > vm.ctx.gasLimit
  · rw [if_pos spent]
    constructor
    · intro done
      cases done
    · intro completes
      obtain ⟨_, _, paid, _⟩ := completes
      exact absurd spent paid
  · rw [if_neg spent]
    simp only [Completes, spent, not_false_iff, true_and]
    cases executeOpcode allocates op code pc { vm with gasUsed := vm.gasUsed + op.getOpcodeCost } with
    | error fault reached => cases fault <;> simp
    | ok pair reached =>
        obtain ⟨result, next⟩ := pair
        by_cases success : result = .success
        · simp [success, eq_comm]
        · simp [success]

theorem Completes.forward {op : Opcode} {pc next : Nat} {after : VM}
    (completes : Completes allocates code op pc vm .success next after) : pc ≤ next :=
  Nat.le_of_lt_succ (turn_forward allocates code pc (turn_inl_iff.mpr ⟨next, rfl, completes⟩))

/-- What is left of an execution once the loop stands at a counter. -/
theorem Runs.execute {start pc fuel : Nat} {ops : List Opcode} {reached : VM}
    (runs : Runs allocates code start vm ops pc reached) (enough : code.length ≤ start + fuel) :
    executeFrom allocates code fuel start vm = executeFrom allocates code fuel pc reached ∧
      start ≤ pc := by
  induction runs with
  | start => exact ⟨rfl, Nat.le_refl start⟩
  | turn before here completes ih =>
      rename_i pc reached byte next after
      obtain ⟨same, later⟩ := ih
      have forward := completes.forward
      have goesOn := turn_inl_iff.mpr ⟨_, rfl, completes⟩
      refine ⟨?_, by omega⟩
      rw [same, ← executeFrom_enough allocates code pc (by omega), executeFrom_succ, here]
      simp only [goesOn]

/-- A run with one more opcode in front. -/
theorem Runs.cons {pc next : Nat} {byte : UInt8} {vm after : VM}
    (here : code[pc]? = some byte)
    (completes : Completes allocates code (.ofByte byte) pc vm .success next after)
    {ops : List Opcode} {finish : Nat} {reached : VM}
    (runs : Runs allocates code (next + 1) after ops finish reached) :
    Runs allocates code pc vm (.ofByte byte :: ops) finish reached := by
  induction runs with
  | start => exact .turn .start here completes
  | turn before there later ih => exact .turn ih there later

/-- The gas of a machine that has completed opcodes. -/
structure Accounted (ops : List Opcode) (vm : VM) : Prop where
  gas : vm.gasUsed.toNat = (ops.map fun op => op.getOpcodeCost.toNat).sum + memoryGas vm.memory
  limit : vm.gasUsed.toNat ≤ vm.ctx.gasLimit.toNat
  stack : vm.stack.length ≤ maxStackSize
  remaining : vm.gasUsed.toNat + vm.getGasRemaining.toNat = vm.ctx.gasLimit.toNat

theorem getOpcodeCost_le (op : Opcode) : op.getOpcodeCost.toNat ≤ 32000 := by
  cases op <;> exact of_decide_eq_true rfl

theorem Bounded.accounted {ops : List Opcode} (bounded : vm.Bounded)
    (gas : vm.gasUsed.toNat =
      (ops.map fun op => op.getOpcodeCost.toNat).sum + memoryGas vm.memory) :
    Accounted ops vm where
  gas := gas
  limit := bounded.gas
  stack := bounded.stack
  remaining := by
    rw [getGasRemaining, UInt64.toNat_sub_of_le _ _ (UInt64.le_iff_toNat_le.mpr bounded.gas)]
    exact Nat.add_sub_cancel' bounded.gas

theorem Bounded.memoryGas_le (bounded : vm.Bounded) : memoryGas vm.memory ≤ 2 ^ 60 := by
  have := bounded.memory
  rw [memoryGas]
  omega

/-- What one completed opcode adds: its cost and the growth of the memory. -/
theorem Completes.accounts {op : Opcode} {pc next : Nat} {result : ExecResult} {after : VM}
    (completes : Completes allocates code op pc vm result next after) (bounded : vm.Bounded) :
    after.Bounded ∧ after.ctx = vm.ctx ∧ vm.memory.length ≤ after.memory.length ∧
      after.gasUsed.toNat + memoryGas vm.memory ≡
        vm.gasUsed.toNat + op.getOpcodeCost.toNat + memoryGas after.memory [MOD 2 ^ 64] := by
  obtain ⟨paid, ran⟩ := completes
  have charged : Bounded { vm with gasUsed := vm.gasUsed + op.getOpcodeCost } :=
    ⟨UInt64.le_iff_toNat_le.mp (UInt64.not_lt.mp paid), bounded.memory, bounded.stack⟩
  obtain ⟨after, ctx, grows, grown⟩ :=
    executeOpcode_accounts allocates code pc op _ _ _ ran charged
  refine ⟨after, ctx, grows, ?_⟩
  dsimp only at grown
  rw [UInt64.toNat_add] at grown
  unfold Nat.ModEq at grown ⊢
  omega

/-- Below the limit that leaves room to count the sums are exact. -/
theorem exact_of_modEq {left right : Nat} (same : left ≡ right [MOD 2 ^ 64])
    (leftSmall : left < 2 ^ 64) (rightSmall : right < 2 ^ 64) : left = right := by
  rwa [Nat.ModEq, Nat.mod_eq_of_lt leftSmall, Nat.mod_eq_of_lt rightSmall] at same

theorem Completes.accounts_exactly {op : Opcode} {pc next : Nat} {result : ExecResult} {after : VM}
    (completes : Completes allocates code op pc vm result next after) (bounded : vm.Bounded)
    (limit : vm.ctx.gasLimit.toNat ≤ 2 ^ 63) :
    after.gasUsed.toNat + memoryGas vm.memory =
      vm.gasUsed.toNat + op.getOpcodeCost.toNat + memoryGas after.memory := by
  obtain ⟨afterBounded, ctx, _, added⟩ := completes.accounts bounded
  have cheap := getOpcodeCost_le op
  have before := bounded.memoryGas_le
  have grown := afterBounded.memoryGas_le
  have gas := bounded.gas
  have afterGas := afterBounded.gas
  rw [ctx] at afterGas
  exact exact_of_modEq added (by omega) (by omega)

/-- What the opcodes of a run add: their costs and the growth of the memory. -/
theorem Runs.accounts {start pc : Nat} {ops : List Opcode} {reached : VM}
    (runs : Runs allocates code start vm ops pc reached) (bounded : vm.Bounded) :
    reached.Bounded ∧ reached.ctx = vm.ctx ∧ vm.memory.length ≤ reached.memory.length ∧
      reached.gasUsed.toNat + memoryGas vm.memory ≡
        vm.gasUsed.toNat + (ops.map fun op => op.getOpcodeCost.toNat).sum +
          memoryGas reached.memory [MOD 2 ^ 64] ∧
      (vm.ctx.gasLimit.toNat ≤ 2 ^ 63 →
        reached.gasUsed.toNat + memoryGas vm.memory =
          vm.gasUsed.toNat + (ops.map fun op => op.getOpcodeCost.toNat).sum +
            memoryGas reached.memory) := by
  induction runs with
  | start => exact ⟨bounded, rfl, Nat.le_refl _, .refl _, fun _ => rfl⟩
  | turn before here completes ih =>
      obtain ⟨reachedBounded, ctx, grows, modulo, exactly⟩ := ih
      obtain ⟨afterBounded, laterCtx, growsLater, added⟩ := completes.accounts reachedBounded
      refine ⟨afterBounded, laterCtx.trans ctx, grows.trans growsLater, ?_, ?_⟩
      · rw [List.map_append, List.sum_append, List.map_singleton, List.sum_singleton]
        unfold Nat.ModEq at modulo added ⊢
        omega
      · intro limit
        have exact_ := completes.accounts_exactly reachedBounded (ctx ▸ limit)
        have earlier := exactly limit
        rw [List.map_append, List.sum_append, List.map_singleton, List.sum_singleton]
        omega

end Runs

theorem new_bounded (state : WorldState) (ctx : ExecutionContext) : (new state ctx).Bounded :=
  ⟨Nat.zero_le _, Nat.two_pow_pos 63, Nat.zero_le _⟩

/-- A machine just after an opcode of the code has completed, with the opcodes so far. -/
def AfterOpcode (allocates : VM → UInt64 → Bool) (code : Bytes) (vm : VM) (ops : List Opcode)
    (after : VM) : Prop :=
  ∃ before pc reached byte result next, ops = before ++ [.ofByte byte] ∧
    Runs allocates code 0 vm before pc reached ∧ code[pc]? = some byte ∧
    Completes allocates code (.ofByte byte) pc reached result next after

/-- After every opcode that completes, whatever it returns, gas and stack are accounted for. -/
theorem gas_accounted (allocates : VM → UInt64 → Bool) (code : Bytes) (state : WorldState)
    (ctx : ExecutionContext) (limit : ctx.gasLimit.toNat ≤ 2 ^ 63) {ops : List Opcode} {after : VM}
    (completed : AfterOpcode allocates code (new state ctx) ops after) : Accounted ops after := by
  obtain ⟨before, pc, reached, byte, result, next, isOps, runs, _, completes⟩ := completed
  obtain ⟨bounded, sameCtx, _, _, exactly⟩ := runs.accounts (new_bounded state ctx)
  obtain ⟨afterBounded, _⟩ := completes.accounts bounded
  have last := completes.accounts_exactly bounded (sameCtx ▸ limit)
  have earlier := exactly limit
  have nothing : (new state ctx).gasUsed.toNat = 0 ∧ memoryGas (new state ctx).memory = 0 := by
    simp [new, memoryGas]
  apply afterBounded.accounted
  rw [isOps, List.map_append, List.sum_append, List.map_singleton, List.sum_singleton]
  omega

/-! A load that grows the memory. -/
namespace FirstLoad

/-- `PUSH1 0, MLOAD` -/
def code : Bytes := [0x60, 0, 0x51]

def start : VM := new .fresh StoreThenFail.context

def pushed : VM := { start with gasUsed := 3, stack := [.zero 32] }

def loaded : VM :=
  finalState (executeOpcode (fun _ _ => true) .mload code 2 { pushed with gasUsed := 6 })

theorem push_completes : Completes (fun _ _ => true) code (.ofByte 0x60) 0 start .success 1 pushed :=
  ⟨by decide, rfl⟩

theorem load_returns :
    returnValue (executeOpcode (fun _ _ => true) .mload code 2 { pushed with gasUsed := 6 }) =
      some (.success, 2) := by
  decide +kernel

theorem load_completes :
    Completes (fun _ _ => true) code (.ofByte 0x51) 2 pushed .success 2 loaded := by
  have isLoad : Opcode.ofByte 0x51 = .mload := by decide
  have cost : pushed.gasUsed + Opcode.mload.getOpcodeCost = 6 := by decide
  rw [Completes, isLoad, cost]
  exact ⟨by decide, eq_ok_of_returnValue load_returns⟩

theorem run :
    AfterOpcode (fun _ _ => true) code start [.ofByte 0x60, .ofByte 0x51] loaded :=
  ⟨[.ofByte 0x60], 2, pushed, 0x51, .success, 2, rfl, .turn .start rfl push_completes, rfl,
    load_completes⟩

end FirstLoad

theorem gas_accounted_firstLoad :
    Accounted [.ofByte 0x60, .ofByte 0x51] FirstLoad.loaded :=
  gas_accounted (fun _ _ => true) FirstLoad.code .fresh StoreThenFail.context (by decide)
    FirstLoad.run

end Parthenon.Evm.VM
