import Parthenon.Evm.Vm
import Parthenon.Library.Effects
import Parthenon.Library.OrderedMap

namespace Parthenon.Evm.VM

open Library Std

/-! # What an execution changes

Only `SSTORE` touches the world state.  The accounts stay as they are, and the
storage is the old one with the stores of the opcodes that completed.
-/

/-- The world state and the context are kept. -/
def SameWorld (vm after : VM) : Prop := after.state = vm.state ∧ after.ctx = vm.ctx

theorem SameWorld.refl (vm : VM) : SameWorld vm vm := ⟨rfl, rfl⟩

theorem SameWorld.trans (first second third : VM) (here : SameWorld first second)
    (later : SameWorld second third) : SameWorld first third :=
  ⟨later.1.trans here.1, later.2.trans here.2⟩

section Operations

variable {α β : Type}

theorem keeps_pure (value : α) : Respects SameWorld (pure value : Action α) :=
  respects_pure .refl value

theorem keeps_throw (fault : Fault) : Respects SameWorld (throw fault : Action α) :=
  respects_throw .refl fault

theorem keeps_bind {action : Action α} {next : α → Action β} (here : Respects SameWorld action)
    (later : ∀ value, Respects SameWorld (next value)) : Respects SameWorld (action >>= next) :=
  respects_bind .trans here later

theorem keeps_getBind {next : VM → Action β} (later : ∀ vm, Respects SameWorld (next vm)) :
    Respects SameWorld (get >>= next) :=
  keeps_bind (respects_get .refl) later

theorem push_keeps (value : Uint256) : Respects SameWorld (push value) := by
  apply keeps_getBind
  intro vm
  split
  · exact keeps_bind (keeps_throw _) fun _ => respects_modify fun _ => ⟨rfl, rfl⟩
  · exact respects_modify fun _ => ⟨rfl, rfl⟩

theorem pop_keeps : Respects SameWorld pop := by
  apply keeps_getBind
  intro vm
  split
  · exact keeps_throw _
  · exact keeps_bind (respects_modify fun _ => ⟨rfl, rfl⟩) fun _ => keeps_pure _

theorem peek_keeps (depth : Nat) : Respects SameWorld (peek depth) := by
  apply keeps_getBind
  intro vm
  split
  · exact keeps_throw _
  · exact keeps_pure _

theorem dup_keeps (depth : Nat) : Respects SameWorld (dup depth) := by
  apply keeps_getBind
  intro vm
  split
  · exact keeps_bind (keeps_throw _) fun _ => keeps_bind (peek_keeps _) push_keeps
  · exact keeps_bind (peek_keeps _) push_keeps

theorem swap_keeps (depth : Nat) : Respects SameWorld (swap depth) := by
  apply keeps_getBind
  intro vm
  split
  · split
    · exact respects_modify fun _ => ⟨rfl, rfl⟩
    · exact keeps_throw _
  · exact keeps_throw _

theorem useGas_keeps (amount : UInt64) : Respects SameWorld (useGas amount) := by
  apply keeps_getBind
  intro vm
  split
  · exact keeps_bind (keeps_pure _) fun _ => keeps_pure _
  · exact keeps_bind (respects_modify fun _ => ⟨rfl, rfl⟩) fun _ => keeps_pure _

theorem growMemory_keeps (allocates : VM → UInt64 → Bool) (size : UInt64) :
    Respects SameWorld (growMemory allocates size) := by
  apply keeps_getBind
  intro vm
  split
  · exact respects_modify fun _ => ⟨rfl, rfl⟩
  · exact keeps_bind (keeps_throw _) fun _ => respects_modify fun _ => ⟨rfl, rfl⟩

theorem expandMemory_keeps (allocates : VM → UInt64 → Bool) (size : UInt64) :
    Respects SameWorld (expandMemory allocates size) := by
  apply keeps_getBind
  intro vm
  dsimp only
  split
  · apply keeps_bind (useGas_keeps _)
    intro paid
    cases paid with
    | true => exact growMemory_keeps allocates size
    | false => exact keeps_bind (keeps_throw _) fun _ => growMemory_keeps allocates size
  · exact keeps_pure _

theorem readMemory_keeps (offset length : UInt64) : Respects SameWorld (readMemory offset length) := by
  apply keeps_getBind
  intro vm
  dsimp only
  split
  · exact keeps_pure _
  · exact keeps_throw _

theorem writeMemory_keeps (offset : UInt64) (bytes : Bytes) :
    Respects SameWorld (writeMemory offset bytes) := by
  apply keeps_getBind
  intro vm
  dsimp only
  split
  · exact respects_modify fun _ => ⟨rfl, rfl⟩
  · exact keeps_throw _

theorem memoryStore_keeps (allocates : VM → UInt64 → Bool) (offset : UInt64) (value : Uint256) :
    Respects SameWorld (memoryStore allocates offset value) :=
  keeps_bind (expandMemory_keeps allocates _) fun _ => writeMemory_keeps offset _

theorem memoryStore8_keeps (allocates : VM → UInt64 → Bool) (offset : UInt64) (value : UInt8) :
    Respects SameWorld (memoryStore8 allocates offset value) :=
  keeps_bind (expandMemory_keeps allocates _) fun _ => writeMemory_keeps offset _

theorem memoryLoad_keeps (allocates : VM → UInt64 → Bool) (offset : UInt64) :
    Respects SameWorld (memoryLoad allocates offset) := by
  apply keeps_bind (expandMemory_keeps allocates _)
  intro _
  apply keeps_bind (readMemory_keeps offset 32)
  intro bytes
  split
  · exact keeps_pure _
  · exact keeps_throw _

theorem assignReturnData_keeps (allocates : VM → UInt64 → Bool) (offset length : UInt64) :
    Respects SameWorld (assignReturnData allocates offset length) := by
  apply keeps_bind (readMemory_keeps offset length)
  intro bytes
  apply keeps_getBind
  intro vm
  split
  · exact respects_modify fun _ => ⟨rfl, rfl⟩
  · exact keeps_bind (keeps_throw _) fun _ => respects_modify fun _ => ⟨rfl, rfl⟩

theorem unary_keeps (operation : Uint256 → Uint256) : Respects SameWorld (unary operation) :=
  keeps_bind pop_keeps fun _ => push_keeps _

theorem binary_keeps (operation : Uint256 → Uint256 → Uint256) :
    Respects SameWorld (binary operation) :=
  keeps_bind pop_keeps fun _ => keeps_bind pop_keeps fun _ => push_keeps _

end Operations

section Opcodes

variable (allocates : VM → UInt64 → Bool) (code : Bytes) (pc : Nat)

/-- An opcode that goes on at its own counter. -/
theorem keeps_then {action : Action Unit} (here : Respects SameWorld action) (pc : Nat) :
    Respects SameWorld (do action; return (ExecResult.success, pc)) :=
  keeps_bind here fun _ => keeps_pure _

theorem executeOpcode_keeps {op : Opcode} (other : op ≠ .sstore) :
    Respects SameWorld (executeOpcode allocates op code pc) := by
  cases op with
  | sstore => exact absurd rfl other
  | stop => exact keeps_pure _
  | add | mul | sub | div | mod | exp | lt | gt | eq | and | or | xor | shl | shr =>
      exact keeps_then (binary_keeps _) pc
  | iszero | not => exact keeps_then (unary_keeps _) pc
  | mload =>
      apply keeps_bind pop_keeps
      intro offset
      exact keeps_bind (memoryLoad_keeps allocates _) fun _ => keeps_then (push_keeps _) pc
  | mstore =>
      apply keeps_bind pop_keeps
      intro offset
      exact keeps_bind pop_keeps fun _ => keeps_then (memoryStore_keeps allocates _ _) pc
  | mstore8 =>
      apply keeps_bind pop_keeps
      intro offset
      exact keeps_bind pop_keeps fun _ => keeps_then (memoryStore8_keeps allocates _ _) pc
  | sload =>
      apply keeps_bind pop_keeps
      intro key
      exact keeps_getBind fun _ => keeps_then (push_keeps _) pc
  | pop => exact keeps_then (keeps_bind pop_keeps fun _ => keeps_pure _) pc
  | push place => exact keeps_bind (push_keeps _) fun _ => keeps_pure _
  | dup place => exact keeps_then (dup_keeps _) pc
  | swap place => exact keeps_then (swap_keeps _) pc
  | address | caller | callvalue | gas | gasprice | timestamp | number | difficulty | gaslimit
  | chainid | basefee => exact keeps_getBind fun _ => keeps_then (push_keeps _) pc
  | «return» | revert =>
      apply keeps_bind pop_keeps
      intro offset
      apply keeps_bind pop_keeps
      intro length
      apply keeps_bind (expandMemory_keeps allocates _)
      intro _
      exact keeps_bind (assignReturnData_keeps allocates _ _) fun _ => keeps_pure _
  | _ => exact keeps_pure _

theorem executeOpcode_forward (op : Opcode) :
    Yields (fun outcome => pc ≤ outcome.2) (executeOpcode allocates op code pc) := by
  have stay (result : ExecResult) :
      Yields (fun outcome => pc ≤ outcome.2) (pure (result, pc) : Action (ExecResult × Nat)) :=
    yields_pure (Nat.le_refl pc)
  cases op with
  | add | mul | sub | div | mod | exp | lt | gt | eq | and | or | xor | shl | shr | iszero | not
  | pop | dup place | swap place => exact yields_bind fun _ => stay _
  | mload | sload =>
      exact yields_bind fun _ => yields_bind fun _ => yields_bind fun _ => stay _
  | mstore | mstore8 =>
      exact yields_bind fun _ => yields_bind fun _ => yields_bind fun _ => stay _
  | sstore =>
      apply yields_bind
      intro vm
      split
      · exact stay _
      · exact yields_bind fun _ => yields_bind fun _ => yields_bind fun _ => stay _
  | push place => exact yields_bind fun _ => yields_pure (Nat.le_add_right _ _)
  | address | caller | callvalue | gas | gasprice | timestamp | number | difficulty | gaslimit
  | chainid | basefee => exact yields_bind fun _ => yields_bind fun _ => stay _
  | «return» | revert =>
      exact yields_bind fun _ => yields_bind fun _ => yields_bind fun _ => yields_bind fun _ => stay _
  | _ => exact stay _

end Opcodes

/-! ## Stores -/

/-- The key and the value an opcode stores when it completes. -/
def storeOf (op : Opcode) (vm : VM) : List (Uint256 × Uint256) :=
  match op, vm.stack with
  | .sstore, key :: value :: _ => if vm.ctx.isStatic then [] else [(key, value)]
  | _, _ => []

/-- A world state after stores at one address, in their order. -/
def storeAll (state : WorldState) (addr : Address) (stores : List (Uint256 × Uint256)) : WorldState :=
  stores.foldl (fun state store => state.setStorage addr store.1 store.2) state

section Turns

variable (allocates : VM → UInt64 → Bool) (code : Bytes) (pc : Nat)

theorem executeOpcode_sstore (vm : VM) :
    executeOpcode allocates .sstore code pc vm =
      if vm.ctx.isStatic then .ok (.staticCallViolation, pc) vm
      else match vm.stack with
      | [] => .error (.runtimeError "Stack underflow") vm
      | [_] => .error (.runtimeError "Stack underflow") { vm with stack := [] }
      | key :: value :: rest => .ok (.success, pc)
          { vm with stack := rest, state := vm.state.setStorage vm.ctx.address key value } := by
  obtain ⟨state, ctx, stack, memory, returnData, gasUsed⟩ := vm
  obtain ⟨caller, address, value, gasLimit, gasPrice, blockNumber, timestamp, difficulty,
    gasLimitBlock, chainId, baseFee, isStatic⟩ := ctx
  cases isStatic with
  | true => rfl
  | false => rcases stack with _ | ⟨key, _ | ⟨value, rest⟩⟩ <;> rfl

theorem useGas_eq (amount : UInt64) (vm : VM) :
    useGas amount vm = if vm.gasUsed + amount > vm.ctx.gasLimit then .ok false vm
      else .ok true { vm with gasUsed := vm.gasUsed + amount } := by
  change (if vm.gasUsed + amount > vm.ctx.gasLimit then _ else _ : Action Bool) vm = _
  split <;> rfl

theorem turn_eq (op : Opcode) (vm : VM) :
    turn allocates op code pc vm =
      if vm.gasUsed + op.getOpcodeCost > vm.ctx.gasLimit then .ok (.inr (.outOfGas, [])) vm
      else match executeOpcode allocates op code pc
          { vm with gasUsed := vm.gasUsed + op.getOpcodeCost } with
      | .ok (result, pc) after =>
          if result = .success then .ok (.inl (pc + 1)) after
          else .ok (.inr (result, after.returnData)) after
      | .error .undefined after => .error .undefined after
      | .error _ after => .ok (.inr (.invalidOpcode, [])) after := by
  unfold turn
  change EStateM.bind (useGas op.getOpcodeCost) _ vm = _
  rw [EStateM.bind, useGas_eq]
  by_cases spent : vm.gasUsed + op.getOpcodeCost > vm.ctx.gasLimit
  · rw [if_pos spent, if_pos spent]
    rfl
  · rw [if_neg spent, if_neg spent]
    change EStateM.tryCatch (EStateM.bind (executeOpcode allocates op code pc) _) _ _ = _
    rw [EStateM.tryCatch, EStateM.bind]
    cases executeOpcode allocates op code pc { vm with gasUsed := vm.gasUsed + op.getOpcodeCost } with
    | ok pair after =>
        obtain ⟨result, pc⟩ := pair
        by_cases success : result = .success
        · simp only [proceed, success, if_true]
          rfl
        · simp only [proceed, success, if_false]
          rfl
    | error fault after => cases fault <;> rfl

theorem executeOpcode_stores (op : Opcode) (vm : VM) :
    match executeOpcode allocates op code pc vm with
    | .ok (.success, _) after =>
        after.state = storeAll vm.state vm.ctx.address (storeOf op vm) ∧ after.ctx = vm.ctx
    | ended => SameWorld vm (finalState ended) := by
  by_cases store : op = .sstore
  · subst store
    rw [executeOpcode_sstore]
    cases static : vm.ctx.isStatic with
    | true => exact .refl vm
    | false =>
        rcases shape : vm.stack with _ | ⟨key, _ | ⟨value, rest⟩⟩
        · exact .refl vm
        · exact ⟨rfl, rfl⟩
        · simp [storeOf, storeAll, shape, static]
  · have kept := executeOpcode_keeps allocates code pc store vm
    have none_ : storeOf op vm = [] := by
      unfold storeOf
      split
      · exact absurd rfl store
      · rfl
    cases ran : executeOpcode allocates op code pc vm with
    | error fault after =>
        rw [ran] at kept
        exact kept
    | ok pair after =>
        obtain ⟨result, next⟩ := pair
        rw [ran] at kept
        cases result with
        | success =>
            rw [none_]
            exact kept
        | _ => exact kept

/-- A turn that goes on has made the store of its opcode; any other keeps the world. -/
theorem turn_stores (op : Opcode) (vm : VM) :
    match turn allocates op code pc vm with
    | .ok (.inl _) after =>
        after.state = storeAll vm.state vm.ctx.address (storeOf op vm) ∧ after.ctx = vm.ctx
    | ended => SameWorld vm (finalState ended) := by
  rw [turn_eq]
  by_cases spent : vm.gasUsed + op.getOpcodeCost > vm.ctx.gasLimit
  · rw [if_pos spent]
    exact .refl vm
  · rw [if_neg spent]
    have effect := executeOpcode_stores allocates code pc op
      { vm with gasUsed := vm.gasUsed + op.getOpcodeCost }
    cases ran : executeOpcode allocates op code pc
      { vm with gasUsed := vm.gasUsed + op.getOpcodeCost } with
    | error fault after =>
        rw [ran] at effect
        cases fault <;> exact effect
    | ok pair after =>
        obtain ⟨result, next⟩ := pair
        rw [ran] at effect
        cases result <;> exact effect

/-- The stores of the opcodes that complete, from a counter on. -/
def storesFrom : Nat → Nat → VM → List (Uint256 × Uint256)
  | 0, _, _ => []
  | fuel + 1, pc, vm =>
      match code[pc]? with
      | none => []
      | some byte =>
          match turn allocates (.ofByte byte) code pc vm with
          | .ok (.inl next) after => storeOf (.ofByte byte) vm ++ storesFrom fuel next after
          | _ => []

def stores (vm : VM) : List (Uint256 × Uint256) := storesFrom allocates code code.length 0 vm

theorem executeFrom_succ (fuel : Nat) (vm : VM) :
    executeFrom allocates code (fuel + 1) pc vm =
      match code[pc]? with
      | none => .ok (.success, []) vm
      | some byte =>
          match turn allocates (.ofByte byte) code pc vm with
          | .ok (.inl next) after => executeFrom allocates code fuel next after
          | .ok (.inr ending) after => .ok ending after
          | .error fault after => .error fault after := by
  rw [executeFrom]
  cases code[pc]? with
  | none => rfl
  | some byte =>
      change EStateM.bind (turn allocates (.ofByte byte) code pc) _ vm =
        match turn allocates (.ofByte byte) code pc vm with
        | .ok (.inl next) after => executeFrom allocates code fuel next after
        | .ok (.inr ending) after => .ok ending after
        | .error fault after => .error fault after
      rw [EStateM.bind]
      cases turn allocates (.ofByte byte) code pc vm with
      | error fault after => rfl
      | ok next after => cases next <;> rfl

theorem turn_forward {op : Opcode} {vm after : VM} {next : Nat}
    (taken : turn allocates op code pc vm = .ok (.inl next) after) : pc < next := by
  rw [turn_eq] at taken
  split at taken
  · cases taken
  · have forward := executeOpcode_forward allocates code pc op
      { vm with gasUsed := vm.gasUsed + op.getOpcodeCost }
    cases ran : executeOpcode allocates op code pc
      { vm with gasUsed := vm.gasUsed + op.getOpcodeCost } with
    | error fault state =>
        rw [ran] at taken
        cases fault <;> cases taken
    | ok pair state =>
        obtain ⟨result, counter⟩ := pair
        rw [ran] at taken forward
        have reached : pc ≤ counter := forward _ rfl
        by_cases success : result = .success
        · simp only [success, if_true] at taken
          cases taken
          omega
        · simp only [success, if_false] at taken
          cases taken

/-- As many turns as there are bytes left always suffice. -/
theorem executeFrom_enough {fuel : Nat} (enough : code.length ≤ pc + fuel) (vm : VM) :
    executeFrom allocates code (fuel + 1) pc vm = executeFrom allocates code fuel pc vm := by
  induction fuel generalizing pc vm with
  | zero =>
      have past : code[pc]? = none := List.getElem?_eq_none enough
      rw [executeFrom_succ, past]
      rfl
  | succ fuel ih =>
      rw [executeFrom_succ, executeFrom_succ allocates code pc fuel]
      cases code[pc]? with
      | none => rfl
      | some byte =>
          dsimp only
          cases taken : turn allocates (.ofByte byte) code pc vm with
          | error fault after => rfl
          | ok outcome after =>
              cases outcome with
              | inr ending => rfl
              | inl next =>
                  have forward := turn_forward allocates code pc taken
                  exact ih next (by omega) after

theorem executeFrom_stores (fuel : Nat) (vm : VM) :
    (finalState (executeFrom allocates code fuel pc vm)).state =
      storeAll vm.state vm.ctx.address (storesFrom allocates code fuel pc vm) := by
  induction fuel generalizing pc vm with
  | zero => rfl
  | succ fuel ih =>
      rw [executeFrom_succ, storesFrom]
      cases code[pc]? with
      | none => rfl
      | some byte =>
          have effect := turn_stores allocates code pc (.ofByte byte) vm
          dsimp only
          cases taken : turn allocates (.ofByte byte) code pc vm with
          | error fault after =>
              rw [taken] at effect
              exact effect.1
          | ok outcome after =>
              rw [taken] at effect
              cases outcome with
              | inr ending => exact effect.1
              | inl next =>
                  simp only [ih, effect.1, effect.2, storeAll, List.foldl_append]

/-- An execution leaves the world with its stores made, however it ends. -/
theorem execute_stores (vm : VM) :
    (finalState (execute allocates code vm)).state =
      storeAll vm.state vm.ctx.address (stores allocates code vm) :=
  executeFrom_stores allocates code 0 code.length vm

theorem stores_of_static {vm : VM} (static : vm.ctx.isStatic = true) :
    stores allocates code vm = [] := by
  unfold stores
  generalize code.length = fuel
  generalize 0 = pc
  induction fuel generalizing pc vm with
  | zero => rfl
  | succ fuel ih =>
      rw [storesFrom]
      cases code[pc]? with
      | none => rfl
      | some byte =>
          have effect := turn_stores allocates code pc (.ofByte byte) vm
          have none_ : storeOf (.ofByte byte) vm = [] := by
            unfold storeOf
            split
            · rw [if_pos static]
            · rfl
          dsimp only
          cases taken : turn allocates (.ofByte byte) code pc vm with
          | error fault after => rfl
          | ok outcome after =>
              rw [taken] at effect
              cases outcome with
              | inr ending => rfl
              | inl next =>
                  have still : after.ctx.isStatic = true := by rw [effect.2, static]
                  simp only [none_, ih still, List.nil_append]

end Turns

/-! ## The world after stores -/

/-- The entry a store leaves; zero leaves none. -/
def entryOf (addr : Address) (store : Uint256 × Uint256) : Update StorageKey Uint256 :=
  (⟨addr, store.1⟩, if isZero store.2 then none else some store.2)

theorem storeAll_accounts (state : WorldState) (addr : Address) (stores : List (Uint256 × Uint256)) :
    (storeAll state addr stores).accounts = state.accounts := by
  induction stores generalizing state with
  | nil => rfl
  | cons store rest ih => exact ih (state.setStorage addr store.1 store.2)

theorem setStorage_storage (state : WorldState) (addr : Address) (store : Uint256 × Uint256) :
    (state.setStorage addr store.1 store.2).storage = applyUpdate state.storage (entryOf addr store) := by
  unfold WorldState.setStorage entryOf isZero
  cases store.2.bytes.all (· == 0) <;> rfl

theorem storeAll_storage (state : WorldState) (addr : Address) (stores : List (Uint256 × Uint256)) :
    (storeAll state addr stores).storage = applyUpdates state.storage (stores.map (entryOf addr)) := by
  induction stores generalizing state with
  | nil => rfl
  | cons store rest ih =>
      rw [List.map_cons, applyUpdates_cons, ← setStorage_storage]
      exact ih (state.setStorage addr store.1 store.2)

section Claims

variable (allocates : VM → UInt64 → Bool) (code : Bytes)

/-- However it ends, an execution keeps every account, the storage of every other
address, and all storage when the call is static. -/
theorem execute_confined (vm : VM) :
    let after := (finalState (execute allocates code vm)).state
    after.accounts = vm.state.accounts ∧
      (∀ (addr : Address) (key : Uint256), addr ≠ vm.ctx.address →
        after.storage[(⟨addr, key⟩ : StorageKey)]? = vm.state.storage[(⟨addr, key⟩ : StorageKey)]?) ∧
      (vm.ctx.isStatic = true → after.storage = vm.state.storage) := by
  intro after
  have made : after = storeAll vm.state vm.ctx.address (stores allocates code vm) :=
    execute_stores allocates code vm
  rw [made]
  refine ⟨storeAll_accounts _ _ _, ?_, ?_⟩
  · intro addr key other
    have untouched : lastWrite ((stores allocates code vm).map (entryOf vm.ctx.address))
        (⟨addr, key⟩ : StorageKey) = none := by
      apply lastWrite_eq_none.mpr
      intro update member same
      obtain ⟨store, _, rfl⟩ := List.mem_map.mp member
      exact other (congrArg StorageKey.address same).symm
    rw [storeAll_storage, getElem?_applyUpdates, untouched]
    rfl
  · intro static
    rw [stores_of_static allocates code static]
    rfl

/-- Every slot already holds what the last store to it leaves. -/
def StoresRepeat (vm : VM) : Prop :=
  ∀ (slot : StorageKey) (left : Option Uint256),
    lastWrite ((stores allocates code vm).map (entryOf vm.ctx.address)) slot = some left →
      vm.state.storage[slot]? = left

/-- A failed execution leaves no effect exactly when what it stored was there. -/
theorem failed_execution_keeps_iff (vm after : VM) (result : ExecResult) (data : Bytes)
    (ran : execute allocates code vm = .ok (result, data) after)
    (_failed : result ≠ .success ∧ result ≠ .returned) :
    (after.state.accounts = vm.state.accounts ∧ after.state.storage = vm.state.storage) ↔
      StoresRepeat allocates code vm := by
  have made := execute_stores allocates code vm
  rw [ran] at made
  change after.state = _ at made
  rw [made, storeAll_accounts, storeAll_storage, applyUpdates_eq_self_iff]
  exact and_iff_right rfl

end Claims

/-! ## A store that stays -/

namespace StoreThenFail

def context : ExecutionContext where
  caller := .zero 20
  address := .zero 20
  value := .zero 32
  gasLimit := 100000
  gasPrice := 0
  blockNumber := 0
  timestamp := 0
  difficulty := 0
  gasLimitBlock := 0
  chainId := 0
  baseFee := 0
  isStatic := false

/-- `PUSH1 1, PUSH1 0, SSTORE, INVALID` -/
def code : Bytes := [0x60, 1, 0x60, 0, 0x55, 0xfe]

def slot : StorageKey := ⟨.zero 20, toUint256 0⟩

/-- The world in which the slot already holds one. -/
def stored : WorldState := WorldState.fresh.setStorage (.zero 20) (toUint256 0) (toUint256 1)

theorem fails_fresh :
    returnValue (execute (fun _ _ => true) code (new .fresh context)) = some (.invalidOpcode, []) := by
  decide +kernel

theorem stores_fresh :
    stores (fun _ _ => true) code (new .fresh context) = [(toUint256 0, toUint256 1)] := by
  decide +kernel

theorem fails_stored :
    returnValue (execute (fun _ _ => true) code (new stored context)) = some (.invalidOpcode, []) := by
  decide +kernel

theorem stores_stored :
    stores (fun _ _ => true) code (new stored context) = [(toUint256 0, toUint256 1)] := by
  decide +kernel

theorem stored_slot : stored.storage[slot]? = some (toUint256 1) := by decide +kernel

end StoreThenFail

open StoreThenFail in
/-- The store before the invalid opcode is still there. -/
theorem failed_execution_keeps_store :
    ¬ ∀ (allocates : VM → UInt64 → Bool) (code : Bytes) (vm after : VM) (result : ExecResult)
      (data : Bytes), execute allocates code vm = .ok (result, data) after →
      result ≠ .success → result ≠ .returned →
      after.state.accounts = vm.state.accounts ∧ after.state.storage = vm.state.storage := by
  intro claim
  have kept := (claim _ _ _ _ _ _ (eq_ok_of_returnValue fails_fresh) nofun nofun).2
  rw [execute_stores, stores_fresh, storeAll_storage] at kept
  have held := congrArg (·[slot]?) kept
  simp only [getElem?_applyUpdates] at held
  revert held
  decide +kernel

open StoreThenFail in
theorem failed_execution_keeps_iff_stored :
    ∃ after, execute (fun _ _ => true) code (new stored context) = .ok (.invalidOpcode, []) after ∧
      after.state.accounts = stored.accounts ∧ after.state.storage = stored.storage := by
  refine ⟨_, eq_ok_of_returnValue fails_stored, ?_⟩
  apply (failed_execution_keeps_iff _ _ _ _ _ _ (eq_ok_of_returnValue fails_stored)
    ⟨nofun, nofun⟩).mpr
  intro other left wrote
  rw [stores_stored] at wrote
  have here : (other, left) ∈ _ := mem_of_lastWrite wrote
  obtain ⟨same, value⟩ := Prod.mk.inj (List.mem_singleton.mp here)
  rw [same, value]
  exact stored_slot

end Parthenon.Evm.VM
