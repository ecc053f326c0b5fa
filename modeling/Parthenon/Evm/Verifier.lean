import Parthenon.Evm.GasAccounting

namespace Parthenon.Evm.VM

open Library

/-! # Executions that do not look at the caller -/

/-- The same machine, called by another address. -/
def calledBy (caller : Address) (vm : VM) : VM := { vm with ctx := { vm.ctx with caller := caller } }

section Blind

variable (caller : Address)

theorem push_blind (value : Uint256) : Commutes (calledBy caller) (push value) := by
  refine commutes_getBind (fun _ => rfl) ?_
  intro vm
  split
  · exact commutes_bind (commutes_throw _) fun _ => commutes_modify fun _ => rfl
  · exact commutes_modify fun _ => rfl

theorem pop_blind : Commutes (calledBy caller) pop := by
  refine commutes_getBind (fun _ => rfl) ?_
  intro vm
  split
  · exact commutes_throw _
  · exact commutes_bind (commutes_modify fun _ => rfl) fun _ => commutes_pure _

theorem peek_blind (depth : Nat) : Commutes (calledBy caller) (peek depth) := by
  refine commutes_getBind (fun _ => rfl) ?_
  intro vm
  split
  · exact commutes_throw _
  · exact commutes_pure _

theorem dup_blind (depth : Nat) : Commutes (calledBy caller) (dup depth) := by
  refine commutes_getBind (fun _ => rfl) ?_
  intro vm
  split
  · exact commutes_bind (commutes_throw _) fun _ =>
      commutes_bind (peek_blind caller _) (push_blind caller)
  · exact commutes_bind (peek_blind caller _) (push_blind caller)

theorem swap_blind (depth : Nat) : Commutes (calledBy caller) (swap depth) := by
  refine commutes_getBind (fun _ => rfl) ?_
  intro vm
  split
  · split
    · exact commutes_modify fun _ => rfl
    · exact commutes_throw _
  · exact commutes_throw _

theorem useGas_blind (amount : UInt64) : Commutes (calledBy caller) (useGas amount) := by
  refine commutes_getBind (fun _ => rfl) ?_
  intro vm
  split
  · exact commutes_bind (commutes_pure _) fun _ => commutes_pure _
  · exact commutes_bind (commutes_modify fun _ => rfl) fun _ => commutes_pure _

theorem readMemory_blind (offset length : UInt64) :
    Commutes (calledBy caller) (readMemory offset length) := by
  refine commutes_getBind (fun _ => rfl) ?_
  intro vm
  dsimp only
  split
  · exact commutes_pure _
  · exact commutes_throw _

theorem writeMemory_blind (offset : UInt64) (bytes : Bytes) :
    Commutes (calledBy caller) (writeMemory offset bytes) := by
  refine commutes_getBind (fun _ => rfl) ?_
  intro vm
  dsimp only
  split
  · exact commutes_modify fun _ => rfl
  · exact commutes_throw _

theorem unary_blind (operation : Uint256 → Uint256) : Commutes (calledBy caller) (unary operation) :=
  commutes_bind (pop_blind caller) fun _ => push_blind caller _

theorem binary_blind (operation : Uint256 → Uint256 → Uint256) :
    Commutes (calledBy caller) (binary operation) :=
  commutes_bind (pop_blind caller) fun _ => commutes_bind (pop_blind caller) fun _ =>
    push_blind caller _

variable {allocates : VM → UInt64 → Bool}
  (blind : ∀ (vm : VM) (size : UInt64), allocates (vm.calledBy caller) size = allocates vm size)

include blind

theorem growMemory_blind (size : UInt64) : Commutes (calledBy caller) (growMemory allocates size) := by
  apply commutes_getBind
  · intro vm
    rw [blind]
  · intro vm
    split
    · exact commutes_modify fun _ => rfl
    · exact commutes_bind (commutes_throw _) fun _ => commutes_modify fun _ => rfl

theorem expandMemory_blind (size : UInt64) :
    Commutes (calledBy caller) (expandMemory allocates size) := by
  refine commutes_getBind (fun _ => rfl) ?_
  intro vm
  dsimp only
  split
  · apply commutes_bind (useGas_blind caller _)
    intro paid
    cases paid with
    | true => exact growMemory_blind caller blind size
    | false => exact commutes_bind (commutes_throw _) fun _ => growMemory_blind caller blind size
  · exact commutes_pure _

theorem memoryStore_blind (offset : UInt64) (value : Uint256) :
    Commutes (calledBy caller) (memoryStore allocates offset value) :=
  commutes_bind (expandMemory_blind caller blind _) fun _ => writeMemory_blind caller offset _

theorem memoryStore8_blind (offset : UInt64) (value : UInt8) :
    Commutes (calledBy caller) (memoryStore8 allocates offset value) :=
  commutes_bind (expandMemory_blind caller blind _) fun _ => writeMemory_blind caller offset _

theorem memoryLoad_blind (offset : UInt64) :
    Commutes (calledBy caller) (memoryLoad allocates offset) := by
  apply commutes_bind (expandMemory_blind caller blind _)
  intro _
  apply commutes_bind (readMemory_blind caller offset 32)
  intro bytes
  split
  · exact commutes_pure _
  · exact commutes_throw _

theorem assignReturnData_blind (offset length : UInt64) :
    Commutes (calledBy caller) (assignReturnData allocates offset length) := by
  apply commutes_bind (readMemory_blind caller offset length)
  intro bytes
  apply commutes_getBind
  · intro vm
    rw [blind]
  · intro vm
    split
    · exact commutes_modify fun _ => rfl
    · exact commutes_bind (commutes_throw _) fun _ => commutes_modify fun _ => rfl

/-- No other opcode looks at the caller. -/
theorem executeOpcode_blind {op : Opcode} (other : op ≠ .caller) (code : Bytes) (pc : Nat) :
    Commutes (calledBy caller) (executeOpcode allocates op code pc) := by
  have onward {action : Action Unit} (here : Commutes (calledBy caller) action) :
      Commutes (calledBy caller) (do action; return (ExecResult.success, pc)) :=
    commutes_bind here fun _ => commutes_pure _
  cases op with
  | caller => exact absurd rfl other
  | stop => exact commutes_pure _
  | add | mul | sub | div | mod | exp | lt | gt | eq | and | or | xor | shl | shr =>
      exact onward (binary_blind caller _)
  | iszero | not => exact onward (unary_blind caller _)
  | mload =>
      apply commutes_bind (pop_blind caller)
      intro offset
      exact commutes_bind (memoryLoad_blind caller blind _) fun _ => onward (push_blind caller _)
  | mstore =>
      apply commutes_bind (pop_blind caller)
      intro offset
      exact commutes_bind (pop_blind caller) fun _ => onward (memoryStore_blind caller blind _ _)
  | mstore8 =>
      apply commutes_bind (pop_blind caller)
      intro offset
      exact commutes_bind (pop_blind caller) fun _ => onward (memoryStore8_blind caller blind _ _)
  | sload =>
      apply commutes_bind (pop_blind caller)
      intro key
      exact commutes_getBind (fun _ => rfl) fun _ => onward (push_blind caller _)
  | sstore =>
      refine commutes_getBind (fun _ => rfl) ?_
      intro vm
      split
      · exact commutes_pure _
      · apply commutes_bind (pop_blind caller)
        intro key
        apply commutes_bind (pop_blind caller)
        intro value
        exact onward (commutes_modify fun _ => rfl)
  | pop => exact onward (commutes_bind (pop_blind caller) fun _ => commutes_pure _)
  | push place => exact commutes_bind (push_blind caller _) fun _ => commutes_pure _
  | dup place => exact onward (dup_blind caller _)
  | swap place => exact onward (swap_blind caller _)
  | address | callvalue | gas | gasprice | timestamp | number | difficulty | gaslimit | chainid
  | basefee => exact commutes_getBind (fun _ => rfl) fun _ => onward (push_blind caller _)
  | «return» | revert =>
      apply commutes_bind (pop_blind caller)
      intro offset
      apply commutes_bind (pop_blind caller)
      intro length
      apply commutes_bind (expandMemory_blind caller blind _)
      intro _
      exact commutes_bind (assignReturnData_blind caller blind _ _) fun _ => commutes_pure _
  | _ => exact commutes_pure _

theorem turn_blind {op : Opcode} (other : op ≠ .caller) (code : Bytes) (pc : Nat) :
    Commutes (calledBy caller) (turn allocates op code pc) := by
  intro vm
  have same : executeOpcode allocates op code pc
      { calledBy caller vm with gasUsed := (calledBy caller vm).gasUsed + op.getOpcodeCost } =
      mapState (calledBy caller)
        (executeOpcode allocates op code pc { vm with gasUsed := vm.gasUsed + op.getOpcodeCost }) :=
    executeOpcode_blind caller blind other code pc
      { vm with gasUsed := vm.gasUsed + op.getOpcodeCost }
  rw [turn_eq, turn_eq, same]
  by_cases spent : vm.gasUsed + op.getOpcodeCost > vm.ctx.gasLimit
  · rw [if_pos spent]
    exact if_pos spent
  · rw [if_neg spent]
    refine (if_neg spent).trans ?_
    cases executeOpcode allocates op code pc { vm with gasUsed := vm.gasUsed + op.getOpcodeCost } with
    | error fault after => cases fault <;> rfl
    | ok pair after =>
        obtain ⟨result, next⟩ := pair
        by_cases success : result = .success
        · simp only [mapState, success, if_true]
        · simp only [mapState, success, if_false]
          rfl

end Blind

theorem ofByte_eq_iff : ∀ byte : UInt8,
    (Opcode.ofByte byte = .caller ↔ byte = 0x33) ∧ (Opcode.ofByte byte = .sstore ↔ byte = 0x55) := by
  have all : ∀ byte : Fin 256, (Opcode.ofByte (.ofFin byte) = .caller ↔ UInt8.ofFin byte = 0x33) ∧
      (Opcode.ofByte (.ofFin byte) = .sstore ↔ UInt8.ofFin byte = 0x55) := by
    decide +kernel
  exact fun byte => all byte.toFin

/-- Code without the opcode does the same whoever calls it. -/
theorem execute_blind {caller : Address} {allocates : VM → UInt64 → Bool}
    (blind : ∀ (vm : VM) (size : UInt64), allocates (vm.calledBy caller) size = allocates vm size)
    {code : Bytes} (noCaller : 0x33 ∉ code) :
    Commutes (calledBy caller) (execute allocates code) := by
  have run (fuel pc : Nat) : Commutes (calledBy caller) (executeFrom allocates code fuel pc) := by
    induction fuel generalizing pc with
    | zero => exact commutes_pure _
    | succ fuel ih =>
        intro vm
        rw [executeFrom_succ, executeFrom_succ]
        cases here : code[pc]? with
        | none => rfl
        | some byte =>
            have other : Opcode.ofByte byte ≠ .caller := by
              rw [ne_eq, (ofByte_eq_iff byte).1]
              rintro rfl
              exact noCaller (List.mem_of_getElem? here)
            dsimp only
            rw [turn_blind caller blind other code pc vm]
            cases turn allocates (.ofByte byte) code pc vm with
            | error fault after => rfl
            | ok outcome after =>
                cases outcome with
                | inl next => exact ih next after
                | inr ending => rfl
  exact run code.length 0

/-! ## Stores -/

/-- A store is of an `SSTORE`. -/
theorem storeOf_ne_nil {byte : UInt8} {vm : VM} (stores : storeOf (.ofByte byte) vm ≠ []) :
    byte = 0x55 := by
  rw [← (ofByte_eq_iff byte).2]
  by_contra other
  apply stores
  unfold storeOf
  split
  · rename_i isStore _
    exact absurd isStore other
  · rfl

theorem storeOf_length_le (op : Opcode) (vm : VM) : (storeOf op vm).length ≤ 1 := by
  unfold storeOf
  split
  · split
    · exact Nat.zero_le 1
    · exact Nat.le_refl 1
  · exact Nat.zero_le 1

/-- The counter never goes back, so each `SSTORE` stores at most once. -/
theorem stores_length_le (allocates : VM → UInt64 → Bool) (code : Bytes) (vm : VM) :
    (stores allocates code vm).length ≤ code.count 0x55 := by
  have run (fuel pc : Nat) (vm : VM) :
      (storesFrom allocates code fuel pc vm).length ≤ (code.drop pc).count 0x55 := by
    induction fuel generalizing pc vm with
    | zero => exact Nat.zero_le _
    | succ fuel ih =>
        rw [storesFrom]
        cases here : code[pc]? with
        | none => exact Nat.zero_le _
        | some byte =>
            obtain ⟨inside, isByte⟩ := List.getElem?_eq_some_iff.mp here
            dsimp only
            cases taken : turn allocates (.ofByte byte) code pc vm with
            | error fault after => exact Nat.zero_le _
            | ok outcome after =>
                cases outcome with
                | inr ending => exact Nat.zero_le _
                | inl next =>
                    have forward := turn_forward allocates code pc taken
                    have later : (code.drop next).count 0x55 ≤ (code.drop (pc + 1)).count 0x55 := by
                      have split : code.drop next = (code.drop (pc + 1)).drop (next - (pc + 1)) := by
                        rw [List.drop_drop]
                        congr 1
                        omega
                      rw [split]
                      exact (List.drop_sublist _ _).count_le _
                    have rest := ih next after
                    have few := storeOf_length_le (.ofByte byte) vm
                    rw [List.length_append, List.drop_eq_getElem_cons inside, isByte, List.count_cons]
                    by_cases store : byte = 0x55
                    · simp only [store, BEq.rfl, if_true] at few ⊢
                      omega
                    · have none : storeOf (.ofByte byte) vm = [] := by
                        by_contra stores
                        exact store (storeOf_ne_nil stores)
                      rw [none, List.length_nil]
                      omega
  exact run code.length 0 vm

end Parthenon.Evm.VM

namespace Parthenon.Evm.Formal

open Library Std

/-! # The contract verifier

The checks read the bytes of a contract one by one, the data of its pushes included.  Here
they are held against the machine that runs the contract.
-/

inductive VerificationStatus
  | verified | failed | timeout | unsupported
deriving DecidableEq, Repr

inductive PropertyType
  | noReentrancy | noOverflow | accessControl | stateInvariant | functionalCorrectness
deriving DecidableEq, Repr

structure Property where
  type : PropertyType
  description : String
  specification : String
  critical : Bool
deriving DecidableEq, Repr

structure VerificationResult where
  status : VerificationStatus
  verifiedProperties : List Property
  failedProperties : List Property
deriving DecidableEq, Repr

namespace ContractVerifier

def isExternalCall (byte : UInt8) : Bool := byte = 0xF1 || byte = 0xF4 || byte = 0xF2

/-- Whether a store stands behind a call, told whether a call was met before. -/
def stateChangeAfterCall : Bool → Bytes → Bool
  | _, [] => false
  | hasExternalCall, byte :: rest =>
      let hasExternalCall := if isExternalCall byte then true else hasExternalCall
      if hasExternalCall && byte = 0x55 then true else stateChangeAfterCall hasExternalCall rest

def checkReentrancy (bytecode : Bytes) : Bool := !stateChangeAfterCall false bytecode

/-- Arithmetic is checked when a `JUMPI` is among the next sixteen bytes. -/
def checkOverflow : Bytes → Bool
  | [] => true
  | byte :: rest =>
      if byte = 0x01 || byte = 0x02 || byte = 0x03 then
        if (rest.take 16).any (· = 0x57) then checkOverflow rest else false
      else checkOverflow rest

def checkAccessControl (bytecode : Bytes) : Bool := bytecode.any (· = 0x33)

def verify (bytecode : Bytes) (property : Property) : Bool :=
  match property.type with
  | .noReentrancy => checkReentrancy bytecode
  | .noOverflow => checkOverflow bytecode
  | .accessControl => checkAccessControl bytecode
  | .stateInvariant | .functionalCorrectness => !property.critical

/-- One turn of the loop over the properties. -/
def record (bytecode : Bytes) (result : VerificationResult) (property : Property) :
    VerificationResult :=
  if verify bytecode property then
    { result with verifiedProperties := result.verifiedProperties ++ [property] }
  else
    { result with
      failedProperties := result.failedProperties ++ [property]
      status := if property.critical then .failed else result.status }

def verifyContract (bytecode : Bytes) (properties : List Property) : VerificationResult :=
  properties.foldl (record bytecode)
    { status := .verified, verifiedProperties := [], failedProperties := [] }

def getStandardProperties : List Property :=
  [{ type := .noReentrancy, description := "Contract is not vulnerable to reentrancy attacks",
     specification := "", critical := true },
   { type := .noOverflow, description := "No integer overflow or underflow",
     specification := "", critical := true },
   { type := .accessControl, description := "Access control is properly implemented",
     specification := "", critical := true }]

end ContractVerifier

structure StorageSlot where
  slot : UInt32
  name : String
  type : String
  size : UInt32
deriving DecidableEq, Repr

namespace StorageLayoutAnalyzer

def storageSlot (slot : UInt32) : StorageSlot where
  slot := slot
  name := "slot_" ++ toString slot
  type := "uint256"
  size := 32

/-- The slots from a number on, one for each `SSTORE`. -/
def analyzeFrom : UInt32 → Bytes → List StorageSlot
  | _, [] => []
  | slotCounter, byte :: rest =>
      if byte = 0x55 then storageSlot slotCounter :: analyzeFrom (slotCounter + 1) rest
      else analyzeFrom slotCounter rest

def analyzeLayout (bytecode : Bytes) : List StorageSlot := analyzeFrom 0 bytecode

def areLayoutsCompatible (oldLayout newLayout : List StorageSlot) : Bool :=
  if newLayout.length < oldLayout.length then false
  else (oldLayout.zip newLayout).all fun pair => pair.1.slot = pair.2.slot && pair.1.type = pair.2.type

def slotCounts (layout : List StorageSlot) : ExtTreeMap UInt32 Nat :=
  layout.foldl (fun counts slot => counts.insert slot.slot ((counts[slot.slot]?).getD 0 + 1)) ∅

def detectCollisions (layout : List StorageSlot) : List String :=
  (slotCounts layout).toList.filterMap fun entry =>
    if 1 < entry.2 then
      some ("Slot " ++ toString entry.1 ++ " used " ++ toString entry.2 ++ " times")
    else none

end StorageLayoutAnalyzer

open StorageLayoutAnalyzer in
def verifyUpgradeSafety (oldBytecode newBytecode : Bytes) : Bool :=
  areLayoutsCompatible (analyzeLayout oldBytecode) (analyzeLayout newBytecode)

/-! ## What the checks say of the bytes -/

namespace ContractVerifier

theorem stateChangeAfterCall_called (bytecode : Bytes) :
    stateChangeAfterCall true bytecode = true ↔ 0x55 ∈ bytecode := by
  induction bytecode with
  | nil => simp [stateChangeAfterCall]
  | cons byte rest ih =>
      rw [stateChangeAfterCall]
      by_cases store : byte = 0x55
      · simp [store]
      · simp [store, ih, Ne.symm store]

/-- The check passes when no store stands anywhere behind a call. -/
theorem checkReentrancy_iff (bytecode : Bytes) : checkReentrancy bytecode = true ↔
    ∀ front byte back, bytecode = front ++ byte :: back → isExternalCall byte = true →
      0x55 ∉ back := by
  rw [checkReentrancy, Bool.not_eq_true', ← Bool.not_eq_true]
  induction bytecode with
  | nil => simp [stateChangeAfterCall]
  | cons first rest ih =>
      rw [stateChangeAfterCall]
      by_cases call : isExternalCall first = true
      · have noStore : first ≠ 0x55 := by
          rintro rfl
          exact absurd call (by decide)
        simp only [call, if_true, noStore, decide_false, Bool.and_false, Bool.false_eq_true, if_false,
          stateChangeAfterCall_called]
        constructor
        · intro clean front byte back split isCall store
          rcases front with _ | ⟨other, front⟩
          · obtain ⟨rfl, rfl⟩ := List.cons_eq_cons.mp split
            exact clean store
          · obtain ⟨rfl, rfl⟩ := List.cons_eq_cons.mp split
            exact clean (List.mem_append_right _ (List.mem_cons_of_mem _ store))
        · intro clean store
          exact clean [] first rest rfl call store
      · simp only [call, Bool.false_eq_true, if_false, Bool.false_and, ih]
        constructor
        · intro clean front byte back split isCall
          rcases front with _ | ⟨other, front⟩
          · obtain ⟨rfl, rfl⟩ := List.cons_eq_cons.mp split
            exact absurd isCall call
          · obtain ⟨rfl, rfl⟩ := List.cons_eq_cons.mp split
            exact clean front byte back rfl isCall
        · intro clean front byte back split isCall
          exact clean (first :: front) byte back (by rw [split, List.cons_append]) isCall

theorem checkOverflow_iff (bytecode : Bytes) : checkOverflow bytecode = true ↔
    ∀ front byte back, bytecode = front ++ byte :: back → byte ∈ [0x01, 0x02, 0x03] →
      0x57 ∈ back.take 16 := by
  induction bytecode with
  | nil => simp [checkOverflow]
  | cons first rest ih =>
      have later : (∀ front byte back, first :: rest = front ++ byte :: back →
          byte ∈ [0x01, 0x02, 0x03] → 0x57 ∈ back.take 16) ↔
          (first ∈ [0x01, 0x02, 0x03] → 0x57 ∈ rest.take 16) ∧
            ∀ front byte back, rest = front ++ byte :: back → byte ∈ [0x01, 0x02, 0x03] →
              0x57 ∈ back.take 16 := by
        constructor
        · intro guarded
          refine ⟨guarded [] first rest rfl, ?_⟩
          intro front byte back split
          exact guarded (first :: front) byte back (by rw [split, List.cons_append])
        · rintro ⟨here, guarded⟩ front byte back split
          rcases front with _ | ⟨other, front⟩
          · obtain ⟨rfl, rfl⟩ := List.cons_eq_cons.mp split
            exact here
          · obtain ⟨rfl, rfl⟩ := List.cons_eq_cons.mp split
            exact guarded front byte back rfl
      have guard : (rest.take 16).any (· = 0x57) = true ↔ 0x57 ∈ rest.take 16 := by
        simp
      rw [checkOverflow, later, ← ih]
      by_cases arithmetic : first ∈ [0x01, 0x02, 0x03]
      · rw [if_pos (by simpa [or_assoc] using arithmetic)]
        by_cases guarded : 0x57 ∈ rest.take 16
        · rw [if_pos (guard.mpr guarded)]
          simp [guarded]
        · rw [if_neg (mt guard.mp guarded)]
          simp [guarded, arithmetic]
      · rw [if_neg (by simpa [or_assoc] using arithmetic)]
        simp [arithmetic]

theorem checkAccessControl_iff (bytecode : Bytes) :
    checkAccessControl bytecode = true ↔ 0x33 ∈ bytecode := by
  simp [checkAccessControl]

/-- A report sorts the properties and fails for a critical one. -/
theorem verifyContract_eq (bytecode : Bytes) (properties : List Property) :
    verifyContract bytecode properties =
      { status := if properties.any (fun property => property.critical && !verify bytecode property)
          then .failed else .verified
        verifiedProperties := properties.filter (verify bytecode)
        failedProperties := properties.filter fun property => !verify bytecode property } := by
  have sorted (status : VerificationStatus) (passed missed : List Property) :
      properties.foldl (record bytecode) ⟨status, passed, missed⟩ =
        ⟨if properties.any (fun property => property.critical && !verify bytecode property)
          then .failed else status,
          passed ++ properties.filter (verify bytecode),
          missed ++ properties.filter fun property => !verify bytecode property⟩ := by
    induction properties generalizing status passed missed with
    | nil => simp
    | cons property rest ih =>
        rw [List.foldl_cons, record]
        cases holds : verify bytecode property with
        | true =>
            rw [if_pos rfl, ih]
            simp [holds]
        | false =>
            rw [if_neg Bool.false_ne_true, ih]
            cases critical : property.critical <;> simp [holds, critical]
  exact sorted .verified [] []

end ContractVerifier

/-! ## Layouts -/

namespace StorageLayoutAnalyzer

/-- The slots are numbered one after another, from zero again after the last number. -/
theorem analyzeFrom_eq (slotCounter : UInt32) (bytecode : Bytes) :
    analyzeFrom slotCounter bytecode =
      (List.range (bytecode.count 0x55)).map fun index => storageSlot (slotCounter + .ofNat index) := by
  induction bytecode generalizing slotCounter with
  | nil => rfl
  | cons byte rest ih =>
      rw [analyzeFrom]
      by_cases store : byte = 0x55
      · subst store
        have next (index : Nat) :
            slotCounter + 1 + .ofNat index = slotCounter + .ofNat (index + 1) := by
          rw [UInt32.ofNat_add, add_assoc, add_comm (UInt32.ofNat index)]
          rfl
        have first : slotCounter + .ofNat 0 = slotCounter := add_zero slotCounter
        rw [if_pos rfl, List.count_cons_self, List.range_succ_eq_map, List.map_cons, List.map_map, ih,
          first]
        simp only [next, Function.comp_def, Nat.succ_eq_add_one]
      · rw [if_neg store, ih, List.count_cons_of_ne (by simpa using store)]

theorem analyzeLayout_eq (bytecode : Bytes) : analyzeLayout bytecode =
    (List.range (bytecode.count 0x55)).map fun index => storageSlot (.ofNat index) := by
  rw [analyzeLayout, analyzeFrom_eq]
  simp only [zero_add]

theorem analyzeLayout_length (bytecode : Bytes) :
    (analyzeLayout bytecode).length = bytecode.count 0x55 := by
  rw [analyzeLayout_eq, List.length_map, List.length_range]

/-- Layouts differ in their lengths only. -/
theorem verifyUpgradeSafety_iff (oldBytecode newBytecode : Bytes) :
    verifyUpgradeSafety oldBytecode newBytecode = true ↔
      (analyzeLayout oldBytecode).length ≤ (analyzeLayout newBytecode).length := by
  rw [verifyUpgradeSafety, areLayoutsCompatible]
  by_cases shorter : (analyzeLayout newBytecode).length < (analyzeLayout oldBytecode).length
  · rw [if_pos shorter]
    simp only [Bool.false_eq_true, false_iff]
    omega
  · rw [if_neg shorter]
    refine iff_of_true (List.all_eq_true.mpr ?_) (Nat.le_of_not_lt shorter)
    intro pair member
    obtain ⟨index, here⟩ := List.mem_iff_getElem?.mp member
    obtain ⟨inOld, inNew⟩ := List.getElem?_zip_eq_some.mp here
    rw [analyzeLayout_eq, List.getElem?_map, Option.map_eq_some_iff] at inOld inNew
    obtain ⟨first, isFirst, left⟩ := inOld
    obtain ⟨second, isSecond, right⟩ := inNew
    obtain ⟨_, rfl⟩ := List.getElem?_eq_some_iff.mp isFirst
    obtain ⟨_, rfl⟩ := List.getElem?_eq_some_iff.mp isSecond
    rw [← left, ← right]
    simp

theorem slotCounts_getElem? (layout : List StorageSlot) (slot : UInt32) :
    ((slotCounts layout)[slot]?).getD 0 = (layout.map StorageSlot.slot).count slot := by
  have counted (counts : ExtTreeMap UInt32 Nat) :
      ((layout.foldl (fun counts slot => counts.insert slot.slot ((counts[slot.slot]?).getD 0 + 1))
        counts)[slot]?).getD 0 = (counts[slot]?).getD 0 + (layout.map StorageSlot.slot).count slot := by
    induction layout generalizing counts with
    | nil => rfl
    | cons first rest ih =>
        rw [List.foldl_cons, ih, getElem?_insert_eq, List.map_cons, List.count_cons]
        by_cases same : first.slot = slot
        · simp only [same, if_true, Option.getD_some, BEq.rfl]
          omega
        · simp [same]
  rw [slotCounts, counted, ExtTreeMap.getElem?_empty]
  exact Nat.zero_add _

/-- A collision is reported when a slot occurs twice. -/
theorem detectCollisions_eq_nil_iff (layout : List StorageSlot) :
    detectCollisions layout = [] ↔ (layout.map StorageSlot.slot).Nodup := by
  rw [detectCollisions, List.filterMap_eq_nil_iff, List.nodup_iff_count_le_one]
  constructor
  · intro quiet slot
    rw [← slotCounts_getElem?]
    cases found : (slotCounts layout)[slot]? with
    | none => exact Nat.zero_le 1
    | some count =>
        have few := quiet (slot, count) (ExtTreeMap.mem_toList_iff_getElem?_eq_some.mpr found)
        by_contra many
        have several : 1 < count := Nat.lt_of_not_le many
        simp [several] at few
  · rintro different ⟨slot, count⟩ member
    have found := ExtTreeMap.mem_toList_iff_getElem?_eq_some.mp member
    have few := different slot
    rw [← slotCounts_getElem?, found] at few
    exact if_neg (Nat.not_lt_of_le few)

theorem detectCollisions_analyzeLayout (bytecode : Bytes) :
    detectCollisions (analyzeLayout bytecode) = [] ↔ (analyzeLayout bytecode).length ≤ 2 ^ 32 := by
  rw [detectCollisions_eq_nil_iff, analyzeLayout_length, analyzeLayout_eq, List.map_map]
  generalize bytecode.count 0x55 = stores
  constructor
  · intro different
    by_contra many
    have same := (List.nodup_map_iff_inj_on List.nodup_range).mp different
      0 (List.mem_range.mpr (by omega)) (2 ^ 32) (List.mem_range.mpr (by omega)) rfl
    omega
  · intro few
    apply (List.nodup_map_iff_inj_on List.nodup_range).mpr
    intro first inFirst second inSecond same
    rw [List.mem_range] at inFirst inSecond
    have bytes := congrArg UInt32.toNat same
    simp only [Function.comp_apply, storageSlot, UInt32.toNat_ofNat'] at bytes
    omega

/-- Whatever a contract is run on, the layout has a slot for each entry of the storage that it
changes.  The layouts collide only beyond the numbers that there are, and an upgrade is called
safe when it has no fewer slots. -/
theorem analyzeLayout_sound (allocates : VM → UInt64 → Bool) (bytecode : Bytes) :
    (∀ vm : VM, ∃ changed : List StorageKey,
      changed.length ≤ (analyzeLayout bytecode).length ∧
        ∀ key, key ∉ changed →
          (finalState (VM.execute allocates bytecode vm)).state.storage[key]? =
            vm.state.storage[key]?) ∧
    (detectCollisions (analyzeLayout bytecode) = [] ↔ (analyzeLayout bytecode).length ≤ 2 ^ 32) ∧
    ∀ newBytecode, verifyUpgradeSafety bytecode newBytecode = true ↔
      (analyzeLayout bytecode).length ≤ (analyzeLayout newBytecode).length := by
  refine ⟨?_, detectCollisions_analyzeLayout bytecode, verifyUpgradeSafety_iff bytecode⟩
  intro vm
  have few := VM.stores_length_le allocates bytecode vm
  refine ⟨(VM.stores allocates bytecode vm).map fun store => ⟨vm.ctx.address, store.1⟩, ?_, ?_⟩
  · rwa [List.length_map, analyzeLayout_length]
  · intro key other
    have untouched : lastWrite ((VM.stores allocates bytecode vm).map (VM.entryOf vm.ctx.address))
        key = none := by
      apply lastWrite_eq_none.mpr
      intro update member same
      obtain ⟨store, isStore, rfl⟩ := List.mem_map.mp member
      exact other (same ▸ List.mem_map_of_mem isStore)
    rw [VM.execute_stores, VM.storeAll_storage, getElem?_applyUpdates, untouched]
    rfl

end StorageLayoutAnalyzer

namespace ContractVerifier

theorem storing_byte (allocates : VM → UInt64 → Bool) (bytecode : Bytes) {vm : VM} {pc : Nat}
    {byte : UInt8}
    (changes : (finalState (VM.turn allocates (.ofByte byte) bytecode pc vm)).state ≠ vm.state) :
    byte = 0x55 := by
  have effect := VM.turn_stores allocates bytecode pc (.ofByte byte) vm
  by_contra other
  have none : VM.storeOf (.ofByte byte) vm = [] := by
    by_contra stores
    exact other (VM.storeOf_ne_nil stores)
  apply changes
  cases taken : VM.turn allocates (.ofByte byte) bytecode pc vm with
  | error fault after =>
      rw [taken] at effect
      exact effect.1
  | ok outcome after =>
      rw [taken] at effect
      cases outcome with
      | inr ending => exact effect.1
      | inl next =>
          rw [none] at effect
          exact effect.1

/-- No call stands before a store. -/
theorem call_free {bytecode : Bytes} (passes : checkReentrancy bytecode = true) {pc : Nat}
    (here : bytecode[pc]? = some 0x55) {earlier : UInt8} (before : earlier ∈ bytecode.take pc) :
    isExternalCall earlier = false := by
  rw [← Bool.not_eq_true]
  intro call
  obtain ⟨inside, isStore⟩ := List.getElem?_eq_some_iff.mp here
  obtain ⟨front, back, split⟩ := List.append_of_mem before
  have whole : bytecode = front ++ earlier :: (back ++ 0x55 :: bytecode.drop (pc + 1)) := by
    calc bytecode = bytecode.take pc ++ bytecode.drop pc := (List.take_append_drop pc bytecode).symm
      _ = (front ++ earlier :: back) ++ 0x55 :: bytecode.drop (pc + 1) := by
          rw [split, List.drop_eq_getElem_cons inside, isStore]
      _ = front ++ earlier :: (back ++ 0x55 :: bytecode.drop (pc + 1)) := by
          rw [List.append_assoc, List.cons_append]
  exact (checkReentrancy_iff bytecode).mp passes _ _ _ whole call (by simp)

theorem ofByte_mem_iff : ∀ byte : UInt8,
    Opcode.ofByte byte ∈ [.call, .callcode, .delegatecall] ↔ isExternalCall byte = true := by
  have all : ∀ byte : Fin 256, Opcode.ofByte (.ofFin byte) ∈ [.call, .callcode, .delegatecall] ↔
      isExternalCall (.ofFin byte) = true := by
    decide +kernel
  exact fun byte => all byte.toFin

/-- The machine has no calls. -/
theorem call_ends (allocates : VM → UInt64 → Bool) (bytecode : Bytes) {vm after : VM} {pc next : Nat}
    {byte : UInt8} (call : isExternalCall byte = true) :
    VM.turn allocates (.ofByte byte) bytecode pc vm ≠ .ok (.inl next) after := by
  intro goesOn
  obtain ⟨_, _, _, ran⟩ := VM.turn_inl_iff.mp goesOn
  have isCall := (ofByte_mem_iff byte).mpr call
  simp only [List.mem_cons, List.not_mem_nil, or_false] at isCall
  rcases isCall with isCall | isCall | isCall
  all_goals
    rw [isCall] at ran
    change EStateM.Result.ok (ExecResult.invalidOpcode, pc) _ = _ at ran
    cases ran

/-- What a report says of the contract: a report that finds all critical properties is a
verified one; where no reentrancy is found, an opcode that changes the world stands before
every call, behind which no execution goes on at all; and where access control is missing, the
contract does the same whoever calls it. -/
theorem verifyContract_sound {allocates : VM → UInt64 → Bool}
    (blind : ∀ (vm : VM) (caller : Address) (size : UInt64),
      allocates (vm.calledBy caller) size = allocates vm size)
    (bytecode : Bytes) (properties : List Property) :
    let report := verifyContract bytecode properties
    (report.status = .verified ↔ ∀ property ∈ report.failedProperties, property.critical = false) ∧
    (∀ property, property ∈ properties ↔
      property ∈ report.verifiedProperties ∨ property ∈ report.failedProperties) ∧
    (∀ property ∈ report.verifiedProperties, property.type = .noReentrancy →
      ∀ (vm : VM) (pc : Nat) (byte : UInt8), bytecode[pc]? = some byte →
        (finalState (VM.turn allocates (.ofByte byte) bytecode pc vm)).state ≠ vm.state →
          ∀ earlier ∈ bytecode.take pc, isExternalCall earlier = false) ∧
    (∀ (vm : VM) (pc : Nat) (byte : UInt8), bytecode[pc]? = some byte → isExternalCall byte = true →
      ∀ next after, VM.turn allocates (.ofByte byte) bytecode pc vm ≠ .ok (.inl next) after) ∧
    ∀ property ∈ report.failedProperties, property.type = .accessControl →
      ∀ (vm : VM) (caller : Address), VM.execute allocates bytecode (vm.calledBy caller) =
        mapState (VM.calledBy caller) (VM.execute allocates bytecode vm) := by
  intro report
  have isReport : report = _ := verifyContract_eq bytecode properties
  rw [isReport]
  refine ⟨?_, ?_, ?_, ?_, ?_⟩
  · by_cases fails : properties.any (fun property => property.critical && !verify bytecode property)
        = true
    · rw [if_pos fails]
      simpa [and_comm] using fails
    · rw [if_neg fails]
      refine iff_of_true rfl ?_
      intro property failed
      obtain ⟨member, unverified⟩ := List.mem_filter.mp failed
      rw [← Bool.not_eq_true]
      intro critical
      exact fails (List.any_eq_true.mpr ⟨property, member, by rw [critical, unverified]; rfl⟩)
  · intro property
    simp only [List.mem_filter, Bool.not_eq_true']
    cases verify bytecode property <;> simp
  · intro property verified isType vm pc byte here changes earlier before
    have passes := (List.mem_filter.mp verified).2
    rw [verify, isType] at passes
    have isStore : byte = 0x55 := storing_byte allocates bytecode changes
    exact call_free passes (isStore ▸ here) before
  · intro vm pc byte here call next after goesOn
    exact call_ends allocates bytecode call goesOn
  · intro property failed isType vm caller
    have fails := (List.mem_filter.mp failed).2
    rw [verify, isType, Bool.not_eq_true', ← Bool.not_eq_true] at fails
    exact VM.execute_blind (fun vm => blind vm caller) (mt (checkAccessControl_iff bytecode).mpr fails) vm

open VM.StoreThenFail in
/-- Another caller of the contract that stores and fails. -/
theorem verifyContract_sound_store :
    VM.execute (fun _ _ => true) code ((VM.new .fresh context).calledBy ⟨List.replicate 20 1, rfl⟩) =
      mapState (VM.calledBy ⟨List.replicate 20 1, rfl⟩)
        (VM.execute (fun _ _ => true) code (VM.new .fresh context)) :=
  (verifyContract_sound (fun _ _ _ => rfl) code getStandardProperties).2.2.2.2
    { type := .accessControl, description := "Access control is properly implemented",
      specification := "", critical := true } (by decide +kernel) rfl (VM.new .fresh context) _

end ContractVerifier

end Parthenon.Evm.Formal
