import Mathlib.Data.UInt
import Parthenon.Evm.Words
import Parthenon.Library.ByteCodec

namespace Parthenon.Evm

open Library

/-! # The virtual machine

A machine works on a world state it does not own.  What it does before an
exception stays done.  Whether the allocator serves a vector is a parameter; a
read or write outside the memory has no meaning and ends the model's run.
-/

/-! ## Opcodes

The byte of each instruction and what it costs.  The families of `PUSH`, `DUP`,
`SWAP` and `LOG` are one instruction each, with the place in the family.
-/

inductive Opcode
  | stop | add | mul | sub | div | sdiv | mod | smod | addmod | mulmod | exp | signextend
  | lt | gt | slt | sgt | eq | iszero | and | or | xor | not | byte | shl | shr | sar
  | sha3
  | address | balance | origin | caller | callvalue | calldataload | calldatasize | calldatacopy
  | codesize | codecopy | gasprice | extcodesize | extcodecopy | returndatasize | returndatacopy
  | extcodehash
  | blockhash | coinbase | timestamp | number | difficulty | gaslimit | chainid | selfbalance
  | basefee
  | pop | mload | mstore | mstore8 | sload | sstore | jump | jumpi | pc | msize | gas | jumpdest
  | push (place : Fin 32)
  | dup (place : Fin 16)
  | swap (place : Fin 16)
  | log (topics : Fin 5)
  | create | call | callcode | return | delegatecall | create2 | staticcall | revert | invalid
  | selfdestruct
  | unassigned (byte : UInt8)
deriving DecidableEq, Repr

namespace Opcode

/-- The instructions that have a byte of their own. -/
def single : List (UInt8 × Opcode) :=
  [(0x00, stop), (0x01, add), (0x02, mul), (0x03, sub), (0x04, div), (0x05, sdiv), (0x06, mod),
   (0x07, smod), (0x08, addmod), (0x09, mulmod), (0x0a, exp), (0x0b, signextend),
   (0x10, lt), (0x11, gt), (0x12, slt), (0x13, sgt), (0x14, eq), (0x15, iszero), (0x16, and),
   (0x17, or), (0x18, xor), (0x19, not), (0x1a, byte), (0x1b, shl), (0x1c, shr), (0x1d, sar),
   (0x20, sha3),
   (0x30, address), (0x31, balance), (0x32, origin), (0x33, caller), (0x34, callvalue),
   (0x35, calldataload), (0x36, calldatasize), (0x37, calldatacopy), (0x38, codesize),
   (0x39, codecopy), (0x3a, gasprice), (0x3b, extcodesize), (0x3c, extcodecopy),
   (0x3d, returndatasize), (0x3e, returndatacopy), (0x3f, extcodehash),
   (0x40, blockhash), (0x41, coinbase), (0x42, timestamp), (0x43, number), (0x44, difficulty),
   (0x45, gaslimit), (0x46, chainid), (0x47, selfbalance), (0x48, basefee),
   (0x50, pop), (0x51, mload), (0x52, mstore), (0x53, mstore8), (0x54, sload), (0x55, sstore),
   (0x56, jump), (0x57, jumpi), (0x58, pc), (0x59, msize), (0x5a, gas), (0x5b, jumpdest),
   (0xf0, create), (0xf1, call), (0xf2, callcode), (0xf3, .return), (0xf4, delegatecall),
   (0xf5, create2), (0xfa, staticcall), (0xfd, revert), (0xfe, invalid), (0xff, selfdestruct)]

/-- Every byte is an opcode; those outside the enumeration have no name. -/
def ofByte (byte : UInt8) : Opcode :=
  if byte.toNat / 32 = 3 then push (.ofNat 32 byte.toNat)
  else if byte.toNat / 16 = 8 then dup (.ofNat 16 byte.toNat)
  else if byte.toNat / 16 = 9 then swap (.ofNat 16 byte.toNat)
  else if logs : 0xa0 ≤ byte.toNat ∧ byte.toNat ≤ 0xa4 then log ⟨byte.toNat - 0xa0, by omega⟩
  else (single.lookup byte).getD (unassigned byte)

def getPushSize : Opcode → Nat
  | push place => place + 1
  | _ => 0

theorem getPushSize_le (op : Opcode) : op.getPushSize ≤ 32 := by
  cases op <;> simp only [getPushSize] <;> omega

def getDupDepth : Opcode → Nat
  | dup place => place + 1
  | _ => 0

def getSwapDepth : Opcode → Nat
  | swap place => place + 1
  | _ => 0

def getOpcodeCost : Opcode → UInt64
  | stop | invalid => 0
  | address | origin | caller | callvalue | calldatasize | codesize | gasprice | coinbase
  | timestamp | number | difficulty | gaslimit | chainid | selfbalance | basefee | pc | msize | gas
  | returndatasize => 2
  | add | sub | lt | gt | slt | sgt | eq | iszero | and | or | xor | not | byte | shl | shr | sar
  | pop | jumpdest => 3
  | push _ | dup _ | swap _ => 3
  | mul | div | sdiv | mod | smod | signextend => 5
  | addmod | mulmod | jump => 8
  | jumpi | exp => 10
  | mload | mstore | mstore8 => 3
  | sload => 800
  | sstore => 20000
  | calldataload | calldatacopy | codecopy | returndatacopy => 3
  | extcodecopy => 700
  | balance | extcodesize | extcodehash => 700
  | blockhash => 20
  | sha3 => 30
  | log _ => 375
  | create | create2 => 32000
  | call | callcode | delegatecall | staticcall => 700
  | .return | revert => 0
  | selfdestruct => 5000
  | unassigned _ => 0

end Opcode

inductive ExecResult
  | success | returned | revert | outOfGas | stackUnderflow | stackOverflow | invalidJump
  | invalidOpcode | staticCallViolation | depthExceeded
deriving DecidableEq, Repr

structure ExecutionContext where
  caller : Address
  address : Address
  value : Uint256
  gasLimit : UInt64
  gasPrice : UInt64
  blockNumber : UInt64
  timestamp : UInt64
  difficulty : UInt64
  gasLimitBlock : UInt64
  chainId : UInt64
  baseFee : UInt64
  isStatic : Bool

/-- The stack is listed from its top. -/
structure VM where
  state : WorldState
  ctx : ExecutionContext
  stack : List Uint256
  memory : Bytes
  returnData : Bytes
  gasUsed : UInt64

/-- How an opcode is left early: by one of two kinds of exception, or by an
access outside the memory. -/
inductive Fault
  | runtimeError (what : String)
  | allocation
  | undefined
deriving DecidableEq, Repr

abbrev VM.Action := EStateM Fault VM

namespace VM

def new (state : WorldState) (ctx : ExecutionContext) : VM where
  state := state
  ctx := ctx
  stack := []
  memory := []
  returnData := []
  gasUsed := 0

def maxStackSize : Nat := 1024

def push (value : Uint256) : Action Unit := do
  if (← get).stack.length ≥ maxStackSize then throw (.runtimeError "Stack overflow")
  modify fun vm => { vm with stack := value :: vm.stack }

def pop : Action Uint256 := do
  match (← get).stack with
  | [] => throw (.runtimeError "Stack underflow")
  | value :: rest =>
      modify fun vm => { vm with stack := rest }
      return value

def peek (depth : Nat) : Action Uint256 := do
  match (← get).stack[depth]? with
  | none => throw (.runtimeError "Stack underflow")
  | some value => return value

def dup (depth : Nat) : Action Unit := do
  if depth = 0 ∨ depth > (← get).stack.length then throw (.runtimeError "Invalid DUP depth")
  push (← peek (depth - 1))

def swap (depth : Nat) : Action Unit := do
  match depth, (← get).stack with
  | depth + 1, top :: rest =>
      match rest[depth]? with
      | some value => modify fun vm => { vm with stack := value :: rest.set depth top }
      | none => throw (.runtimeError "Invalid SWAP depth")
  | _, _ => throw (.runtimeError "Invalid SWAP depth")

def useGas (amount : UInt64) : Action Bool := do
  let vm ← get
  if vm.gasUsed + amount > vm.ctx.gasLimit then return false
  modify fun vm => { vm with gasUsed := vm.gasUsed + amount }
  return true

def getGasRemaining (vm : VM) : UInt64 := vm.ctx.gasLimit - vm.gasUsed

section Memory

variable (allocates : VM → UInt64 → Bool)

/-- `resize` throws above the size a vector can have, and when there is no memory. -/
def growMemory (size : UInt64) : Action Unit := do
  unless size < 2 ^ 63 && allocates (← get) size do throw .allocation
  modify fun vm =>
    { vm with memory := vm.memory ++ List.replicate (size.toNat - vm.memory.length) 0 }

def expandMemory (size : UInt64) : Action Unit := do
  let memorySize := (← get).memory.length
  if memorySize < size.toNat then
    let oldWords := (UInt64.ofNat memorySize + 31) / 32
    let newWords := (size + 31) / 32
    unless ← useGas ((newWords - oldWords) * 3) do
      throw (.runtimeError "Out of gas during memory expansion")
    growMemory allocates size

/-- The bytes in a range of the memory. -/
def readMemory (offset length : UInt64) : Action Bytes := do
  let memory := (← get).memory
  if offset.toNat + length.toNat ≤ memory.length then
    return (memory.drop offset.toNat).take length.toNat
  throw .undefined

/-- The bytes from an offset on are replaced. -/
def writeMemory (offset : UInt64) (bytes : Bytes) : Action Unit := do
  let memory := (← get).memory
  if offset.toNat + bytes.length ≤ memory.length then
    modify fun vm =>
      { vm with
        memory := memory.take offset.toNat ++ bytes ++ memory.drop (offset.toNat + bytes.length) }
  else throw .undefined

def memoryStore (offset : UInt64) (value : Uint256) : Action Unit := do
  expandMemory allocates (offset + 32)
  writeMemory offset value.bytes

def memoryStore8 (offset : UInt64) (value : UInt8) : Action Unit := do
  expandMemory allocates (offset + 1)
  writeMemory offset [value]

def memoryLoad (offset : UInt64) : Action Uint256 := do
  expandMemory allocates (offset + 32)
  match FixedBytes.ofBytes? 32 (← readMemory offset 32) with
  | some word => return word
  | none => throw .undefined

/-- `return_data_` is assigned a range of the memory. -/
def assignReturnData (offset length : UInt64) : Action Unit := do
  let bytes ← readMemory offset length
  unless allocates (← get) length do throw .allocation
  modify fun vm => { vm with returnData := bytes }

end Memory

def unary (operation : Uint256 → Uint256) : Action Unit := do
  let a ← pop
  push (operation a)

/-- The operand on top of the stack is the second one. -/
def binary (operation : Uint256 → Uint256 → Uint256) : Action Unit := do
  let b ← pop
  let a ← pop
  push (operation a b)

def flag (truth : Bool) : Uint256 := if truth then toUint256 1 else toUint256 0

/-- The bytes after a `PUSH`, with zeros for those the code does not have. -/
def pushData (code : Bytes) (pc size : Nat) (small : size ≤ 32) : Uint256 :=
  let bytes := (code.drop (pc + 1)).take size
  ⟨List.replicate (32 - size) 0 ++ bytes ++ List.replicate (size - bytes.length) 0, by
    have short : bytes.length ≤ size := List.length_take_le _ _
    simp only [List.length_append, List.length_replicate]
    omega⟩

section Execution

variable (allocates : VM → UInt64 → Bool)

/-- What an opcode that completes returns, and where it leaves the counter. -/
def executeOpcode (op : Opcode) (code : Bytes) (pc : Nat) : Action (ExecResult × Nat) := do
  match op with
  | .stop => return (.success, pc)
  | .add => binary add
  | .mul => binary mul
  | .sub => binary sub
  | .div => binary div
  | .mod => binary mod
  | .exp => binary exp
  | .lt => binary fun a b => flag (lt a b)
  | .gt => binary fun a b => flag (gt a b)
  | .eq => binary fun a b => flag (eq a b)
  | .iszero => unary fun a => flag (isZero a)
  | .and => binary and
  | .or => binary or
  | .xor => binary xor
  | .not => unary not
  | .shl => binary shl
  | .shr => binary shr
  | .mload =>
      let offset ← pop
      push (← memoryLoad allocates (toUint64 offset))
  | .mstore =>
      let offset ← pop
      let value ← pop
      memoryStore allocates (toUint64 offset) value
  | .mstore8 =>
      let offset ← pop
      let value ← pop
      memoryStore8 allocates (toUint64 offset) (toUint64 value).toUInt8
  | .sload =>
      let key ← pop
      let vm ← get
      push (vm.state.getStorage vm.ctx.address key)
  | .sstore =>
      if (← get).ctx.isStatic then return (.staticCallViolation, pc)
      let key ← pop
      let value ← pop
      modify fun vm => { vm with state := vm.state.setStorage vm.ctx.address key value }
  | .pop => discard pop
  | .push _ =>
      push (pushData code pc op.getPushSize op.getPushSize_le)
      return (.success, pc + op.getPushSize)
  | .dup _ => dup op.getDupDepth
  | .swap _ => swap op.getSwapDepth
  | .address => push (← get).ctx.address.toUint256
  | .caller => push (← get).ctx.caller.toUint256
  | .callvalue => push (← get).ctx.value
  | .gas => push (toUint256 (← get).getGasRemaining)
  | .gasprice => push (toUint256 (← get).ctx.gasPrice)
  | .timestamp => push (toUint256 (← get).ctx.timestamp)
  | .number => push (toUint256 (← get).ctx.blockNumber)
  | .difficulty => push (toUint256 (← get).ctx.difficulty)
  | .gaslimit => push (toUint256 (← get).ctx.gasLimitBlock)
  | .chainid => push (toUint256 (← get).ctx.chainId)
  | .basefee => push (toUint256 (← get).ctx.baseFee)
  | .return =>
      let offset ← pop
      let length ← pop
      expandMemory allocates (toUint64 offset + toUint64 length)
      assignReturnData allocates (toUint64 offset) (toUint64 length)
      return (.returned, pc)
  | .revert =>
      let offset ← pop
      let length ← pop
      expandMemory allocates (toUint64 offset + toUint64 length)
      assignReturnData allocates (toUint64 offset) (toUint64 length)
      return (.revert, pc)
  | .jumpdest => pure ()
  | _ => return (.invalidOpcode, pc)
  return (.success, pc)

/-- The loop goes on after a success and ends with any other result. -/
def proceed (result : ExecResult) (pc : Nat) : Action (Nat ⊕ ExecResult × Bytes) := do
  if result = .success then pure (.inl (pc + 1)) else pure (.inr (result, (← get).returnData))

/-- One turn of the loop: the next counter, or the result. -/
def turn (op : Opcode) (code : Bytes) (pc : Nat) : Action (Nat ⊕ ExecResult × Bytes) := do
  if ← useGas op.getOpcodeCost then
    try
      let (result, pc) ← executeOpcode allocates op code pc
      proceed result pc
    catch
      | .undefined => throw .undefined
      | _ => pure (.inr (.invalidOpcode, []))
  else pure (.inr (.outOfGas, []))

/-- The loop from a counter on.  The counter grows each turn, so there are at
most as many turns as there are bytes. -/
def executeFrom (code : Bytes) : Nat → Nat → Action (ExecResult × Bytes)
  | 0, _ => return (.success, [])
  | fuel + 1, pc => do
      match code[pc]? with
      | none => return (.success, [])
      | some byte =>
          match ← turn allocates (.ofByte byte) code pc with
          | .inl pc => executeFrom code fuel pc
          | .inr ending => return ending

def execute (code : Bytes) : Action (ExecResult × Bytes) := executeFrom allocates code code.length 0

end Execution

end VM

end Parthenon.Evm
