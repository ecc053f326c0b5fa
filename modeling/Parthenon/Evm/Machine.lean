import Parthenon.Evm.Vm
import Parthenon.Library.EndlessMemory

namespace Parthenon.Evm

open Library

/-! # The machine on numbers

What the virtual machine is for: words are numbers of 256 bits, the memory has no end,
the storage is a mapping, and gas is counted without a bound.  Operations that find the
stack too short or too full, or the gas for the memory gone, have no effect of their own.
-/

structure Environment where
  gasLimit : Nat
  isStatic : Bool
  address : BitVec 256
  caller : BitVec 256
  value : BitVec 256
  gasPrice : BitVec 256
  timestamp : BitVec 256
  blockNumber : BitVec 256
  difficulty : BitVec 256
  gasLimitBlock : BitVec 256
  chainId : BitVec 256
  baseFee : BitVec 256

/-- The memory is charged for up to `size`. -/
structure Machine where
  stack : List (BitVec 256)
  memory : EndlessMemory UInt8
  size : Nat
  storage : BitVec 256 → BitVec 256
  gas : Nat

/-- How an execution ends. -/
structure Report where
  result : ExecResult
  data : Bytes
  gas : Nat
  storage : BitVec 256 → BitVec 256

namespace Machine

/-- The bytes of a word, the most significant first. -/
def wordBytes (word : BitVec 256) : Bytes := (littleEndian 32 word.toNat).reverse

def bytesWord (bytes : Bytes) : BitVec 256 := BitVec.ofNat 256 (ofLittleEndian bytes.reverse)

theorem wordBytes_length (word : BitVec 256) : (wordBytes word).length = 32 := by
  rw [wordBytes, List.length_reverse, littleEndian_length]

theorem bytesWord_wordBytes (word : BitVec 256) : bytesWord (wordBytes word) = word := by
  rw [bytesWord, wordBytes, List.reverse_reverse, ofLittleEndian_littleEndian,
    show 256 ^ 32 = 2 ^ 256 by rfl, Nat.mod_eq_of_lt word.isLt, BitVec.ofNat_toNat,
    BitVec.setWidth_eq]

def truth (condition : Bool) : BitVec 256 := if condition then 1 else 0

/-- A machine that an opcode leaves with the counter, or the end of the execution. -/
inductive Effect
  | goes (machine : Machine) (pc : Nat)
  | ends (result : ExecResult) (data : Bytes) (machine : Machine)

def push (machine : Machine) (word : BitVec 256) : Option Machine :=
  if machine.stack.length < VM.maxStackSize then some { machine with stack := word :: machine.stack }
  else none

def pop (machine : Machine) : Option (BitVec 256 × Machine) :=
  match machine.stack with
  | [] => none
  | word :: rest => some (word, { machine with stack := rest })

def unary (machine : Machine) (operation : BitVec 256 → BitVec 256) : Option Machine := do
  let (a, machine) ← machine.pop
  machine.push (operation a)

/-- The operand on top of the stack is the second one. -/
def binary (machine : Machine) (operation : BitVec 256 → BitVec 256 → BitVec 256) :
    Option Machine := do
  let (b, machine) ← machine.pop
  let (a, machine) ← machine.pop
  machine.push (operation a b)

/-- Words of 32 bytes that cover a size. -/
def words (size : Nat) : Nat := (size + 31) / 32

/-- The memory up to an address is paid for, at 3 for a word. -/
def touch (env : Environment) (machine : Machine) (size : Nat) : Option Machine :=
  if machine.size < size then
    let gas := machine.gas + 3 * (words size - words machine.size)
    if gas ≤ env.gasLimit then some { machine with size, gas } else none
  else some machine

def store (env : Environment) (machine : Machine) (offset : BitVec 256) (bytes : Bytes) :
    Option Machine := do
  let machine ← machine.touch env (offset.toNat + bytes.length)
  some { machine with memory := machine.memory.write offset.toNat bytes }

def load (env : Environment) (machine : Machine) (offset : BitVec 256) (length : Nat) :
    Option (Bytes × Machine) := do
  let machine ← machine.touch env (offset.toNat + length)
  some (machine.memory.read offset.toNat length, machine)

def dup (machine : Machine) (depth : Nat) : Option Machine := do
  let word ← machine.stack[depth - 1]?
  machine.push word

def swap (machine : Machine) (depth : Nat) : Option Machine := do
  let (top, machine) ← machine.pop
  let word ← machine.stack[depth - 1]?
  some { machine with stack := word :: machine.stack.set (depth - 1) top }

def mload (env : Environment) (machine : Machine) : Option Machine := do
  let (offset, machine) ← machine.pop
  let (bytes, machine) ← machine.load env offset 32
  machine.push (bytesWord bytes)

def mstore (env : Environment) (machine : Machine) : Option Machine := do
  let (offset, machine) ← machine.pop
  let (value, machine) ← machine.pop
  machine.store env offset (wordBytes value)

def mstore8 (env : Environment) (machine : Machine) : Option Machine := do
  let (offset, machine) ← machine.pop
  let (value, machine) ← machine.pop
  machine.store env offset [UInt8.ofNat value.toNat]

def sstore (machine : Machine) : Option Machine := do
  let (key, machine) ← machine.pop
  let (value, machine) ← machine.pop
  some { machine with storage := Function.update machine.storage key value }

def discard (machine : Machine) : Option Machine := do
  let (_, machine) ← machine.pop
  some machine

/-- The end of an execution with a range of the memory. -/
def finish (env : Environment) (machine : Machine) (result : ExecResult) : Option Effect := do
  let (offset, machine) ← machine.pop
  let (length, machine) ← machine.pop
  let (data, machine) ← machine.load env offset length.toNat
  some (.ends result data machine)

/-- What an opcode does once it is paid for.  Of the environment the machine has those
opcodes that only read it. -/
def perform (env : Environment) (code : Bytes) (pc : Nat) (op : Opcode) (machine : Machine) :
    Option Effect :=
  let goes (after : Option Machine) : Option Effect := after.map (.goes · pc)
  match op with
  | .stop => some (.ends .success [] machine)
  | .add => goes (machine.binary (· + ·))
  | .mul => goes (machine.binary (· * ·))
  | .sub => goes (machine.binary (· - ·))
  | .div => goes (machine.binary (· / ·))
  | .mod => goes (machine.binary fun a b => if b = 0 then 0 else a % b)
  | .exp => goes (machine.binary fun a b => BitVec.ofNat 256 (a.toNat ^ b.toNat))
  | .lt => goes (machine.binary fun a b => truth (a < b))
  | .gt => goes (machine.binary fun a b => truth (b < a))
  | .eq => goes (machine.binary fun a b => truth (a = b))
  | .iszero => goes (machine.unary fun a => truth (a = 0))
  | .and => goes (machine.binary (· &&& ·))
  | .or => goes (machine.binary (· ||| ·))
  | .xor => goes (machine.binary (· ^^^ ·))
  | .not => goes (machine.unary (~~~ ·))
  | .shl => goes (machine.binary fun shift value => value <<< shift.toNat)
  | .shr => goes (machine.binary fun shift value => value >>> shift.toNat)
  | .mload => goes (machine.mload env)
  | .mstore => goes (machine.mstore env)
  | .mstore8 => goes (machine.mstore8 env)
  | .sload => goes (machine.unary machine.storage)
  | .sstore =>
      if env.isStatic then some (.ends .staticCallViolation [] machine)
      else goes machine.sstore
  | .pop => goes machine.discard
  | .push _ =>
      (machine.push (bytesWord ((EndlessMemory.ofList code).read (pc + 1) op.getPushSize))).map
        (.goes · (pc + op.getPushSize))
  | .dup _ => goes (machine.dup op.getDupDepth)
  | .swap _ => goes (machine.swap op.getSwapDepth)
  | .address => goes (machine.push env.address)
  | .caller => goes (machine.push env.caller)
  | .callvalue => goes (machine.push env.value)
  | .gas => goes (machine.push (BitVec.ofNat 256 (env.gasLimit - machine.gas)))
  | .gasprice => goes (machine.push env.gasPrice)
  | .timestamp => goes (machine.push env.timestamp)
  | .number => goes (machine.push env.blockNumber)
  | .difficulty => goes (machine.push env.difficulty)
  | .gaslimit => goes (machine.push env.gasLimitBlock)
  | .chainid => goes (machine.push env.chainId)
  | .basefee => goes (machine.push env.baseFee)
  | .return => machine.finish env .returned
  | .revert => machine.finish env .revert
  | .jumpdest => some (.goes machine pc)
  | _ => some (.ends .invalidOpcode [] machine)

def report (machine : Machine) (result : ExecResult) (data : Bytes) : Report :=
  ⟨result, data, machine.gas, machine.storage⟩

/-- The gas for an opcode, as long as there is some. -/
def pay (env : Environment) (op : Opcode) (machine : Machine) : Option Machine :=
  if machine.gas + op.getOpcodeCost.toNat ≤ env.gasLimit then
    some { machine with gas := machine.gas + op.getOpcodeCost.toNat }
  else none

/-- From a counter on, with at most as many opcodes as there are turns. -/
def runFrom (env : Environment) (code : Bytes) : Nat → Nat → Machine → Report
  | 0, _, machine => machine.report .success []
  | turns + 1, pc, machine =>
      match code[pc]? with
      | none => machine.report .success []
      | some byte =>
          match machine.pay env (.ofByte byte) with
          | none => machine.report .outOfGas []
          | some paid =>
              match paid.perform env code pc (.ofByte byte) with
              | none => paid.report .invalidOpcode []
              | some (.goes after pc) => runFrom env code turns (pc + 1) after
              | some (.ends result data after) => after.report result data

def start (storage : BitVec 256 → BitVec 256) : Machine where
  stack := []
  memory := EndlessMemory.ofList []
  size := 0
  storage
  gas := 0

def run (env : Environment) (code : Bytes) (storage : BitVec 256 → BitVec 256) : Report :=
  runFrom env code code.length 0 (start storage)

/-! ## Stores and loads -/

variable {env : Environment} {machine after : Machine}

theorem touch_cases {size : Nat} (touched : machine.touch env size = some after) :
    (size ≤ machine.size ∧ after = machine) ∨
      (machine.size < size ∧
        machine.gas + 3 * (words size - words machine.size) ≤ env.gasLimit ∧
        after = { machine with
          size, gas := machine.gas + 3 * (words size - words machine.size) }) := by
  rw [touch] at touched
  split at touched
  · rename_i grows
    dsimp only at touched
    split at touched
    · rename_i paid
      exact .inr ⟨grows, paid, (Option.some.inj touched).symm⟩
    · cases touched
  · rename_i reaches
    exact .inl ⟨Nat.not_lt.mp reaches, (Option.some.inj touched).symm⟩

theorem touch_of_le {size : Nat} (reached : size ≤ machine.size) :
    machine.touch env size = some machine := by
  rw [touch, if_neg (Nat.not_lt.mpr reached)]

theorem store_some {offset : BitVec 256} {bytes : Bytes}
    (stored : machine.store env offset bytes = some after) :
    machine.size ≤ after.size ∧ offset.toNat + bytes.length ≤ after.size ∧
      after.memory = machine.memory.write offset.toNat bytes := by
  obtain ⟨touched, reached, same⟩ := Option.bind_eq_some_iff.mp stored
  cases same
  rcases touch_cases reached with ⟨within, rfl⟩ | ⟨grows, _, rfl⟩
  · exact ⟨Nat.le_refl _, within, rfl⟩
  · exact ⟨grows.le, Nat.le_refl _, rfl⟩

theorem load_of_le {offset : BitVec 256} {length : Nat}
    (reached : offset.toNat + length ≤ machine.size) :
    machine.load env offset length = some (machine.memory.read offset.toNat length, machine) := by
  rw [load, touch_of_le reached]
  rfl

/-- A word that was stored is loaded, without further gas. -/
theorem load_store {offset value : BitVec 256}
    (stored : machine.store env offset (wordBytes value) = some after) :
    after.load env offset 32 = some (wordBytes value, after) := by
  obtain ⟨_, reached, memory⟩ := store_some stored
  have read := machine.memory.read_write offset.toNat (wordBytes value)
  rw [wordBytes_length] at reached read
  rw [load_of_le reached, memory, read]

/-- A store elsewhere keeps what is loaded. -/
theorem load_store_apart {offset other : BitVec 256} {bytes : Bytes} {length : Nat}
    (stored : machine.store env offset bytes = some after)
    (apart : other.toNat + length ≤ offset.toNat ∨ offset.toNat + bytes.length ≤ other.toNat)
    (reached : other.toNat + length ≤ machine.size) :
    after.load env other length = some (machine.memory.read other.toNat length, after) := by
  obtain ⟨grows, _, memory⟩ := store_some stored
  rw [load_of_le (reached.trans grows), memory, EndlessMemory.read_write_disjoint _ apart]

end Machine

end Parthenon.Evm
