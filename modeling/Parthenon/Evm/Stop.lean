import Parthenon.Evm.GasAccounting

namespace Parthenon.Evm.VM

open Library

/-! # What stands after a `STOP`

`STOP` returns the result on which the loop goes on, so the opcodes after it run
like any others.  They go unnoticed only where they are `STOP`s themselves.
-/

variable {allocates : VM → UInt64 → Bool}

/-! ## Programs with a common front -/

theorem pushData_congr {code other : Bytes} {pc size bound : Nat} {small : size ≤ 32}
    (agree : code.take bound = other.take bound) (inside : pc + 1 + size ≤ bound) :
    pushData code pc size small = pushData other pc size small := by
  have within (bytes : Bytes) :
      (bytes.drop (pc + 1)).take size = ((bytes.take bound).drop (pc + 1)).take size := by
    rw [List.drop_take, List.take_take, Nat.min_eq_left (by omega)]
  unfold pushData
  simp only [within code, within other, agree]

/-- An opcode that ends inside the common front does not see the rest. -/
theorem Completes.congr {code other : Bytes} {op : Opcode} {pc next bound : Nat} {vm after : VM}
    (agree : code.take bound = other.take bound) (inside : next < bound)
    (completes : Completes allocates code op pc vm .success next after) :
    Completes allocates other op pc vm .success next after := by
  obtain ⟨paid, ran⟩ := completes
  refine ⟨paid, ?_⟩
  cases op with
  | push place =>
      have counter : next = pc + (Opcode.push place).getPushSize := by
        obtain ⟨_, _, _, rest⟩ := bind_ok_iff.mp ran
        cases rest
        rfl
      rw [← ran, executeOpcode, executeOpcode, pushData_congr agree (by omega)]
  | _ => exact ran

theorem Runs.congr {code other : Bytes} {bound start pc : Nat} {ops : List Opcode} {vm reached : VM}
    (agree : code.take bound = other.take bound)
    (runs : Runs allocates code start vm ops pc reached) (inside : pc ≤ bound) :
    Runs allocates other start vm ops pc reached := by
  induction runs with
  | start => exact .start
  | turn before here completes ih =>
      rename_i pc reached byte next after
      have forward := completes.forward
      refine .turn (ih (by omega)) ?_ (completes.congr agree (by omega))
      rw [← here, ← List.getElem?_take_of_lt (show pc < bound by omega), ← agree,
        List.getElem?_take_of_lt (show pc < bound by omega)]

/-! ## Nothing but `STOP` -/

theorem executeOpcode_stop (code : Bytes) (pc : Nat) (vm : VM) :
    executeOpcode allocates .stop code pc vm = .ok (.success, pc) vm := rfl

theorem stop_completes {code : Bytes} {pc : Nat} {vm : VM} (bounded : vm.Bounded) :
    Completes allocates code .stop pc vm .success pc vm := by
  have free : vm.gasUsed + Opcode.stop.getOpcodeCost = vm.gasUsed := UInt64.add_zero vm.gasUsed
  rw [Completes, free]
  exact ⟨UInt64.not_lt.mpr (UInt64.le_iff_toNat_le.mpr bounded.gas),
    executeOpcode_stop code pc vm⟩

theorem ofByte_eq_stop_iff (byte : UInt8) : Opcode.ofByte byte = .stop ↔ byte = 0 := by
  constructor
  · intro isStop
    unfold Opcode.ofByte at isStop
    split at isStop
    · cases isStop
    split at isStop
    · cases isStop
    split at isStop
    · cases isStop
    split at isStop
    · cases isStop
    have only : ∀ entry ∈ Opcode.single, entry.2 = .stop → entry.1 = 0 := by decide
    cases found : Opcode.single.lookup byte with
    | none =>
        rw [found] at isStop
        cases isStop
    | some op =>
        rw [found] at isStop
        obtain ⟨front, back, isSingle, _⟩ := List.lookup_eq_some_iff.mp found
        apply only (byte, op) _ isStop
        rw [isSingle]
        exact List.mem_append_right front List.mem_cons_self
  · intro isZero
    rw [isZero]
    decide

/-- From a counter behind which every byte is zero, an execution ends as it stands. -/
theorem executeFrom_zeros {code : Bytes} {fuel pc : Nat} {vm : VM} (bounded : vm.Bounded)
    (zeros : ∀ byte ∈ code.drop pc, byte = 0) :
    executeFrom allocates code fuel pc vm = .ok (.success, []) vm := by
  induction fuel generalizing pc with
  | zero => rfl
  | succ fuel ih =>
      rw [executeFrom_succ]
      cases here : code[pc]? with
      | none => rfl
      | some byte =>
          obtain ⟨inside, isByte⟩ := List.getElem?_eq_some_iff.mp here
          have front : code.drop pc = byte :: code.drop (pc + 1) := by
            rw [List.drop_eq_getElem_cons inside, isByte]
          rw [front] at zeros
          obtain ⟨isZero, later⟩ := List.forall_mem_cons.mp zeros
          have goesOn : turn allocates (.ofByte byte) code pc vm = .ok (.inl (pc + 1)) vm := by
            rw [(ofByte_eq_stop_iff byte).mpr isZero]
            exact turn_inl_iff.mpr ⟨pc, rfl, stop_completes bounded⟩
          simp only [goesOn]
          exact ih later

/-- Every other opcode that goes on costs gas. -/
theorem stop_of_free {code : Bytes} {op : Opcode} {pc next : Nat} {vm after : VM}
    (completes : Completes allocates code op pc vm .success next after)
    (free : op.getOpcodeCost.toNat = 0) : op = .stop := by
  obtain ⟨_, ran⟩ := completes
  cases op with
  | stop => rfl
  | invalid | unassigned =>
      change EStateM.Result.ok (ExecResult.invalidOpcode, pc) _ = _ at ran
      cases ran
  | «return» | revert =>
      obtain ⟨_, _, _, ran⟩ := bind_ok_iff.mp ran
      obtain ⟨_, _, _, ran⟩ := bind_ok_iff.mp ran
      obtain ⟨_, _, _, ran⟩ := bind_ok_iff.mp ran
      obtain ⟨_, _, _, ran⟩ := bind_ok_iff.mp ran
      cases ran
  | _ => exact absurd free (by exact of_decide_eq_false rfl)

theorem turn_inr_ne_success {code : Bytes} {op : Opcode} {pc : Nat} {vm after : VM} {data : Bytes} :
    turn allocates op code pc vm ≠ .ok (.inr (.success, data)) after := by
  intro done
  rw [turn_eq] at done
  split at done
  · cases done
  · cases ran : executeOpcode allocates op code pc
      { vm with gasUsed := vm.gasUsed + op.getOpcodeCost } with
    | error fault reached =>
        rw [ran] at done
        cases fault <;> cases done
    | ok pair reached =>
        obtain ⟨result, next⟩ := pair
        rw [ran] at done
        dsimp only at done
        split at done
        · cases done
        · rename_i other
          cases done
          exact other rfl

/-- An execution that succeeds has completed opcodes up to the end of the code. -/
theorem runs_of_success {code : Bytes} {fuel pc : Nat} {vm after : VM} {data : Bytes}
    (enough : code.length ≤ pc + fuel)
    (ran : executeFrom allocates code fuel pc vm = .ok (.success, data) after) :
    ∃ ops finish, Runs allocates code pc vm ops finish after ∧ code.length ≤ finish := by
  induction fuel generalizing pc vm with
  | zero =>
      cases ran
      exact ⟨[], pc, .start, enough⟩
  | succ fuel ih =>
      rw [executeFrom_succ] at ran
      cases here : code[pc]? with
      | none =>
          rw [here] at ran
          cases ran
          exact ⟨[], pc, .start, List.getElem?_eq_none_iff.mp here⟩
      | some byte =>
          simp only [here] at ran
          cases taken : turn allocates (.ofByte byte) code pc vm with
          | error fault reached =>
              rw [taken] at ran
              cases ran
          | ok outcome reached =>
              rw [taken] at ran
              cases outcome with
              | inr ending =>
                  cases ran
                  exact absurd taken turn_inr_ne_success
              | inl counter =>
                  obtain ⟨next, rfl, completes⟩ := turn_inl_iff.mp taken
                  have forward := completes.forward
                  obtain ⟨ops, finish, runs, ended⟩ := ih (by omega) ran
                  exact ⟨.ofByte byte :: ops, finish, .cons here completes runs, ended⟩

/-- A run of `STOP`s goes on byte by byte. -/
theorem Runs.stops {code : Bytes} {start finish : Nat} {ops : List Opcode} {vm reached : VM}
    (runs : Runs allocates code start vm ops finish reached) (stops : ∀ op ∈ ops, op = .stop) :
    finish = start + ops.length ∧ ∀ byte ∈ (code.drop start).take ops.length, byte = 0 := by
  induction runs with
  | start => exact ⟨rfl, fun byte member => by cases member⟩
  | turn before here completes ih =>
      rename_i ops pc reached byte next after
      obtain ⟨earlier, last⟩ := List.forall_mem_append.mp stops
      obtain ⟨counter, zeros⟩ := ih earlier
      have isStop : Opcode.ofByte byte = .stop := last _ (List.mem_singleton_self _)
      have stays : next = pc := by
        have ran := completes.2
        rw [isStop, executeOpcode_stop] at ran
        cases ran
        rfl
      have isLast : (code.drop start)[ops.length]? = some byte := by
        rw [List.getElem?_drop, ← counter, here]
      refine ⟨by rw [List.length_append, List.length_singleton]; omega, ?_⟩
      rw [List.length_append, List.length_singleton, List.take_add_one, isLast]
      intro other member
      rcases List.mem_append.mp member with front | isOther
      · exact zeros other front
      · obtain rfl := List.mem_singleton.mp isOther
        exact (ofByte_eq_stop_iff other).mp isStop

theorem sum_cost_le (ops : List Opcode) :
    (ops.map fun op => op.getOpcodeCost.toNat).sum ≤ 32000 * ops.length := by
  induction ops with
  | nil => exact Nat.le_refl 0
  | cons op rest ih =>
      have cheap := getOpcodeCost_le op
      rw [List.map_cons, List.sum_cons, List.length_cons]
      omega

/-- Each opcode of a run takes a byte of the code at least. -/
theorem Runs.length_le {code : Bytes} {start finish : Nat} {ops : List Opcode} {vm reached : VM}
    (runs : Runs allocates code start vm ops finish reached) :
    start + ops.length ≤ finish ∧ ops.length ≤ code.length - start := by
  induction runs with
  | start => exact ⟨Nat.le_refl start, Nat.zero_le _⟩
  | turn before here completes ih =>
      have forward := completes.forward
      have inside := (List.getElem?_eq_some_iff.mp here).1
      rw [List.length_append, List.length_singleton]
      omega

theorem Runs.stops_of_costs {code : Bytes} {start finish : Nat} {ops : List Opcode}
    {vm reached : VM} (runs : Runs allocates code start vm ops finish reached)
    (free : ∀ cost ∈ ops.map fun op => op.getOpcodeCost.toNat, cost = 0) :
    ∀ op ∈ ops, op = .stop := by
  induction runs with
  | start => exact fun op member => by cases member
  | turn before here completes ih =>
      rw [List.map_append] at free
      obtain ⟨earlier, last⟩ := List.forall_mem_append.mp free
      intro op member
      rcases List.mem_append.mp member with front | isLast
      · exact ih earlier op front
      · obtain rfl := List.mem_singleton.mp isLast
        exact stop_of_free completes (last _ (List.mem_singleton_self _))

/-! ## The two programs -/

/-- Both executions return the same, with the same gas used and the same world. -/
def SameOutcome (left right : EStateM.Result Fault VM (ExecResult × Bytes)) : Prop :=
  ∃ ending first second, left = .ok ending first ∧ right = .ok ending second ∧
    first.gasUsed = second.gasUsed ∧ first.state = second.state

/-- A run that goes from a `STOP` to the end on the same gas is one of `STOP`s. -/
theorem Runs.stops_of_free {code : Bytes} {start finish : Nat} {ops : List Opcode}
    {vm reached : VM} (runs : Runs allocates code start vm ops finish reached)
    (bounded : vm.Bounded) (sameGas : reached.gasUsed = vm.gasUsed)
    (room : vm.ctx.gasLimit.toNat ≤ 2 ^ 63 ∨ code.length - start ≤ 2 ^ 48) :
    ∀ op ∈ ops, op = .stop := by
  obtain ⟨reachedBounded, ctx, grows, modulo, exactly⟩ := runs.accounts bounded
  have more : memoryGas vm.memory ≤ memoryGas reached.memory := by
    unfold memoryGas
    omega
  have paid := bounded.memoryGas_le
  have paidLater := reachedBounded.memoryGas_le
  have nothing : (ops.map fun op => op.getOpcodeCost.toNat).sum = 0 := by
    rw [sameGas] at modulo exactly
    rcases room with low | short
    · have exact_ := exactly low
      omega
    · have cheap := sum_cost_le ops
      have few := runs.length_le.2
      unfold Nat.ModEq at modulo
      omega
  exact runs.stops_of_costs (List.sum_eq_zero_iff.mp nothing)

/-- An execution that has reached a `STOP` ends as it would there where nothing but `STOP`s
follow, and only there as long as the gas cannot come round to the same count. -/
theorem stop_halts_iff (allocates : VM → UInt64 → Bool) (state : WorldState)
    (ctx : ExecutionContext) (before after : Bytes) {ops : List Opcode} {reached : VM}
    (runs : Runs allocates (before ++ 0 :: after) 0 (new state ctx) ops before.length reached) :
    let same := SameOutcome (execute allocates (before ++ 0 :: after) (new state ctx))
      (execute allocates (before ++ [0]) (new state ctx))
    ((∀ byte ∈ after, byte = 0) → same) ∧
      (ctx.gasLimit.toNat ≤ 2 ^ 63 ∨ after.length < 2 ^ 48 → same → ∀ byte ∈ after, byte = 0) := by
  intro same
  obtain ⟨bounded, sameCtx, _⟩ := runs.accounts (new_bounded state ctx)
  have rest (more : Bytes) : (before ++ 0 :: more).drop before.length = 0 :: more := List.drop_left
  have alone : Runs allocates (before ++ [0]) 0 (new state ctx) ops before.length reached :=
    runs.congr (by rw [List.take_left, List.take_left]) (Nat.le_refl _)
  have right : execute allocates (before ++ [0]) (new state ctx) = .ok (.success, []) reached := by
    rw [execute, (alone.execute (Nat.le_add_left _ 0)).1]
    apply executeFrom_zeros bounded
    rw [rest]
    exact fun byte member => List.mem_singleton.mp member
  have left := (runs.execute (Nat.le_add_left _ 0)).1
  constructor
  · intro zeros
    refine ⟨(.success, []), reached, reached, left.trans ?_, right, rfl, rfl⟩
    apply executeFrom_zeros bounded
    rw [rest]
    exact List.forall_mem_cons.mpr ⟨rfl, zeros⟩
  · intro room unnoticed
    obtain ⟨ending, first, second, ran, other, sameGas, _⟩ := unnoticed
    rw [right] at other
    cases other
    obtain ⟨later, finish, onward, ended⟩ := runs_of_success (Nat.le_add_left _ _) (left.symm.trans ran)
    have length : (before ++ 0 :: after).length = before.length + (after.length + 1) :=
      List.length_append
    have stops := onward.stops_of_free bounded sameGas (by
      rw [sameCtx, length]
      exact room.imp_right fun short => by omega)
    obtain ⟨counter, zeros⟩ := onward.stops stops
    rw [rest, List.take_of_length_le (by rw [List.length_cons]; omega)] at zeros
    exact (List.forall_mem_cons.mp zeros).2

/-! A store behind a `STOP`. -/
namespace StoreBehindStop

/-- `PUSH1 1, PUSH1 0, SSTORE` -/
def behind : Bytes := [0x60, 1, 0x60, 0, 0x55]

def start : VM := new .fresh StoreThenFail.context

def gasOf (code : Bytes) : UInt64 := (finalState (execute (fun _ _ => true) code start)).gasUsed

theorem gas : gasOf ([] ++ 0 :: behind) = 20006 ∧ gasOf ([] ++ [0]) = 0 := by decide +kernel

end StoreBehindStop

/-- The store is made and paid for. -/
theorem stop_runs_on :
    ¬ ∀ (allocates : VM → UInt64 → Bool) (state : WorldState) (ctx : ExecutionContext)
      (before after : Bytes) (ops : List Opcode) (reached : VM),
      Runs allocates (before ++ 0 :: after) 0 (new state ctx) ops before.length reached →
      SameOutcome (execute allocates (before ++ 0 :: after) (new state ctx))
        (execute allocates (before ++ [0]) (new state ctx)) := by
  intro claim
  obtain ⟨ending, first, second, left, right, sameGas, _⟩ :=
    claim (fun _ _ => true) .fresh StoreThenFail.context [] StoreBehindStop.behind [] _ .start
  obtain ⟨stored, stopped⟩ := StoreBehindStop.gas
  rw [StoreBehindStop.gasOf, StoreBehindStop.start, left] at stored
  rw [StoreBehindStop.gasOf, StoreBehindStop.start, right] at stopped
  rw [finalState] at stored stopped
  rw [stored, stopped] at sameGas
  exact absurd sameGas (by decide)

theorem stop_halts_iff_zeros :
    SameOutcome (execute (fun _ _ => true) [0, 0, 0] StoreBehindStop.start)
      (execute (fun _ _ => true) [0] StoreBehindStop.start) :=
  (stop_halts_iff (fun _ _ => true) .fresh StoreThenFail.context [] [0, 0] .start).1 (by simp)

end Parthenon.Evm.VM
