import Pyrax.Base.Checks
import Pyrax.Evm.Precompiles
import Pyrax.Evm.State

/-!
# The bytecode interpreter

`EvmInterpreter` of `pyrax-node/src/evm/executor.rs`: the loop, every opcode it knows,
and the result it returns. An opcode it does not know costs gas and does nothing.

Of all opcodes only `SSTORE` writes to the database, and only the storage of the
running contract (`stores_executeOpcode`); so a run, however it ends, leaves the
database with some slots of one account written (`stores_execute`), and nothing takes
them back when it fails.

Gas is checked before an opcode and charged with it, so the last opcode of a run may
cost more than is left: at most 4999 more (`gasUsed_lt_of_execute`). Every opcode costs
something, so the loop ends: `execute` gives it one turn for each unit of gas, and
below `2 ^ 64 - 5000` the counter cannot wrap and they are enough (`execute_isSome`).

Offsets into the memory are `usize` and wrap. The memory itself is a list of any
length: that an allocation can fail is left out.
-/

namespace Pyrax.Evm

open Base Word

structure TransactionContext where
  blockNumber : UInt64
  blockTimestamp : UInt64
  blockCoinbase : Address
  blockGasLimit : UInt64
  blockDifficulty : UInt64
  blockBasefee : UInt64
  chainId : UInt64
  prevRandao : B256
  deriving DecidableEq

def TransactionContext.default : TransactionContext :=
  ⟨0, 0, Vector.replicate 20 0, 30000000, 0, 1000000000, 7777, Vector.replicate 32 0⟩

structure Log where
  address : Address
  topics : List B256
  data : List UInt8
  blockNumber : UInt64
  transactionHash : B256
  transactionIndex : UInt64
  blockHash : B256
  logIndex : UInt64
  removed : Bool
  deriving DecidableEq

structure ExecutionResult where
  success : Bool
  gasUsed : UInt64
  gasRefunded : UInt64
  output : List UInt8
  logs : List Log
  contractAddress : Option Address
  revertReason : Option String
  deriving DecidableEq

namespace ExecutionResult

def failed (reason : String) : ExecutionResult := ⟨false, 0, 0, [], [], none, some reason⟩

def successTransfer (gasUsed : UInt64) : ExecutionResult := ⟨true, gasUsed, 0, [], [], none, none⟩

end ExecutionResult

/-- What the interpreter makes of a byte. -/
inductive Opcode where
  | stop
  | add
  | mul
  | sub
  | eq
  | iszero
  | address
  | caller
  | callvalue
  | calldatasize
  | codesize
  | number
  | chainid
  | pop
  | mload
  | mstore
  | sload
  | sstore
  | jump
  | jumpi
  | jumpdest
  | gas
  | push (n : Nat)
  | dup (n : Nat)
  | swap (n : Nat)
  | ret
  | revert
  | unknown
  deriving DecidableEq

/-- The patterns of the match in `execute_opcode`. -/
def Opcode.decode (byte : UInt8) : Opcode :=
  if byte = 0x00 then stop
  else if byte = 0x01 then add
  else if byte = 0x02 then mul
  else if byte = 0x03 then sub
  else if byte = 0x14 then eq
  else if byte = 0x15 then iszero
  else if byte = 0x30 then address
  else if byte = 0x33 then caller
  else if byte = 0x34 then callvalue
  else if byte = 0x36 then calldatasize
  else if byte = 0x38 then codesize
  else if byte = 0x43 then number
  else if byte = 0x46 then chainid
  else if byte = 0x50 then pop
  else if byte = 0x51 then mload
  else if byte = 0x52 then mstore
  else if byte = 0x54 then sload
  else if byte = 0x55 then sstore
  else if byte = 0x56 then jump
  else if byte = 0x57 then jumpi
  else if byte = 0x5B then jumpdest
  else if byte = 0x5A then gas
  else if 0x60 ≤ byte ∧ byte ≤ 0x7F then push (byte - 0x5F).toNat
  else if 0x80 ≤ byte ∧ byte ≤ 0x8F then dup (byte - 0x7F).toNat
  else if 0x90 ≤ byte ∧ byte ≤ 0x9F then swap (byte - 0x8F).toNat
  else if byte = 0xF3 then ret
  else if byte = 0xFD then revert
  else unknown

/-- The stack has its top first; the counter of the code is a number, as it stays
within a word of the code's length. -/
structure EvmInterpreter where
  code : List UInt8
  input : List UInt8
  caller : Address
  address : Address
  value : U256
  gasLimit : UInt64
  gasUsed : UInt64
  ctx : TransactionContext
  stack : List U256
  memory : List UInt8
  pc : Nat
  returnData : List UInt8
  logs : List Log
  stopped : Bool
  reverted : Bool

namespace EvmInterpreter

def new (code input : List UInt8) (caller address : Address) (value : U256) (gasLimit : UInt64)
    (ctx : TransactionContext) : EvmInterpreter :=
  ⟨code, input, caller, address, value, gasLimit, 0, ctx, [], [], 0, [], [], false, false⟩

def pop (vm : EvmInterpreter) : Except String (U256 × EvmInterpreter) :=
  match vm.stack with
  | [] => .error "Stack underflow"
  | v :: stack => .ok (v, { vm with stack := stack })

/-- A full stack drops what is pushed. -/
def push (vm : EvmInterpreter) (v : U256) : EvmInterpreter :=
  if vm.stack.length < 1024 then { vm with stack := v :: vm.stack } else vm

/-- `resize` to whole words; the sum may wrap, and then it shrinks. -/
def expandMemory (vm : EvmInterpreter) (size : UInt64) : EvmInterpreter :=
  if vm.memory.length < size.toNat then
    { vm with memory := padTo ((size + 31) / 32 * 32).toNat vm.memory }
  else vm

def opcodeGas (byte : UInt8) : UInt64 :=
  if byte = 0x54 then 100 else if byte = 0x55 then 5000 else 3

/-- The word of an address, right-aligned. -/
def addressWord (address : Address) : U256 :=
  U256.fromBeBytes (arrayFromSlice 32 (List.replicate 12 0 ++ address.toList))

def boolWord (b : Bool) : U256 := if b then U256.ONE else U256.ZERO

/-- The word at an offset of the memory, zero beyond its end. -/
def readMemory (memory : List UInt8) (offset : UInt64) : U256 :=
  U256.fromBeBytes (Vector.ofFn fun i => memory.getD (offset + UInt64.ofNat i.val).toNat 0)

/-- The bytes of a word put at an offset, as far as the memory goes. -/
def writeMemory (memory : List UInt8) (offset : UInt64) (word : U256) : List UInt8 :=
  (List.range 32).foldl (fun memory i =>
    memory.set (offset + UInt64.ofNat i).toNat (word.toBeBytes.toList.getD i 0)) memory

/-- `memory.get(o..o + s).unwrap_or(&[])`. -/
def memoryRange (memory : List UInt8) (offset size : UInt64) : List UInt8 :=
  if offset ≤ offset + size ∧ (offset + size).toNat ≤ memory.length then
    slice memory offset.toNat size.toNat
  else []

/-- `PUSH`: the bytes after the opcode, zero beyond the end of the code. -/
def pushWord (code : List UInt8) (pc n : Nat) : U256 :=
  U256.fromBeBytes (arrayFromSlice 32 (List.replicate (32 - n) 0 ++ padTo n (code.drop pc)))

def jumpTo (vm : EvmInterpreter) (dest : U256) : Except String EvmInterpreter :=
  let d := dest.lowU64.toNat
  if d < vm.code.length ∧ vm.code.getD d 0 = 0x5B then .ok { vm with pc := d + 1 }
  else .error "Bad jump"

/-- `RETURN` and `REVERT`. -/
def finish (vm : EvmInterpreter) (reverted : Bool) : Except String EvmInterpreter := do
  let (o, vm) ← vm.pop
  let (s, vm) ← vm.pop
  let vm := vm.expandMemory (o.lowU64 + s.lowU64)
  return { vm with
    returnData := memoryRange vm.memory o.lowU64 s.lowU64
    stopped := true
    reverted := vm.reverted || reverted }

/-- The top exchanged with the `n`-th word below it. -/
def swapTop (stack : List U256) (n : Nat) : List U256 :=
  (stack.set 0 (stack.getD n U256.ZERO)).set n (stack.getD 0 U256.ZERO)

/-- Two operands off the stack, one result on it. -/
def binary (vm : EvmInterpreter) (f : U256 → U256 → U256) : Except String EvmInterpreter := do
  let (a, vm) ← vm.pop
  let (b, vm) ← vm.pop
  return vm.push (f a b)

/-- The opcodes that only look at the database. -/
def step (vm : EvmInterpreter) (state : StateDB) : Opcode → Except String EvmInterpreter
  | .stop => .ok { vm with stopped := true }
  | .add => vm.binary U256.saturatingAdd
  | .mul => vm.binary fun a b => (a.checkedMul b).getD U256.ZERO
  | .sub => vm.binary U256.saturatingSub
  | .eq => vm.binary fun a b => boolWord (a = b)
  | .iszero => do
    let (a, vm) ← vm.pop
    return vm.push (boolWord a.isZero)
  | .address => .ok (vm.push (addressWord vm.address))
  | .caller => .ok (vm.push (addressWord vm.caller))
  | .callvalue => .ok (vm.push vm.value)
  | .calldatasize => .ok (vm.push (U256.fromU64 (UInt64.ofNat vm.input.length)))
  | .codesize => .ok (vm.push (U256.fromU64 (UInt64.ofNat vm.code.length)))
  | .number => .ok (vm.push (U256.fromU64 vm.ctx.blockNumber))
  | .chainid => .ok (vm.push (U256.fromU64 vm.ctx.chainId))
  | .pop => do
    let (_, vm) ← vm.pop
    return vm
  | .mload => do
    let (o, vm) ← vm.pop
    let vm := vm.expandMemory (o.lowU64 + 32)
    return vm.push (readMemory vm.memory o.lowU64)
  | .mstore => do
    let (o, vm) ← vm.pop
    let (v, vm) ← vm.pop
    let vm := vm.expandMemory (o.lowU64 + 32)
    return { vm with memory := writeMemory vm.memory o.lowU64 v }
  | .sload => do
    let (k, vm) ← vm.pop
    return vm.push (state.getStorage vm.address k.toBeBytes)
  | .sstore => do
    let (_, vm) ← vm.pop
    let (_, vm) ← vm.pop
    return vm
  | .jump => do
    let (d, vm) ← vm.pop
    vm.jumpTo d
  | .jumpi => do
    let (d, vm) ← vm.pop
    let (c, vm) ← vm.pop
    if c.isZero then return vm else vm.jumpTo d
  | .jumpdest => .ok vm
  | .gas => .ok (vm.push (U256.fromU64 (saturatingSub vm.gasLimit vm.gasUsed)))
  | .push n => .ok { vm.push (pushWord vm.code vm.pc n) with pc := vm.pc + n }
  | .dup n =>
    if vm.stack.length < n then .error "Underflow"
    else .ok (vm.push (vm.stack.getD (n - 1) U256.ZERO))
  | .swap n =>
    if vm.stack.length ≤ n then .error "Underflow"
    else .ok { vm with stack := swapTop vm.stack n }
  | .ret => vm.finish false
  | .revert => vm.finish true
  | .unknown => .ok vm

/-- What an opcode writes to the database: `SSTORE` a slot, of the top two words. -/
def store (vm : EvmInterpreter) (state : StateDB) : Opcode → StateDB
  | .sstore => match vm.stack with
    | k :: v :: _ => state.setStorage vm.address k.toBeBytes v
    | _ => state
  | _ => state

/-- `execute_opcode`. -/
def executeOpcode (vm : EvmInterpreter) (byte : UInt8) (state : StateDB) :
    Except String (EvmInterpreter × StateDB) := do
  let charged := { vm with gasUsed := vm.gasUsed + opcodeGas byte }
  let vm ← charged.step state (Opcode.decode byte)
  return (vm, charged.store state (Opcode.decode byte))

/-- The result after the loop. -/
def result (vm : EvmInterpreter) : ExecutionResult :=
  if vm.reverted then ⟨false, vm.gasUsed, 0, vm.returnData, [], none, some "Reverted"⟩
  else ⟨true, vm.gasUsed, 0, vm.returnData, vm.logs, none, none⟩

/-- The loop of `execute`, for so many turns at most. -/
def loop : Nat → EvmInterpreter → StateDB → Option (StateDB × ExecutionResult)
  | 0, _, _ => none
  | fuel + 1, vm, state =>
    if vm.stopped = false ∧ vm.pc < vm.code.length then
      if vm.gasLimit ≤ vm.gasUsed then some (state, .failed "Out of gas")
      else
        match ({ vm with pc := vm.pc + 1 } : EvmInterpreter).executeOpcode
          (vm.code.getD vm.pc 0) state with
        | .error e => some (state, .failed e)
        | .ok (vm, state) => loop fuel vm state
    else some (state, vm.result)

def execute (vm : EvmInterpreter) (state : StateDB) : Option (StateDB × ExecutionResult) :=
  loop (vm.gasLimit.toNat + 1) vm state

/-! ## What an opcode leaves alone -/

/-- The contract, its gas and the gas spent are the same. -/
structure Frame (vm vm' : EvmInterpreter) : Prop where
  address : vm'.address = vm.address
  gasLimit : vm'.gasLimit = vm.gasLimit
  gasUsed : vm'.gasUsed = vm.gasUsed

variable {vm vm' : EvmInterpreter} {state : StateDB}

theorem Frame.refl (vm : EvmInterpreter) : Frame vm vm := ⟨rfl, rfl, rfl⟩

theorem Frame.trans {vm'' : EvmInterpreter} (h : Frame vm vm') (h' : Frame vm' vm'') :
    Frame vm vm'' :=
  ⟨h'.address.trans h.address, h'.gasLimit.trans h.gasLimit, h'.gasUsed.trans h.gasUsed⟩

theorem frame_push (vm : EvmInterpreter) (v : U256) : Frame vm (vm.push v) := by
  unfold push
  split
  · exact ⟨rfl, rfl, rfl⟩
  · exact Frame.refl vm

theorem frame_expandMemory (vm : EvmInterpreter) (size : UInt64) :
    Frame vm (vm.expandMemory size) := by
  unfold expandMemory
  split
  · exact ⟨rfl, rfl, rfl⟩
  · exact Frame.refl vm

theorem frame_pop {v : U256} (h : vm.pop = .ok (v, vm')) : Frame vm vm' := by
  unfold pop at h
  split at h
  · cases h
  · cases h
    exact ⟨rfl, rfl, rfl⟩

theorem frame_jumpTo {dest : U256} (h : vm.jumpTo dest = .ok vm') : Frame vm vm' := by
  unfold jumpTo at h
  dsimp only at h
  split at h
  · cases h
    exact ⟨rfl, rfl, rfl⟩
  · cases h

theorem frame_finish {reverted : Bool} (h : vm.finish reverted = .ok vm') : Frame vm vm' := by
  obtain ⟨⟨o, vm₁⟩, h₁, h⟩ := bind_eq_ok.mp h
  obtain ⟨⟨s, vm₂⟩, h₂, h⟩ := bind_eq_ok.mp h
  cases h
  have hmemory := frame_expandMemory vm₂ (o.lowU64 + s.lowU64)
  exact ((frame_pop h₁).trans (frame_pop h₂)).trans
    ⟨hmemory.address, hmemory.gasLimit, hmemory.gasUsed⟩

theorem frame_binary {f : U256 → U256 → U256} (h : vm.binary f = .ok vm') : Frame vm vm' := by
  obtain ⟨⟨a, vm₁⟩, h₁, h⟩ := bind_eq_ok.mp h
  obtain ⟨⟨b, vm₂⟩, h₂, h⟩ := bind_eq_ok.mp h
  cases h
  exact ((frame_pop h₁).trans (frame_pop h₂)).trans (frame_push vm₂ _)

theorem frame_step {op : Opcode} (h : vm.step state op = .ok vm') : Frame vm vm' := by
  cases op with
  | stop => cases h; exact ⟨rfl, rfl, rfl⟩
  | add => exact frame_binary h
  | mul => exact frame_binary (f := fun a b => (a.checkedMul b).getD U256.ZERO) h
  | sub => exact frame_binary h
  | eq => exact frame_binary (f := fun a b => boolWord (a = b)) h
  | iszero =>
    obtain ⟨⟨a, vm₁⟩, h₁, h⟩ := bind_eq_ok.mp h
    cases h
    exact (frame_pop h₁).trans (frame_push vm₁ _)
  | address => cases h; exact frame_push vm _
  | caller => cases h; exact frame_push vm _
  | callvalue => cases h; exact frame_push vm _
  | calldatasize => cases h; exact frame_push vm _
  | codesize => cases h; exact frame_push vm _
  | number => cases h; exact frame_push vm _
  | chainid => cases h; exact frame_push vm _
  | pop =>
    obtain ⟨⟨a, vm₁⟩, h₁, h⟩ := bind_eq_ok.mp h
    cases h
    exact frame_pop h₁
  | mload =>
    obtain ⟨⟨o, vm₁⟩, h₁, h⟩ := bind_eq_ok.mp h
    cases h
    exact ((frame_pop h₁).trans (frame_expandMemory vm₁ _)).trans (frame_push _ _)
  | mstore =>
    obtain ⟨⟨o, vm₁⟩, h₁, h⟩ := bind_eq_ok.mp h
    obtain ⟨⟨v, vm₂⟩, h₂, h⟩ := bind_eq_ok.mp h
    cases h
    have hmemory := frame_expandMemory vm₂ (o.lowU64 + 32)
    exact ((frame_pop h₁).trans (frame_pop h₂)).trans
      ⟨hmemory.address, hmemory.gasLimit, hmemory.gasUsed⟩
  | sload =>
    obtain ⟨⟨k, vm₁⟩, h₁, h⟩ := bind_eq_ok.mp h
    cases h
    exact (frame_pop h₁).trans (frame_push vm₁ _)
  | sstore =>
    obtain ⟨⟨k, vm₁⟩, h₁, h⟩ := bind_eq_ok.mp h
    obtain ⟨⟨v, vm₂⟩, h₂, h⟩ := bind_eq_ok.mp h
    cases h
    exact (frame_pop h₁).trans (frame_pop h₂)
  | jump =>
    obtain ⟨⟨d, vm₁⟩, h₁, h⟩ := bind_eq_ok.mp h
    exact (frame_pop h₁).trans (frame_jumpTo h)
  | jumpi =>
    obtain ⟨⟨d, vm₁⟩, h₁, h⟩ := bind_eq_ok.mp h
    obtain ⟨⟨c, vm₂⟩, h₂, h⟩ := bind_eq_ok.mp h
    have hpops := (frame_pop h₁).trans (frame_pop h₂)
    have h : (if c.isZero then pure vm₂ else vm₂.jumpTo d) = Except.ok vm' := h
    split at h
    · cases h
      exact hpops
    · exact hpops.trans (frame_jumpTo h)
  | jumpdest => cases h; exact Frame.refl vm
  | gas => cases h; exact frame_push vm _
  | push n =>
    cases h
    have hpush := frame_push vm (pushWord vm.code vm.pc n)
    exact ⟨hpush.address, hpush.gasLimit, hpush.gasUsed⟩
  | dup n =>
    have h : (if vm.stack.length < n then Except.error "Underflow"
      else .ok (vm.push (vm.stack.getD (n - 1) U256.ZERO))) = .ok vm' := h
    split at h
    · cases h
    · cases h
      exact frame_push vm _
  | swap n =>
    have h : (if vm.stack.length ≤ n then Except.error "Underflow"
      else .ok { vm with stack := swapTop vm.stack n }) = .ok vm' := h
    split at h
    · cases h
    · cases h
      exact ⟨rfl, rfl, rfl⟩
  | ret => exact frame_finish h
  | revert => exact frame_finish h
  | unknown => cases h; exact Frame.refl vm

/-! ## What a run writes -/

/-- Slots of one account, written one after the other. -/
def storeAll (address : Address) (state : StateDB) (writes : List (B256 × U256)) : StateDB :=
  writes.foldl (fun state write => state.setStorage address write.1 write.2) state

/-- Some slots of the account have been written, and nothing else. -/
def Stores (address : Address) (state state' : StateDB) : Prop :=
  ∃ writes, state' = storeAll address state writes

theorem Stores.refl (address : Address) (state : StateDB) : Stores address state state := ⟨[], rfl⟩

theorem Stores.trans {address : Address} {s₁ s₂ s₃ : StateDB} (h : Stores address s₁ s₂)
    (h' : Stores address s₂ s₃) : Stores address s₁ s₃ := by
  obtain ⟨writes, rfl⟩ := h
  obtain ⟨writes', rfl⟩ := h'
  exact ⟨writes ++ writes', (List.foldl_append ..).symm⟩

theorem stores_store (vm : EvmInterpreter) (state : StateDB) (op : Opcode) :
    Stores vm.address state (vm.store state op) := by
  unfold store
  split
  · split
    · next k v rest _ => exact ⟨[(k.toBeBytes, v)], rfl⟩
    · exact Stores.refl _ _
  · exact Stores.refl _ _

/-- What does not look at the storage reads the same after such writes. -/
theorem read_storeAll {β : Type} {f : AccountState → β}
    (hf : ∀ account key value, f (account.setStorage key value) = f account)
    (writes : List (B256 × U256)) (s : StateDB) (a b : Address) :
    f ((storeAll a s writes).getAccount b) = f (s.getAccount b) := by
  induction writes generalizing s with
  | nil => rfl
  | cons write writes ih =>
    show f ((storeAll a (s.setStorage a write.1 write.2) writes).getAccount b) = _
    rw [ih, StateDB.setStorage, StateDB.getAccount_modifyAccount]
    split
    · exact hf _ _ _
    · rfl

theorem getAccount_storeAll_of_ne {a b : Address} (h : b ≠ a) (writes : List (B256 × U256))
    (s : StateDB) : (storeAll a s writes).getAccount b = s.getAccount b := by
  induction writes generalizing s with
  | nil => rfl
  | cons write writes ih =>
    show (storeAll a (s.setStorage a write.1 write.2) writes).getAccount b = _
    rw [ih, StateDB.setStorage, StateDB.getAccount_modifyAccount, if_neg h]

/-- What an opcode does outside the stack, the memory and the counter. -/
structure Charged (vm : EvmInterpreter) (byte : UInt8) (state : StateDB) (vm' : EvmInterpreter)
    (state' : StateDB) : Prop where
  address : vm'.address = vm.address
  gasLimit : vm'.gasLimit = vm.gasLimit
  gasUsed : vm'.gasUsed = vm.gasUsed + opcodeGas byte
  stores : Stores vm.address state state'

theorem charged_of_executeOpcode {byte : UInt8} {state' : StateDB}
    (h : vm.executeOpcode byte state = .ok (vm', state')) : Charged vm byte state vm' state' := by
  obtain ⟨vm₁, hstep, h⟩ := bind_eq_ok.mp h
  cases h
  have hframe := frame_step hstep
  exact ⟨hframe.address, hframe.gasLimit, hframe.gasUsed, stores_store _ _ _⟩

/-- A run writes slots of its own contract, however it ends. -/
theorem stores_loop : ∀ {fuel : Nat} {vm : EvmInterpreter} {state state' : StateDB}
    {r : ExecutionResult}, loop fuel vm state = some (state', r) → Stores vm.address state state'
  | 0, _, _, _, _, h => by cases h
  | fuel + 1, vm, state, state', r, h => by
    rw [loop] at h
    split at h
    · split at h
      · cases h
        exact Stores.refl _ _
      · split at h
        · cases h
          exact Stores.refl _ _
        · next vm₁ state₁ hopcode =>
          have hcharged := charged_of_executeOpcode hopcode
          have hrest := stores_loop h
          rw [hcharged.address] at hrest
          exact hcharged.stores.trans hrest
    · cases h
      exact Stores.refl _ _

theorem stores_execute {state' : StateDB} {r : ExecutionResult}
    (h : vm.execute state = some (state', r)) : Stores vm.address state state' := stores_loop h

/-! ## The end of a run -/

theorem opcodeGas_bounds (byte : UInt8) :
    3 ≤ (opcodeGas byte).toNat ∧ (opcodeGas byte).toNat ≤ 5000 := by
  unfold opcodeGas
  split
  · decide
  · split <;> decide

/-- Charging an opcode within the gas moves the counter forward, by at most 5000. -/
theorem toNat_gasUsed_charged {byte : UInt8} {state' : StateDB}
    (h : Charged vm byte state vm' state') (hlimit : vm.gasLimit.toNat + 5000 ≤ 2 ^ 64)
    (hgas : vm.gasUsed.toNat < vm.gasLimit.toNat) :
    vm.gasUsed.toNat < vm'.gasUsed.toNat ∧ vm'.gasUsed.toNat < vm.gasLimit.toNat + 5000 := by
  have hbounds := opcodeGas_bounds byte
  rw [h.gasUsed, toNat_add_of_lt (by omega)]
  omega

/-- With a turn for each unit of gas left, the loop ends. -/
theorem loop_isSome : ∀ {fuel : Nat} {vm : EvmInterpreter} {state : StateDB},
    vm.gasLimit.toNat + 5000 ≤ 2 ^ 64 → vm.gasLimit.toNat - vm.gasUsed.toNat < fuel →
    (loop fuel vm state).isSome
  | 0, _, _, _, hfuel => absurd hfuel (Nat.not_lt_zero _)
  | fuel + 1, vm, state, hlimit, hfuel => by
    rw [loop]
    split
    · split
      · rfl
      · next hgas =>
        have hlt : vm.gasUsed.toNat < vm.gasLimit.toNat :=
          Nat.lt_of_not_le fun hle => hgas (UInt64.le_iff_toNat_le.mpr hle)
        split
        · rfl
        · next vm₁ state₁ hopcode =>
          have hcharged := charged_of_executeOpcode hopcode
          have hforward := toNat_gasUsed_charged hcharged hlimit hlt
          refine loop_isSome ?_ ?_
          · rw [hcharged.gasLimit]
            exact hlimit
          · rw [hcharged.gasLimit]
            show vm.gasLimit.toNat - vm₁.gasUsed.toNat < fuel
            have hforward₁ : vm.gasUsed.toNat < vm₁.gasUsed.toNat := hforward.1
            omega
    · rfl

/-- A run from the start always returns. -/
theorem execute_isSome (state : StateDB) (hlimit : vm.gasLimit.toNat + 5000 ≤ 2 ^ 64) :
    (vm.execute state).isSome :=
  loop_isSome hlimit (by omega)

theorem gasUsed_lt_of_loop : ∀ {fuel : Nat} {vm : EvmInterpreter} {state state' : StateDB}
    {r : ExecutionResult}, vm.gasLimit.toNat + 5000 ≤ 2 ^ 64 →
    vm.gasUsed.toNat < vm.gasLimit.toNat + 5000 → loop fuel vm state = some (state', r) →
    r.gasUsed.toNat < vm.gasLimit.toNat + 5000
  | 0, _, _, _, _, _, _, h => by cases h
  | fuel + 1, vm, state, state', r, hlimit, hgas, h => by
    rw [loop] at h
    split at h
    · split at h
      · cases h
        exact Nat.add_pos_right _ (by decide)
      · next hleft =>
        have hlt : vm.gasUsed.toNat < vm.gasLimit.toNat :=
          Nat.lt_of_not_le fun hle => hleft (UInt64.le_iff_toNat_le.mpr hle)
        split at h
        · cases h
          exact Nat.add_pos_right _ (by decide)
        · next vm₁ state₁ hopcode =>
          have hcharged := charged_of_executeOpcode hopcode
          have hforward := toNat_gasUsed_charged hcharged hlimit hlt
          have hlimit₁ : vm₁.gasLimit = vm.gasLimit := hcharged.gasLimit
          have hrest := gasUsed_lt_of_loop (by rw [hlimit₁]; exact hlimit)
            (by rw [hlimit₁]; exact hforward.2) h
          rwa [hlimit₁] at hrest
    · cases h
      unfold result
      split
      · exact hgas
      · exact hgas

/-- A run overspends by less than the price of an opcode. -/
theorem gasUsed_lt_of_execute {state' : StateDB} {r : ExecutionResult}
    (hlimit : vm.gasLimit.toNat + 5000 ≤ 2 ^ 64)
    (hgas : vm.gasUsed.toNat < vm.gasLimit.toNat + 5000)
    (h : vm.execute state = some (state', r)) : r.gasUsed.toNat < vm.gasLimit.toNat + 5000 :=
  gasUsed_lt_of_loop hlimit hgas h

end EvmInterpreter

end Pyrax.Evm
