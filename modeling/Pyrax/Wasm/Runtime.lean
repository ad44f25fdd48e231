import Pyrax.Wasm.Storage

/-!
# The WASM runtime

`WasmRuntime` of `pyrax-node/src/wasm/runtime.rs`. What wasmtime does with a module is a
parameter (`Wasm`): a module compiles or not, and a run of it is a `Guest`, which asks
the host for something, goes on with the answer, and ends in a result, a trap or a panic
of the host. The host functions are those that `register_host_functions` links, with the
bytes they read from the memory of the module as arguments. A panic of the host, as
`revert` makes one, ends the process: the release profile aborts. Such a call has no
result (`none`).

A call makes a `HostContext`, instantiates the module, puts the input into its memory,
looks up the function and runs it. `call_internal` never calls `commit`, so the storage
of the context is the storage afterwards.

The clock, the time a run took and the nanoseconds that go into a new address are
arguments. Setting the fuel and linking the host functions cannot fail, for the engine
meters fuel exactly when it is set and no two functions share a name.
-/

namespace Pyrax.Wasm

open Base

structure WasmConfig where
  maxCodeSize : Nat
  callTimeoutSecs : UInt64
  fuelMetering : Bool
  fuelToGasRatio : UInt64
  deriving DecidableEq

def WasmConfig.default : WasmConfig := ⟨1024 * 1024, 30, true, 1⟩

structure ExecutionResult where
  returnData : List UInt8
  gasUsed : UInt64
  logs : List ContractLog
  stateChanges : List StateChange
  success : Bool
  revertReason : Option String
  deriving DecidableEq

def ExecutionResult.revert (reason : String) (gasUsed : UInt64) : ExecutionResult :=
  ⟨[], gasUsed, [], [], false, some reason⟩

inductive ExecutionError where
  | codeTooLarge (size max : Nat)
  | invalidModule (reason : String)
  | instantiationFailed (reason : String)
  | executionFailed (reason : String)
  | outOfGas (used limit : UInt64)
  | timeout (secs : UInt64)
  | memoryOutOfBounds
  | contractNotFound (address : Address)
  | functionNotFound (function : String)
  | revert (reason : String)
  deriving DecidableEq

/-! ## Guests -/

/-- The linked host functions. -/
inductive HostCall where
  | storageRead (key : StorageKey)
  | storageWrite (key : StorageKey) (value : StorageValue)
  | emitLog (topics : List (Vector UInt8 32)) (data : List UInt8)
  | getCaller
  | getSelf
  | getValue
  | getBlockHeight
  | getBlockTimestamp
  | blake3 (input : List UInt8)
  | keccak256 (input : List UInt8)
  | debugPrint (message : List UInt8)
  deriving DecidableEq

inductive HostReply where
  | nothing
  | found (value : Option StorageValue)
  | bytes (data : List UInt8)
  | number (n : UInt64)
  deriving DecidableEq

/-- A run of code of a module. A trap comes with its text and the fuel that is left. -/
inductive Guest (α : Type) where
  | host (call : HostCall) (next : HostReply → Guest α)
  | done (result : α)
  | trap (reason : String) (fuel : UInt64)
  | panic

/-- How a run ends. -/
inductive Ending (α : Type) where
  | done (result : α)
  | trap (reason : String) (fuel : UInt64)
  | panic

/-- What the runtime is given of wasmtime. An instance is its state: memory, globals, fuel. -/
structure Wasm where
  Module : Type
  State : Type
  /-- `Module::new`. -/
  compile : List UInt8 → Except String Module
  /-- `linker.instantiate`: the imports are looked up and the start function runs. -/
  instantiate : Module → Guest State
  /-- The memory exported as `memory`. -/
  memory : State → Option (List UInt8)
  /-- `memory.write`, where it fits. -/
  write : State → Nat → List UInt8 → State
  /-- The export `allocate : i32 → i32`. -/
  allocate : State → Option (Int32 → Guest (Int32 × State))
  /-- An export of type `(i32, i32) → i32`. -/
  function : State → String → Option (Int32 → Int32 → Guest (Int32 × State))
  /-- `store.get_fuel`. -/
  fuel : State → UInt64

namespace HostContext

/-- One host function. -/
def serve (C : Crypto) (ctx : HostContext) : HostCall → HostContext × HostReply
  | .storageRead key => (ctx, .found (ctx.storageRead key))
  | .storageWrite key value => (ctx.storageWrite key value, .nothing)
  | .emitLog topics data => (ctx.emitLog topics data, .nothing)
  | .getCaller => (ctx, .bytes ctx.caller.asBytes)
  | .getSelf => (ctx, .bytes ctx.contractAddress.asBytes)
  | .getValue => (ctx, .number ctx.value)
  | .getBlockHeight => (ctx, .number ctx.blockHeight)
  | .getBlockTimestamp => (ctx, .number ctx.blockTimestamp)
  | .blake3 input => (ctx, .bytes (C.blake3 input).asBytes)
  | .keccak256 input => (ctx, .bytes (C.keccak256 input).asBytes)
  | .debugPrint _ => (ctx, .nothing)

end HostContext

def Guest.run {α : Type} (C : Crypto) : Guest α → HostContext → HostContext × Ending α
  | host call next, ctx => (next (ctx.serve C call).2).run C (ctx.serve C call).1
  | done result, ctx => (ctx, .done result)
  | trap reason fuel, ctx => (ctx, .trap reason fuel)
  | panic, ctx => (ctx, .panic)

/-! ## The runtime -/

structure WasmRuntime (W : Wasm) where
  config : WasmConfig
  moduleCache : Column H256 W.Module
  storage : ContractStorage

/-- What is read of the world during a call. -/
structure CallClock where
  /-- The block timestamp of the host context. -/
  now : UInt64
  /-- How long the function ran, in nanoseconds. -/
  elapsed : Nat

/-- `reason.contains(text)`. -/
def containsText (reason text : String) : Bool := decide (text.toList <:+: reason.toList)

/-- A memory access `ptr as usize .. + len`; a negative pointer is far out. -/
def inBounds (memory : List UInt8) (ptr : Int32) (len : Nat) : Bool :=
  decide (0 ≤ ptr.toInt ∧ ptr.toInt.toNat + len ≤ memory.length)

def readReturnData (memory : List UInt8) (retPtr : Int32) : Except ExecutionError (List UInt8) :=
  if retPtr.toInt < 0 then .ok []
  else if !inBounds memory retPtr 4 then .error .memoryOutOfBounds
  else
    let len := Wire.leNat ((memory.drop retPtr.toInt.toNat).take 4)
    if len = 0 then .ok []
    else if !inBounds memory retPtr (4 + len) then .error .memoryOutOfBounds
    else .ok ((memory.drop (retPtr.toInt.toNat + 4)).take len)

namespace WasmRuntime

variable {W : Wasm}

/-- `allocate_input`: the pointer and the instance with the input in its memory. -/
def allocateInput (W : Wasm) (C : Crypto) (ctx : HostContext) (state : W.State)
    (data : List UInt8) : Option (HostContext × Except ExecutionError (Int32 × W.State)) :=
  let place (ctx : HostContext) (ptr : Int32) (state : W.State) :
      Option (HostContext × Except ExecutionError (Int32 × W.State)) :=
    if inBounds ((W.memory state).getD []) ptr data.length then
      some (ctx, .ok (ptr, W.write state ptr.toInt.toNat data))
    else some (ctx, .error .memoryOutOfBounds)
  match W.allocate state with
  | some alloc =>
    match (alloc (Int32.ofNat data.length)).run C ctx with
    | (_, .panic) => none
    | (ctx, .trap reason _) => some (ctx, .error (.executionFailed reason))
    | (ctx, .done (ptr, state)) => place ctx ptr state
  | none => place ctx 0 state

/-- `call_internal` up to the call of the function: the run that is to come. -/
def prepare (W : Wasm) (C : Crypto) (ctx : HostContext) (module : W.Module) (function : String)
    (args : List UInt8) : Option (HostContext × Except ExecutionError (Guest (Int32 × W.State))) :=
  match (W.instantiate module).run C ctx with
  | (_, .panic) => none
  | (ctx, .trap reason _) => some (ctx, .error (.instantiationFailed reason))
  | (ctx, .done state) =>
    match W.memory state with
    | none => some (ctx, .error (.executionFailed "No memory export"))
    | some _ =>
      match allocateInput W C ctx state args with
      | none => none
      | some (ctx, .error e) => some (ctx, .error e)
      | some (ctx, .ok (inputPtr, state)) =>
        match W.function state function with
        | none => some (ctx, .error (.functionNotFound function))
        | some func => some (ctx, .ok (func inputPtr (Int32.ofNat args.length)))

/-- The gas that a run used. A ratio of zero is a division by zero. -/
def gasUsed (config : WasmConfig) (gasLimit remaining : UInt64) : Option UInt64 :=
  if config.fuelMetering then
    if config.fuelToGasRatio = 0 then none
    else some ((gasLimit * config.fuelToGasRatio - remaining) / config.fuelToGasRatio)
  else some 0

/-- `call_internal` from the call of the function on. -/
def execute (W : Wasm) (C : Crypto) (config : WasmConfig) (clock : CallClock) (gasLimit : UInt64)
    (ctx : HostContext) (func : Guest (Int32 × W.State)) :
    Option (HostContext × Except ExecutionError ExecutionResult) :=
  match func.run C ctx with
  | (_, .panic) => none
  | (ctx, ending) =>
    if config.callTimeoutSecs.toNat * 1000000000 < clock.elapsed then
      some (ctx, .error (.timeout config.callTimeoutSecs))
    else
      match ending with
      | .panic => none
      | .trap reason fuel => do
        let used ← gasUsed config gasLimit fuel
        if containsText reason "out of fuel" then some (ctx, .error (.outOfGas used gasLimit))
        else some (ctx, .ok (.revert reason used))
      | .done (retPtr, state) => do
        let used ← gasUsed config gasLimit (W.fuel state)
        match readReturnData ((W.memory state).getD []) retPtr with
        | .error e => some (ctx, .error e)
        | .ok returnData =>
          some (ctx, .ok ⟨returnData, used, ctx.logs, ctx.stateChanges, true, none⟩)

/-- The host context as the call leaves it, and the result. -/
def callInternal (W : Wasm) (C : Crypto) (config : WasmConfig) (storage : ContractStorage)
    (clock : CallClock) (module : W.Module) (contractAddress caller : Address) (function : String)
    (args : List UInt8) (gasLimit value : UInt64) :
    Option (HostContext × Except ExecutionError ExecutionResult) :=
  let context := HostContext.new clock.now contractAddress caller value gasLimit storage
  match prepare W C context module function args with
  | none => none
  | some (context, .error e) => some (context, .error e)
  | some (context, .ok func) => execute W C config clock gasLimit context func

def compile (W : Wasm) (config : WasmConfig) (code : List UInt8) :
    Except ExecutionError W.Module :=
  if config.maxCodeSize < code.length then
    .error (.codeTooLarge code.length config.maxCodeSize)
  else
    match W.compile code with
    | .ok module => .ok module
    | .error reason => .error (.invalidModule reason)

def hashCode (C : Crypto) (code : List UInt8) : H256 := H256.fromSlice (C.blake3 code).asBytes

/-- The last 20 bytes of the hash, the time as a `u128` of nanoseconds. -/
def generateContractAddress (C : Crypto) (nanos : Nat) (deployer : Address) (code : List UInt8) :
    Address :=
  Address.fromSlice ((C.blake3 (deployer.asBytes ++ code ++ Wire.leBytes 16 nanos)).asBytes.drop 12)

/-- The module of a contract, compiled and cached if it has to be. -/
def getModule (C : Crypto) (rt : WasmRuntime W) (address : Address) :
    WasmRuntime W × Except ExecutionError W.Module :=
  match (rt.storage.getCodeHash address).bind (rt.moduleCache.lookup ·) with
  | some module => (rt, .ok module)
  | none =>
    match rt.storage.getCode address with
    | none => (rt, .error (.contractNotFound address))
    | some code =>
      match compile W rt.config code with
      | .error e => (rt, .error e)
      | .ok module =>
        ({ rt with moduleCache := rt.moduleCache.insert (hashCode C code) module }, .ok module)

def call (C : Crypto) (rt : WasmRuntime W) (clock : CallClock) (contractAddress caller : Address)
    (function : String) (args : List UInt8) (gasLimit value : UInt64) :
    Option (WasmRuntime W × Except ExecutionError ExecutionResult) :=
  match getModule C rt contractAddress with
  | (rt, .error e) => some (rt, .error e)
  | (rt, .ok module) =>
    match callInternal W C rt.config rt.storage clock module contractAddress caller function args
      gasLimit value with
    | none => none
    | some (context, result) => some ({ rt with storage := context.storage }, result)

/-- What is read of the world during a deployment. -/
structure DeployClock extends CallClock where
  /-- The time in the address, in nanoseconds. -/
  nanos : Nat
  /-- The time in the code record. -/
  storedAt : UInt64

def deploy (C : Crypto) (rt : WasmRuntime W) (clock : DeployClock) (deployer : Address)
    (code initArgs : List UInt8) (gasLimit : UInt64) :
    Option (WasmRuntime W × Except ExecutionError (Address × ExecutionResult)) :=
  match compile W rt.config code with
  | .error e => some (rt, .error e)
  | .ok module =>
    let contractAddress := generateContractAddress C clock.nanos deployer code
    let codeHash := hashCode C code
    let rt := { rt with
      moduleCache := rt.moduleCache.insert codeHash module
      storage := rt.storage.storeCode clock.storedAt contractAddress code codeHash }
    match callInternal W C rt.config rt.storage clock.toCallClock module contractAddress deployer
      "deploy" initArgs gasLimit 0 with
    | none => none
    | some (context, .error e) => some ({ rt with storage := context.storage }, .error e)
    | some (context, .ok result) =>
      if !result.success then
        some ({ rt with storage := context.storage.removeCode contractAddress },
          .error (.revert (result.revertReason.getD "Deployment failed")))
      else some ({ rt with storage := context.storage }, .ok (contractAddress, result))

end WasmRuntime

end Pyrax.Wasm
