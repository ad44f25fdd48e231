import Pyrax.Wasm.Runtime

/-!
# What a call and a deployment leave behind

No host function writes to the storage: the writes of a call wait in its host context for
`commit`, and nothing calls it. So a call leaves the storage as it was, whatever it
returns (`callInternal_storage`). That is right for a call that fails, and for one that
succeeds only where it wrote nothing new (`exact_iff`).

A deployment stores the code before the constructor runs, and takes it back only where the
constructor reverts. An error that `call_internal` returns goes out through `?` with the
code stored and indexed. And taking it back removes whatever stood under the address, and
keeps an entry of the index, empty if the code is new (`traceless_iff`).
-/

namespace Pyrax.Wasm

open Base

section Storage

variable {W : Wasm} {C : Crypto} {ctx ctx' : HostContext}

/-- The storage and the contract of a host context. -/
def HostContext.SameStorage (ctx ctx' : HostContext) : Prop :=
  ctx'.storage = ctx.storage ∧ ctx'.contractAddress = ctx.contractAddress

theorem HostContext.SameStorage.trans {ctx'' : HostContext} (h : ctx.SameStorage ctx')
    (h' : ctx'.SameStorage ctx'') : ctx.SameStorage ctx'' :=
  ⟨h'.1.trans h.1, h'.2.trans h.2⟩

/-- No host function writes to the storage. -/
theorem HostContext.serve_sameStorage (ctx : HostContext) (call : HostCall) :
    ctx.SameStorage (ctx.serve C call).1 := by
  cases call with
  | storageWrite key value =>
    show ctx.SameStorage (ctx.storageWrite key value)
    unfold storageWrite
    split
    · exact ⟨rfl, rfl⟩
    · exact ⟨rfl, rfl⟩
  | emitLog topics data =>
    show ctx.SameStorage (ctx.emitLog topics data)
    unfold emitLog
    split
    · exact ⟨rfl, rfl⟩
    · exact ⟨rfl, rfl⟩
  | _ => exact ⟨rfl, rfl⟩

/-- However long it goes on. -/
theorem Guest.run_sameStorage {α : Type} (g : Guest α) :
    ∀ ctx : HostContext, ctx.SameStorage (g.run C ctx).1 := by
  induction g with
  | host call next ih =>
    intro ctx
    exact (ctx.serve_sameStorage call).trans (ih _ _)
  | done result => exact fun _ => ⟨rfl, rfl⟩
  | trap reason fuel => exact fun _ => ⟨rfl, rfl⟩
  | panic => exact fun _ => ⟨rfl, rfl⟩

namespace WasmRuntime

theorem allocateInput_sameStorage {state : W.State} {data : List UInt8}
    {r : Except ExecutionError (Int32 × W.State)}
    (h : allocateInput W C ctx state data = some (ctx', r)) : ctx.SameStorage ctx' := by
  unfold allocateInput at h
  dsimp only at h
  split at h
  · next alloc halloc =>
    have hrun := (alloc (Int32.ofNat data.length)).run_sameStorage (C := C) ctx
    split at h
    · cases h
    · next heq =>
      cases h
      rw [heq] at hrun
      exact hrun
    · next heq =>
      rw [heq] at hrun
      split at h <;> cases h <;> exact hrun
  · split at h <;> cases h <;> exact ⟨rfl, rfl⟩

theorem prepare_sameStorage {module : W.Module} {function : String} {args : List UInt8}
    {r : Except ExecutionError (Guest (Int32 × W.State))}
    (h : prepare W C ctx module function args = some (ctx', r)) : ctx.SameStorage ctx' := by
  have hrun := (W.instantiate module).run_sameStorage (C := C) ctx
  unfold prepare at h
  split at h
  · cases h
  · next heq =>
    cases h
    rw [heq] at hrun
    exact hrun
  next ctx₁ state heq =>
  rw [heq] at hrun
  split at h
  · cases h
    exact hrun
  split at h
  · cases h
  · next hallocate =>
    cases h
    exact hrun.trans (allocateInput_sameStorage hallocate)
  next hallocate =>
  split at h <;> cases h <;> exact hrun.trans (allocateInput_sameStorage hallocate)

theorem execute_sameStorage {config : WasmConfig} {clock : CallClock} {gasLimit : UInt64}
    {func : Guest (Int32 × W.State)} {r : Except ExecutionError ExecutionResult}
    (h : execute W C config clock gasLimit ctx func = some (ctx', r)) : ctx.SameStorage ctx' := by
  have hrun := func.run_sameStorage (C := C) ctx
  unfold execute at h
  split at h
  · cases h
  next ctx₁ ending _ heq =>
  rw [heq] at hrun
  split at h
  · cases h
    exact hrun
  split at h
  · cases h
  · obtain ⟨used, _, h⟩ := Option.bind_eq_some_iff.mp h
    split at h <;> cases h <;> exact hrun
  · obtain ⟨used, _, h⟩ := Option.bind_eq_some_iff.mp h
    split at h <;> cases h <;> exact hrun

/-- A call leaves the storage as it was. -/
theorem callInternal_storage {config : WasmConfig} {storage : ContractStorage} {clock : CallClock}
    {module : W.Module} {contractAddress caller : Address} {function : String} {args : List UInt8}
    {gasLimit value : UInt64} {r : Except ExecutionError ExecutionResult}
    (h : callInternal W C config storage clock module contractAddress caller function args gasLimit
      value = some (ctx', r)) : ctx'.storage = storage := by
  unfold callInternal at h
  dsimp only at h
  split at h
  · cases h
  · next hprepare =>
    cases h
    exact (prepare_sameStorage hprepare).1
  · next hprepare => exact ((prepare_sameStorage hprepare).trans (execute_sameStorage h)).1

end WasmRuntime

end Storage

/-! ## Calls -/

namespace WasmRuntime

section Call

variable {W : Wasm} (C : Crypto) (rt : WasmRuntime W) (clock : CallClock)
  (contractAddress caller : Address) (function : String) (args : List UInt8)
  (gasLimit value : UInt64)

/-- The writes that the module makes during a call, in order. -/
def writesDuring : List (WriteOp StorageKey StorageValue) :=
  match getModule C rt contractAddress with
  | (_, .error _) => []
  | (rt, .ok module) =>
    match callInternal W C rt.config rt.storage clock module contractAddress caller function args
      gasLimit value with
    | none => []
    | some (context, _) => context.writes

/-- A call has exactly its writes as effect. -/
structure Exact : Prop where
  written : ∀ rt' r, call C rt clock contractAddress caller function args gasLimit value
      = some (rt', .ok r) → r.success = true → ∀ key, rt'.storage.get contractAddress key
    = (Column.lastWrite key (writesDuring C rt clock contractAddress caller function args gasLimit
        value)).getD (rt.storage.get contractAddress key)
  unchanged : ∀ rt' result, call C rt clock contractAddress caller function args gasLimit value
      = some (rt', result) → (∀ r, result = .ok r → r.success = false) → rt'.storage = rt.storage
  others : ∀ rt' result, call C rt clock contractAddress caller function args gasLimit value
      = some (rt', result) → ∀ address ≠ contractAddress, ∀ key,
    rt'.storage.get address key = rt.storage.get address key

variable {C rt clock contractAddress caller function args gasLimit value}

theorem getModule_storage {address : Address} {rt' : WasmRuntime W}
    {r : Except ExecutionError W.Module} (h : getModule C rt address = (rt', r)) :
    rt'.storage = rt.storage := by
  unfold getModule at h
  split at h
  · cases h
    rfl
  split at h
  · cases h
    rfl
  split at h <;> cases h <;> rfl

/-- No call changes the storage. -/
theorem call_storage {rt' : WasmRuntime W} {result : Except ExecutionError ExecutionResult}
    (h : call C rt clock contractAddress caller function args gasLimit value = some (rt', result)) :
    rt'.storage = rt.storage := by
  unfold call at h
  split at h
  · next hmodule =>
    cases h
    exact getModule_storage hmodule
  next hmodule =>
  split at h
  · cases h
  next context result hcall =>
  cases h
  exact (callInternal_storage hcall).trans (getModule_storage hmodule)

variable (C rt clock contractAddress caller function args gasLimit value)

/-- **A call has exactly its writes as effect** exactly when it fails, or last wrote to
every key what the key holds already. -/
theorem exact_iff : Exact C rt clock contractAddress caller function args gasLimit value ↔
    ∀ rt' r, call C rt clock contractAddress caller function args gasLimit value
        = some (rt', .ok r) → r.success = true →
      ∀ key written, Column.lastWrite key (writesDuring C rt clock contractAddress caller function
        args gasLimit value) = some written → rt.storage.get contractAddress key = written := by
  constructor
  · intro h rt' r hcall hsuccess key written hlast
    have hkey := h.written rt' r hcall hsuccess key
    rw [hlast, call_storage hcall] at hkey
    exact hkey
  · intro h
    refine ⟨fun rt' r hcall hsuccess key => ?_, fun rt' result hcall _ => call_storage hcall,
      fun rt' result hcall address _ key => by rw [call_storage hcall]⟩
    rw [call_storage hcall]
    cases hlast : Column.lastWrite key (writesDuring C rt clock contractAddress caller function
      args gasLimit value) with
    | none => rfl
    | some written => exact h rt' r hcall hsuccess key written hlast

end Call

/-! ## Deployments -/

section Deploy

variable {W : Wasm} (C : Crypto) (rt : WasmRuntime W) (clock : DeployClock) (deployer : Address)
  (code initArgs : List UInt8) (gasLimit : UInt64)

/-- A deployment that returns an error leaves no trace in the storage. -/
def Traceless : Prop :=
  ∀ rt' e, deploy C rt clock deployer code initArgs gasLimit = some (rt', .error e) →
    rt'.storage = rt.storage

/-- The run of the constructor, on the storage that has the code. -/
def construct (module : W.Module) : Option (HostContext × Except ExecutionError ExecutionResult) :=
  callInternal W C rt.config (rt.storage.storeCode clock.storedAt
      (generateContractAddress C clock.nanos deployer code) code (hashCode C code))
    clock.toCallClock module (generateContractAddress C clock.nanos deployer code) deployer
    "deploy" initArgs gasLimit 0

end Deploy

end WasmRuntime

namespace ContractStorage

variable {s : ContractStorage} {address : Address} {codeHash : H256}

/-- Nothing stands under the address, and the code has an entry in the index, without the
address. -/
structure Unused (s : ContractStorage) (address : Address) (codeHash : H256) : Prop where
  code : address ∉ s.code
  state : address ∉ s.state
  metadata : address ∉ s.metadata
  listed : ∃ addresses, s.codeAddresses.lookup codeHash = some addresses ∧ address ∉ addresses

/-- Storing the code changes the index. -/
theorem storeCode_ne (s : ContractStorage) (now : UInt64) (address : Address) (code : List UInt8)
    (codeHash : H256) : s.storeCode now address code codeHash ≠ s := by
  intro h
  have hindex := congrArg (fun t => (t.codeAddresses.lookup codeHash).map List.length) h
  have hafter : (s.storeCode now address code codeHash).codeAddresses.lookup codeHash
      = some ((s.codeAddresses.lookup codeHash).getD [] ++ [address]) := Finmap.lookup_insert _
  rw [hafter] at hindex
  cases hbefore : s.codeAddresses.lookup codeHash with
  | none =>
    rw [hbefore] at hindex
    cases hindex
  | some addresses =>
    rw [hbefore] at hindex
    simp at hindex

/-- What is left after the code was stored and taken back. -/
theorem removeCode_storeCode (s : ContractStorage) (now : UInt64) (address : Address)
    (code : List UInt8) (codeHash : H256) :
    (s.storeCode now address code codeHash).removeCode address
      = ⟨s.code.erase address, s.state.erase address, s.metadata.erase address,
          s.codeAddresses.insert codeHash
            (((s.codeAddresses.lookup codeHash).getD []).filter (· ≠ address))⟩ := by
  have hcode : (s.code.insert address ⟨code, codeHash, now, Address.ZERO⟩).erase address
      = s.code.erase address := by
    refine Finmap.ext_lookup fun a => ?_
    by_cases ha : a = address
    · rw [ha, Finmap.lookup_erase, Finmap.lookup_erase]
    · rw [Finmap.lookup_erase_ne ha, Finmap.lookup_erase_ne ha, Finmap.lookup_insert_of_ne _ ha]
  have hindex : unlist (s.codeAddresses.insert codeHash
      ((s.codeAddresses.lookup codeHash).getD [] ++ [address])) codeHash address
        = s.codeAddresses.insert codeHash
          (((s.codeAddresses.lookup codeHash).getD []).filter (· ≠ address)) := by
    rw [unlist, Finmap.lookup_insert]
    dsimp only
    rw [Finmap.insert_insert, List.filter_append]
    simp
  unfold removeCode storeCode
  dsimp only
  rw [Finmap.lookup_insert, hcode]
  dsimp only
  rw [hindex]

theorem removeCode_storeCode_eq_iff (s : ContractStorage) (now : UInt64) (address : Address)
    (code : List UInt8) (codeHash : H256) :
    (s.storeCode now address code codeHash).removeCode address = s ↔ s.Unused address codeHash := by
  rw [removeCode_storeCode]
  constructor
  · intro h
    have hcode : s.code.erase address = s.code := congrArg ContractStorage.code h
    have hstate : s.state.erase address = s.state := congrArg ContractStorage.state h
    have hmetadata : s.metadata.erase address = s.metadata := congrArg ContractStorage.metadata h
    have hindex := congrArg (fun t => t.codeAddresses.lookup codeHash) h
    dsimp only at hindex
    rw [Finmap.lookup_insert] at hindex
    refine ⟨hcode ▸ Finmap.notMem_erase_self, hstate ▸ Finmap.notMem_erase_self,
      hmetadata ▸ Finmap.notMem_erase_self, _, hindex.symm, ?_⟩
    simp
  · rintro ⟨hcode, hstate, hmetadata, addresses, hlookup, hnot⟩
    have hfilter : addresses.filter (· ≠ address) = addresses := by
      refine List.filter_eq_self.mpr fun a ha => ?_
      simp only [decide_eq_true_eq]
      rintro rfl
      exact hnot ha
    rw [Column.erase_of_notMem hcode, Column.erase_of_notMem hstate,
      Column.erase_of_notMem hmetadata, hlookup, Option.getD_some, hfilter,
      Column.insert_of_lookup hlookup]

end ContractStorage

namespace WasmRuntime

variable {W : Wasm} (C : Crypto) (rt : WasmRuntime W) (clock : DeployClock) (deployer : Address)
  (code initArgs : List UInt8) (gasLimit : UInt64)

/-- **A failed deployment leaves no trace** exactly when the code does not compile, or the
run of the constructor comes to an end without an error and, if it reverts, the address
was unused and the code known. -/
theorem traceless_iff : Traceless C rt clock deployer code initArgs gasLimit ↔
    ∀ module, compile W rt.config code = .ok module →
      ∀ context result, construct C rt clock deployer code initArgs gasLimit module
          = some (context, result) →
        ∃ r, result = .ok r ∧ (r.success = false →
          rt.storage.Unused (generateContractAddress C clock.nanos deployer code)
            (hashCode C code)) := by
  unfold Traceless deploy
  cases hcompile : compile W rt.config code with
  | error e =>
    constructor
    · intro _ module h
      cases h
    · intro _ rt' e' h
      cases h
      rfl
  | ok module =>
    dsimp only
    have hconstruct : callInternal W C rt.config (rt.storage.storeCode clock.storedAt
        (generateContractAddress C clock.nanos deployer code) code (hashCode C code))
        clock.toCallClock module (generateContractAddress C clock.nanos deployer code) deployer
        "deploy" initArgs gasLimit 0 = construct C rt clock deployer code initArgs gasLimit module :=
      rfl
    rw [hconstruct]
    cases hrun : construct C rt clock deployer code initArgs gasLimit module with
    | none =>
      constructor
      · intro _ m hm context result h
        cases hm
        rw [hrun] at h
        cases h
      · intro _ rt' e h
        cases h
    | some out =>
      obtain ⟨context, result⟩ := out
      have hstorage : context.storage = rt.storage.storeCode clock.storedAt
          (generateContractAddress C clock.nanos deployer code) code (hashCode C code) :=
        callInternal_storage hrun
      cases result with
      | error e =>
        -- the code stays stored
        dsimp only
        constructor
        · intro h
          exact absurd (hstorage.symm.trans (h _ _ rfl)) (ContractStorage.storeCode_ne _ _ _ _ _)
        · intro h
          obtain ⟨r, hr, _⟩ := h module rfl context _ hrun
          cases hr
      | ok r =>
        dsimp only
        constructor
        · intro h m hm context' result' h'
          cases hm
          cases hrun.symm.trans h'
          refine ⟨r, rfl, fun hfailed => ?_⟩
          rw [hfailed] at h
          have hback := h _ _ rfl
          dsimp only at hback
          rw [hstorage] at hback
          exact (ContractStorage.removeCode_storeCode_eq_iff _ _ _ _ _).mp hback
        · intro h rt' e hdeploy
          obtain ⟨r', hr', hunused⟩ := h module rfl context _ hrun
          cases hr'
          cases hsuccess : r.success with
          | true =>
            rw [hsuccess] at hdeploy
            cases hdeploy
          | false =>
            rw [hsuccess] at hdeploy
            cases hdeploy
            show context.storage.removeCode _ = _
            rw [hstorage]
            exact (ContractStorage.removeCode_storeCode_eq_iff _ _ _ _ _).mpr (hunused hsuccess)

end WasmRuntime

/-! ## Two small modules -/

/-- A module that exports its memory and a function `set`, which writes the byte 2 under the
byte 1. -/
def setterCode : List UInt8 :=
  [0, 97, 115, 109, 1, 0, 0, 0, 1, 14, 2, 96, 4, 127, 127, 127, 127, 0, 96, 2, 127, 127, 1, 127, 2,
    21, 1, 3, 101, 110, 118, 13, 115, 116, 111, 114, 97, 103, 101, 95, 119, 114, 105, 116, 101, 0,
    0, 3, 2, 1, 1, 5, 3, 1, 0, 1, 7, 16, 2, 6, 109, 101, 109, 111, 114, 121, 2, 0, 3, 115, 101, 116,
    0, 1, 10, 16, 1, 14, 0, 65, 0, 65, 1, 65, 1, 65, 1, 16, 0, 65, 127, 11, 11, 8, 1, 0, 65, 0, 11,
    2, 1, 2]

/-- A module that exports an empty memory and nothing else. -/
def memoryCode : List UInt8 :=
  [0, 97, 115, 109, 1, 0, 0, 0, 5, 3, 1, 0, 0, 7, 10, 1, 6, 109, 101, 109, 111, 114, 121, 2, 0]

/-- One page that starts with the key and the value. -/
def setterMemory : List UInt8 := [1, 2] ++ List.replicate 65534 0

/-- What wasmtime does with the two modules. -/
def smallWasm : Wasm where
  Module := Bool
  State := Bool × List UInt8
  compile code :=
    if code = setterCode then .ok true
    else if code = memoryCode then .ok false
    else .error "unknown module"
  instantiate setter := .done (setter, if setter then setterMemory else [])
  memory state := some state.2
  write state offset data :=
    (state.1, state.2.take offset ++ data ++ state.2.drop (offset + data.length))
  allocate _ := none
  function state name :=
    if state.1 && name = "set" then
      some fun _ _ => .host (.storageWrite [1] [2]) fun _ => .done (-1, state)
    else none
  fuel _ := 0

/-- The hashes of the two modules, and of the second with its deployer and the time. -/
def smallCrypto : Crypto := Crypto.ofTable
  [(setterCode,
      H256.ofNatBE 0x20756f0c7939bdcfcdea9828ac235b0fe9cecba0fc9cbb72a2fbca34b0834ff8),
    (memoryCode,
      H256.ofNatBE 0x3210e92c51b50b11592d0d52d19784a6025aa0d55910fec35ea2b3df74719574),
    (List.replicate 20 2 ++ memoryCode ++ Wire.leBytes 16 1700000000000000000,
      H256.ofNatBE 0x3713eac863697d3ef7988032f0a5bc7f88c69929ee94d12d55715065330c24ef)]

namespace WasmRuntime

def setterAddress : Address := ⟨Vector.replicate 20 1⟩

/-- A runtime without metering, with the setter stored. -/
def setterRuntime : WasmRuntime smallWasm :=
  ⟨{ WasmConfig.default with fuelMetering := false }, ∅,
    ContractStorage.new.storeCode 5 setterAddress setterCode (hashCode smallCrypto setterCode)⟩

section Run

variable {W : Wasm} {C : Crypto} {ctx ctx' : HostContext} {module : W.Module} {state : W.State}
  {function : String}

/-- Input that is empty fits into any memory. -/
theorem allocateInput_nil (h : W.allocate state = none) :
    allocateInput W C ctx state [] = some (ctx, .ok (0, W.write state 0 [])) := by
  unfold allocateInput
  rw [h]
  refine if_pos (decide_eq_true ⟨by decide, ?_⟩)
  exact Nat.zero_le _

theorem prepare_nil {memory : List UInt8} {func : Int32 → Int32 → Guest (Int32 × W.State)}
    (ctx : HostContext) (hinstance : W.instantiate module = .done state)
    (hmemory : W.memory state = some memory)
    (halloc : W.allocate state = none)
    (hfunc : W.function (W.write state 0 []) function = some func) :
    prepare W C ctx module function [] = some (ctx, .ok (func 0 0)) := by
  unfold prepare
  rw [hinstance, Guest.run]
  dsimp only
  rw [hmemory]
  dsimp only
  rw [allocateInput_nil halloc]
  dsimp only
  rw [hfunc]
  rfl

/-- A run that returns nothing, in time and unmetered. -/
theorem execute_done {config : WasmConfig} {clock : CallClock} {gasLimit : UInt64}
    {func : Guest (Int32 × W.State)} (hrun : func.run C ctx = (ctx', .done (-1, state)))
    (htime : clock.elapsed ≤ config.callTimeoutSecs.toNat * 1000000000)
    (hmeter : config.fuelMetering = false) :
    execute W C config clock gasLimit ctx func
      = some (ctx', .ok ⟨[], 0, ctx'.logs, ctx'.stateChanges, true, none⟩) := by
  have hgas : gasUsed config gasLimit (W.fuel state) = some 0 := by
    rw [gasUsed, hmeter]
    rfl
  have hreturn : readReturnData ((W.memory state).getD []) (-1) = .ok [] := if_pos (by decide)
  unfold execute
  rw [hrun]
  dsimp only
  rw [if_neg (Nat.not_lt.mpr htime), hgas, hreturn]
  rfl

theorem callInternal_of_prepare (config : WasmConfig) (clock : CallClock)
    {storage : ContractStorage} {contractAddress caller : Address} {args : List UInt8}
    {gasLimit value : UInt64} {func : Guest (Int32 × W.State)}
    (hprepare : prepare W C (.new clock.now contractAddress caller value gasLimit storage) module
      function args = some (ctx, .ok func)) :
    callInternal W C config storage clock module contractAddress caller function args gasLimit value
      = execute W C config clock gasLimit ctx func := by
  unfold callInternal
  dsimp only
  rw [hprepare]

theorem call_of_callInternal {rt rt' : WasmRuntime W} {clock : CallClock}
    {contractAddress caller : Address} {args : List UInt8} {gasLimit value : UInt64}
    {result : Except ExecutionError ExecutionResult}
    (hmodule : getModule C rt contractAddress = (rt', .ok module))
    (hcall : callInternal W C rt'.config rt'.storage clock module contractAddress caller function
      args gasLimit value = some (ctx, result)) :
    call C rt clock contractAddress caller function args gasLimit value
        = some ({ rt' with storage := ctx.storage }, result) ∧
      writesDuring C rt clock contractAddress caller function args gasLimit value = ctx.writes := by
  unfold call writesDuring
  rw [hmodule]
  dsimp only
  rw [hcall]
  exact ⟨rfl, rfl⟩

end Run

/-- The instance of the setter. -/
def setterState : smallWasm.State := (true, setterMemory)

/-- The run of `set`. -/
def setterGuest : Guest (Int32 × smallWasm.State) :=
  .host (.storageWrite [1] [2]) fun _ => .done (-1, smallWasm.write setterState 0 [])

/-- The module is compiled and cached. -/
theorem getModule_setter : ∃ rt,
    getModule smallCrypto setterRuntime setterAddress = (rt, .ok true) ∧
      rt.config = setterRuntime.config := ⟨_, rfl, rfl⟩

theorem prepare_setter (ctx : HostContext) :
    prepare smallWasm smallCrypto ctx true "set" [] = some (ctx, .ok setterGuest) := by
  have hfunc : smallWasm.function (smallWasm.write setterState 0 []) "set"
      = some fun _ _ => setterGuest := rfl
  exact prepare_nil ctx (show smallWasm.instantiate true = .done setterState from rfl) rfl rfl hfunc

theorem execute_setter (ctx : HostContext) (config : WasmConfig)
    (hconfig : config.fuelMetering = false) :
    execute smallWasm smallCrypto config ⟨10, 0⟩ 100 ctx setterGuest
      = some (ctx.storageWrite [1] [2], .ok ⟨[], 0, (ctx.storageWrite [1] [2]).logs,
          (ctx.storageWrite [1] [2]).stateChanges, true, none⟩) := by
  have hrun : setterGuest.run smallCrypto ctx
      = (ctx.storageWrite [1] [2], .done (-1, smallWasm.write setterState 0 [])) := rfl
  exact execute_done hrun (Nat.zero_le _) hconfig

/-- `set` succeeds, and the key it wrote has no value. -/
theorem setter_not_exact :
    ¬ Exact smallCrypto setterRuntime ⟨10, 0⟩ setterAddress ⟨Vector.replicate 20 2⟩ "set" [] 100 0 := by
  intro h
  obtain ⟨rt, hmodule, hconfig⟩ := getModule_setter
  generalize hctx : HostContext.new 10 setterAddress ⟨Vector.replicate 20 2⟩ 0 100 rt.storage = ctx
  have hprepare : prepare smallWasm smallCrypto (.new 10 setterAddress ⟨Vector.replicate 20 2⟩ 0
      100 rt.storage) true "set" [] = some (ctx, .ok setterGuest) := by
    rw [hctx]
    exact prepare_setter ctx
  have hinternal := (callInternal_of_prepare rt.config ⟨10, 0⟩ hprepare).trans
    (execute_setter ctx rt.config (hconfig ▸ rfl))
  obtain ⟨hcall, hwrites⟩ := call_of_callInternal hmodule hinternal
  have hput : (ctx.storageWrite [1] [2]).writes = [.put [1] [2]] := by
    rw [← hctx]
    rfl
  have hkey := h.written _ _ hcall rfl [1]
  have hnone : setterRuntime.storage.get setterAddress [1] = none := by decide +kernel
  rw [call_storage hcall, hwrites, hput, hnone] at hkey
  cases hkey

/-- A module without a function `deploy` is refused, and stays stored. -/
theorem memory_not_traceless :
    let rt : WasmRuntime smallWasm := ⟨WasmConfig.default, ∅, ContractStorage.new⟩
    let clock : DeployClock := ⟨⟨10, 0⟩, 1700000000000000000, 10⟩
    ¬ Traceless smallCrypto rt clock ⟨Vector.replicate 20 2⟩ memoryCode [] 100 := by
  intro rt clock h
  obtain ⟨rt', hdeploy, hcode⟩ : ∃ rt', deploy smallCrypto rt clock ⟨Vector.replicate 20 2⟩
      memoryCode [] 100 = some (rt', .error (.functionNotFound "deploy")) ∧
      rt'.storage.getCode (generateContractAddress smallCrypto clock.nanos
        ⟨Vector.replicate 20 2⟩ memoryCode) = some memoryCode := ⟨_, rfl, by decide +kernel⟩
  rw [h rt' _ hdeploy] at hcode
  cases hcode

end WasmRuntime

end Pyrax.Wasm
