import Pyrax.Base.Records
import Pyrax.Types.Primitives

/-!
# Contract storage and the host context

`pyrax-node/src/wasm/storage.rs` and the storage side of `host.rs`. A `ContractStorage`
has four tables: the code and the metadata of an address, the state of a contract by key,
and the addresses that share a code hash. A `HostContext` is made for one call. It keeps
the writes of the call in a list, later ones after earlier ones, and reads through it;
`commit` would bring them to the storage, an empty value standing for a deletion.

Gas, the call depth and `storage_delete` are left out of the context: no host function
reaches them.
-/

namespace Pyrax.Wasm

open Base

abbrev StorageKey := List UInt8

abbrev StorageValue := List UInt8

structure ContractCodeRecord where
  code : List UInt8
  codeHash : H256
  deployedAt : UInt64
  deployer : Address
  deriving DecidableEq

structure ContractMetadata where
  address : Address
  codeHash : H256
  version : UInt32
  creator : Address
  creationBlock : UInt64
  lastUpdateBlock : UInt64
  isActive : Bool
  deriving DecidableEq

structure ContractStorage where
  code : Column Address ContractCodeRecord
  state : Column Address (Column StorageKey StorageValue)
  metadata : Column Address ContractMetadata
  codeAddresses : Column H256 (List Address)
  deriving DecidableEq

namespace ContractStorage

def new : ContractStorage := ⟨∅, ∅, ∅, ∅⟩

def storeCode (s : ContractStorage) (now : UInt64) (address : Address) (code : List UInt8)
    (codeHash : H256) : ContractStorage :=
  { s with
    code := s.code.insert address ⟨code, codeHash, now, Address.ZERO⟩
    codeAddresses := s.codeAddresses.insert codeHash
      ((s.codeAddresses.lookup codeHash).getD [] ++ [address]) }

def getCode (s : ContractStorage) (address : Address) : Option (List UInt8) :=
  (s.code.lookup address).map (·.code)

def getCodeHash (s : ContractStorage) (address : Address) : Option H256 :=
  (s.code.lookup address).map (·.codeHash)

/-- `addresses.retain(|a| a != address)` under one hash, if it has an entry. -/
def unlist (index : Column H256 (List Address)) (codeHash : H256) (address : Address) :
    Column H256 (List Address) :=
  match index.lookup codeHash with
  | some addresses => index.insert codeHash (addresses.filter (· ≠ address))
  | none => index

def removeCode (s : ContractStorage) (address : Address) : ContractStorage :=
  { code := s.code.erase address
    state := s.state.erase address
    metadata := s.metadata.erase address
    codeAddresses := match s.code.lookup address with
      | some record => unlist s.codeAddresses record.codeHash address
      | none => s.codeAddresses }

def get (s : ContractStorage) (address : Address) (key : StorageKey) : Option StorageValue :=
  (s.state.lookup address).bind (·.lookup key)

def set (s : ContractStorage) (address : Address) (key : StorageKey) (value : StorageValue) :
    ContractStorage :=
  { s with state := s.state.insert address (((s.state.lookup address).getD ∅).insert key value) }

def delete (s : ContractStorage) (address : Address) (key : StorageKey) : ContractStorage :=
  match s.state.lookup address with
  | some contractState => { s with state := s.state.insert address (contractState.erase key) }
  | none => s

end ContractStorage

structure ContractLog where
  address : Address
  topics : List (Vector UInt8 32)
  data : List UInt8
  deriving DecidableEq

structure StateChange where
  address : Address
  key : Vector UInt8 32
  oldValue : Option StorageValue
  newValue : Option StorageValue
  deriving DecidableEq

structure HostContext where
  contractAddress : Address
  caller : Address
  value : UInt64
  gasLimit : UInt64
  blockHeight : UInt64
  blockTimestamp : UInt64
  storage : ContractStorage
  pendingWrites : List (StorageKey × StorageValue)
  logs : List ContractLog
  stateChanges : List StateChange
  readOnly : Bool
  deriving DecidableEq

namespace HostContext

def new (now : UInt64) (contractAddress caller : Address) (value gasLimit : UInt64)
    (storage : ContractStorage) : HostContext :=
  ⟨contractAddress, caller, value, gasLimit, 0, now, storage, [], [], [], false⟩

def storageRead (ctx : HostContext) (key : StorageKey) : Option StorageValue :=
  match ctx.pendingWrites.reverse.find? (·.1 = key) with
  | some write => some write.2
  | none => ctx.storage.get ctx.contractAddress key

def storageWrite (ctx : HostContext) (key : StorageKey) (value : StorageValue) : HostContext :=
  if ctx.readOnly then ctx
  else { ctx with
    stateChanges := ctx.stateChanges ++
      [⟨ctx.contractAddress, arrayFromSlice 32 key, ctx.storageRead key, some value⟩]
    pendingWrites := ctx.pendingWrites ++ [(key, value)] }

def emitLog (ctx : HostContext) (topics : List (Vector UInt8 32)) (data : List UInt8) :
    HostContext :=
  if ctx.readOnly then ctx
  else { ctx with logs := ctx.logs ++ [⟨ctx.contractAddress, topics, data⟩] }

/-- The loop of `commit`. -/
def commitWrite (address : Address) (s : ContractStorage) (write : StorageKey × StorageValue) :
    ContractStorage :=
  if write.2 = [] then s.delete address write.1 else s.set address write.1 write.2

def commit (ctx : HostContext) : ContractStorage :=
  ctx.pendingWrites.foldl (commitWrite ctx.contractAddress) ctx.storage

/-- The writes as the operations that `commit` makes of them. -/
def writes (ctx : HostContext) : List (WriteOp StorageKey StorageValue) :=
  ctx.pendingWrites.map fun write =>
    if write.2 = [] then .delete write.1 else .put write.1 write.2

/-- What a key of the contract should hold after the call: the last value written to it, or
its old value. -/
def expected (ctx : HostContext) (key : StorageKey) : Option StorageValue :=
  (Column.lastWrite key ctx.writes).getD (ctx.storage.get ctx.contractAddress key)

end HostContext

/-! ## What `commit` would do -/

namespace ContractStorage

variable (s : ContractStorage) (address : Address) (key : StorageKey) (value : StorageValue)

theorem get_set (address' : Address) (key' : StorageKey) :
    (s.set address key value).get address' key'
      = if address' = address ∧ key' = key then some value else s.get address' key' := by
  unfold set get
  by_cases ha : address' = address
  · subst ha
    rw [Finmap.lookup_insert]
    by_cases hk : key' = key
    · subst hk
      rw [if_pos ⟨rfl, rfl⟩]
      exact Finmap.lookup_insert _
    · rw [if_neg fun h => hk h.2]
      refine (Finmap.lookup_insert_of_ne _ hk).trans ?_
      cases s.state.lookup address' <;> rfl
  · rw [Finmap.lookup_insert_of_ne _ ha, if_neg fun h => ha h.1]

theorem get_delete (address' : Address) (key' : StorageKey) :
    (s.delete address key).get address' key'
      = if address' = address ∧ key' = key then none else s.get address' key' := by
  unfold delete get
  cases hstate : s.state.lookup address with
  | none =>
    by_cases h : address' = address ∧ key' = key
    · rw [if_pos h, h.1]
      show (s.state.lookup address).bind _ = none
      rw [hstate]
      rfl
    · rw [if_neg h]
  | some contractState =>
    show (Finmap.lookup address' (s.state.insert address (contractState.erase key))).bind _ = _
    by_cases ha : address' = address
    · subst ha
      rw [Finmap.lookup_insert, hstate]
      by_cases hk : key' = key
      · subst hk
        rw [if_pos ⟨rfl, rfl⟩]
        exact Finmap.lookup_erase _ _
      · rw [if_neg fun h => hk h.2]
        exact Finmap.lookup_erase_ne hk
    · rw [Finmap.lookup_insert_of_ne _ ha, if_neg fun h => ha h.1]

end ContractStorage

namespace HostContext

/-- `commit` brings every key of the contract to its last write, and touches no other
contract. -/
theorem get_commit (ctx : HostContext) (address : Address) (key : StorageKey) :
    ctx.commit.get address key = if address = ctx.contractAddress then ctx.expected key
      else ctx.storage.get address key := by
  have hloop : ∀ (pending : List (StorageKey × StorageValue)) (s : ContractStorage),
      (pending.foldl (commitWrite ctx.contractAddress) s).get address key
        = if address = ctx.contractAddress then
            (Column.lastWrite key (pending.map fun write =>
              if write.2 = [] then .delete write.1 else .put write.1 write.2)).getD
                (s.get address key)
          else s.get address key := by
    intro pending
    induction pending with
    | nil =>
      intro s
      split <;> rfl
    | cons write pending ih =>
      intro s
      rw [List.foldl_cons, ih, List.map_cons, Column.lastWrite]
      have hone : (commitWrite ctx.contractAddress s write).get address key
          = if address = ctx.contractAddress ∧ key = write.1 then
              (if write.2 = [] then none else some write.2) else s.get address key := by
        unfold commitWrite
        split
        · next hempty => rw [ContractStorage.get_delete]
        · next hvalue => rw [ContractStorage.get_set]
      rw [hone]
      by_cases ha : address = ctx.contractAddress
      · rw [if_pos ha, if_pos ha]
        cases hlast : Column.lastWrite key (pending.map fun write =>
          if write.2 = [] then WriteOp.delete write.1 else .put write.1 write.2) with
        | some r => rfl
        | none =>
          by_cases hk : key = write.1
          · rw [if_pos ⟨ha, hk⟩, hk]
            by_cases hempty : write.2 = []
            · simp [hempty, WriteOp.key, WriteOp.value]
            · simp [hempty, WriteOp.key, WriteOp.value]
          · rw [if_neg fun h => hk h.2]
            by_cases hempty : write.2 = []
            · simp [hempty, WriteOp.key, Ne.symm hk]
            · simp [hempty, WriteOp.key, Ne.symm hk]
      · rw [if_neg ha, if_neg ha, if_neg fun h => ha h.1]
  rw [commit, hloop]
  by_cases ha : address = ctx.contractAddress
  · rw [if_pos ha, if_pos ha, ha]
    rfl
  · rw [if_neg ha, if_neg ha]

end HostContext

end Pyrax.Wasm
