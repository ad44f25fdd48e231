import Pyrax.Base.Records
import Pyrax.Base.Run
import Pyrax.Evm.Types

/-!
# The state database

`pyrax-node/src/evm/state.rs`: the committed accounts, the changes since the last
commit and the addresses deleted since. A reader sees the pending account if there is
one and the committed account otherwise (`getAccount`); a commit folds the changes
in, drops the accounts that look empty and the deleted ones, and hashes what is left
into the state root.

Every write is a `setAccount` of the account as it is read with some fields changed,
so one lemma (`getAccount_modifyAccount`) tells what a reader sees after any of them.
The maps are hash maps and hold an address once, so the order they are walked in does
not matter.

Left out: the block number, which nothing reads back, and the locks around the maps.
-/

namespace Pyrax.Evm

open Base Word

structure StorageSlot where
  originalValue : U256
  currentValue : U256
  deriving DecidableEq

structure AccountState where
  nonce : UInt64
  balance : U256
  codeHash : B256
  code : List UInt8
  storage : Column B256 StorageSlot
  deriving DecidableEq

def EMPTY_CODE_HASH : B256 :=
  #v[0xc5, 0xd2, 0x46, 0x01, 0x86, 0xf7, 0x23, 0x3c,
    0x92, 0x7e, 0x7d, 0xb2, 0xdc, 0xc7, 0x03, 0xc0,
    0xe5, 0x00, 0xb6, 0x53, 0xca, 0x82, 0x27, 0x3b,
    0x7b, 0xfa, 0xd8, 0x04, 0x5d, 0x85, 0xa4, 0x70]

def hashCode (C : Crypto) (code : List UInt8) : B256 :=
  if code.isEmpty then EMPTY_CODE_HASH else (C.blake3 code).bytes

namespace AccountState

/-- `AccountState::default`. -/
def empty : AccountState := ⟨0, U256.ZERO, EMPTY_CODE_HASH, [], ∅⟩

def isEmpty (account : AccountState) : Bool :=
  account.nonce = 0 && account.balance.isZero && account.code.isEmpty

def getStorage (account : AccountState) (key : B256) : U256 :=
  ((account.storage.lookup key).map (·.currentValue)).getD U256.ZERO

def setStorage (account : AccountState) (key : B256) (value : U256) : AccountState :=
  let slot := (account.storage.lookup key).getD ⟨U256.ZERO, U256.ZERO⟩
  { account with storage := account.storage.insert key { slot with currentValue := value } }

end AccountState

/-- Byte arrays compare from the first byte on. -/
def byteLe {n : Nat} (a b : Vector UInt8 n) : Prop := a.toList ≤ b.toList

section

variable {n : Nat}

instance : DecidableRel (byteLe (n := n)) := fun a b => inferInstanceAs (Decidable (a.toList ≤ b.toList))

instance : IsTrans (Vector UInt8 n) byteLe := ⟨fun _ _ _ => List.le_trans⟩

instance : Std.Antisymm (byteLe (n := n)) :=
  ⟨fun _ _ h h' => Vector.toList_inj.mp (List.le_antisymm h h')⟩

instance : Std.Total (byteLe (n := n)) := ⟨fun _ _ => List.le_total _ _⟩

end

/-- `sort_by_key` on the entries of a map. -/
def sortedEntries {n : Nat} {V : Type} (m : Column (Vector UInt8 n) V) :
    List (Vector UInt8 n × V) :=
  (Column.KeyOrder.sorted byteLe).entries m

structure StateDB where
  accounts : Column Address AccountState
  stateRoot : B256
  pendingChanges : Column Address AccountState
  deletedAccounts : List Address
  deriving DecidableEq

structure StateSnapshot where
  pendingChanges : Column Address AccountState
  deletedAccounts : List Address
  deriving DecidableEq

namespace StateDB

def new : StateDB := ⟨∅, Vector.replicate 32 0, ∅, []⟩

def getAccount (s : StateDB) (address : Address) : AccountState :=
  match s.pendingChanges.lookup address with
  | some account => account
  | none => (s.accounts.lookup address).getD .empty

def getBalance (s : StateDB) (address : Address) : U256 := (s.getAccount address).balance

def getNonce (s : StateDB) (address : Address) : UInt64 := (s.getAccount address).nonce

def getCode (s : StateDB) (address : Address) : List UInt8 := (s.getAccount address).code

def getCodeHash (s : StateDB) (address : Address) : B256 := (s.getAccount address).codeHash

def getStorage (s : StateDB) (address : Address) (key : B256) : U256 :=
  (s.getAccount address).getStorage key

def setAccount (s : StateDB) (address : Address) (account : AccountState) : StateDB :=
  { s with pendingChanges := s.pendingChanges.insert address account }

/-- Read an account, change it, set it: what the writers below have in common. -/
def modifyAccount (s : StateDB) (address : Address) (f : AccountState → AccountState) : StateDB :=
  s.setAccount address (f (s.getAccount address))

def addBalance (s : StateDB) (address : Address) (amount : U256) : StateDB :=
  s.modifyAccount address fun account =>
    { account with balance := account.balance.saturatingAdd amount }

/-- `sub_balance`, with its answer. -/
def subBalance (s : StateDB) (address : Address) (amount : U256) : StateDB × Bool :=
  match (s.getAccount address).balance.checkedSub amount with
  | some newBalance => (s.modifyAccount address ({ · with balance := newBalance }), true)
  | none => (s, false)

def incrementNonce (s : StateDB) (address : Address) : StateDB :=
  s.modifyAccount address fun account => { account with nonce := saturatingAdd account.nonce 1 }

def setCode (C : Crypto) (s : StateDB) (address : Address) (code : List UInt8) : StateDB :=
  s.modifyAccount address ({ · with codeHash := hashCode C code, code := code })

def setStorage (s : StateDB) (address : Address) (key : B256) (value : U256) : StateDB :=
  s.modifyAccount address (·.setStorage key value)

def deleteAccount (s : StateDB) (address : Address) : StateDB :=
  { s with
    deletedAccounts := s.deletedAccounts ++ [address]
    pendingChanges := s.pendingChanges.erase address }

/-- What `compute_state_root` hashes for one account. -/
def accountBytes (address : Address) (account : AccountState) : List UInt8 :=
  address.toList ++ Word.toBeBytes account.nonce ++ account.balance.toBeBytes.toList ++
    account.codeHash.toList ++
    (sortedEntries account.storage).flatMap fun entry =>
      entry.1.toList ++ entry.2.currentValue.toBeBytes.toList

def rootBytes (accounts : Column Address AccountState) : List UInt8 :=
  (sortedEntries accounts).flatMap fun entry => accountBytes entry.1 entry.2

def computeStateRoot (C : Crypto) (s : StateDB) : StateDB :=
  { s with stateRoot := (C.blake3 (rootBytes s.accounts)).bytes }

/-- The accounts with the pending changes applied: each address comes once, so the
loop can take them in any order. -/
def applyPending (s : StateDB) : Column Address AccountState :=
  (s.pendingChanges ∪ s.accounts).filter fun address account =>
    address ∉ s.pendingChanges || !account.isEmpty

def commit (C : Crypto) (s : StateDB) : StateDB :=
  computeStateRoot C
    { s with
      accounts := s.applyPending.write (s.deletedAccounts.map .delete)
      pendingChanges := ∅
      deletedAccounts := [] }

def revert (s : StateDB) : StateDB := { s with pendingChanges := ∅, deletedAccounts := [] }

def snapshot (s : StateDB) : StateSnapshot := ⟨s.pendingChanges, s.deletedAccounts⟩

def restore (s : StateDB) (snapshot : StateSnapshot) : StateDB :=
  { s with
    pendingChanges := snapshot.pendingChanges
    deletedAccounts := snapshot.deletedAccounts }

/-! ## What readers see -/

variable {s : StateDB} {a b : Address}

theorem getAccount_setAccount (s : StateDB) (a b : Address) (account : AccountState) :
    (s.setAccount a account).getAccount b = if b = a then account else s.getAccount b := by
  by_cases h : b = a
  · rw [if_pos h, h, getAccount, setAccount]
    simp only [Finmap.lookup_insert]
  · rw [if_neg h, getAccount, setAccount, getAccount]
    simp only [Finmap.lookup_insert_of_ne _ h]

theorem getAccount_modifyAccount (s : StateDB) (a b : Address) (f : AccountState → AccountState) :
    (s.modifyAccount a f).getAccount b = if b = a then f (s.getAccount b) else s.getAccount b := by
  rw [modifyAccount, getAccount_setAccount]
  split
  · next h => rw [h]
  · rfl

@[simp] theorem accounts_modifyAccount (s : StateDB) (a : Address)
    (f : AccountState → AccountState) : (s.modifyAccount a f).accounts = s.accounts := rfl

@[simp] theorem deletedAccounts_modifyAccount (s : StateDB) (a : Address)
    (f : AccountState → AccountState) :
    (s.modifyAccount a f).deletedAccounts = s.deletedAccounts := rfl

/-- Readers see other balances at most. -/
def SameButBalances (s s' : StateDB) : Prop :=
  ∀ a, ∃ balance, s'.getAccount a = { s.getAccount a with balance := balance }

theorem SameButBalances.refl (s : StateDB) : SameButBalances s s := fun _ => ⟨_, rfl⟩

theorem SameButBalances.trans {s' s'' : StateDB} (h : SameButBalances s s')
    (h' : SameButBalances s' s'') : SameButBalances s s'' := by
  intro a
  obtain ⟨balance, hbalance⟩ := h a
  obtain ⟨balance', hbalance'⟩ := h' a
  exact ⟨balance', by rw [hbalance', hbalance]⟩

theorem sameButBalances_addBalance (s : StateDB) (a : Address) (amount : U256) :
    SameButBalances s (s.addBalance a amount) := by
  intro b
  rw [addBalance, getAccount_modifyAccount]
  split
  · exact ⟨_, rfl⟩
  · exact ⟨_, rfl⟩

theorem sameButBalances_subBalance (s : StateDB) (a : Address) (amount : U256) :
    SameButBalances s (s.subBalance a amount).1 := by
  intro b
  unfold subBalance
  split
  · rw [getAccount_modifyAccount]
    split
    · exact ⟨_, rfl⟩
    · exact ⟨_, rfl⟩
  · exact ⟨_, rfl⟩

section

variable {s' : StateDB}

theorem SameButBalances.getCode (h : SameButBalances s s') (a : Address) :
    s'.getCode a = s.getCode a := by
  obtain ⟨balance, hbalance⟩ := h a
  rw [StateDB.getCode, hbalance]
  rfl

theorem SameButBalances.getCodeHash (h : SameButBalances s s') (a : Address) :
    s'.getCodeHash a = s.getCodeHash a := by
  obtain ⟨balance, hbalance⟩ := h a
  rw [StateDB.getCodeHash, hbalance]
  rfl

theorem SameButBalances.getNonce (h : SameButBalances s s') (a : Address) :
    s'.getNonce a = s.getNonce a := by
  obtain ⟨balance, hbalance⟩ := h a
  rw [StateDB.getNonce, hbalance]
  rfl

theorem SameButBalances.getStorage (h : SameButBalances s s') (a : Address) (key : B256) :
    s'.getStorage a key = s.getStorage a key := by
  obtain ⟨balance, hbalance⟩ := h a
  rw [StateDB.getStorage, hbalance]
  rfl

end

theorem getNonce_incrementNonce (s : StateDB) (a b : Address) :
    (s.incrementNonce a).getNonce b
      = if b = a then saturatingAdd (s.getNonce b) 1 else s.getNonce b := by
  rw [getNonce, incrementNonce, getAccount_modifyAccount]
  split
  · rfl
  · rfl

/-! ## Commit -/

theorem lookup_applyPending (s : StateDB) (a : Address) :
    s.applyPending.lookup a = match s.pendingChanges.lookup a with
      | some account => if account.isEmpty then none else some account
      | none => s.accounts.lookup a := by
  rw [applyPending, Column.lookup_filter]
  cases hpending : s.pendingChanges.lookup a with
  | none =>
    have hnot : a ∉ s.pendingChanges := Finmap.lookup_eq_none.mp hpending
    rw [Finmap.lookup_union_right hnot]
    cases s.accounts.lookup a <;> simp [hnot]
  | some account =>
    have hmem : a ∈ s.pendingChanges := Finmap.mem_of_lookup_eq_some hpending
    rw [Finmap.lookup_union_left hmem, hpending]
    cases hempty : account.isEmpty <;> simp [hmem, hempty]

theorem lookup_applyPending_of_none {s : StateDB} {a : Address}
    (h : s.pendingChanges.lookup a = none) : s.applyPending.lookup a = s.accounts.lookup a := by
  rw [lookup_applyPending, h]

theorem lookup_applyPending_of_some {s : StateDB} {a : Address} {account : AccountState}
    (h : s.pendingChanges.lookup a = some account) :
    s.applyPending.lookup a = if account.isEmpty then none else some account := by
  rw [lookup_applyPending, h]

theorem lookup_commit (C : Crypto) (s : StateDB) (a : Address) :
    (s.commit C).accounts.lookup a
      = if a ∈ s.deletedAccounts then none else s.applyPending.lookup a := by
  show (s.applyPending.write (s.deletedAccounts.map .delete)).lookup a = _
  split
  · next h =>
    refine Column.lookup_write_of_deleted ⟨.delete a, List.mem_map_of_mem h, rfl⟩ ?_
    intro op hop _
    obtain ⟨_, _, rfl⟩ := List.mem_map.mp hop
    rfl
  · next h =>
    refine Column.lookup_write_of_notMem fun op hop heq => h ?_
    obtain ⟨a', ha', rfl⟩ := List.mem_map.mp hop
    exact heq ▸ ha'

/-- What is read of an address after a commit. -/
theorem getAccount_commit (C : Crypto) (s : StateDB) (a : Address) :
    (s.commit C).getAccount a
      = if a ∈ s.deletedAccounts then .empty else (s.applyPending.lookup a).getD .empty := by
  have hget : (s.commit C).getAccount a = ((s.commit C).accounts.lookup a).getD .empty := rfl
  rw [hget, lookup_commit]
  split
  · rfl
  · rfl

end StateDB

end Pyrax.Evm
