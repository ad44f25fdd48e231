import Pyrax.Rollup.SparseTree

/-!
# The L2 state

The second half of `pyrax-node/src/zkrollup/state.rs`: the account map with the
tree that commits to it, and the operations the bridge and the sequencer move
balances with. An absent account is the default one.

Balances are machine words and a credit wraps. `totalBalance` is the exact sum
over all accounts, and each operation has one lemma that says what it does to
that sum and to every account. `transfer` is the one to watch: it reads both
accounts before it writes either, so a transfer to oneself writes the credited
copy over the debited one.
-/

namespace Pyrax.Rollup

open Base

structure L2Account where
  nonce : UInt64
  balance : UInt64
  storageRoot : H256
  codeHash : H256
  deriving DecidableEq

namespace L2Account

/-- `Default`. -/
def empty : L2Account := ⟨0, 0, H256.zero, H256.zero⟩

def hash (C : Crypto) (a : L2Account) : H256 :=
  C.blake3 (Wire.encU64 a.nonce ++ Wire.encU64 a.balance ++ a.storageRoot.asBytes ++
    a.codeHash.asBytes)

end L2Account

inductive StateError where
  | insufficientBalance (available required : UInt64)
  deriving DecidableEq

/-- The account map, the tree over it and the block number. -/
structure L2State where
  accounts : SparseMerkleTree
  accountData : Column Address L2Account
  blockNumber : UInt64

namespace L2State

variable (C : Crypto) (P : Platform)

def new : L2State := ⟨SparseMerkleTree.new C 160, ∅, 0⟩

def stateRoot (s : L2State) : H256 := s.accounts.root

def getAccount (s : L2State) (address : Address) : L2Account :=
  (s.accountData.lookup address).getD L2Account.empty

/-- `address_to_key`: twelve zero bytes and the address. -/
def addressToKey (address : Address) : H256 :=
  H256.fromSlice (List.replicate 12 0 ++ address.asBytes)

def updateAccount (s : L2State) (address : Address) (account : L2Account) : L2State :=
  { s with
    accountData := s.accountData.insert address account
    accounts := s.accounts.update C P (addressToKey address) (account.hash C) }

def getBalance (s : L2State) (address : Address) : UInt64 := (s.getAccount address).balance

def getNonce (s : L2State) (address : Address) : UInt64 := (s.getAccount address).nonce

/-- `transfer`: both accounts are read first, then written one after the other. -/
def transfer (s : L2State) (sender recipient : Address) (amount : UInt64) :
    Except StateError L2State :=
  let fromAccount := s.getAccount sender
  let toAccount := s.getAccount recipient
  if fromAccount.balance < amount then
    .error (.insufficientBalance fromAccount.balance amount)
  else
    let fromAccount :=
      { fromAccount with balance := fromAccount.balance - amount, nonce := fromAccount.nonce + 1 }
    let toAccount := { toAccount with balance := toAccount.balance + amount }
    .ok (updateAccount C P (updateAccount C P s sender fromAccount) recipient toAccount)

def credit (s : L2State) (address : Address) (amount : UInt64) : L2State :=
  let account := s.getAccount address
  updateAccount C P s address { account with balance := account.balance + amount }

def debit (s : L2State) (address : Address) (amount : UInt64) : Except StateError L2State :=
  let account := s.getAccount address
  if account.balance < amount then .error (.insufficientBalance account.balance amount)
  else .ok (updateAccount C P s address { account with balance := account.balance - amount })

def incrementNonce (s : L2State) (address : Address) : L2State :=
  let account := s.getAccount address
  updateAccount C P s address { account with nonce := account.nonce + 1 }

end L2State

/-! ## Accounts after an operation -/

/-- The exact sum of all balances. -/
def totalBalance (s : L2State) : Nat := Column.total (fun a => a.balance.toNat) s.accountData

section Accounts

variable {C : Crypto} {P : Platform} {s s' : L2State} {a x y : Address} {amount : UInt64}

theorem getAccount_updateAccount (acc : L2Account) (x : Address) :
    (s.updateAccount C P a acc).getAccount x = if x = a then acc else s.getAccount x := by
  rw [L2State.getAccount, L2State.updateAccount]
  by_cases h : x = a
  · rw [if_pos h, h, Finmap.lookup_insert]
    rfl
  · rw [if_neg h, Finmap.lookup_insert_of_ne _ h]
    rfl

theorem valueAt_eq_balance (s : L2State) (x : Address) :
    Column.valueAt (fun a : L2Account => a.balance.toNat) s.accountData x
      = (s.getAccount x).balance.toNat := by
  rw [Column.valueAt, L2State.getAccount]
  cases s.accountData.lookup x with
  | none => rfl
  | some acc => rfl

/-- Writing an account replaces its balance in the sum. -/
theorem totalBalance_updateAccount (s : L2State) (a : Address) (acc : L2Account) :
    totalBalance (s.updateAccount C P a acc) + (s.getAccount a).balance.toNat
      = totalBalance s + acc.balance.toNat := by
  rw [← valueAt_eq_balance]
  exact Column.total_insert _ s.accountData a acc

theorem balance_le_totalBalance (s : L2State) (a : Address) :
    (s.getAccount a).balance.toNat ≤ totalBalance s := by
  rw [← valueAt_eq_balance]
  have herase := Column.total_erase (fun a : L2Account => a.balance.toNat) s.accountData a
  have htotal : totalBalance s = Column.total (fun a => a.balance.toNat) s.accountData := rfl
  omega

/-! ### Credit and debit -/

/-- A credit that fits adds its amount. -/
theorem totalBalance_credit (h : totalBalance s + amount.toNat < 2 ^ 64) :
    totalBalance (s.credit C P a amount) = totalBalance s + amount.toNat := by
  have hle := balance_le_totalBalance s a
  have hupd := totalBalance_updateAccount (C := C) (P := P) s a
    { s.getAccount a with balance := (s.getAccount a).balance + amount }
  rw [UInt64.toNat_add, Nat.mod_eq_of_lt (by omega)] at hupd
  have hcredit : s.credit C P a amount = s.updateAccount C P a
      { s.getAccount a with balance := (s.getAccount a).balance + amount } := rfl
  rw [hcredit]
  omega

theorem debit_ok_iff :
    s.debit C P a amount = .ok s' ↔
      amount ≤ (s.getAccount a).balance ∧
        s' = s.updateAccount C P a
          { s.getAccount a with balance := (s.getAccount a).balance - amount } := by
  rw [L2State.debit]
  split
  · next h => simp [UInt64.not_le.mpr h]
  · next h => simp [UInt64.not_lt.mp h, eq_comm]

theorem totalBalance_debit (h : s.debit C P a amount = .ok s') :
    totalBalance s' + amount.toNat = totalBalance s := by
  obtain ⟨hle, rfl⟩ := debit_ok_iff.mp h
  have hnat := UInt64.le_iff_toNat_le.mp hle
  have hupd := totalBalance_updateAccount (C := C) (P := P) s a
    { s.getAccount a with balance := (s.getAccount a).balance - amount }
  rw [UInt64.toNat_sub_of_le _ _ hle] at hupd
  omega

/-! ### Transfer -/

theorem transfer_ok_iff :
    s.transfer C P x y amount = .ok s' ↔
      amount ≤ (s.getAccount x).balance ∧
        s' = (s.updateAccount C P x { s.getAccount x with
            balance := (s.getAccount x).balance - amount
            nonce := (s.getAccount x).nonce + 1 }).updateAccount C P y
          { s.getAccount y with balance := (s.getAccount y).balance + amount } := by
  rw [L2State.transfer]
  split
  · next h => simp [UInt64.not_le.mpr h]
  · next h => simp [UInt64.not_lt.mp h, eq_comm]

/-- Between two accounts a transfer never adds to the sum; a wrapping credit
takes away from it. -/
theorem totalBalance_transfer_le (hne : x ≠ y) (h : s.transfer C P x y amount = .ok s') :
    totalBalance s' ≤ totalBalance s := by
  obtain ⟨hle, rfl⟩ := transfer_ok_iff.mp h
  have hnat := UInt64.le_iff_toNat_le.mp hle
  have h₁ := totalBalance_updateAccount (C := C) (P := P) s x { s.getAccount x with
    balance := (s.getAccount x).balance - amount, nonce := (s.getAccount x).nonce + 1 }
  have h₂ := totalBalance_updateAccount (C := C) (P := P)
    (s.updateAccount C P x { s.getAccount x with
      balance := (s.getAccount x).balance - amount, nonce := (s.getAccount x).nonce + 1 }) y
    { s.getAccount y with balance := (s.getAccount y).balance + amount }
  rw [getAccount_updateAccount, if_neg hne.symm, UInt64.toNat_add] at h₂
  rw [UInt64.toNat_sub_of_le _ _ hle] at h₁
  have hmod := Nat.mod_le ((s.getAccount y).balance.toNat + amount.toNat) (2 ^ 64)
  omega

/-- To oneself it is a credit: the debited copy is overwritten. -/
theorem transfer_self (h : s.transfer C P x x amount = .ok s') (z : Address) :
    s'.getAccount z = if z = x then
      { s.getAccount x with balance := (s.getAccount x).balance + amount }
      else s.getAccount z := by
  obtain ⟨_, rfl⟩ := transfer_ok_iff.mp h
  rw [getAccount_updateAccount, getAccount_updateAccount]
  by_cases hz : z = x
  · rw [if_pos hz, if_pos hz]
  · rw [if_neg hz, if_neg hz, if_neg hz]

end Accounts

/-! ### Two accounts -/

/-- `Address([1u8; 20])` of the source's tests. -/
def alice : Address := ⟨Vector.replicate 20 1⟩

/-- `Address([2u8; 20])`. -/
def bob : Address := ⟨Vector.replicate 20 2⟩

end Pyrax.Rollup
