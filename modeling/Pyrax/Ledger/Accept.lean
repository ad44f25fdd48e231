import Pyrax.Validation.Spec
import Pyrax.Storage.Spec
import Pyrax.Base.Run

/-!
# Accepted blocks

The step every ledger theorem is about: a block arrives, `validate_block`
passes on the database as it stands and `commit_block` stores it. Validation
implies the checks of the commit (`accepts_iff`), so an accepted step is a valid
block followed by its write batch.

The invariant that carries the accounting is small: the null reference
`OutPoint.coinbase` is never a key of the UTXO set (`NullFree`). It holds
because a block is at most a megabyte, so no output index comes near
`u32::MAX`; and it is what keeps a coinbase input out of every transaction but
the first, the validator having no rule of its own for that.
-/

namespace Pyrax.Ledger

open Base ChainDB Validation

/-- A block and the clock reading of the node that receives it. -/
structure Arrival where
  now : UInt64
  block : Block

/-- The block passes validation and is committed. -/
def Accepts (C : Crypto) (s : ChainDB) (a : Arrival) (s' : ChainDB) : Prop :=
  validateBlock C a.now a.block s = .ok () ∧ commitBlock C s a.block = .ok s'

variable {C : Crypto} {s s' : ChainDB} {a : Arrival} {now : UInt64} {b : Block}

/-- A valid block is always committed. -/
theorem accepts_iff :
    Accepts C s a s' ↔ BlockValid C a.now a.block s ∧ s' = committed C s a.block := by
  unfold Accepts
  rw [validateBlock_ok_iff, commitBlock_ok_iff]
  constructor
  · intro h
    obtain ⟨hv, _, rfl⟩ := h
    exact ⟨hv, rfl⟩
  · intro h
    obtain ⟨hv, rfl⟩ := h
    refine ⟨hv, ?_, rfl⟩
    -- what the validator asks of the link is what the commit asks
    have hlink := hv.link
    split at hlink
    · next h0 => exact Or.inl h0
    · exact Or.inr hlink

/-- Validation and commit one after the other, as the tasks of the node call them. -/
theorem validate_commit_iff :
    (validateBlock C now b s = .ok () ∧ commitBlock C s b = .ok s') ↔
      BlockValid C now b s ∧ s' = committed C s b :=
  accepts_iff (a := ⟨now, b⟩)

theorem commitBlock_of_valid (hv : BlockValid C now b s) :
    commitBlock C s b = .ok (committed C s b) :=
  (validate_commit_iff.mpr ⟨hv, rfl⟩).2

/-! ## Sizes -/

/-- No transaction of a valid block has as many outputs as a `u32` counts. -/
theorem outputs_length_lt (hv : BlockValid C now b s) {tx : Transaction}
    (htx : tx ∈ b.transactions) : tx.outputs.length < 2 ^ 32 - 1 := by
  have h1 := tx.outputs_le
  have h2 := Block.serialize_length_of_mem htx
  have h3 : b.serialize.length ≤ 1000000 := hv.size
  omega

/-- Below `2 ^ 32` an output index is its `u32`. -/
theorem vout_toNat {v : Nat} (h : v < 2 ^ 32 - 1) : (UInt32.ofNat v).toNat = v :=
  UInt32.toNat_ofNat_of_lt' (Nat.lt_of_lt_of_le h (by decide))

/-- The null reference is never created. -/
theorem coinbase_notMem_created (hv : BlockValid C now b s) {tx : Transaction}
    (htx : tx ∈ b.transactions) : OutPoint.coinbase ∉ created C tx := by
  intro hmem
  obtain ⟨v, hv', ho⟩ := mem_created.mp hmem
  have hlt := outputs_length_lt hv htx
  have hvout : (0xFFFFFFFF : UInt32) = UInt32.ofNat v := congrArg OutPoint.vout ho
  have hnat := congrArg UInt32.toNat hvout
  rw [vout_toNat (by omega)] at hnat
  have : (0xFFFFFFFF : UInt32).toNat = 2 ^ 32 - 1 := rfl
  omega

/-! ## The null reference stays out of the UTXO set -/

/-- The null reference names no unspent output. -/
def NullFree (s : ChainDB) : Prop := s.getUtxo OutPoint.coinbase = none

theorem nullFree_openNew (C : Crypto) (network : NetworkId) : NullFree (openNew C network) := rfl

theorem nullFree_committed (hv : BlockValid C now b s) (hs : NullFree s) :
    NullFree (committed C s b) := by
  unfold NullFree getUtxo at hs ⊢
  rw [committed_utxoSet]
  refine (Column.lookup_write_of_notMem fun op hop hkey => ?_).trans hs
  obtain ⟨tx, htx, hop⟩ := List.mem_flatMap.mp hop
  rcases key_of_mem_utxoOps hop with h | h
  · exact ne_coinbase_of_mem_spentBy h hkey
  · exact coinbase_notMem_created hv htx (hkey ▸ h)

/-- Along every run of accepted blocks from a new database. -/
theorem nullFree_run {network : NetworkId} {as : List Arrival}
    (hrun : Run (Accepts C) (openNew C network) as s) : NullFree s := by
  refine hrun.invariant (fun s₁ a s₂ hnull hstep => ?_) (nullFree_openNew C network)
  obtain ⟨hv, rfl⟩ := accepts_iff.mp hstep
  exact nullFree_committed hv hnull

/-! ## The body of a valid block -/

/-- A valid block is empty, at height `0`, or a coinbase and a valid rest. -/
theorem body_cases (hv : BlockValid C now b s) :
    b.transactions = [] ∨ ∃ coinbase rest, b.transactions = coinbase :: rest ∧
      BodyValid C s b.height coinbase rest := by
  cases htx : b.transactions with
  | nil => exact Or.inl rfl
  | cons coinbase rest =>
    exact Or.inr ⟨coinbase, rest, rfl, (validateTransactions_cons_ok_iff htx).mp hv.body⟩

/-- Where the null reference is not unspent, no valid transaction spends it. -/
theorem coinbase_notMem_spends (hs : NullFree s) {height : UInt64} {tx : Transaction}
    (hv : TxValid C s height tx) : OutPoint.coinbase ∉ tx.spends := by
  intro hmem
  obtain ⟨i, hi, hp⟩ := List.mem_map.mp hmem
  obtain ⟨utxo, hutxo, _⟩ := hv.input i hi
  rw [hp, hs] at hutxo
  cases hutxo

/-- So what it spends is what its commit deletes. -/
theorem spentBy_of_valid (hs : NullFree s) {height : UInt64} {tx : Transaction}
    (hv : TxValid C s height tx) : spentBy tx = tx.spends :=
  spentBy_eq_spends (coinbase_notMem_spends hs hv)

end Pyrax.Ledger
