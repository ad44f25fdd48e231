import Pyrax.Storage.ChainDB

/-!
# What the chain database's operations do

One specification per operation of `Storage.ChainDB`: when `commit_block`
succeeds and what it leaves in each column, what a new database holds, and what
one transaction's batch deletes and puts. The theorems about whole runs use
these and never unfold the batches.

The module ends with a block on which concrete runs are built: one of
difficulty `1` on top of any state, and the devnet's first block of that kind
with the digests BLAKE3 gives its transactions and headers.
-/

namespace Pyrax.ChainDB

open Base

variable {C : Crypto}

/-! ## A new database -/

section Open

variable (C) (network : NetworkId)

@[simp] theorem openNew_utxoSet : (openNew C network).db.utxoSet = ∅ := rfl

theorem openNew_blocksByHash :
    (openNew C network).db.blocksByHash
      = Finmap.insert ((Genesis.genesisBlock C network).hash C)
          (Genesis.genesisBlock C network) ∅ := rfl

theorem openNew_blockHeightToHash :
    (openNew C network).db.blockHeightToHash
      = Finmap.insert 0 ((Genesis.genesisBlock C network).hash C) ∅ := rfl

end Open

/-! ## `commit_block` -/

/-- A commit goes through iff the block has height `0` or extends the tip. -/
theorem commitBlock_ok_iff {s s' : ChainDB} {b : Block} :
    commitBlock C s b = .ok s' ↔
      (b.height = 0 ∨ b.header.parentHash = s.tip.hash ∧ b.height = s.tip.height + 1) ∧
        s' = committed C s b := by
  unfold commitBlock
  have hpos : (0 < b.height) ↔ b.height ≠ 0 := UInt64.pos_iff_ne_zero
  by_cases h0 : b.height = 0
  · simp [h0, eq_comm]
  · by_cases hp : b.header.parentHash = s.tip.hash
    · by_cases hh : b.height = s.tip.height + 1
      · simp [hp, hh, eq_comm]
      · simp [h0, hp, hh]
    · simp [h0, hp, hpos]

section Committed

variable (s : ChainDB) (b : Block)

@[simp] theorem committed_tip : (committed C s b).tip = commitTip C s b := rfl

@[simp] theorem committed_network : (committed C s b).network = s.network := rfl

theorem committed_blocksByHash :
    (committed C s b).db.blocksByHash = s.db.blocksByHash.insert (b.hash C) b := rfl

theorem committed_blockHeightToHash :
    (committed C s b).db.blockHeightToHash
      = s.db.blockHeightToHash.insert b.height (b.hash C) := rfl

theorem committed_transactionIndex :
    (committed C s b).db.transactionIndex = s.db.transactionIndex.write (indexOps C b) := rfl

theorem committed_utxoSet :
    (committed C s b).db.utxoSet
      = s.db.utxoSet.write (b.transactions.flatMap (utxoOps C b.height)) := rfl

end Committed

/-- The block just committed is the one its hash finds. -/
@[simp] theorem committed_getBlock_self (s : ChainDB) (b : Block) :
    (committed C s b).getBlock (b.hash C) = some b := by
  rw [getBlock, committed_blocksByHash, Finmap.lookup_insert]

/-- It is the block its tip names. -/
theorem committed_getBlock_tip (s : ChainDB) (b : Block) :
    (committed C s b).getBlock (committed C s b).tip.hash = some b :=
  committed_getBlock_self s b

theorem committed_getBlock_of_ne {s : ChainDB} {b : Block} {h : H256} (hne : h ≠ b.hash C) :
    (committed C s b).getBlock h = s.getBlock h := by
  rw [getBlock, committed_blocksByHash, Finmap.lookup_insert_of_ne _ hne, getBlock]

/-! ## One transaction's operations on the UTXO column -/

/-- The outpoints a transaction's commit deletes: its inputs, coinbase inputs
left out. -/
def spentBy (tx : Transaction) : List OutPoint :=
  (tx.inputs.filter fun i => !i.isCoinbase).map (·.previousOutput)

/-- The outpoints a transaction's commit creates. -/
def created (C : Crypto) (tx : Transaction) : List OutPoint :=
  (List.range tx.outputs.length).map fun vout => ⟨tx.txid C, UInt32.ofNat vout⟩

theorem deletes_utxoOps (height : UInt64) (tx : Transaction) :
    WriteOp.deletes (utxoOps C height tx) = spentBy tx := by
  have hdel : ∀ l : List TxInput,
      WriteOp.deletes (l.map fun i => (WriteOp.delete i.previousOutput : WriteOp OutPoint Utxo))
        = l.map (·.previousOutput) := by
    intro l
    induction l with
    | nil => rfl
    | cons i l ih => simp [WriteOp.deletes, ih]
  -- generalised over the numbering, which shifts along the list
  have hput : ∀ (l : List TxOutput) (f : Nat → OutPoint) (g : TxOutput → Utxo),
      WriteOp.deletes (l.mapIdx fun v o => WriteOp.put (f v) (g o)) = [] := by
    intro l
    induction l with
    | nil => intro f g; rfl
    | cons o l ih =>
      intro f g
      rw [List.mapIdx_cons, WriteOp.deletes]
      exact ih (fun v => f (v + 1)) g
  rw [utxoOps, WriteOp.deletes_append, hdel, hput, List.append_nil, spentBy]

theorem puts_utxoOps (height : UInt64) (tx : Transaction) :
    WriteOp.puts (utxoOps C height tx)
      = tx.outputs.map fun o => ⟨o, height, tx.isCoinbase⟩ := by
  have hdel : ∀ l : List TxInput,
      WriteOp.puts (l.map fun i => (WriteOp.delete i.previousOutput : WriteOp OutPoint Utxo))
        = [] := by
    intro l
    induction l with
    | nil => rfl
    | cons i l ih => simpa [WriteOp.puts] using ih
  have hput : ∀ (l : List TxOutput) (f : Nat → OutPoint) (g : TxOutput → Utxo),
      WriteOp.puts (l.mapIdx fun v o => WriteOp.put (f v) (g o)) = l.map g := by
    intro l
    induction l with
    | nil => intro f g; rfl
    | cons o l ih =>
      intro f g
      rw [List.mapIdx_cons, WriteOp.puts, List.map_cons]
      exact congrArg _ (ih (fun v => f (v + 1)) g)
  rw [utxoOps, WriteOp.puts_append, hdel, hput, List.nil_append]

/-- A key put by a transaction is one of the outpoints it creates, with the
output of that index. -/
theorem mem_utxoOps_put {height : UInt64} {tx : Transaction} {o : OutPoint} {u : Utxo} :
    WriteOp.put o u ∈ utxoOps C height tx ↔
      ∃ v out, tx.outputs[v]? = some out ∧ o = ⟨tx.txid C, UInt32.ofNat v⟩ ∧
        u = ⟨out, height, tx.isCoinbase⟩ := by
  rw [utxoOps, List.mem_append, List.mem_mapIdx]
  constructor
  · intro h
    rcases h with h | ⟨v, hv, h⟩
    · obtain ⟨i, _, hi⟩ := List.mem_map.mp h
      cases hi
    · simp only [WriteOp.put.injEq] at h
      exact ⟨v, tx.outputs[v], List.getElem?_eq_getElem hv, h.1.symm, h.2.symm⟩
  · intro h
    obtain ⟨v, out, hv, rfl, rfl⟩ := h
    obtain ⟨hlt, hget⟩ := List.getElem?_eq_some_iff.mp hv
    exact Or.inr ⟨v, hlt, by rw [hget]⟩

theorem mem_utxoOps_delete {height : UInt64} {tx : Transaction} {o : OutPoint} :
    WriteOp.delete o ∈ utxoOps C height tx ↔ o ∈ spentBy tx := by
  rw [utxoOps, List.mem_append, List.mem_mapIdx, spentBy, List.mem_map, List.mem_map]
  constructor
  · intro h
    rcases h with ⟨i, hi, h⟩ | ⟨v, hv, h⟩
    · exact ⟨i, hi, by simpa using h⟩
    · cases h
  · intro h
    obtain ⟨i, hi, h⟩ := h
    exact Or.inl ⟨i, hi, by rw [h]⟩

theorem mem_created {tx : Transaction} {o : OutPoint} :
    o ∈ created C tx ↔ ∃ v < tx.outputs.length, o = ⟨tx.txid C, UInt32.ofNat v⟩ := by
  simp only [created, List.mem_map, List.mem_range]
  exact ⟨fun ⟨v, hv, h⟩ => ⟨v, hv, h.symm⟩, fun ⟨v, hv, h⟩ => ⟨v, hv, h.symm⟩⟩

/-- Every operation of a transaction's batch names something it spends or
creates. -/
theorem key_of_mem_utxoOps {height : UInt64} {tx : Transaction} {op : WriteOp OutPoint Utxo}
    (h : op ∈ utxoOps C height tx) : op.key ∈ spentBy tx ∨ op.key ∈ created C tx := by
  cases op with
  | put o u =>
    obtain ⟨v, out, hv, rfl, _⟩ := mem_utxoOps_put.mp h
    exact Or.inr (mem_created.mpr ⟨v, (List.getElem?_eq_some_iff.mp hv).1, rfl⟩)
  | delete o => exact Or.inl (mem_utxoOps_delete.mp h)

/-- What a coinbase spends is nothing. -/
theorem spentBy_of_isCoinbase {tx : Transaction} (h : tx.isCoinbase = true) :
    spentBy tx = [] := by
  obtain ⟨i, hi, hp⟩ := Transaction.isCoinbase_iff.mp h
  have hc : i.isCoinbase = true := OutPoint.isCoinbase_iff.mpr hp
  simp [spentBy, hi, hc]

/-- Without the null reference among its inputs, a transaction spends all of
them. -/
theorem spentBy_eq_spends {tx : Transaction} (h : OutPoint.coinbase ∉ tx.spends) :
    spentBy tx = tx.spends := by
  have hall : ∀ i ∈ tx.inputs, (!i.isCoinbase) = true := by
    intro i hi
    rw [Bool.not_eq_true', Bool.eq_false_iff]
    intro hc
    exact h (OutPoint.isCoinbase_iff.mp hc ▸ List.mem_map_of_mem hi)
  rw [spentBy, List.filter_eq_self.mpr hall, Transaction.spends]

theorem mem_spends_of_mem_spentBy {tx : Transaction} {o : OutPoint} (h : o ∈ spentBy tx) :
    o ∈ tx.spends := by
  obtain ⟨i, hi, rfl⟩ := List.mem_map.mp h
  exact List.mem_map_of_mem (List.mem_of_mem_filter hi)

theorem ne_coinbase_of_mem_spentBy {tx : Transaction} {o : OutPoint} (h : o ∈ spentBy tx) :
    o ≠ OutPoint.coinbase := by
  obtain ⟨i, hi, rfl⟩ := List.mem_map.mp h
  have hnot := (List.mem_filter.mp hi).2
  intro hc
  have : i.isCoinbase = true := OutPoint.isCoinbase_iff.mpr hc
  simp [this] at hnot

/-- The one output of a block's one transaction is in the UTXO set afterwards. -/
theorem committed_getUtxo_singleton (s : ChainDB) {b : Block} {tx : Transaction} {out : TxOutput}
    (htxs : b.transactions = [tx]) (hout : tx.outputs = [out]) :
    (committed C s b).getUtxo ⟨tx.txid C, 0⟩ = some ⟨out, b.height, tx.isCoinbase⟩ := by
  rw [getUtxo, committed_utxoSet, htxs, List.flatMap_singleton, utxoOps, hout, Column.write_append]
  exact Finmap.lookup_insert _

/-! ## Blocks of minimal difficulty -/

/-- The block of difficulty `1` on top of `s` with the given transactions. -/
def easyBlock (C : Crypto) (s : ChainDB) (timestamp : UInt64) (txs : List Transaction) :
    Block where
  header :=
    { version := 1
      stream := 0
      parentHash := s.tip.hash
      merkleRoot := merkleRootOf C txs
      utxoCommitment := H256.zero
      timestamp := timestamp
      difficulty := 1
      nonce := 0
      extraNonce := 0
      height := s.tip.height + 1
      beneficiary := Address.ZERO }
  transactions := txs

/-! ## The first block of a devnet -/

/-- The coinbase of the devnet's first block. -/
def devnetCoinbase : Transaction := Transaction.coinbase 1 Stream.A.blockReward Address.ZERO

/-- A first block of the devnet with a plain coinbase. -/
def plainBlock (C : Crypto) : Block :=
  easyBlock C (openNew C NetworkId.DEVNET) 1735689600 [devnetCoinbase]

/-- A header at minimal difficulty, as tables of digests spell it. -/
def tableHeader (parent merkle : Nat) (height : UInt64) : BlockHeader :=
  ⟨1, 0, H256.ofNatBE parent, H256.ofNatBE merkle, H256.zero, 1735689600, 1, 0, 0, height,
    Address.ZERO⟩

/-- BLAKE3 of the devnet's genesis coinbase and header, and of the coinbase and
header of its first block. -/
def devnetTable : List (List UInt8 × H256) :=
  let genesisTx := 0x4acae6f03cd165438297d55f0f3e0c00942314425e4b9b825b40302d02460dcc
  let genesis := 0xfb9b0e3a9e57f1325309d251f117712de619335d9a09b6ec3190835df84995fa
  let firstTx := 0x5bf506fefb08836645f6566b13943fa5a602b051e0ac6654055a329a43bb14e4
  let first := 0x1cedbdd76bf57a9172931720e6c3d442a847f999e30fffdbb3471fdf49af5703
  [((Genesis.coinbaseTx NetworkId.DEVNET).serialize, H256.ofNatBE genesisTx),
   ((tableHeader 0 genesisTx 0).preimage, H256.ofNatBE genesis),
   (devnetCoinbase.serialize, H256.ofNatBE firstTx),
   ((tableHeader genesis firstTx 1).preimage, H256.ofNatBE first)]

def devnetCrypto : Crypto := Crypto.ofTable devnetTable

def devnetOpen : ChainDB := openNew devnetCrypto NetworkId.DEVNET

def devnetFirst : Block := plainBlock devnetCrypto

end Pyrax.ChainDB
