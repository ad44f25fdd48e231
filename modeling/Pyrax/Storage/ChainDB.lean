import Pyrax.Types.Genesis
import Pyrax.Base.Column

/-!
# The chain database

`pyrax-node/src/storage/chaindb.rs`. A RocksDB column family is a
`Base.Column`, keyed and valued by what the source serialises into it; a
`WriteBatch` is, per column, the list of its operations in the order the code
appends them, and `Store.write` applies it in one step, as `db.write` does.

Opening an empty store writes the genesis block into the block, height and
header columns and sets the tip; no transaction of it is indexed and none of
its outputs enters the UTXO column. `commitBlock` checks the parent hash and
the height against the tip, both only for blocks of positive height, then
writes one batch. `rollbackTo` undoes blocks from the tip down and recomputes
the tip from what the height index then says.

Reads and writes of the store do not fail here: the model has no I/O errors.
-/

namespace Pyrax

open Base

/-- Where a transaction stands. -/
structure TxLocation where
  blockHash : H256
  blockHeight : UInt64
  txIndex : UInt32
  deriving DecidableEq

structure ChainTip where
  height : UInt64
  hash : H256
  totalDifficulty : UInt64
  deriving DecidableEq

/-- The errors of the storage layer that the chain database raises itself. -/
inductive StorageError where
  | invalidData (msg : String)
  | chainError (msg : String)
  deriving DecidableEq

/-- `Display` of `StorageError`. -/
instance : ToString StorageError where
  toString
    | .invalidData msg => "Invalid data: " ++ msg
    | .chainError msg => "Chain error: " ++ msg

def CURRENT_SCHEMA_VERSION : UInt32 := 1

/-- The column families. The metadata column is kept as its four keys. -/
structure Store where
  blocksByHash : Column H256 Block
  blockHeightToHash : Column UInt64 H256
  blockHeaders : Column H256 BlockHeader
  transactionIndex : Column H256 TxLocation
  utxoSet : Column OutPoint Utxo
  spentUtxos : Column OutPoint H256
  chainTip : Option ChainTip
  genesisHash : Option H256
  networkId : Option UInt32
  schemaVersion : Option UInt32

/-- A store nothing was ever written to. -/
def Store.empty : Store := ⟨∅, ∅, ∅, ∅, ∅, ∅, none, none, none, none⟩

/-- A batch: per column the operations in order, and the metadata it puts. -/
structure WriteBatch where
  blocksByHash : List (WriteOp H256 Block) := []
  blockHeightToHash : List (WriteOp UInt64 H256) := []
  blockHeaders : List (WriteOp H256 BlockHeader) := []
  transactionIndex : List (WriteOp H256 TxLocation) := []
  utxoSet : List (WriteOp OutPoint Utxo) := []
  spentUtxos : List (WriteOp OutPoint H256) := []
  chainTip : Option ChainTip := none
  genesisHash : Option H256 := none
  networkId : Option UInt32 := none
  schemaVersion : Option UInt32 := none

def Store.write (db : Store) (batch : WriteBatch) : Store where
  blocksByHash := db.blocksByHash.write batch.blocksByHash
  blockHeightToHash := db.blockHeightToHash.write batch.blockHeightToHash
  blockHeaders := db.blockHeaders.write batch.blockHeaders
  transactionIndex := db.transactionIndex.write batch.transactionIndex
  utxoSet := db.utxoSet.write batch.utxoSet
  spentUtxos := db.spentUtxos.write batch.spentUtxos
  chainTip := batch.chainTip.or db.chainTip
  genesisHash := batch.genesisHash.or db.genesisHash
  networkId := batch.networkId.or db.networkId
  schemaVersion := batch.schemaVersion.or db.schemaVersion

/-- The database handle: the store, the tip held in memory, the network. -/
structure ChainDB where
  db : Store
  tip : ChainTip
  network : NetworkId

namespace ChainDB

variable (C : Crypto)

/-! ## Opening -/

/-- The batch that initialises a new chain. -/
def genesisBatch (network : NetworkId) (tip : ChainTip) : WriteBatch :=
  let genesis := Genesis.genesisBlock C network
  let genesisHash := genesis.hash C
  { blocksByHash := [.put genesisHash genesis]
    blockHeightToHash := [.put 0 genesisHash]
    blockHeaders := [.put genesisHash genesis.header]
    chainTip := some tip
    genesisHash := some genesisHash
    networkId := some network.id
    schemaVersion := some CURRENT_SCHEMA_VERSION }

/-- The tip of a chain that has only its genesis block. -/
def genesisTip (network : NetworkId) : ChainTip where
  height := 0
  hash := (Genesis.genesisBlock C network).hash C
  totalDifficulty := (Genesis.genesisBlock C network).header.difficulty

/-- `load_or_init_chain`: an existing tip is loaded, a new chain starts from
the genesis block. -/
def loadOrInitChain (db : Store) (network : NetworkId) : Store × ChainTip :=
  match db.chainTip with
  | some tip => (db, tip)
  | none => (db.write (genesisBatch C network (genesisTip C network)), genesisTip C network)

/-- `open` on the store found at the path. -/
def openStore (db : Store) (network : NetworkId) : ChainDB :=
  let r := loadOrInitChain C db network
  ⟨r.1, r.2, network⟩

/-- `open` on a path that holds no database yet. -/
def openNew (network : NetworkId) : ChainDB := openStore C Store.empty network

/-! ## Reading -/

def getBlock (s : ChainDB) (hash : H256) : Option Block := s.db.blocksByHash.lookup hash

/-- `get_block_by_height`: through the height index. -/
def getBlockByHeight (s : ChainDB) (height : UInt64) : Option Block :=
  match s.db.blockHeightToHash.lookup height with
  | some hash => s.getBlock hash
  | none => none

def hasBlock (s : ChainDB) (hash : H256) : Bool := (s.db.blocksByHash.lookup hash).isSome

def getUtxo (s : ChainDB) (outpoint : OutPoint) : Option Utxo := s.db.utxoSet.lookup outpoint

def getTxLocation (s : ChainDB) (txid : H256) : Option TxLocation :=
  s.db.transactionIndex.lookup txid

/-! ## Committing a block -/

/-- What one transaction does to the UTXO column: its inputs leave, coinbase
inputs excepted, then its outputs enter. -/
def utxoOps (height : UInt64) (tx : Transaction) : List (WriteOp OutPoint Utxo) :=
  ((tx.inputs.filter fun i => !i.isCoinbase).map fun i => .delete i.previousOutput) ++
    tx.outputs.mapIdx fun vout output =>
      .put ⟨tx.txid C, UInt32.ofNat vout⟩ ⟨output, height, tx.isCoinbase⟩

/-- The record of what a transaction spent. -/
def spentOps (hash : H256) (tx : Transaction) : List (WriteOp OutPoint H256) :=
  (tx.inputs.filter fun i => !i.isCoinbase).map fun i => .put i.previousOutput hash

/-- The index entries of a block's transactions. -/
def indexOps (block : Block) : List (WriteOp H256 TxLocation) :=
  block.transactions.mapIdx fun txIdx tx =>
    .put (tx.txid C) ⟨block.hash C, block.height, UInt32.ofNat txIdx⟩

def commitTip (s : ChainDB) (block : Block) : ChainTip where
  height := block.height
  hash := block.hash C
  totalDifficulty := s.tip.totalDifficulty + block.header.difficulty

def commitBatch (s : ChainDB) (block : Block) : WriteBatch :=
  let hash := block.hash C
  { blocksByHash := [.put hash block]
    blockHeightToHash := [.put block.height hash]
    blockHeaders := [.put hash block.header]
    transactionIndex := indexOps C block
    utxoSet := block.transactions.flatMap (utxoOps C block.height)
    spentUtxos := block.transactions.flatMap (spentOps hash)
    chainTip := some (commitTip C s block) }

/-- The state a successful `commit_block` leaves. -/
def committed (s : ChainDB) (block : Block) : ChainDB :=
  ⟨s.db.write (commitBatch C s block), commitTip C s block, s.network⟩

/-- `commit_block`. Blocks of height `0` pass both checks. -/
def commitBlock (s : ChainDB) (block : Block) : Except StorageError ChainDB :=
  if 0 < block.height ∧ block.header.parentHash ≠ s.tip.hash then
    .error (.chainError ("Parent hash mismatch: expected " ++ toString s.tip.hash ++
      ", got " ++ toString block.header.parentHash))
  else if block.height ≠ s.tip.height + 1 ∧ block.height ≠ 0 then
    .error (.chainError ("Height mismatch: expected " ++ toString (s.tip.height + 1) ++
      ", got " ++ toString block.height))
  else .ok (committed C s block)

/-! ## Rolling back -/

/-- The batch of `undo_block`: the height entry, and per transaction, last
first, its index entry and its outputs. Nothing is put back. -/
def undoBatch (block : Block) : WriteBatch where
  blockHeightToHash := [.delete block.height]
  transactionIndex := block.transactions.reverse.map fun tx => .delete (tx.txid C)
  utxoSet := block.transactions.reverse.flatMap fun tx =>
    (List.range tx.outputs.length).map fun vout => .delete ⟨tx.txid C, UInt32.ofNat vout⟩

def undoBlock (s : ChainDB) (block : Block) : ChainDB :=
  { s with db := s.db.write (undoBatch C block) }

/-- `for h in (target_height + 1..=tip.height).rev()`, with the number of
heights still to undo. -/
def undoDown (target : UInt64) : Nat → ChainDB → ChainDB
  | 0, s => s
  | n + 1, s =>
    match s.getBlockByHeight (target + UInt64.ofNat (n + 1)) with
    | some block => undoDown target n (undoBlock C s block)
    | none => undoDown target n s

/-- `u64::saturating_add`. -/
def saturatingAdd (a b : UInt64) : UInt64 :=
  if a.toNat + b.toNat < 2 ^ 64 then a + b else 0xFFFFFFFFFFFFFFFF

/-- `calculate_total_difficulty`: the blocks indexed at `0..=height`. -/
def calculateTotalDifficulty (s : ChainDB) (height : UInt64) : UInt64 :=
  (List.range (height.toNat + 1)).foldl (fun total h =>
    match s.getBlockByHeight (UInt64.ofNat h) with
    | some block => saturatingAdd total block.header.difficulty
    | none => total) 0

/-- Write a tip to the store and keep it in memory. -/
def setTip (s : ChainDB) (tip : ChainTip) : ChainDB :=
  ⟨{ s.db with chainTip := some tip }, tip, s.network⟩

/-- The end of a rollback: the tip becomes the block now indexed at the target,
its total difficulty summed anew. -/
def retip (s : ChainDB) (target : UInt64) : ChainDB :=
  match s.getBlockByHeight target with
  | some block => s.setTip ⟨target, block.hash C, s.calculateTotalDifficulty target⟩
  | none => s

/-- `rollback_to`. -/
def rollbackTo (s : ChainDB) (target : UInt64) : ChainDB :=
  if s.tip.height ≤ target then s
  else retip C (undoDown C target (s.tip.height - target).toNat s) target

end ChainDB

end Pyrax
