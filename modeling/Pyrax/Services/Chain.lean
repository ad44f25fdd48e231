import Pyrax.Mempool.Pool
import Pyrax.Ledger.Accept

/-!
# The chain service

`pyrax-node/src/services/chain.rs`: block templates, building and submitting a
mined block, and `process_block`, which validates, commits, moves the cached tip
and takes the block's transactions out of the pool. The service shares the
database and the pool with the rest of the node; only the cached tip and the
configuration are its own, and nothing but the service moves that tip.

A template reads the clock and the pool, so `createBlockTemplate` takes the time
and the order in which the pool's map lists its keys. `processBlock_ok_iff`
says when a block goes through and what is left.
-/

namespace Pyrax

open Base ChainDB Validation

/-- The fields of `ChainServiceConfig` the service reads. -/
structure ChainServiceConfig where
  maxTxsPerBlock : UInt64
  initialDifficulty : UInt64
  streamABlockReward : UInt64
  streamBBlockReward : UInt64
  deriving DecidableEq

def ChainServiceConfig.default : ChainServiceConfig where
  maxTxsPerBlock := 5000
  initialDifficulty := 1
  streamABlockReward := 50 * 100000000
  streamBBlockReward := 100 * 100000000

/-- The variants of `ChainError` that building and processing a block raise. -/
inductive ChainError where
  | validation (e : ValidationError)
  | storage (msg : String)
  | invalidBlock (msg : String)
  | invalidMerkleRoot (computed header : H256)
  deriving DecidableEq

structure ChainBlockTemplate where
  height : UInt64
  parentHash : H256
  merkleRoot : H256
  timestamp : UInt64
  difficulty : UInt64
  coinbaseTx : Transaction
  transactions : List Transaction
  coinbaseValue : UInt64
  deriving DecidableEq

structure ChainService where
  db : ChainDB
  mempool : Mempool
  config : ChainServiceConfig
  cachedTip : ChainTip

namespace ChainService

/-- `new`: the cached tip starts as the database's. -/
def new (db : ChainDB) (mempool : Mempool) (config : ChainServiceConfig) : ChainService :=
  ⟨db, mempool, config, db.tip⟩

def getDifficulty (svc : ChainService) : UInt64 := svc.config.initialDifficulty

/-- `get_block_reward`; the height is not looked at. -/
def getBlockReward (svc : ChainService) (_height : UInt64) (stream : UInt8) : UInt64 :=
  if stream = 0 then svc.config.streamABlockReward
  else if stream = 1 then svc.config.streamBBlockReward
  else svc.config.streamABlockReward

/-- `compute_merkle_root`, the same loop as the block's own. -/
def computeMerkleRoot (C : Crypto) (transactions : List Transaction) : H256 :=
  merkleRootOf C transactions

def verifyMerkleRoot (C : Crypto) (header : BlockHeader) (transactions : List Transaction) :
    Bool :=
  header.merkleRoot == computeMerkleRoot C transactions

/-- The transactions a template takes: room is left for the coinbase. -/
def pendingTxs (svc : ChainService) (order : List H256) : List Transaction :=
  svc.mempool.getPending order (svc.config.maxTxsPerBlock - 1).toNat

/-- `create_block_template`, at the time `now`. -/
def createBlockTemplate (C : Crypto) (svc : ChainService) (order : List H256) (now : UInt64)
    (beneficiary : Address) (stream : UInt8) : ChainBlockTemplate :=
  let tip := svc.cachedTip
  let height := tip.height + 1
  let pending := svc.pendingTxs order
  let reward := svc.getBlockReward height stream
  let coinbaseTx := Transaction.coinbase height reward beneficiary
  { height := height
    parentHash := tip.hash
    merkleRoot := computeMerkleRoot C (coinbaseTx :: pending)
    timestamp := now
    difficulty := svc.getDifficulty
    coinbaseTx := coinbaseTx
    transactions := pending
    coinbaseValue := reward }

/-- `build_block`; the UTXO commitment is left zero. -/
def buildBlock (template : ChainBlockTemplate) (nonce extraNonce : UInt64)
    (beneficiary : Address) (stream : UInt8) : Block where
  header :=
    { version := 1
      stream := stream
      parentHash := template.parentHash
      merkleRoot := template.merkleRoot
      utxoCommitment := H256.zero
      timestamp := template.timestamp
      difficulty := template.difficulty
      nonce := nonce
      extraNonce := extraNonce
      height := template.height
      beneficiary := beneficiary }
  transactions := template.coinbaseTx :: template.transactions

/-- `validate_block`: the merkle root first, then everything. -/
def validateBlock (C : Crypto) (now : UInt64) (svc : ChainService) (block : Block) :
    Except ChainError Unit := do
  failIf (verifyMerkleRoot C block.header block.transactions = false)
    (.invalidMerkleRoot (computeMerkleRoot C block.transactions) block.header.merkleRoot)
  match Validation.validateBlock C now block svc.db with
  | .ok _ => .ok ()
  | .error e => .error (.validation e)

/-- The tip the service caches after a block: its own total, not the database's. -/
def nextTip (C : Crypto) (svc : ChainService) (block : Block) : ChainTip where
  height := block.height
  hash := block.hash C
  totalDifficulty := svc.cachedTip.totalDifficulty + block.header.difficulty

/-- The pool after a block: every transaction but a coinbase leaves by its hash. -/
def evictIncluded (C : Crypto) (mempool : Mempool) (block : Block) : Mempool :=
  ((block.transactions.filter fun tx => !tx.isCoinbase).map (·.txid C)).foldl Mempool.remove
    mempool

/-- `process_block`: the hash and the service it leaves. -/
def processBlock (C : Crypto) (now : UInt64) (svc : ChainService) (block : Block) :
    Except ChainError (H256 × ChainService) := do
  svc.validateBlock C now block
  match commitBlock C svc.db block with
  | .error e => .error (.storage (toString e))
  | .ok db => .ok (block.hash C,
      { svc with
        db := db
        mempool := evictIncluded C svc.mempool block
        cachedTip := svc.nextTip C block })

/-- `submit_mined_block`. -/
def submitMinedBlock (C : Crypto) (now : UInt64) (svc : ChainService)
    (template : ChainBlockTemplate) (nonce extraNonce : UInt64) (beneficiary : Address)
    (stream : UInt8) : Except ChainError (H256 × ChainService) := do
  let block := buildBlock template nonce extraNonce beneficiary stream
  failIf (block.header.verifyPow C = false) (.invalidBlock "PoW verification failed")
  svc.processBlock C now block

/-! ## What processing a block does -/

variable {C : Crypto} {now : UInt64} {svc svc' : ChainService} {block : Block} {hash : H256}

/-- The service's merkle check is one of the validator's. -/
theorem validateBlock_ok_iff :
    svc.validateBlock C now block = .ok () ↔ BlockValid C now block svc.db := by
  unfold validateBlock verifyMerkleRoot computeMerkleRoot
  rw [failIf_bind_eq_ok, ← Validation.validateBlock_ok_iff]
  cases hv : Validation.validateBlock C now block svc.db with
  | error e => simp
  | ok u =>
    have hm := (Validation.validateBlock_ok_iff.mp hv).merkle
    have hroot : merkleRootOf C block.transactions = block.header.merkleRoot := hm.symm
    simp [hroot]

/-- A block is processed iff it is valid; the commit never refuses it then. -/
theorem processBlock_ok_iff :
    svc.processBlock C now block = .ok (hash, svc') ↔
      BlockValid C now block svc.db ∧ hash = block.hash C ∧
        svc' = { svc with
          db := committed C svc.db block
          mempool := evictIncluded C svc.mempool block
          cachedTip := svc.nextTip C block } := by
  unfold processBlock
  rw [bind_unit_eq_ok, validateBlock_ok_iff]
  refine and_congr_right fun hv => ?_
  rw [Ledger.commitBlock_of_valid hv]
  simp only [Except.ok.injEq, Prod.mk.injEq]
  exact ⟨fun h => ⟨h.1.symm, h.2.symm⟩, fun h => ⟨h.1.symm, h.2.symm⟩⟩

end ChainService

end Pyrax
