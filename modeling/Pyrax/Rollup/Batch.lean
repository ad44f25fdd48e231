import Pyrax.Rollup.State

/-!
# Batches

`pyrax-node/src/zkrollup/batch.rs`: the L2 transaction, the batch it goes into,
and the builder that has at most one batch open. A batch takes at most
`MAX_BATCH_SIZE` transactions whatever the sequencer is configured for, and its
gas counter is a machine word.

What the sequencer's proofs use of an open batch (when it takes a transaction,
and that sealing it succeeds) is said in `Rollup.Drain`.
-/

namespace Pyrax.Rollup

open Base

def MAX_BATCH_SIZE : Nat := 1000

inductive BatchStatus where
  | building
  | sealed
  | proving
  | proven
  | submitted
  | finalized
  | rejected
  deriving DecidableEq

inductive BatchError where
  | batchSealed
  | batchFull
  | invalidState (status : BatchStatus)
  | batchNotFound (hash : H256)
  | batchInProgress
  | noBatchInProgress
  | invalidProof (reason : String)
  deriving DecidableEq

/-! ## Transactions -/

structure L2Transaction where
  hash : H256
  sender : Address
  recipient : Option Address
  value : UInt64
  gasLimit : UInt64
  gasPrice : UInt64
  nonce : UInt64
  data : List UInt8
  signature : List UInt8
  txType : UInt8
  deriving DecidableEq

namespace L2Transaction

def computeHash (C : Crypto) (tx : L2Transaction) : H256 :=
  C.blake3 (tx.sender.asBytes ++ (tx.recipient.map Address.asBytes).getD [] ++
    Wire.encU64 tx.value ++ Wire.encU64 tx.gasLimit ++ Wire.encU64 tx.gasPrice ++
    Wire.encU64 tx.nonce ++ tx.data ++ [tx.txType])

def transfer (C : Crypto) (sender recipient : Address) (value nonce : UInt64) : L2Transaction :=
  let tx : L2Transaction :=
    { hash := H256.zero
      sender := sender
      recipient := some recipient
      value := value
      gasLimit := 21000
      gasPrice := 1000000
      nonce := nonce
      data := []
      signature := []
      txType := 0 }
  { tx with hash := tx.computeHash C }

def gasCost (tx : L2Transaction) : UInt64 := tx.gasLimit * tx.gasPrice

end L2Transaction

/-! ## Batches -/

structure BatchHeader where
  batchNumber : UInt64
  parentHash : H256
  preStateRoot : H256
  postStateRoot : H256
  txRoot : H256
  txCount : UInt32
  gasUsed : UInt64
  timestamp : UInt64
  sequencer : Address
  l1BlockNumber : UInt64
  deriving DecidableEq

/-- The L1 block number is not hashed. -/
def BatchHeader.hash (C : Crypto) (h : BatchHeader) : H256 :=
  C.blake3 (Wire.encU64 h.batchNumber ++ h.parentHash.asBytes ++ h.preStateRoot.asBytes ++
    h.postStateRoot.asBytes ++ h.txRoot.asBytes ++ Wire.encU32 h.txCount ++
    Wire.encU64 h.gasUsed ++ Wire.encU64 h.timestamp ++ h.sequencer.asBytes)

structure Batch where
  header : BatchHeader
  transactions : List L2Transaction
  status : BatchStatus
  proof : Option (List UInt8)
  l1TxHash : Option H256
  createdAt : UInt64
  sealedAt : Option UInt64
  provenAt : Option UInt64
  submittedAt : Option UInt64
  finalizedAt : Option UInt64
  deriving DecidableEq

namespace Batch

/-- `Batch::new`; the clock is read for the header and for the record. -/
def new (stamp created batchNumber : UInt64) (parentHash preStateRoot : H256)
    (sequencer : Address) (l1BlockNumber : UInt64) : Batch where
  header :=
    { batchNumber := batchNumber
      parentHash := parentHash
      preStateRoot := preStateRoot
      postStateRoot := preStateRoot
      txRoot := H256.zero
      txCount := 0
      gasUsed := 0
      timestamp := stamp
      sequencer := sequencer
      l1BlockNumber := l1BlockNumber }
  transactions := []
  status := .building
  proof := none
  l1TxHash := none
  createdAt := created
  sealedAt := none
  provenAt := none
  submittedAt := none
  finalizedAt := none

def hash (C : Crypto) (b : Batch) : H256 := b.header.hash C

def addTransaction (b : Batch) (tx : L2Transaction) : Except BatchError Batch :=
  if b.status ≠ .building then .error .batchSealed
  else if MAX_BATCH_SIZE ≤ b.transactions.length then .error .batchFull
  else
    let transactions := b.transactions ++ [tx]
    .ok { b with
      header :=
        { b.header with
          gasUsed := b.header.gasUsed + tx.gasLimit
          txCount := UInt32.ofNat transactions.length }
      transactions := transactions }

/-- `while hashes.len() & (hashes.len() - 1) != 0`: zero hashes up to a power of
two. Twice the length is fuel enough. -/
def padHashes : Nat → List H256 → List H256
  | 0, hashes => hashes
  | fuel + 1, hashes =>
    if hashes.length &&& (hashes.length - 1) ≠ 0 then padHashes fuel (hashes ++ [H256.zero])
    else hashes

def computeTxRoot (C : Crypto) (b : Batch) : H256 :=
  if b.transactions.isEmpty then H256.zero
  else
    let hashes := b.transactions.map L2Transaction.hash
    rootOf C (padHashes (2 * hashes.length) hashes)

def «seal» (C : Crypto) (now : UInt64) (b : Batch) (postStateRoot : H256) :
    Except BatchError Batch :=
  if b.status ≠ .building then .error (.invalidState b.status)
  else
    .ok { b with
      header := { b.header with postStateRoot := postStateRoot, txRoot := b.computeTxRoot C }
      status := .sealed
      sealedAt := some now }

end Batch

/-! ## The builder -/

structure BatchBuilder where
  current : Option Batch
  batches : Column H256 Batch
  byNumber : Column UInt64 H256
  lastBatchNumber : UInt64
  sequencer : Address

namespace BatchBuilder

def new (sequencer : Address) : BatchBuilder := ⟨none, ∅, ∅, 0, sequencer⟩

def startBatch (stamp created : UInt64) (b : BatchBuilder) (preStateRoot : H256)
    (l1BlockNumber : UInt64) : Except BatchError BatchBuilder :=
  if b.current.isSome then .error .batchInProgress
  else
    let batchNumber := b.lastBatchNumber + 1
    let parentHash := (b.byNumber.lookup (batchNumber - 1)).getD H256.zero
    .ok { b with
      current := some (Batch.new stamp created batchNumber parentHash preStateRoot b.sequencer
        l1BlockNumber) }

def addTransaction (b : BatchBuilder) (tx : L2Transaction) : Except BatchError BatchBuilder :=
  match b.current with
  | none => .error .noBatchInProgress
  | some batch =>
    match batch.addTransaction tx with
    | .error e => .error e
    | .ok batch => .ok { b with current := some batch }

/-- `seal_batch`: the open batch is taken out before it is sealed. -/
def sealBatch (C : Crypto) (now : UInt64) (b : BatchBuilder) (postStateRoot : H256) :
    BatchBuilder × Except BatchError Batch :=
  match b.current with
  | none => (b, .error .noBatchInProgress)
  | some batch =>
    match batch.seal C now postStateRoot with
    | .error e => ({ b with current := none }, .error e)
    | .ok batch =>
      let hash := batch.hash C
      let number := batch.header.batchNumber
      ({ b with
          current := none
          batches := b.batches.insert hash batch
          byNumber := b.byNumber.insert number hash
          lastBatchNumber := number },
        .ok batch)

end BatchBuilder

end Pyrax.Rollup
