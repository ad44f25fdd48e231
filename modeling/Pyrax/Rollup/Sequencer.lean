import Pyrax.Rollup.Batch

/-!
# The sequencer

`pyrax-node/src/zkrollup/sequencer.rs`: transactions are validated against the
state when they come in, wait in a queue, and are executed when a batch is
produced.

The loop of `produce_batch` is a fold of `Loop.step` over the queue that goes on
while `Loop.Running`; a `break` sets a flag. Next to the variables of the source
the loop keeps what became of every transaction it popped (`Loop.history`), which
the source does not: skipped because a forced inclusion is not due yet, failed,
put into the batch, or executed when the batch was full.
-/

namespace Pyrax.Rollup

open Base

def MIN_SEQUENCER_STAKE : UInt64 := 10000 * 100000000

def L2_BLOCK_TIME_SECS : UInt64 := 2

inductive SequencerMode where
  | single
  | rotating
  | decentralized
  | based
  deriving DecidableEq

inductive SequencerStatus where
  | active
  | syncing
  | paused
  | slashed
  | unbonding
  deriving DecidableEq

/-- `SequencerConfig` with its defaults. -/
structure SequencerConfig where
  mode : SequencerMode := .decentralized
  blockTimeSecs : UInt64 := L2_BLOCK_TIME_SECS
  maxBatchSize : Nat := MAX_BATCH_SIZE
  minStake : UInt64 := MIN_SEQUENCER_STAKE
  forceInclusionDelay : UInt64 := 100
  rotationPeriod : UInt64 := 1000
  priorityOrdering : Bool := true
  maxBatchGas : UInt64 := 30000000
  deriving DecidableEq

/-- `SequencerInfo`, with what `register`, `rotate_leader` and `record_batch` read
and write. -/
structure SequencerInfo where
  address : Address
  stake : UInt64
  status : SequencerStatus
  endpoint : String
  batchesProduced : UInt64
  txsSequenced : UInt64
  feesEarned : UInt64
  registeredAt : UInt64
  lastActive : UInt64
  reputation : UInt32
  missedSlots : UInt32
  deriving DecidableEq

namespace SequencerInfo

def new (registered active : UInt64) (address : Address) (stake : UInt64) (endpoint : String) :
    SequencerInfo where
  address := address
  stake := stake
  status := .active
  endpoint := endpoint
  batchesProduced := 0
  txsSequenced := 0
  feesEarned := 0
  registeredAt := registered
  lastActive := active
  reputation := 50
  missedSlots := 0

def recordBatch (now : UInt64) (i : SequencerInfo) (txCount fees : UInt64) : SequencerInfo :=
  { i with
    batchesProduced := i.batchesProduced + 1
    txsSequenced := i.txsSequenced + txCount
    feesEarned := i.feesEarned + fees
    lastActive := now
    missedSlots := 0
    reputation := min (i.reputation + 1) 100 }

end SequencerInfo

structure PendingTransaction where
  tx : L2Transaction
  receivedAt : UInt64
  priority : UInt64
  l1InclusionBlock : Option UInt64
  deriving DecidableEq

namespace PendingTransaction

def new (now : UInt64) (tx : L2Transaction) : PendingTransaction := ⟨tx, now, tx.gasPrice, none⟩

/-- The priority is `u64::MAX`. -/
def withForceInclusion (now : UInt64) (tx : L2Transaction) (l1Block : UInt64) :
    PendingTransaction :=
  ⟨tx, now, 18446744073709551615, some l1Block⟩

/-- A forced inclusion whose deadline has not come. -/
def early (config : SequencerConfig) (l1Block : UInt64) (p : PendingTransaction) : Bool :=
  match p.l1InclusionBlock with
  | some l1BlockReq => decide (l1Block < l1BlockReq + config.forceInclusionDelay)
  | none => false

end PendingTransaction

inductive SequencerError where
  | insufficientStake (required available : UInt64)
  | notLeader
  | invalidNonce (expected actual : UInt64)
  | insufficientBalance (available required : UInt64)
  | invalidSignature
  | invalidTransactionType
  | executionFailed
  | batchError (e : BatchError)
  | notFound (address : Address)
  deriving DecidableEq

structure SequencerStats where
  batchesProduced : UInt64 := 0
  txsReceived : UInt64 := 0
  txsProcessed : UInt64 := 0
  txsFailed : UInt64 := 0
  forceInclusions : UInt64 := 0
  overdueForceInclusions : UInt64 := 0
  totalGasUsed : UInt64 := 0
  deriving DecidableEq

structure Sequencer where
  config : SequencerConfig
  address : Address
  info : SequencerInfo
  sequencers : Column Address SequencerInfo
  currentLeader : Option Address
  mempool : List PendingTransaction
  state : L2State
  batchBuilder : BatchBuilder
  l1BlockNumber : UInt64
  l2BlockNumber : UInt64
  stats : SequencerStats

/-! ## Execution -/

/-- `execute_transaction`: the state afterwards and the gas used, which is the
limit. -/
def executeTransaction (C : Crypto) (P : Platform) (state : L2State) (tx : L2Transaction) :
    Except SequencerError (L2State × UInt64) :=
  if tx.txType = 0 then
    match tx.recipient with
    | some recipient =>
      match state.transfer C P tx.sender recipient tx.value with
      | .ok state => .ok (state, tx.gasLimit)
      | .error _ => .error .executionFailed
    | none => .ok (state, tx.gasLimit)
  else if tx.txType = 1 then .ok (state.incrementNonce C P tx.sender, tx.gasLimit)
  else if tx.txType = 2 then .ok (state.credit C P tx.sender tx.value, tx.gasLimit)
  else if tx.txType = 3 then
    match state.debit C P tx.sender tx.value with
    | .ok state => .ok (state, tx.gasLimit)
    | .error _ => .error .executionFailed
  else .error .invalidTransactionType

/-! ## The loop of `produce_batch` -/

/-- What becomes of a transaction that is popped from the queue. -/
inductive Outcome where
  | skipped
  | failed
  | batched
  | dropped
  deriving DecidableEq

structure Loop where
  state : L2State
  builder : BatchBuilder
  txsFailed : UInt64
  processedTxs : List L2Transaction
  totalGas : UInt64
  stopped : Bool
  history : List (L2Transaction × Outcome)

namespace Loop

variable (C : Crypto) (P : Platform) (config : SequencerConfig) (l1Block : UInt64)

def start (state : L2State) (builder : BatchBuilder) (txsFailed : UInt64) : Loop :=
  ⟨state, builder, txsFailed, [], 0, false, []⟩

/-- The loop condition. -/
def Running (l : Loop) : Prop := l.stopped = false ∧ l.totalGas < config.maxBatchGas

instance (l : Loop) : Decidable (l.Running config) := inferInstanceAs (Decidable (_ ∧ _))

/-- `if processed_txs.len() >= max_batch_size { break }`, at the end of the body. -/
def checkSize (l : Loop) : Loop :=
  if config.maxBatchSize ≤ l.processedTxs.length then { l with stopped := true } else l

/-- The body of the loop, for the transaction that was popped. A skipped one
`continue`s past the size check, one that the batch has no room for breaks after
it was executed. -/
def step (l : Loop) (p : PendingTransaction) : Loop :=
  if p.early config l1Block then { l with history := l.history ++ [(p.tx, .skipped)] }
  else
    match executeTransaction C P l.state p.tx with
    | .ok (state, gasUsed) =>
      let l :=
        { l with
          state := state
          totalGas := l.totalGas + gasUsed
          processedTxs := l.processedTxs ++ [p.tx] }
      match l.builder.addTransaction p.tx with
      | .error _ => { l with stopped := true, history := l.history ++ [(p.tx, .dropped)] }
      | .ok builder =>
        checkSize config { l with builder := builder, history := l.history ++ [(p.tx, .batched)] }
    | .error _ =>
      checkSize config
        { l with txsFailed := l.txsFailed + 1, history := l.history ++ [(p.tx, .failed)] }

/-- The whole loop: where it ends and what is left in the queue. -/
def drain (l : Loop) : List PendingTransaction → Loop × List PendingTransaction
  | [] => (l, [])
  | p :: mempool =>
    if l.Running config then drain (l.step C P config l1Block p) mempool else (l, p :: mempool)

end Loop

/-! ## The operations -/

namespace Sequencer

variable (C : Crypto) (P : Platform)

def new (registered active : UInt64) (config : SequencerConfig) (address : Address)
    (stake : UInt64) (endpoint : String) (state : L2State) : Sequencer where
  config := config
  address := address
  info := SequencerInfo.new registered active address stake endpoint
  sequencers := ∅
  currentLeader := none
  mempool := []
  state := state
  batchBuilder := BatchBuilder.new address
  l1BlockNumber := 0
  l2BlockNumber := 0
  stats := {}

def register (q : Sequencer) : Sequencer × Except SequencerError Unit :=
  if q.info.stake < q.config.minStake then
    (q, .error (.insufficientStake q.config.minStake q.info.stake))
  else ({ q with sequencers := q.sequencers.insert q.address q.info }, .ok ())

def validateTransaction (q : Sequencer) (tx : L2Transaction) : Except SequencerError Unit :=
  let expectedNonce := q.state.getNonce tx.sender
  let balance := q.state.getBalance tx.sender
  let required := tx.value + tx.gasCost
  if tx.nonce ≠ expectedNonce then .error (.invalidNonce expectedNonce tx.nonce)
  else if balance < required then .error (.insufficientBalance balance required)
  else if tx.signature.isEmpty then .error .invalidSignature
  else .ok ()

/-- Before the first pending transaction of a lower priority. -/
def insertByPriority (pending : PendingTransaction) :
    List PendingTransaction → List PendingTransaction
  | [] => [pending]
  | p :: mempool =>
    if p.priority < pending.priority then pending :: p :: mempool
    else p :: insertByPriority pending mempool

def submitTransaction (now : UInt64) (q : Sequencer) (tx : L2Transaction) :
    Sequencer × Except SequencerError H256 :=
  match q.validateTransaction tx with
  | .error e => (q, .error e)
  | .ok () =>
    let pending := PendingTransaction.new now tx
    ({ q with
        mempool :=
          if q.config.priorityOrdering then insertByPriority pending q.mempool
          else q.mempool ++ [pending]
        stats := { q.stats with txsReceived := q.stats.txsReceived + 1 } },
      .ok tx.hash)

def forceInclude (now : UInt64) (q : Sequencer) (tx : L2Transaction) (l1Block : UInt64) :
    Sequencer × Except SequencerError H256 :=
  match q.validateTransaction tx with
  | .error e => (q, .error e)
  | .ok () =>
    ({ q with
        mempool := PendingTransaction.withForceInclusion now tx l1Block :: q.mempool
        stats := { q.stats with forceInclusions := q.stats.forceInclusions + 1 } },
      .ok tx.hash)

def isLeader (q : Sequencer) : Bool :=
  match q.config.mode with
  | .single => true
  | .rotating | .decentralized => q.currentLeader == some q.address
  | .based => true

/-- The first half of `produce_batch`: the leader opens a batch and drains the
queue. -/
def produceLoop (stamp created : UInt64) (q : Sequencer) :
    Except SequencerError (Loop × List PendingTransaction) :=
  if q.isLeader = false then .error .notLeader
  else
    match q.batchBuilder.startBatch stamp created q.state.stateRoot q.l1BlockNumber with
    | .error e => .error (.batchError e)
    | .ok builder =>
      .ok ((Loop.start q.state builder q.stats.txsFailed).drain C P q.config q.l1BlockNumber
        q.mempool)

/-- The four clock readings of `produce_batch`. -/
structure Readings where
  stamp : UInt64
  created : UInt64
  sealedAt : UInt64
  active : UInt64

def produceBatch (now : Readings) (q : Sequencer) : Sequencer × Except SequencerError Batch :=
  match q.produceLoop C P now.stamp now.created with
  | .error e => (q, .error e)
  | .ok (l, mempool) =>
    let sealing := l.builder.sealBatch C now.sealedAt l.state.stateRoot
    let q :=
      { q with
        mempool := mempool
        state := l.state
        batchBuilder := sealing.1
        stats := { q.stats with txsFailed := l.txsFailed } }
    match sealing.2 with
    | .error e => (q, .error (.batchError e))
    | .ok batch =>
      let fees := l.processedTxs.foldl (fun sum tx => sum + tx.gasCost) 0
      let count := UInt64.ofNat l.processedTxs.length
      ({ q with
          info := q.info.recordBatch now.active count fees
          stats :=
            { q.stats with
              batchesProduced := q.stats.batchesProduced + 1
              txsProcessed := q.stats.txsProcessed + count
              totalGasUsed := q.stats.totalGasUsed + l.totalGas }
          l2BlockNumber := q.l2BlockNumber + 1 },
        .ok batch)

/-- `rotate_leader`. With a rotation period of zero the source divides by zero and
aborts; here the leader stays. -/
def rotateLeader (q : Sequencer) : Sequencer :=
  let active := (P.values q.sequencers).filter fun s => s.status = .active
  if active.isEmpty then { q with currentLeader := none }
  else if q.config.rotationPeriod = 0 then q
  else
    let index := (q.l2BlockNumber / q.config.rotationPeriod).toNat % active.length
    { q with currentLeader := active[index]?.map SequencerInfo.address }

/-- `process_force_inclusions`, which only counts. -/
def processForceInclusions (q : Sequencer) (l1Block : UInt64) : Sequencer :=
  let deadline :=
    if l1Block < q.config.forceInclusionDelay then 0 else l1Block - q.config.forceInclusionDelay
  let overdue :=
    q.mempool.countP fun p => (p.l1InclusionBlock.map fun b => decide (b ≤ deadline)).getD false
  if 0 < overdue then
    { q with
      stats :=
        { q.stats with
          overdueForceInclusions := q.stats.overdueForceInclusions + UInt64.ofNat overdue } }
  else q

def updateL1Block (q : Sequencer) (block : UInt64) : Sequencer :=
  processForceInclusions { q with l1BlockNumber := block } block

end Sequencer

/-- A call to the sequencer. -/
inductive SequencerOp where
  | register
  | rotateLeader
  | submitTransaction (now : UInt64) (tx : L2Transaction)
  | forceInclude (now : UInt64) (tx : L2Transaction) (l1Block : UInt64)
  | updateL1Block (block : UInt64)
  | produceBatch (now : Sequencer.Readings)

/-- The sequencer after a call. -/
def SequencerOp.run (C : Crypto) (P : Platform) (q : Sequencer) : SequencerOp → Sequencer
  | register => q.register.1
  | rotateLeader => q.rotateLeader P
  | submitTransaction now tx => (q.submitTransaction now tx).1
  | forceInclude now tx l1Block => (q.forceInclude now tx l1Block).1
  | updateL1Block block => q.updateL1Block block
  | produceBatch now => (q.produceBatch C P now).1

/-! ### A payment -/

/-- The digests of `payment` and of the same with the next nonce. -/
def paymentCrypto : Crypto :=
  Crypto.ofTable [(alice.asBytes ++ bob.asBytes ++ Wire.encU64 1000 ++ Wire.encU64 21000 ++
      Wire.encU64 1000000 ++ Wire.encU64 0 ++ [0],
    H256.ofNatBE 0x060dfc7602d1be6388b55eb1090dad23f0efc6a7fc7a93b704fca979309aeb9a),
    (alice.asBytes ++ bob.asBytes ++ Wire.encU64 1000 ++ Wire.encU64 21000 ++
      Wire.encU64 1000000 ++ Wire.encU64 1 ++ [0],
    H256.ofNatBE 0xdec41bf45ef624439c984ebeef427246e213764d8eefe51c7225fca7564604c4)]

/-- Alice pays Bob a thousand. -/
def payment : L2Transaction :=
  { L2Transaction.transfer paymentCrypto alice bob 1000 0 with signature := List.replicate 65 0 }

/-- And again. -/
def nextPayment : L2Transaction :=
  { L2Transaction.transfer paymentCrypto alice bob 1000 1 with signature := List.replicate 65 0 }

/-- The payment at twice its gas price, under the hash that it has at the first. -/
def repricedPayment : L2Transaction := { payment with gasPrice := 2000000 }

/-- The sequencer of the source's tests, on its own, with Alice funded. -/
noncomputable def soloSequencer : Sequencer :=
  Sequencer.new 100 100 { mode := .single } alice MIN_SEQUENCER_STAKE "https://seq.example.com"
    ((L2State.new paymentCrypto).credit paymentCrypto Platform.exact alice 1000000000000)

/-- One transaction and one batch. -/
def oneBatch (tx : L2Transaction) : List SequencerOp :=
  [.submitTransaction 100 tx, .produceBatch ⟨101, 101, 101, 101⟩]

end Pyrax.Rollup
