import Pyrax.Evm.Executor

/-!
# The EVM chain

`BlockProducer` and `EvmChain` of `pyrax-node/src/evm/chain.rs`. Transactions wait in a
pool; producing a block drains it in order until the block's gas is used up, executes
what it takes, puts the rest back, commits the state and stores the block under its
number and its hash.

The clock is read once for a block and is an argument here. A call that panics (inside a
precompile, or where the base fee is divided by a gas target of zero) ends the process,
so a run is the calls before it: `run` gives `none` from there on.
-/

namespace Pyrax.Evm

open Base Word

/-- The fork flags are left out: nothing here reads them. -/
structure ChainConfig where
  chainId : UInt64
  blockGasLimit : UInt64
  baseFeePerGas : UInt64
  blockTimeMs : UInt64
  deriving DecidableEq

def ChainConfig.default : ChainConfig := ⟨7777, 30000000, 1000000000, 2000⟩

structure EvmBlockHeader where
  number : UInt64
  hash : B256
  parentHash : B256
  stateRoot : B256
  transactionsRoot : B256
  receiptsRoot : B256
  logsBloom : List UInt8
  difficulty : UInt64
  gasLimit : UInt64
  gasUsed : UInt64
  timestamp : UInt64
  extraData : List UInt8
  mixHash : B256
  nonce : UInt64
  baseFeePerGas : UInt64
  withdrawalsRoot : Option B256
  blobGasUsed : Option UInt64
  excessBlobGas : Option UInt64
  deriving DecidableEq

structure TransactionReceipt where
  transactionHash : B256
  transactionIndex : UInt64
  blockHash : B256
  blockNumber : UInt64
  sender : Address
  recipient : Option Address
  cumulativeGasUsed : UInt64
  gasUsed : UInt64
  contractAddress : Option Address
  logs : List Log
  logsBloom : List UInt8
  status : UInt8
  effectiveGasPrice : UInt64
  deriving DecidableEq

structure EvmBlock where
  header : EvmBlockHeader
  transactions : List SignedTransaction
  receipts : List TransactionReceipt
  deriving DecidableEq

def zeroHash : B256 := Vector.replicate 32 0

namespace EvmBlock

def genesis (config : ChainConfig) (timestamp : UInt64) : EvmBlock where
  header :=
    { number := 0
      hash := zeroHash
      parentHash := zeroHash
      stateRoot := zeroHash
      transactionsRoot := zeroHash
      receiptsRoot := zeroHash
      logsBloom := List.replicate 256 0
      difficulty := 0
      gasLimit := config.blockGasLimit
      gasUsed := 0
      timestamp := timestamp
      extraData := "PYRAX EVM Genesis".toUTF8.toList
      mixHash := zeroHash
      nonce := 0
      baseFeePerGas := config.baseFeePerGas
      withdrawalsRoot := none
      blobGasUsed := none
      excessBlobGas := none }
  transactions := []
  receipts := []

/-- What is hashed of a block. -/
def hashBytes (header : EvmBlockHeader) : List UInt8 :=
  Word.toBeBytes header.number ++ header.parentHash.toList ++ header.stateRoot.toList ++
    header.transactionsRoot.toList ++ Word.toBeBytes header.timestamp

def computeHash (C : Crypto) (block : EvmBlock) : B256 := (C.blake3 (hashBytes block.header)).bytes

end EvmBlock

def computeTransactionsRoot (C : Crypto) (txs : List SignedTransaction) : B256 :=
  (C.blake3 (txs.flatMap fun tx => tx.hash.toList)).bytes

def computeReceiptsRoot (C : Crypto) (receipts : List TransactionReceipt) : B256 :=
  (C.blake3 (receipts.flatMap fun receipt =>
    receipt.transactionHash.toList ++ [receipt.status] ++
      Word.toBeBytes receipt.cumulativeGasUsed)).bytes

/-- `bloom[idx / 8] |= 1 << (idx % 8)` for the first byte of the hash. -/
def bloomMark (C : Crypto) (bloom : List UInt8) (bytes : List UInt8) : List UInt8 :=
  let idx := ((C.blake3 bytes).bytes[0]).toNat % 256
  bloom.modify (idx / 8) fun byte => byte ||| (1 <<< UInt8.ofNat (idx % 8))

def computeLogsBloom (C : Crypto) (logs : List Log) : List UInt8 :=
  logs.foldl (fun bloom log =>
    log.topics.foldl (fun bloom topic => bloomMark C bloom topic.toList)
      (bloomMark C bloom log.address.toList)) (List.replicate 256 0)

/-! ## Producing a block -/

structure BlockProducer where
  config : ChainConfig
  coinbase : Address
  pendingTransactions : List SignedTransaction
  lastBlockTime : UInt64
  deriving DecidableEq

/-- The variables of the loop over the drained pool. -/
structure Producing where
  state : StateDB
  pending : List SignedTransaction
  executedTxs : List SignedTransaction
  receipts : List TransactionReceipt
  cumulativeGas : UInt64
  allLogs : List Log
  deriving DecidableEq

/-- `recover_sender().unwrap_or([0u8; 20])`. -/
def SignedTransaction.senderOrZero (tx : SignedTransaction) : Address :=
  tx.recoverSender.getD (Vector.replicate 20 0)

namespace Producing

/-- One turn: back to the pool once the gas is used up, else executed. -/
def turn (K : Curves) (C : Crypto) (config : ChainConfig) (ctx : TransactionContext)
    (p : Producing) (tx : SignedTransaction) : Option Producing :=
  if config.blockGasLimit ≤ p.cumulativeGas then some { p with pending := p.pending ++ [tx] }
  else
    (EvmExecutor.executeTransaction K C p.state tx.transaction tx.senderOrZero ctx).map
      fun (state, result) =>
        let cumulativeGas := p.cumulativeGas + result.gasUsed
        let receipt : TransactionReceipt :=
          { transactionHash := tx.hash
            transactionIndex := UInt64.ofNat p.executedTxs.length
            blockHash := zeroHash
            blockNumber := ctx.blockNumber
            sender := tx.senderOrZero
            recipient := tx.transaction.recipient
            cumulativeGasUsed := cumulativeGas
            gasUsed := result.gasUsed
            contractAddress := result.contractAddress
            logs := result.logs
            logsBloom := computeLogsBloom C result.logs
            status := if result.success then 1 else 0
            effectiveGasPrice := tx.transaction.effectiveGasPrice ctx.blockBasefee }
        { state, pending := p.pending, executedTxs := p.executedTxs ++ [tx],
          receipts := p.receipts ++ [receipt], cumulativeGas,
          allLogs := p.allLogs ++ result.logs }

def drain (K : Curves) (C : Crypto) (config : ChainConfig) (ctx : TransactionContext) :
    Producing → List SignedTransaction → Option Producing
  | p, [] => some p
  | p, tx :: txs => (p.turn K C config ctx tx).bind fun p => drain K C config ctx p txs

/-- The loop starts with an empty pool, to which only it adds. -/
def start (state : StateDB) : Producing := ⟨state, [], [], [], 0, []⟩

end Producing

namespace BlockProducer

def new (config : ChainConfig) (coinbase : Address) : BlockProducer := ⟨config, coinbase, [], 0⟩

def addTransaction (producer : BlockProducer) (tx : SignedTransaction) : BlockProducer × B256 :=
  ({ producer with pendingTransactions := producer.pendingTransactions ++ [tx] }, tx.hash)

/-- `parent_base_fee.saturating_mul(gas_used_delta) / parent_gas_target / 8`. -/
def baseFeeDelta (baseFee gasDelta gasTarget : UInt64) : UInt64 :=
  UInt64.ofNat (min (baseFee.toNat * gasDelta.toNat) (2 ^ 64 - 1) / gasTarget.toNat / 8)

/-- `none` is the division by a gas target of zero. -/
def calculateBaseFee (producer : BlockProducer) (parent : EvmBlock) : Option UInt64 :=
  let gasTarget := parent.header.gasLimit / 2
  let gasUsed := parent.header.gasUsed
  let baseFee := parent.header.baseFeePerGas
  if gasUsed = gasTarget then some baseFee
  else if gasTarget < gasUsed then
    if gasTarget = 0 then none
    else some (saturatingAdd baseFee (max (baseFeeDelta baseFee (gasUsed - gasTarget) gasTarget) 1))
  else some (max (saturatingSub baseFee (baseFeeDelta baseFee (gasTarget - gasUsed) gasTarget))
    producer.config.baseFeePerGas)

/-- The context of the next block. -/
def context (producer : BlockProducer) (parent : EvmBlock) (now baseFee : UInt64) :
    TransactionContext where
  blockNumber := parent.header.number + 1
  blockTimestamp := max now (parent.header.timestamp + producer.config.blockTimeMs / 1000)
  blockCoinbase := producer.coinbase
  blockGasLimit := producer.config.blockGasLimit
  blockDifficulty := 0
  blockBasefee := baseFee
  chainId := producer.config.chainId
  prevRandao := parent.header.hash

/-- The block made of what the loop leaves, hashed and with its hash in the receipts. -/
def sealBlock (C : Crypto) (config : ChainConfig) (parent : EvmBlock) (ctx : TransactionContext)
    (stateRoot : B256) (p : Producing) : EvmBlock :=
  let header : EvmBlockHeader :=
    { number := ctx.blockNumber
      hash := zeroHash
      parentHash := parent.header.hash
      stateRoot := stateRoot
      transactionsRoot := computeTransactionsRoot C p.executedTxs
      receiptsRoot := computeReceiptsRoot C p.receipts
      logsBloom := computeLogsBloom C p.allLogs
      difficulty := 0
      gasLimit := config.blockGasLimit
      gasUsed := p.cumulativeGas
      timestamp := ctx.blockTimestamp
      extraData := []
      mixHash := zeroHash
      nonce := 0
      baseFeePerGas := ctx.blockBasefee
      withdrawalsRoot := none
      blobGasUsed := none
      excessBlobGas := none }
  let hash := EvmBlock.computeHash C ⟨header, p.executedTxs, p.receipts⟩
  ⟨{ header with hash := hash }, p.executedTxs, p.receipts.map ({ · with blockHash := hash })⟩

def produceBlock (K : Curves) (C : Crypto) (producer : BlockProducer) (parent : EvmBlock)
    (state : StateDB) (now : UInt64) : Option (BlockProducer × StateDB × EvmBlock) := do
  let baseFee ← producer.calculateBaseFee parent
  let ctx := producer.context parent now baseFee
  let p ← Producing.drain K C producer.config ctx (.start state) producer.pendingTransactions
  let state := p.state.commit C
  return ({ producer with pendingTransactions := p.pending, lastBlockTime := ctx.blockTimestamp },
    state, sealBlock C producer.config parent ctx state.stateRoot p)

end BlockProducer

/-! ## The chain -/

structure EvmChain where
  config : ChainConfig
  blocks : Column UInt64 EvmBlock
  blockHashes : Column B256 UInt64
  head : UInt64
  state : StateDB
  producer : BlockProducer
  deriving DecidableEq

namespace EvmChain

def new (config : ChainConfig) (coinbase : Address) (timestamp : UInt64) : EvmChain :=
  let genesis := EvmBlock.genesis config timestamp
  ⟨config, (∅ : Column UInt64 EvmBlock).insert 0 genesis,
    (∅ : Column B256 UInt64).insert genesis.header.hash 0, 0, .new, .new config coinbase⟩

def getBlock (chain : EvmChain) (number : UInt64) : Option EvmBlock := chain.blocks.lookup number

def getBlockByHash (chain : EvmChain) (hash : B256) : Option EvmBlock := do
  let number ← chain.blockHashes.lookup hash
  chain.getBlock number

def latestBlock (chain : EvmChain) : Option EvmBlock := chain.getBlock chain.head

def submitTransaction (chain : EvmChain) (tx : SignedTransaction) :
    Except String (EvmChain × B256) :=
  if tx.transaction.chainId ≠ chain.config.chainId then .error "Invalid chain ID"
  else
    let (producer, hash) := chain.producer.addTransaction tx
    .ok ({ chain with producer }, hash)

/-- `produce_next_block`; the outer `none` is a panic, the inner one a missing head. -/
def produceNextBlock (K : Curves) (C : Crypto) (chain : EvmChain) (now : UInt64) :
    Option (EvmChain × Option EvmBlock) :=
  match chain.latestBlock with
  | none => some (chain, none)
  | some parent =>
    (chain.producer.produceBlock K C parent chain.state now).map fun (producer, state, block) =>
      ({ chain with
          blocks := chain.blocks.insert block.header.number block
          blockHashes := chain.blockHashes.insert block.header.hash block.header.number
          head := block.header.number
          state
          producer }, some block)

/-- A new chain has the first block only. -/
theorem getBlock_new {config : ChainConfig} {coinbase : Address} {timestamp n : UInt64}
    {block : EvmBlock} (h : (new config coinbase timestamp).getBlock n = some block) :
    n = 0 ∧ block = EvmBlock.genesis config timestamp := by
  by_cases hn : n = 0
  · rw [hn] at h
    cases h.symm.trans (Finmap.lookup_insert _)
    exact ⟨hn, rfl⟩
  · unfold getBlock new at h
    rw [Finmap.lookup_insert_of_ne _ hn, Finmap.lookup_empty] at h
    cases h

end EvmChain

/-- The calls of a run. -/
inductive ChainOp where
  | submitTransaction (tx : SignedTransaction)
  | produceNextBlock (now : UInt64)

namespace ChainOp

def apply (K : Curves) (C : Crypto) (chain : EvmChain) : ChainOp → Option EvmChain
  | submitTransaction tx => match chain.submitTransaction tx with
    | .ok (chain, _) => some chain
    | .error _ => some chain
  | produceNextBlock now => (chain.produceNextBlock K C now).map Prod.fst

/-- The chain after the calls, as long as none panics. -/
def run (K : Curves) (C : Crypto) : EvmChain → List ChainOp → Option EvmChain
  | chain, [] => some chain
  | chain, op :: ops => (op.apply K C chain).bind fun chain => run K C chain ops

/-- What the calls of a run give, one after the other. -/
def gather {α : Type} (K : Curves) (C : Crypto) (f : EvmChain → ChainOp → List α) :
    EvmChain → List ChainOp → List α
  | _, [] => []
  | chain, op :: ops =>
    f chain op ++ ((op.apply K C chain).map fun chain => gather K C f chain ops).getD []

variable {K : Curves} {C : Crypto} {chain chain' : EvmChain} {now : UInt64}

theorem gather_append {α : Type} {f : EvmChain → ChainOp → List α} {ops : List ChainOp}
    (hrun : run K C chain ops = some chain') (post : List ChainOp) :
    gather K C f chain (ops ++ post) = gather K C f chain ops ++ gather K C f chain' post := by
  induction ops generalizing chain with
  | nil =>
    cases hrun
    rfl
  | cons op ops ih =>
    obtain ⟨chain₁, hfirst, hrest⟩ := Option.bind_eq_some_iff.mp hrun
    show f chain op ++ ((op.apply K C chain).map fun chain =>
      gather K C f chain (ops ++ post)).getD [] = _
    rw [hfirst, Option.map_some, Option.getD_some, ih hrest, gather, hfirst, Option.map_some,
      Option.getD_some, List.append_assoc]

theorem gather_snoc {α : Type} {f : EvmChain → ChainOp → List α} {ops : List ChainOp}
    {op : ChainOp} (hrun : run K C chain ops = some chain') :
    gather K C f chain (ops ++ [op]) = gather K C f chain ops ++ f chain' op := by
  rw [gather_append hrun]
  show _ ++ (f chain' op ++ ((op.apply K C chain').map fun _ => []).getD []) = _
  cases op.apply K C chain' with
  | none =>
    rw [Option.map_none, Option.getD_none, List.append_nil]
  | some chain =>
    rw [Option.map_some, Option.getD_some, List.append_nil]

theorem run_snoc (chain : EvmChain) (ops : List ChainOp) (op : ChainOp) :
    run K C chain (ops ++ [op]) = (run K C chain ops).bind (op.apply K C) := by
  induction ops generalizing chain with
  | nil =>
    show (op.apply K C chain).bind (fun chain => some chain) = op.apply K C chain
    cases op.apply K C chain with
    | none => rfl
    | some chain => rfl
  | cons first ops ih =>
    show (first.apply K C chain).bind (fun chain => run K C chain (ops ++ [op])) = _
    simp only [ih]
    exact (Option.bind_assoc _ _ _).symm

/-- A block is produced on the head: the pool is drained, the state committed and the
block stored. -/
theorem apply_produce {parent : EvmBlock} (hparent : chain.latestBlock = some parent)
    (h : (produceNextBlock now).apply K C chain = some chain') :
    ∃ baseFee p, chain.producer.calculateBaseFee parent = some baseFee ∧
      Producing.drain K C chain.producer.config (chain.producer.context parent now baseFee)
        (.start chain.state) chain.producer.pendingTransactions = some p ∧
      let ctx := chain.producer.context parent now baseFee
      let block := BlockProducer.sealBlock C chain.producer.config parent ctx
        (p.state.commit C).stateRoot p
      chain' = { chain with
        blocks := chain.blocks.insert block.header.number block
        blockHashes := chain.blockHashes.insert block.header.hash block.header.number
        head := block.header.number
        state := p.state.commit C
        producer := { chain.producer with
          pendingTransactions := p.pending, lastBlockTime := ctx.blockTimestamp } } := by
  rw [apply, EvmChain.produceNextBlock, hparent] at h
  dsimp only at h
  rw [Option.map_map] at h
  obtain ⟨made, hmade, rfl⟩ := Option.map_eq_some_iff.mp h
  obtain ⟨baseFee, hfee, hmade⟩ := Option.bind_eq_some_iff.mp hmade
  obtain ⟨p, hdrain, hmade⟩ := Option.bind_eq_some_iff.mp hmade
  cases hmade
  exact ⟨baseFee, p, hfee, hdrain, rfl⟩

/-- Without a head nothing is produced. -/
theorem apply_produce_of_none (hnone : chain.latestBlock = none)
    (h : (produceNextBlock now).apply K C chain = some chain') : chain' = chain := by
  rw [apply, EvmChain.produceNextBlock, hnone] at h
  exact (Option.some.inj h).symm

/-- A transaction is refused or joins the pool. -/
theorem apply_submit {tx : SignedTransaction}
    (h : (submitTransaction tx).apply K C chain = some chain') :
    chain' = chain ∨ chain' = { chain with producer := { chain.producer with
      pendingTransactions := chain.producer.pendingTransactions ++ [tx] } } := by
  rw [apply, EvmChain.submitTransaction] at h
  split at h
  · next hok =>
    split at hok
    · cases hok
    · cases hok
      exact .inr (Option.some.inj h).symm
  · exact .inl (Option.some.inj h).symm

/-- A block that is stored after a call was stored before it, or is the one it made. -/
theorem getBlock_of_apply {op : ChainOp} {n : UInt64} {block : EvmBlock}
    (h : op.apply K C chain = some chain') (hblock : chain'.getBlock n = some block) :
    chain.getBlock n = some block ∨
      ∃ now parent baseFee p, op = produceNextBlock now ∧ chain.latestBlock = some parent ∧
        chain.producer.calculateBaseFee parent = some baseFee ∧
        Producing.drain K C chain.producer.config (chain.producer.context parent now baseFee)
          (.start chain.state) chain.producer.pendingTransactions = some p ∧
        block = BlockProducer.sealBlock C chain.producer.config parent
          (chain.producer.context parent now baseFee) (p.state.commit C).stateRoot p := by
  cases op with
  | submitTransaction tx =>
    rcases apply_submit h with rfl | rfl
    · exact .inl hblock
    · exact .inl hblock
  | produceNextBlock now =>
    cases hlatest : chain.latestBlock with
    | none => exact .inl (apply_produce_of_none hlatest h ▸ hblock)
    | some parent =>
      obtain ⟨baseFee, p, hfee, hdrain, rfl⟩ := apply_produce hlatest h
      unfold EvmChain.getBlock at hblock
      by_cases hn : n = (BlockProducer.sealBlock C chain.producer.config parent
          (chain.producer.context parent now baseFee) (p.state.commit C).stateRoot p).header.number
      · rw [hn, Finmap.lookup_insert] at hblock
        exact .inr ⟨now, parent, baseFee, p, rfl, rfl, hfee, hdrain, (Option.some.inj hblock).symm⟩
      · rw [Finmap.lookup_insert_of_ne _ hn] at hblock
        exact .inl hblock

end ChainOp

end Pyrax.Evm
