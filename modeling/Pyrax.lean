import Pyrax.Base.Wire
import Pyrax.Base.Hex
import Pyrax.Base.Column
import Pyrax.Base.Run
import Pyrax.Base.Word
import Pyrax.Base.Sums
import Pyrax.Base.MerkleTree
import Pyrax.Base.PerfectTree
import Pyrax.Types.Primitives
import Pyrax.Types.Transaction
import Pyrax.Types.Block
import Pyrax.Types.Genesis
import Pyrax.Storage.ChainDB
import Pyrax.Base.Checks
import Pyrax.Base.Records
import Pyrax.Validation.Rules
import Pyrax.Validation.Spec
import Pyrax.Storage.Spec
import Pyrax.Ledger.Accept
import Pyrax.Ledger.Supply
import Pyrax.Ledger.Extend
import Pyrax.Storage.Linkage
import Pyrax.Storage.Canonical
import Pyrax.Ledger.Grow
import Pyrax.Ledger.Rollback
import Pyrax.Ledger.Replay
import Pyrax.Validation.Binding
import Pyrax.Mempool.Pool
import Pyrax.Rpc.Server
import Pyrax.Mempool.Admission
import Pyrax.Services.Chain
import Pyrax.Services.Payouts
import Pyrax.P2p.Lifecycle
import Pyrax.Services.Template
import Pyrax.Services.Staking
import Pyrax.Services.ActiveSet
import Pyrax.Services.Attest
import Pyrax.Node.Miner
import Pyrax.Node.Entry
import Pyrax.Node.System
import Pyrax.Node.PoolSync
import Pyrax.Node.Consensus
import Pyrax.Wallet.Spend
import Pyrax.Sync.Chain
import Pyrax.Sync.Difficulty
import Pyrax.Sync.Order
import Pyrax.Sync.Reorg
import Pyrax.Sync.Snap
import Pyrax.Rollup.SparseTree
import Pyrax.Rollup.TreeRoot
import Pyrax.Rollup.TreeProof
import Pyrax.Rollup.State
import Pyrax.Rollup.Bridge
import Pyrax.Rollup.Conservation
import Pyrax.Rollup.Withdrawal
import Pyrax.Rollup.Batch
import Pyrax.Rollup.Sequencer
import Pyrax.Rollup.Drain
import Pyrax.Rollup.Mint
import Pyrax.Rollup.Accounting
import Pyrax.Rollup.Explain
import Pyrax.Rollup.Nonce
import Pyrax.Staking.Validator
import Pyrax.Staking.Slashing
import Pyrax.Staking.Checkpoint
import Pyrax.Staking.Finality
import Pyrax.Staking.Quorum
import Pyrax.Staking.Registry
import Pyrax.Staking.Totals
import Pyrax.Staking.Unbonding
import Pyrax.Bridge.DualState
import Pyrax.Bridge.Backing
import Pyrax.Base.Locks
import Pyrax.Base.Limbs
import Pyrax.Bridge.Payout
import Pyrax.Bridge.Requests
import Pyrax.Bridge.Locking
import Pyrax.Bridge.Fees
import Pyrax.Bridge.FeeBooks
import Pyrax.Bridge.Swap
import Pyrax.Evm.Types
import Pyrax.Evm.State
import Pyrax.Evm.Commit
import Pyrax.Evm.Root
import Pyrax.Evm.Precompiles
import Pyrax.Evm.Interpreter
import Pyrax.Evm.Executor
import Pyrax.Evm.Value
import Pyrax.Evm.Failure
import Pyrax.Evm.Chain
import Pyrax.Evm.Nonces
import Pyrax.Evm.Blocks
import Pyrax.Evm.Peg
import Pyrax.Tokenomics.Grants
import Pyrax.Tokenomics.Ledger
import Pyrax.Wasm.Effects
import Pyrax.Base.Index
import Pyrax.Base.MerklePath
import Pyrax.Light.Spv
import Pyrax.Light.Chain
import Pyrax.Types.Utxo
import Pyrax.Stratum.Work
import Pyrax.Stratum.Finds
import Pyrax.Mainnet.Governance
import Pyrax.Ai.Quorum
import Pyrax.Ai.JobLedger
import Pyrax.Ai.Scheduling
import Pyrax.Ai.Sales
import Pyrax.Mempool.Books
import Pyrax.Sync.Pending
import Pyrax.Validation.Preimage
import Pyrax.Base.BigEndian
import Pyrax.Types.Target
import Pyrax.Sync.ForkChoice
import Pyrax.Rollup.Transfer
import Pyrax.Base.RunLength
import Pyrax.Rollup.Availability
import Pyrax.Rollup.TxPreimage
import Pyrax.Rollup.Inclusion
import Pyrax.Staking.Penalty
import Pyrax.Rollup.Queue
import Pyrax.Rollup.Published
import Pyrax.Rollup.BatchChain
import Pyrax.Rollup.Proving
import Pyrax.Validation.ScriptSig
import Pyrax.Base.Der
import Pyrax.Validation.Encodings
import Pyrax.Validation.Pushes
import Pyrax.Base.Weights
import Pyrax.Staking.Snapshot
import Pyrax.Staking.Intersection
import Pyrax.Staking.Offences
import Pyrax.Base.Tickets
import Pyrax.Staking.Proposers
import Pyrax.Staking.Rewards
import Pyrax.Services.Ledger
import Pyrax.Evm.Arithmetic
import Pyrax.Base.Machine
import Pyrax.Evm.Turns
import Pyrax.Evm.Gas
import Pyrax.Base.Fill
import Pyrax.Evm.Indexing
import Pyrax.Evm.Resources
import Pyrax.Base.Decoding
import Pyrax.Evm.Jumps
import Pyrax.Base.WordStack
import Pyrax.Evm.Memory
import Pyrax.Evm.Words
import Pyrax.Base.Regroup
import Pyrax.Bridge.UnifiedAddress
import Pyrax.Bridge.CrossModel
import Pyrax.Bridge.Finished
import Pyrax.Tokenomics.Curve
import Pyrax.Tokenomics.Emission
import Pyrax.Evm.BaseFee
import Pyrax.Evm.Modexp
import Pyrax.Evm.Identity
import Pyrax.Base.Listing
import Pyrax.Evm.WithdrawalRoot
import Pyrax.Base.MerkleDescent
import Pyrax.Light.Openings
import Pyrax.Base.BitPack
import Pyrax.Light.Bloom
import Pyrax.Base.Slice
import Pyrax.Wasm.HostMemory
import Pyrax.Wasm.Overlay
import Pyrax.Wasm.GasMeter
import Pyrax.Wasm.Interop
import Pyrax.Wallet.DerivationPath
import Pyrax.Wallet.Keystore
import Pyrax.Wallet.Reopening
import Pyrax.Base.ArrayHeap
import Pyrax.Base.MemoHash
import Pyrax.Stratum.Dag
import Pyrax.Stratum.TwoCaches
import Pyrax.Ai.PendingQueue
