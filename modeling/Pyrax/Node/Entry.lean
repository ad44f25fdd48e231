import Pyrax.Rpc.Server
import Pyrax.Node.Miner

/-!
# Where blocks enter the node

The remaining callers of `commit_block` in `pyrax-node/src/main.rs`: the P2P
receiver `process_single_block`, the submit closure of the BLAKE3 stratum server
and the `submit_block` of the provider behind the KAWPOW stratum server.

The receiver validates. The closure rebuilds the block it is given in another
type and drops its transactions on the way; the provider hands its block on; and
neither calls the validator. `toBlock_not_valid` and `kawpowBlock_not_valid` say
that what these two servers build never is a valid block of positive height.
-/

namespace Pyrax.Node

open Base ChainDB Validation Wire

/-! ## The P2P receiver -/

/-- A block off the tip is looked at only when it is higher than the tip and its
parent is stored. -/
def ignored (s : ChainDB) (block : Block) : Bool :=
  decide (block.header.parentHash ≠ s.tip.hash) &&
    (decide (block.height ≤ s.tip.height) || (s.getBlock block.header.parentHash).isNone)

/-- `process_single_block`: whether the block was taken, and the database. -/
def processSingleBlock (C : Crypto) (now : UInt64) (s : ChainDB) (block : Block) :
    Bool × ChainDB :=
  if (s.getBlock (block.hash C)).isSome then (false, s)
  else if ignored s block then (false, s)
  else
    match validateBlock C now block s with
    | .error _ => (false, s)
    | .ok _ =>
      match commitBlock C s block with
      | .error _ => (false, s)
      | .ok s' => (true, s')

/-! ## The BLAKE3 stratum server -/

/-- `StreamAHeader` of `types/stream_a_block.rs`. -/
structure StreamAHeader where
  version : UInt32
  stream : UInt8
  parentHash : H256
  merkleRoot : H256
  utxoRoot : H256
  timestamp : UInt64
  difficulty : UInt64
  nonce : UInt64
  extraNonce : UInt64
  height : UInt64
  beneficiary : Address
  deriving DecidableEq

/-- `encode_for_pow`. -/
def StreamAHeader.encodeForPow (h : StreamAHeader) : List UInt8 :=
  encU32 h.version ++ encU8 h.stream ++ h.parentHash.asBytes ++ h.merkleRoot.asBytes ++
    h.utxoRoot.asBytes ++ encU64 h.timestamp ++ encU64 h.difficulty ++ encU64 h.height ++
    h.beneficiary.asBytes

def StreamAHeader.hash (C : Crypto) (h : StreamAHeader) : H256 :=
  C.blake3 (h.encodeForPow ++ encU64 h.nonce ++ encU64 h.extraNonce)

/-- The block the closure stores; the transactions of the one it was given are
not carried over. -/
def StreamAHeader.toBlock (h : StreamAHeader) : Block where
  header :=
    { version := h.version
      stream := 0
      parentHash := h.parentHash
      merkleRoot := h.merkleRoot
      utxoCommitment := h.utxoRoot
      timestamp := h.timestamp
      difficulty := h.difficulty
      nonce := h.nonce
      extraNonce := h.extraNonce
      height := h.height
      beneficiary := h.beneficiary }
  transactions := []

/-- The closure given to `set_block_submit_fn`. -/
def blake3Submit (C : Crypto) (s : ChainDB) (h : StreamAHeader) :
    Except String (H256 × ChainDB) :=
  match commitBlock C s h.toBlock with
  | .error e => .error (toString e)
  | .ok s' => .ok (h.hash C, s')

/-! ## The KAWPOW stratum server -/

/-- `DbChainProvider::submit_block`. -/
def providerSubmit (C : Crypto) (s : ChainDB) (block : Block) :
    Except String (H256 × ChainDB) :=
  match commitBlock C s block with
  | .error e => .error (toString e)
  | .ok s' => .ok (block.hash C, s')

/-- `BlockTemplate` of the stratum server. -/
structure BlockTemplate where
  height : UInt64
  parentHash : H256
  timestamp : UInt64
  difficulty : UInt64
  transactions : List Transaction
  coinbaseValue : UInt64
  deriving DecidableEq

/-- The template the mining service asks of `DbChainProvider`: difficulty `1`, a
reward of 100 PYRAX, nothing pending. -/
def providerTemplate (s : ChainDB) (timestamp : UInt64) : BlockTemplate where
  height := s.tip.height + 1
  parentHash := s.tip.hash
  timestamp := timestamp
  difficulty := 1
  transactions := []
  coinbaseValue := 100 * 100000000

/-- The fields of `MiningJob` its block is built from. -/
structure MiningJob where
  height : UInt64
  parentHash : H256
  merkleRoot : H256
  difficulty : UInt64
  timestamp : UInt64
  coinbaseTx : Transaction
  transactions : List Transaction
  deriving DecidableEq

/-- `create_job`. -/
def createJob (C : Crypto) (coinbaseAddress : Address) (template : BlockTemplate) : MiningJob :=
  let coinbaseTx := Transaction.coinbase template.height template.coinbaseValue coinbaseAddress
  { height := template.height
    parentHash := template.parentHash
    merkleRoot := merkleRootOf C (coinbaseTx :: template.transactions)
    difficulty := template.difficulty
    timestamp := template.timestamp
    coinbaseTx := coinbaseTx
    transactions := template.transactions }

/-- `build_header` and the block around it, for a share that met the target. -/
def MiningJob.block (job : MiningJob) (nonce : UInt64) (beneficiary : Address) : Block where
  header :=
    { version := 1
      stream := 1
      parentHash := job.parentHash
      merkleRoot := job.merkleRoot
      utxoCommitment := H256.zero
      timestamp := job.timestamp
      difficulty := job.difficulty
      nonce := nonce
      extraNonce := 0
      height := job.height
      beneficiary := beneficiary }
  transactions := job.coinbaseTx :: job.transactions

/-! ## What each entry lets in -/

variable {C : Crypto} {now : UInt64} {s s' : ChainDB} {block : Block} {hash : H256}

/-- The receiver takes a block iff it is new, not ignored, and valid. -/
theorem processSingleBlock_eq_true_iff :
    processSingleBlock C now s block = (true, s') ↔
      s.getBlock (block.hash C) = none ∧ ignored s block = false ∧
        BlockValid C now block s ∧ s' = committed C s block := by
  unfold processSingleBlock
  cases hnew : s.getBlock (block.hash C) with
  | some b => simp
  | none =>
    cases hign : ignored s block with
    | true => simp
    | false =>
      rw [← Ledger.validate_commit_iff]
      cases validateBlock C now block s with
      | error e => simp
      | ok u =>
        cases commitBlock C s block with
        | error e => simp
        | ok t => simp

/-- The closure takes whatever the commit takes. -/
theorem blake3Submit_ok_iff {h : StreamAHeader} :
    blake3Submit C s h = .ok (hash, s') ↔
      commitBlock C s h.toBlock = .ok s' ∧ hash = h.hash C := by
  unfold blake3Submit
  cases commitBlock C s h.toBlock with
  | error e => simp
  | ok t => simp [and_comm, eq_comm]

theorem providerSubmit_ok_iff :
    providerSubmit C s block = .ok (hash, s') ↔
      commitBlock C s block = .ok s' ∧ hash = block.hash C := by
  unfold providerSubmit
  cases commitBlock C s block with
  | error e => simp
  | ok t => simp [and_comm, eq_comm]

/-- Without transactions a block of positive height has no coinbase. -/
theorem toBlock_not_valid {h : StreamAHeader} (h0 : h.height ≠ 0) :
    ¬ BlockValid C now h.toBlock s :=
  fun hv => hv.nonempty (UInt64.pos_iff_ne_zero.mpr h0) rfl

/-- The reward of stream B is twice what the validator allows a coinbase, so no
block of the KAWPOW server is ever valid. -/
theorem kawpowBlock_not_valid (s₀ : ChainDB) (timestamp nonce : UInt64)
    (coinbaseAddress beneficiary : Address) :
    ¬ BlockValid C now
      ((createJob C coinbaseAddress (providerTemplate s₀ timestamp)).block nonce beneficiary) s := by
  intro hv
  have hbody := (validateTransactions_cons_ok_iff rfl).mp hv.body
  have hcap : (100 * 100000000 : UInt64) + 0 ≤ Stream.A.blockReward := hbody.coinbase.reward
  exact absurd hcap (by decide)

end Pyrax.Node
