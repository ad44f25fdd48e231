import Pyrax.Mempool.Pool
import Pyrax.Ledger.Accept

/-!
# The CPU miner loops

`run_miner` and `run_miner_with_broadcast` of `pyrax-node/src/main.rs`. Both
build a candidate on the tip from the pool's best thousand transactions, search
a nonce, validate and commit. They differ in what follows the commit: the first
takes everything that spends an input of the block out of the pool, the second
sends the block to its peers and leaves the pool as it is (`afterMined`).

The search may take minutes, and the database and the pool move on meanwhile.
So a turn of a loop is modelled in two steps, building the candidate and
committing what the search made of it, and the second one reads the database
anew, as the source does.

`DifficultyAdjustment::calculate_next` computes with `f64` and is a parameter
here, `calculateNext`.
-/

namespace Pyrax.Node

open Base ChainDB Wire

/-- The two loops, by the function that runs them. -/
inductive MinerLoop where
  | runMiner
  | runMinerWithBroadcast
  deriving DecidableEq

/-- `DifficultyAdjustment::AVERAGING_WINDOW`. -/
def AVERAGING_WINDOW : UInt64 := 720

/-- `DifficultyAdjustment::TARGET_BLOCK_TIME`, in seconds. -/
def TARGET_BLOCK_TIME : UInt64 := 10

/-- `DifficultyAdjustment::MIN_DIFFICULTY`. -/
def MIN_DIFFICULTY : UInt64 := 1

/-- `calculate_difficulty`. -/
def calculateDifficulty (calculateNext : UInt64 → UInt64 → UInt64 → UInt64) (s : ChainDB)
    (height : UInt64) : UInt64 :=
  if height ≤ AVERAGING_WINDOW then MIN_DIFFICULTY
  else
    match s.getBlockByHeight (Mempool.saturatingSub height AVERAGING_WINDOW),
      s.getBlockByHeight (height - 1) with
    | some startBlock, some endBlock =>
      let actualTime := Mempool.saturatingSub endBlock.header.timestamp startBlock.header.timestamp
      calculateNext endBlock.header.difficulty actualTime (AVERAGING_WINDOW * TARGET_BLOCK_TIME)
    | _, _ => MIN_DIFFICULTY

/-- `compute_utxo_commitment`: the number of unspent outputs and the tip. -/
def computeUtxoCommitment (C : Crypto) (s : ChainDB) : H256 :=
  let utxoCount := UInt64.ofNat s.db.utxoSet.keys.card
  if utxoCount = 0 then H256.zero
  else C.blake3 ("PYRAX_UTXO_COMMITMENT_V1".toUTF8.toList ++ encU64 utxoCount ++
    s.tip.hash.asBytes ++ encU64 s.tip.height)

/-- The block a loop starts to mine, with the nonce it starts from. -/
def candidate (C : Crypto) (calculateNext : UInt64 → UInt64 → UInt64 → UInt64) (s : ChainDB)
    (pending : List Transaction) (miner : Address) (timestamp nonce : UInt64) : Block :=
  let height := s.tip.height + 1
  let transactions := Transaction.coinbase height Stream.A.blockReward miner :: pending
  { header :=
      { version := 1
        stream := 0
        parentHash := s.tip.hash
        merkleRoot := merkleRootOf C transactions
        utxoCommitment := computeUtxoCommitment C s
        timestamp := timestamp
        difficulty := calculateDifficulty calculateNext s height
        nonce := nonce
        extraNonce := 0
        height := height
        beneficiary := miner }
    transactions := transactions }

/-- The next header to try. When the nonce wraps the extra nonce moves on, and
the clock is read again; `clock` is what it shows after so many hashes. -/
def nextHeader (clock : UInt64) (h : BlockHeader) : BlockHeader :=
  let nonce := h.nonce + 1
  if nonce = 0 then
    { h with nonce := nonce, extraNonce := h.extraNonce + 1, timestamp := clock }
  else { h with nonce := nonce }

/-- The search, with the number of hashes it may still compute. -/
def search (C : Crypto) (clock : Nat → UInt64) : Nat → BlockHeader → Option BlockHeader
  | 0, _ => none
  | left + 1, h =>
    if (h.powHash C).le h.target then some h else search C clock left (nextHeader (clock left) h)

/-- The loop gives up once `hashes > 10_000_000_000`. -/
def MAX_HASHES : Nat := 10000000000

/-- What a candidate becomes when its nonce is found. -/
def mine (C : Crypto) (clock : Nat → UInt64) (job : Block) : Option Block :=
  (search C clock (MAX_HASHES + 1) job.header).map fun h => ⟨h, job.transactions⟩

inductive MinerError where
  | validation (e : ValidationError)
  | storage (e : StorageError)
  deriving DecidableEq

/-- The end of a turn: validate, then commit. -/
def commitMined (C : Crypto) (now : UInt64) (s : ChainDB) (block : Block) :
    Except MinerError ChainDB :=
  match Validation.validateBlock C now block s with
  | .error e => .error (.validation e)
  | .ok _ =>
    match commitBlock C s block with
    | .error e => .error (.storage e)
    | .ok s' => .ok s'

/-- The outpoints `run_miner` collects for `remove_confirmed`, coinbase included. -/
def spentOutpoints (block : Block) : List OutPoint :=
  block.transactions.flatMap fun tx => tx.inputs.map (·.previousOutput)

/-- The pool after a loop committed a block. -/
def afterMined (loop : MinerLoop) (mempool : Mempool) (order : List H256) (block : Block) :
    Mempool :=
  match loop with
  | .runMiner => mempool.removeConfirmed order (spentOutpoints block)
  | .runMinerWithBroadcast => mempool

/-! ## What the loops guarantee -/

variable {C : Crypto} {now : UInt64} {s s' : ChainDB} {block job : Block}

theorem nextHeader_eq (clock : UInt64) (h : BlockHeader) : ∃ nonce extraNonce timestamp,
    nextHeader clock h
      = { h with nonce := nonce, extraNonce := extraNonce, timestamp := timestamp } := by
  unfold nextHeader
  by_cases hwrap : h.nonce + 1 = 0
  · exact ⟨_, _, _, if_pos hwrap⟩
  · exact ⟨_, h.extraNonce, h.timestamp, if_neg hwrap⟩

/-- The search changes nonces and timestamp only, and ends on a header that
meets its target. -/
theorem search_spec {clock : Nat → UInt64} : ∀ {left : Nat} {h h' : BlockHeader},
    search C clock left h = some h' →
      h'.verifyPow C = true ∧ h' = { h with
        nonce := h'.nonce, extraNonce := h'.extraNonce, timestamp := h'.timestamp }
  | 0, _, _, hs => by cases hs
  | left + 1, h, h', hs => by
    unfold search at hs
    split at hs
    · next hmeets =>
      obtain rfl := Option.some.inj hs
      exact ⟨hmeets, rfl⟩
    · obtain ⟨hpow, heq⟩ := search_spec hs
      obtain ⟨nonce, extraNonce, timestamp, hnext⟩ := nextHeader_eq (clock left) h
      rw [hnext] at heq
      exact ⟨hpow, heq⟩

/-- A mined block carries its candidate's transactions on its candidate's parent. -/
theorem mine_spec {clock : Nat → UInt64} (h : mine C clock job = some block) :
    block.header.verifyPow C = true ∧ block.transactions = job.transactions ∧
      block.header.parentHash = job.header.parentHash ∧ block.height = job.height := by
  unfold mine at h
  obtain ⟨h', hs, rfl⟩ := Option.map_eq_some_iff.mp h
  obtain ⟨hpow, heq⟩ := search_spec hs
  refine ⟨hpow, rfl, ?_, ?_⟩
  · show h'.parentHash = _
    rw [heq]
  · show h'.height = _
    rw [heq]
    rfl

/-- A loop commits exactly the valid blocks. -/
theorem commitMined_ok_iff :
    commitMined C now s block = .ok s' ↔
      Validation.BlockValid C now block s ∧ s' = committed C s block := by
  rw [← Ledger.validate_commit_iff]
  unfold commitMined
  cases Validation.validateBlock C now block s with
  | error e => simp
  | ok u =>
    cases commitBlock C s block with
    | error e => simp
    | ok t => simp

end Pyrax.Node
