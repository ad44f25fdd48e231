import Pyrax.Staking.Validator

/-!
# Checkpoints of Stream C

`pyrax-node/src/consensus/staking/checkpoint.rs`: a checkpoint collects votes
until it is justified, and a justified one may be finalized. The manager keeps
one checkpoint for each height, a multiple of the interval, and will not propose
one whose parent it does not know.

Each method of the manager has one lemma that says all it can do to the table of
checkpoints: `propose_ok` adds under a free height, `addVote_ok` and
`finalize_ok_iff` rewrite one entry.
-/

namespace Pyrax.Staking

open Base Word

inductive CheckpointStatus where
  | proposed
  | justified
  | finalized
  | rejected
  deriving DecidableEq, Repr

structure CheckpointVote where
  voter : Address
  checkpointHash : H256
  votingPower : UInt64
  signature : List UInt8
  timestamp : UInt64
  deriving DecidableEq

structure Checkpoint where
  height : UInt64
  epoch : UInt64
  blockHash : H256
  stateRoot : H256
  parentCheckpoint : H256
  validatorSetHash : H256
  status : CheckpointStatus
  votes : Column Address CheckpointVote
  votePower : UInt64
  quorum : UInt64
  proposer : Address
  createdAt : UInt64
  finalizedAt : Option UInt64
  deriving DecidableEq

namespace Checkpoint

variable (C : Crypto)

/-- `compute_validator_set_hash`: the epoch, and each member with its power. -/
def computeValidatorSetHash (set : ValidatorSet) : H256 :=
  C.blake3 (toBeBytes set.epoch ++ set.validators.flatMap fun a =>
    a.asBytes ++ ((set.votingPower.lookup a).map toBeBytes).getD [])

def new (now height epoch : UInt64) (blockHash stateRoot parentCheckpoint : H256)
    (set : ValidatorSet) (proposer : Address) : Checkpoint where
  height := height
  epoch := epoch
  blockHash := blockHash
  stateRoot := stateRoot
  parentCheckpoint := parentCheckpoint
  validatorSetHash := computeValidatorSetHash C set
  status := .proposed
  votes := ∅
  votePower := 0
  quorum := set.quorum
  proposer := proposer
  createdAt := now
  finalizedAt := none

/-- `hash`: neither votes nor status are part of it. -/
def hash (c : Checkpoint) : H256 :=
  C.blake3 (toBeBytes c.height ++ toBeBytes c.epoch ++ c.blockHash.asBytes ++ c.stateRoot.asBytes ++
    c.parentCheckpoint.asBytes ++ c.validatorSetHash.asBytes)

/-- What `add_vote` asks of a vote: the checkpoint is open, the vote is for it, and
the voter has not voted. -/
def Admits (c : Checkpoint) (vote : CheckpointVote) : Prop :=
  c.status = .proposed ∧ vote.checkpointHash = c.hash C ∧ vote.voter ∉ c.votes

instance (c : Checkpoint) (vote : CheckpointVote) : Decidable (c.Admits C vote) :=
  inferInstanceAs (Decidable (_ ∧ _ ∧ _))

/-- The checkpoint with the vote counted; the power is the one the vote names, and
`+=` wraps. -/
def count (c : Checkpoint) (vote : CheckpointVote) : Checkpoint :=
  { c with
    votePower := c.votePower + vote.votingPower
    votes := c.votes.insert vote.voter vote
    status := if c.quorum ≤ c.votePower + vote.votingPower then .justified else c.status }

/-- `add_vote`: the checkpoint afterwards and whether the vote was added. -/
def addVote (c : Checkpoint) (vote : CheckpointVote) : Checkpoint × Bool :=
  if c.status ≠ .proposed then (c, false)
  else if vote.checkpointHash ≠ c.hash C then (c, false)
  else if vote.voter ∈ c.votes then (c, false)
  else (c.count vote, true)

/-- `finalize`. -/
def finalize (c : Checkpoint) (now : UInt64) : Checkpoint × Bool :=
  if c.status ≠ .justified then (c, false)
  else ({ c with status := .finalized, finalizedAt := some now }, true)

variable {C} {c : Checkpoint} {vote : CheckpointVote}

theorem addVote_of_admits (h : c.Admits C vote) : c.addVote C vote = (c.count vote, true) := by
  unfold addVote
  rw [if_neg (not_not.mpr h.1), if_neg (not_not.mpr h.2.1), if_neg h.2.2]

theorem addVote_of_not_admits (h : ¬ c.Admits C vote) : c.addVote C vote = (c, false) := by
  unfold addVote
  split
  · rfl
  · next hs =>
    split
    · rfl
    · next hh =>
      rw [if_pos]
      exact not_not.mp fun hv => h ⟨not_not.mp hs, not_not.mp hh, hv⟩

end Checkpoint

inductive FinalityError where
  | checkpointNotFound (height : UInt64)
  | invalidHeight (expected actual : UInt64)
  | parentNotFound (hash : H256)
  | checkpointExists (height : UInt64)
  | notValidator
  | notJustified
  deriving DecidableEq

structure CheckpointManager where
  checkpoints : Column UInt64 Checkpoint
  byHash : Column H256 UInt64
  lastFinalized : UInt64
  lastJustified : UInt64
  pending : List UInt64
  deriving DecidableEq

namespace CheckpointManager

variable (C : Crypto)

def new : CheckpointManager := ⟨∅, ∅, 0, 0, []⟩

/-- The genesis checkpoint, final from the start. The clock is read twice. -/
def genesisCheckpoint (createdAt finalizedAt : UInt64) (genesisHash stateRoot : H256) :
    Checkpoint where
  height := 0
  epoch := 0
  blockHash := genesisHash
  stateRoot := stateRoot
  parentCheckpoint := H256.zero
  validatorSetHash := H256.zero
  status := .finalized
  votes := ∅
  votePower := 0
  quorum := 0
  proposer := Address.ZERO
  createdAt := createdAt
  finalizedAt := some finalizedAt

/-- `create_genesis`. -/
def createGenesis (m : CheckpointManager) (createdAt finalizedAt : UInt64)
    (genesisHash stateRoot : H256) : CheckpointManager :=
  let checkpoint := genesisCheckpoint createdAt finalizedAt genesisHash stateRoot
  { m with
    checkpoints := m.checkpoints.insert 0 checkpoint
    byHash := m.byHash.insert (checkpoint.hash C) 0 }

/-- The hash of the parent checkpoint. An unknown genesis counts as zero. -/
def parentHash (m : CheckpointManager) (height : UInt64) : Except FinalityError H256 :=
  let parentHeight := saturatingSub height CHECKPOINT_INTERVAL
  if parentHeight = 0 then
    .ok (((m.checkpoints.lookup 0).map fun c => c.hash C).getD H256.zero)
  else
    match m.checkpoints.lookup parentHeight with
    | some c => .ok (c.hash C)
    | none => .error (.parentNotFound H256.zero)

/-- `propose_checkpoint`. -/
def proposeCheckpoint (m : CheckpointManager) (now height epoch : UInt64)
    (blockHash stateRoot : H256) (set : ValidatorSet) (proposer : Address) :
    Except FinalityError (CheckpointManager × Checkpoint) :=
  if height % CHECKPOINT_INTERVAL ≠ 0 then
    .error (.invalidHeight ((height / CHECKPOINT_INTERVAL + 1) * CHECKPOINT_INTERVAL) height)
  else if height ∈ m.checkpoints then .error (.checkpointExists height)
  else
    match m.parentHash C height with
    | .error e => .error e
    | .ok parent =>
      let checkpoint := Checkpoint.new C now height epoch blockHash stateRoot parent set proposer
      .ok ({ m with
          checkpoints := m.checkpoints.insert height checkpoint
          byHash := m.byHash.insert (checkpoint.hash C) height
          pending := m.pending ++ [height] }, checkpoint)

/-- `add_vote`: the voter must be in the set it is given; its power is not read. -/
def addVote (m : CheckpointManager) (height : UInt64) (vote : CheckpointVote)
    (set : ValidatorSet) : Except FinalityError (CheckpointManager × Bool) :=
  if set.contains vote.voter = false then .error .notValidator
  else
    match m.checkpoints.lookup height with
    | none => .error (.checkpointNotFound height)
    | some c =>
      let (c', added) := c.addVote C vote
      .ok ({ m with
          checkpoints := m.checkpoints.insert height c'
          lastJustified := if c'.status = .justified then height else m.lastJustified }, added)

/-- `finalize_checkpoint`, with its reward. The parent is not looked at. -/
def finalizeCheckpoint (m : CheckpointManager) (now height : UInt64) :
    Except FinalityError (CheckpointManager × UInt64) :=
  match m.checkpoints.lookup height with
  | none => .error (.checkpointNotFound height)
  | some c =>
    if c.status ≠ .justified then .error .notJustified
    else
      .ok ({ m with
          checkpoints := m.checkpoints.insert height (c.finalize now).1
          lastFinalized := height
          pending := m.pending.filter fun h => h ≠ height }, CHECKPOINT_BASE_REWARD)

def lastFinalizedHeight (m : CheckpointManager) : UInt64 := m.lastFinalized

/-- `is_finalized`: the block is not above the last finalized checkpoint. -/
def isFinalized (m : CheckpointManager) (blockHeight : UInt64) : Bool :=
  blockHeight ≤ m.lastFinalized

/-! ## What each method does -/

variable {C} {m m' : CheckpointManager} {now height epoch : UInt64} {blockHash stateRoot : H256}
  {set : ValidatorSet} {proposer : Address} {c : Checkpoint} {vote : CheckpointVote}

theorem propose_ok (h : m.proposeCheckpoint C now height epoch blockHash stateRoot set proposer
      = .ok (m', c)) :
    height % CHECKPOINT_INTERVAL = 0 ∧ height ∉ m.checkpoints ∧ c.status = .proposed ∧
      c.votes = ∅ ∧ c.votePower = 0 ∧ c.quorum = set.quorum ∧
      m'.checkpoints = m.checkpoints.insert height c ∧ m'.lastFinalized = m.lastFinalized := by
  unfold proposeCheckpoint at h
  split at h
  · cases h
  next hheight =>
  split at h
  · cases h
  next hfree =>
  split at h
  · cases h
  next parent _ =>
  cases h
  exact ⟨not_not.mp hheight, hfree, rfl, rfl, rfl, rfl, rfl, rfl⟩

theorem addVote_ok {added : Bool} (h : m.addVote C height vote set = .ok (m', added)) :
    vote.voter ∈ set.validators ∧ ∃ c, m.checkpoints.lookup height = some c ∧
      m'.checkpoints = m.checkpoints.insert height (c.addVote C vote).1 ∧
      m'.lastFinalized = m.lastFinalized := by
  unfold addVote at h
  split at h
  · cases h
  next hmem =>
  split at h
  · cases h
  next c hc =>
  cases h
  refine ⟨?_, c, hc, rfl, rfl⟩
  exact of_decide_eq_true (Bool.not_eq_false _ ▸ hmem)

theorem finalize_ok_iff {reward : UInt64} :
    m.finalizeCheckpoint now height = .ok (m', reward) ↔
      ∃ c, m.checkpoints.lookup height = some c ∧ c.status = .justified ∧
        m' = { m with
          checkpoints := m.checkpoints.insert height
            { c with status := .finalized, finalizedAt := some now }
          lastFinalized := height
          pending := m.pending.filter fun h => h ≠ height } ∧ reward = CHECKPOINT_BASE_REWARD := by
  unfold finalizeCheckpoint
  split
  · next hnone => simp [hnone]
  next c hc =>
  split
  · next hs => simp [hc, hs]
  next hs =>
  have hj : c.status = .justified := not_not.mp hs
  simp [hc, hj, Checkpoint.finalize, eq_comm]

end CheckpointManager

/-! ## The validators of the source's tests -/

/-- `make_validator_set`: three validators with a power of 100 each. -/
def testSet : ValidatorSet where
  epoch := 1
  epochStart := 0
  validators := [testAddress 1, testAddress 2, testAddress 3]
  votingPower := (((∅ : Column Address UInt64).insert (testAddress 1) 100).insert
    (testAddress 2) 100).insert (testAddress 3) 100
  totalVotingPower := 300
  proposerIndex := 0
  selection := .roundRobin

/-- BLAKE3 of that set. -/
def testSetHash : H256 :=
  H256.ofNatBE 0x64f351657ef9471735654556937f612383ba16a42e84ab116160f94ad58e015b

/-- BLAKE3 of a genesis checkpoint on zero hashes, of a checkpoint at 100 over it and
of one at 200 over that. -/
def hashAt0 : H256 :=
  H256.ofNatBE 0x0f62050c3cc6159af83032d7738f98d49b9c986cb91ff4a5c4c5fc2dde16996e

def hashAt100 : H256 :=
  H256.ofNatBE 0x66d6b0dba2a42956866b79be74b4e28ae85906814a8d5412d8876d6386e5f426

def hashAt200 : H256 :=
  H256.ofNatBE 0x8a455285d836892d59f0ed852a6428ed1d3266f1ce0b1d5042b56fc527785938

def checkpointCrypto : Crypto := Crypto.ofTable
  [([0, 0, 0, 0, 0, 0, 0, 1] ++
      List.replicate 20 1 ++ [0, 0, 0, 0, 0, 0, 0, 100] ++
      List.replicate 20 2 ++ [0, 0, 0, 0, 0, 0, 0, 100] ++
      List.replicate 20 3 ++ [0, 0, 0, 0, 0, 0, 0, 100], testSetHash),
   (List.replicate 144 0, hashAt0),
   ([0, 0, 0, 0, 0, 0, 0, 100, 0, 0, 0, 0, 0, 0, 0, 1] ++ List.replicate 32 1 ++
      List.replicate 32 2 ++ hashAt0.asBytes ++ testSetHash.asBytes, hashAt100),
   ([0, 0, 0, 0, 0, 0, 0, 200, 0, 0, 0, 0, 0, 0, 0, 1] ++ List.replicate 32 3 ++
      List.replicate 32 4 ++ hashAt100.asBytes ++ testSetHash.asBytes, hashAt200)]

/-- A vote with the power it names. -/
def testVote (i : UInt8) (hash : H256) (power : UInt64) : CheckpointVote :=
  ⟨testAddress i, hash, power, List.replicate 64 0, 0⟩

/-- `create_genesis(H256::zero(), H256::zero())`. -/
def testGenesis : CheckpointManager :=
  CheckpointManager.new.createGenesis checkpointCrypto 0 0 H256.zero H256.zero

end Pyrax.Staking
