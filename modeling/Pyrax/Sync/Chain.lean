import Pyrax.Validation.Rules
import Mathlib.Data.Finset.Basic

/-!
# Chain synchronisation

`pyrax-node/src/sync/mod.rs`: headers first, then blocks, committed in the order
of their heights, and the handling of a competing chain. The locks of the source
are held within one call, so a call is a function of the whole `ChainSync`; one
that can fail returns the state it leaves beside its result, since a failed call
may have changed it.

Two details decide the theorems about this module. `processBlock` validates a
block against the tip of the moment it arrives, before it goes into the buffer.
And `findForkPoint` takes any stored block for a common ancestor, on the
canonical chain or not, and falls back to the genesis block for a parent it has
never seen.

What peers reported, the download attempts and the progress figures are left
out; nothing here reads them.
-/

namespace Pyrax

open Base ChainDB Validation

inductive SyncState where
  | idle
  | downloadingHeaders (targetHeight current : UInt64)
  | downloadingBlocks (targetHeight current : UInt64)
  | processingBlocks (remaining : Nat)
  | reorging (fromHeight toHeight : UInt64)
  deriving DecidableEq

structure BlockDownloadTask where
  hash : H256
  height : UInt64
  header : BlockHeader
  deriving DecidableEq

/-- The errors the modelled calls return; `validationFailed` keeps the error
whose text the source stores. -/
inductive SyncError where
  | validationFailed (e : ValidationError)
  | commitFailed (msg : String)
  | databaseError (msg : String)
  | blockNotFound (hash : H256)
  | forkPointNotFound
  deriving DecidableEq

structure ChainSync where
  db : ChainDB
  state : SyncState
  pendingHeaders : List BlockDownloadTask
  pendingBlocks : Column UInt64 Block
  downloading : Finset H256

inductive ReorgResult where
  | notNeeded
  | rolledBack (oldHeight newHeight : UInt64) (blocksRemoved : Nat)
  deriving DecidableEq

namespace ChainSync

variable (C : Crypto)

def new (db : ChainDB) : ChainSync := ⟨db, .idle, [], ∅, ∅⟩

@[simp] theorem new_db (db : ChainDB) : (new db).db = db := rfl

/-! ## Headers -/

/-- Whether a header connects to our chain or to the last pending header. -/
def connects (s : ChainSync) (pending : List BlockDownloadTask) (header : BlockHeader) : Bool :=
  if header.height = s.db.tip.height + 1 then header.parentHash == s.db.tip.hash
  else
    match pending.getLast? with
    | some last => header.parentHash == last.hash && header.height == last.height + 1
    | none => s.db.hasBlock header.parentHash

/-- One turn of the header loop: the queue and the number added so far. -/
def addHeader (now : UInt64) (s : ChainSync) (acc : List BlockDownloadTask × Nat)
    (header : BlockHeader) : List BlockDownloadTask × Nat :=
  if s.db.hasBlock (header.hash C) then acc
  else if acc.1.any fun t => t.hash == header.hash C then acc
  else if s.connects acc.1 header = false then acc
  else
    match validateHeader C now header with
    | .error _ => acc
    | .ok () => (acc.1 ++ [⟨header.hash C, header.height, header⟩], acc.2 + 1)

/-- `process_headers`: the state and the number of headers added. It never
fails. -/
def processHeaders (now : UInt64) (headers : List BlockHeader) (s : ChainSync) :
    ChainSync × Nat :=
  let acc := headers.foldl (addHeader C now s) (s.pendingHeaders, 0)
  let target := (acc.1.getLast?.map (·.height)).getD s.db.tip.height
  let state :=
    if 0 < acc.2 ∧ s.state = .idle then .downloadingBlocks target s.db.tip.height else s.state
  ({ s with pendingHeaders := acc.1, state := state }, acc.2)

/-! ## Blocks -/

/-- The loop of `try_commit_blocks`. A turn that commits takes a block out of the
buffer, so one turn more than it holds blocks is fuel enough. -/
def commitLoop (ourHeight : UInt64) : Nat → Nat → ChainSync → ChainSync × Except SyncError Nat
  | 0, committed, s => (s, .ok committed)
  | fuel + 1, committed, s =>
    let nextHeight := ourHeight + UInt64.ofNat committed + 1
    match s.pendingBlocks.lookup nextHeight with
    | none => (s, .ok committed)
    | some block =>
      let s₁ := { s with pendingBlocks := s.pendingBlocks.erase nextHeight }
      if block.header.parentHash ≠ s.db.tip.hash then
        -- put it back, not ready yet
        ({ s₁ with pendingBlocks := s₁.pendingBlocks.insert nextHeight block }, .ok committed)
      else
        match commitBlock C s.db block with
        | .ok db => commitLoop ourHeight fuel (committed + 1) { s₁ with db := db }
        | .error e => (s₁, .error (.commitFailed (toString e)))

/-- The state a commit leaves: idle when nothing is pending any more. -/
def syncStateAfter (s : ChainSync) : SyncState :=
  if s.pendingHeaders = [] ∧ s.pendingBlocks.keys = ∅ then .idle
  else
    .downloadingBlocks ((s.pendingHeaders.getLast?.map (·.height)).getD s.db.tip.height)
      s.db.tip.height

/-- `try_commit_blocks`. -/
def tryCommitBlocks (s : ChainSync) : ChainSync × Except SyncError Nat :=
  match commitLoop C s.db.tip.height (s.pendingBlocks.keys.card + 1) 0 s with
  | (s', .ok committed) =>
    (if 0 < committed then { s' with state := s'.syncStateAfter } else s', .ok committed)
  | (s', .error e) => (s', .error e)

/-- `pending_headers.retain(|t| t.hash != hash)`. -/
def forgetHeader (s : ChainSync) (hash : H256) : ChainSync :=
  { s with pendingHeaders := s.pendingHeaders.filter fun t => t.hash ≠ hash }

/-- The block goes into the buffer under its height. -/
def buffer (s : ChainSync) (block : Block) : ChainSync :=
  { s with pendingBlocks := s.pendingBlocks.insert block.height block }

/-- `process_block`, at the time `now`. -/
def processBlock (now : UInt64) (block : Block) (s : ChainSync) :
    ChainSync × Except SyncError Unit :=
  let hash := block.hash C
  let s₁ := { s with downloading := s.downloading.erase hash }
  match validateBlock C now block s₁.db with
  | .error e => (s₁.forgetHeader hash, .error (.validationFailed e))
  | .ok () =>
    let r := tryCommitBlocks C ((s₁.buffer block).forgetHeader hash)
    (r.1, r.2.map fun _ => ())

/-! ## Reorganisations -/

/-- `MAX_ITERATIONS` of the fork point search. -/
def MAX_ITERATIONS : Nat := 10000

/-- The search loop of `find_fork_point`. Their hash never moves: the source
has no way to ask for their ancestors. -/
def forkPointLoop (db : ChainDB) (theirs : H256) : Nat → UInt64 → Except SyncError ChainTip
  | 0, _ => .error .forkPointNotFound
  | fuel + 1, ourHeight =>
    if db.hasBlock theirs then
      match db.getBlock theirs with
      | some block => .ok ⟨block.height, theirs, block.header.difficulty⟩
      | none => .error (.blockNotFound theirs)
    else
      -- one step down our own chain, where there is a block to step on
      let ourHeight :=
        if 0 < ourHeight ∧ (db.getBlockByHeight (ourHeight - 1)).isSome then ourHeight - 1
        else ourHeight
      if ourHeight = 0 then
        match db.getBlockByHeight 0 with
        | some genesis => .ok ⟨0, genesis.hash C, genesis.header.difficulty⟩
        | none => .error (.databaseError "No genesis block")
      else forkPointLoop db theirs fuel ourHeight

/-- `find_fork_point`. -/
def findForkPoint (db : ChainDB) (ours theirs : H256) : Except SyncError ChainTip :=
  match db.getBlock ours with
  | none => .error (.blockNotFound ours)
  | some block => forkPointLoop C db theirs MAX_ITERATIONS block.height

/-- `handle_reorg`. The difficulty of the new header alone is compared with the
total of our chain. -/
def handleReorg (newTip : BlockHeader) (s : ChainSync) :
    ChainSync × Except SyncError ReorgResult :=
  let ourTip := s.db.tip
  if newTip.difficulty ≤ ourTip.totalDifficulty then (s, .ok .notNeeded)
  else
    match findForkPoint C s.db ourTip.hash newTip.parentHash with
    | .error e => (s, .error e)
    | .ok forkPoint =>
      if ourTip.height ≤ forkPoint.height then (s, .ok .notNeeded)
      else
        ({ s with db := rollbackTo C s.db forkPoint.height, state := .idle },
          .ok (.rolledBack ourTip.height forkPoint.height (ourTip.height - forkPoint.height).toNat))

end ChainSync

/-! ## Fork choice -/

inductive ForkChoice where
  | A
  | B
  deriving DecidableEq

/-- `fork_choice`: the higher total difficulty, on a tie the lower hash. -/
def forkChoice (tipA tipB : ChainTip) : ForkChoice :=
  if tipB.totalDifficulty < tipA.totalDifficulty then .A
  else if tipA.totalDifficulty < tipB.totalDifficulty then .B
  else if tipA.hash.lt tipB.hash then .A
  else .B

end Pyrax
