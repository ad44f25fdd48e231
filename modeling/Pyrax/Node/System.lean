import Pyrax.Node.Entry
import Pyrax.Services.Chain

/-!
# The node as a transition system

The database and the pool are shared by every task of the node; a step is one
task doing one thing to them. `NodeStep` has a constructor per task: a
transaction enters the pool, a miner loop starts on a candidate or commits what
it found, and a block arrives through the P2P receiver, the chain service, RPC
`submit_block` or one of the stratum servers. Calls that fail change nothing and
are not steps.

Whatever the task, a step either leaves the database alone or commits the block
its event carries, and the tasks that validate commit valid blocks only. That is
`NodeStep.db_cases`, and the invariants of the node are derived from it.
-/

namespace Pyrax.Node

open Base ChainDB Validation Rpc

structure State where
  db : ChainDB
  mempool : Mempool
  cachedTip : ChainTip
  /-- What each miner loop is working on. -/
  job : MinerLoop → Option Block

/-- A node on a path that holds no database yet. -/
def start (C : Crypto) (network : NetworkId) : State where
  db := openNew C network
  mempool := Mempool.new MempoolConfig.default
  cachedTip := (openNew C network).tip
  job _ := none

/-- The chain service over the node's database and pool. -/
def State.service (n : State) : ChainService :=
  ⟨n.db, n.mempool, ChainServiceConfig.default, n.cachedTip⟩

def State.setJob (n : State) (loop : MinerLoop) (job : Option Block) : State :=
  { n with job := Function.update n.job loop job }

/-- What happens to a node. Events that commit a block carry the time. -/
inductive NodeEvent where
  | addTx (tx : Transaction) (inputValue : UInt64)
  | startMining (loop : MinerLoop) (order : List H256) (miner : Address) (timestamp nonce : UInt64)
  | minedBlock (loop : MinerLoop) (now : UInt64) (order : List H256) (block : Block)
  | receivedBlock (now : UInt64) (block : Block)
  | serviceBlock (now : UInt64) (block : Block)
  | rpcBlock (now : UInt64) (blockHex : String)
  | blake3Block (now : UInt64) (header : StreamAHeader)
  | kawpowBlock (now : UInt64) (block : Block)

namespace NodeEvent

/-- The block an event is about. -/
def block? : NodeEvent → Option Block
  | addTx _ _ => none
  | startMining _ _ _ _ _ => none
  | minedBlock _ _ _ block => some block
  | receivedBlock _ block => some block
  | serviceBlock _ block => some block
  | rpcBlock _ blockHex =>
    match decodeParam Block.deserialize .invalidBlock blockHex with
    | .ok block => some block
    | .error _ => none
  | blake3Block _ header => some header.toBlock
  | kawpowBlock _ block => some block

/-- The time at which an event's block is committed. -/
def now : NodeEvent → UInt64
  | addTx _ _ => 0
  | startMining _ _ _ _ _ => 0
  | minedBlock _ now _ _ => now
  | receivedBlock now _ => now
  | serviceBlock now _ => now
  | rpcBlock now _ => now
  | blake3Block now _ => now
  | kawpowBlock now _ => now

/-- The task calls the validator before it commits. -/
def validates : NodeEvent → Bool
  | rpcBlock _ _ => false
  | blake3Block _ _ => false
  | kawpowBlock _ _ => false
  | _ => true

/-- The block of an RPC call is what its text decodes to. -/
theorem block?_rpcBlock_iff {now : UInt64} {blockHex : String} {b : Block} :
    (rpcBlock now blockHex).block? = some b ↔
      decodeParam Block.deserialize .invalidBlock blockHex = .ok b := by
  show (match decodeParam Block.deserialize .invalidBlock blockHex with
    | .ok block => some block
    | .error _ => none) = some b ↔ _
  cases decodeParam Block.deserialize .invalidBlock blockHex with
  | ok block => simp
  | error err => simp

end NodeEvent

/-- One step of the node. -/
inductive NodeStep (C : Crypto) (calculateNext : UInt64 → UInt64 → UInt64 → UInt64) :
    State → NodeEvent → State → Prop where
  | addTx {n : State} {tx : Transaction} {inputValue : UInt64} {m : Mempool} :
      (∀ o ∈ tx.spends, (n.db.getUtxo o).isSome = true) →
      n.mempool.add C tx inputValue = .ok m →
      NodeStep C calculateNext n (.addTx tx inputValue) { n with mempool := m }
  | startMining {n : State} {loop : MinerLoop} {order : List H256} {miner : Address}
      {timestamp nonce : UInt64} :
      n.mempool.Enumerates order →
      NodeStep C calculateNext n (.startMining loop order miner timestamp nonce)
        (n.setJob loop (some (candidate C calculateNext n.db (n.mempool.getPending order 1000)
          miner timestamp nonce)))
  | minedBlock {n : State} {loop : MinerLoop} {now : UInt64} {order : List H256}
      {job block : Block} {clock : Nat → UInt64} {s' : ChainDB} :
      n.job loop = some job → mine C clock job = some block →
      n.mempool.Enumerates order → commitMined C now n.db block = .ok s' →
      NodeStep C calculateNext n (.minedBlock loop now order block)
        ({ n with db := s', mempool := afterMined loop n.mempool order block }.setJob loop none)
  | receivedBlock {n : State} {now : UInt64} {block : Block} {s' : ChainDB} :
      processSingleBlock C now n.db block = (true, s') →
      NodeStep C calculateNext n (.receivedBlock now block) { n with db := s' }
  | serviceBlock {n : State} {now : UInt64} {block : Block} {hash : H256} {svc : ChainService} :
      n.service.processBlock C now block = .ok (hash, svc) →
      NodeStep C calculateNext n (.serviceBlock now block)
        { n with db := svc.db, mempool := svc.mempool, cachedTip := svc.cachedTip }
  | rpcBlock {n : State} {now : UInt64} {blockHex : String} {r : RpcSubmitResult} {s' : ChainDB} :
      submitBlock C n.db blockHex = .ok (r, s') → r.accepted = true →
      NodeStep C calculateNext n (.rpcBlock now blockHex) { n with db := s' }
  | blake3Block {n : State} {now : UInt64} {header : StreamAHeader} {hash : H256} {s' : ChainDB} :
      blake3Submit C n.db header = .ok (hash, s') →
      NodeStep C calculateNext n (.blake3Block now header) { n with db := s' }
  | kawpowBlock {n : State} {now : UInt64} {block : Block} {hash : H256} {s' : ChainDB} :
      providerSubmit C n.db block = .ok (hash, s') →
      NodeStep C calculateNext n (.kawpowBlock now block) { n with db := s' }

variable {C : Crypto} {calculateNext : UInt64 → UInt64 → UInt64 → UInt64} {n n' : State}
  {e : NodeEvent}

/-- RPC `submit_block` accepts what decodes and commits. -/
theorem submitBlock_accepted_iff {s s' : ChainDB} {blockHex : String} :
    (∃ r, submitBlock C s blockHex = .ok (r, s') ∧ r.accepted = true) ↔
      ∃ b, decodeParam Block.deserialize .invalidBlock blockHex = .ok b ∧
        commitBlock C s b = .ok s' := by
  unfold submitBlock
  constructor
  · intro h
    obtain ⟨r, h, hacc⟩ := h
    obtain ⟨b, hb, h⟩ := bind_eq_ok.mp h
    refine ⟨b, hb, ?_⟩
    cases hc : commitBlock C s b with
    | ok t =>
      rw [hc] at h
      rw [(Prod.mk.inj (Except.ok.inj h)).2]
    | error e =>
      rw [hc] at h
      rw [← (Prod.mk.inj (Except.ok.inj h)).1] at hacc
      cases hacc
  · intro h
    obtain ⟨b, hb, hc⟩ := h
    refine ⟨.taken (b.hash C), bind_eq_ok.mpr ⟨b, hb, ?_⟩, rfl⟩
    rw [hc]

/-- All a step can do to the database. -/
theorem NodeStep.db_cases (h : NodeStep C calculateNext n e n') :
    (e.block? = none ∧ n'.db = n.db) ∨
      ∃ b, e.block? = some b ∧ commitBlock C n.db b = .ok n'.db ∧
        (e.validates = true → BlockValid C e.now b n.db) := by
  cases h with
  | addTx _ _ => exact Or.inl ⟨rfl, rfl⟩
  | startMining _ => exact Or.inl ⟨rfl, rfl⟩
  | minedBlock _ _ _ hc =>
    obtain ⟨hv, rfl⟩ := commitMined_ok_iff.mp hc
    exact Or.inr ⟨_, rfl, Ledger.commitBlock_of_valid hv, fun _ => hv⟩
  | receivedBlock hp =>
    obtain ⟨_, _, hv, rfl⟩ := processSingleBlock_eq_true_iff.mp hp
    exact Or.inr ⟨_, rfl, Ledger.commitBlock_of_valid hv, fun _ => hv⟩
  | serviceBlock hp =>
    obtain ⟨hv, _, rfl⟩ := ChainService.processBlock_ok_iff.mp hp
    exact Or.inr ⟨_, rfl, Ledger.commitBlock_of_valid hv, fun _ => hv⟩
  -- the remaining tasks commit without asking the validator
  | rpcBlock hs hacc =>
    obtain ⟨b, hb, hc⟩ := submitBlock_accepted_iff.mp ⟨_, hs, hacc⟩
    exact Or.inr ⟨b, NodeEvent.block?_rpcBlock_iff.mpr hb, hc,
      fun hval => absurd hval Bool.false_ne_true⟩
  | blake3Block hs =>
    exact Or.inr ⟨_, rfl, (blake3Submit_ok_iff.mp hs).1,
      fun hval => absurd hval Bool.false_ne_true⟩
  | kawpowBlock hs =>
    exact Or.inr ⟨_, rfl, (providerSubmit_ok_iff.mp hs).1,
      fun hval => absurd hval Bool.false_ne_true⟩

end Pyrax.Node
