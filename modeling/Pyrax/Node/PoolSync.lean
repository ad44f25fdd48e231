import Pyrax.Node.System
import Pyrax.Ledger.Extend

/-!
# The pool after a committed block

Once a block is committed, a pending transaction that spends what the block
spent can never be mined again; it should leave the pool. Each task that commits
blocks decides by itself what to evict:

* `run_miner` whatever spends an input of the block,
* the chain service the block's own transactions, by their hashes,
* every other task nothing.

`Evicts` is, per task, the state of the pool in which this is enough, and
`pool_consistent_iff` says that along any run of the node the pool is consistent
after each committed block iff every step found it so.
-/

namespace Pyrax.Node

open Base ChainDB Validation Ledger

/-- The outpoints a block's commit deletes. -/
def blockSpends (b : Block) : List OutPoint := b.transactions.flatMap spentBy

/-- No pending transaction spends what the block spent. -/
def Consistent (m : Mempool) (b : Block) : Prop :=
  ∀ k entry, m.byHash.lookup k = some entry → ∀ o ∈ entry.tx.spends, o ∉ blockSpends b

/-- What the task evicts is enough for its block. -/
def Evicts (C : Crypto) (n : State) : NodeEvent → Prop
  | .minedBlock .runMiner _ _ _ => True
  | .serviceBlock _ b =>
    -- every pending transaction in conflict with the block is one of the block's
    ∀ k entry, n.mempool.byHash.lookup k = some entry →
      (∃ o ∈ entry.tx.spends, o ∈ blockSpends b) →
      ∃ tx ∈ b.transactions, tx.isCoinbase = false ∧ tx.txid C = k
  | e => ∀ b, e.block? = some b → Consistent n.mempool b

variable {C : Crypto} {calculateNext : UInt64 → UInt64 → UInt64 → UInt64} {n n' : State}
  {e : NodeEvent} {b : Block}

/-! ## One step -/

/-- `run_miner` leaves nothing in conflict with its block. -/
theorem consistent_removeConfirmed {m : Mempool} {order : List H256} (hord : m.Enumerates order) :
    Consistent (m.removeConfirmed order (spentOutpoints b)) b := by
  intro k entry hk o ho hspent
  have hfree := (Mempool.removeConfirmed_spec hord hk).2 o ho
  obtain ⟨tx, htx, ho'⟩ := List.mem_flatMap.mp hspent
  exact hfree (List.mem_flatMap.mpr ⟨tx, htx, mem_spends_of_mem_spentBy ho'⟩)

/-- The service leaves nothing in conflict iff it removed all that was. -/
theorem consistent_evictIncluded_iff {m : Mempool} :
    Consistent (ChainService.evictIncluded C m b) b ↔
      ∀ k entry, m.byHash.lookup k = some entry → (∃ o ∈ entry.tx.spends, o ∈ blockSpends b) →
        ∃ tx ∈ b.transactions, tx.isCoinbase = false ∧ tx.txid C = k := by
  have hmem : ∀ k, k ∈ (b.transactions.filter fun tx => !tx.isCoinbase).map (·.txid C) ↔
      ∃ tx ∈ b.transactions, tx.isCoinbase = false ∧ tx.txid C = k := by
    intro k
    simp only [List.mem_map, List.mem_filter, Bool.not_eq_true', and_assoc]
  unfold Consistent ChainService.evictIncluded
  constructor
  · intro hc k entry hk hconf
    by_contra hnot
    obtain ⟨o, ho, hspent⟩ := hconf
    -- an entry that is not among the removed ones is still there, conflict and all
    refine hc k entry ?_ o ho hspent
    rw [Mempool.lookup_foldl_remove, if_neg (fun h => hnot ((hmem k).mp h)), hk]
  · intro hev k entry hk o ho hspent
    rw [Mempool.lookup_foldl_remove] at hk
    split at hk
    · cases hk
    · next hnot => exact hnot ((hmem k).mpr (hev k entry hk ⟨o, ho, hspent⟩))

/-- After a step the pool is consistent with its block iff the task evicts
enough. -/
theorem consistent_step_iff (h : NodeStep C calculateNext n e n') :
    (∀ b, e.block? = some b → Consistent n'.mempool b) ↔ Evicts C n e := by
  cases h with
  | addTx _ _ =>
    refine iff_of_true ?_ ?_
    all_goals
      intro b hb
      cases hb
  | startMining _ => rfl
  | @minedBlock loop _ _ _ _ _ _ _ _ hord _ =>
    cases loop with
    | runMiner =>
      refine iff_of_true ?_ trivial
      intro b hb
      obtain rfl := Option.some.inj hb
      exact consistent_removeConfirmed hord
    | runMinerWithBroadcast => rfl
  | receivedBlock _ => rfl
  | serviceBlock hp =>
    obtain ⟨_, _, rfl⟩ := ChainService.processBlock_ok_iff.mp hp
    constructor
    · intro hc
      exact consistent_evictIncluded_iff.mp (hc _ rfl)
    · intro hev b hb
      obtain rfl := Option.some.inj hb
      exact consistent_evictIncluded_iff.mpr hev
  | rpcBlock _ _ => rfl
  | blake3Block _ => rfl
  | kawpowBlock _ => rfl

/-! ## Runs -/

/-- Along a run, after each committed block no pending transaction spends what
the block spent. -/
def PoolConsistent (C : Crypto) (calculateNext : UInt64 → UInt64 → UInt64 → UInt64)
    (network : NetworkId) (es : List NodeEvent) : Prop :=
  Throughout (NodeStep C calculateNext) (start C network) es fun _ e n' =>
    ∀ b, e.block? = some b → Consistent n'.mempool b

/-- In every run of the node the pool is consistent after each committed block
exactly when each task found a pool in which what it evicts is enough. -/
theorem pool_consistent_iff (C : Crypto) (calculateNext : UInt64 → UInt64 → UInt64 → UInt64)
    (network : NetworkId) (es : List NodeEvent) :
    PoolConsistent C calculateNext network es ↔
      Throughout (NodeStep C calculateNext) (start C network) es fun n e _ => Evicts C n e :=
  Throughout.congr fun _ _ _ hstep => consistent_step_iff hstep

/-- The broadcasting loop never cleans up after itself: a transaction it takes
from the pool is still there when the block is committed. -/
theorem broadcast_not_evicts {now : UInt64} {order : List H256} {tx : Transaction} {o : OutPoint}
    (hheld : n.mempool.Holds C tx) (htx : tx ∈ b.transactions) (ho : o ∈ spentBy tx) :
    ¬ Evicts C n (.minedBlock .runMinerWithBroadcast now order b) := by
  intro hev
  obtain ⟨entry, hk, rfl⟩ := hheld
  have hfree : Consistent n.mempool b := hev b rfl
  exact hfree _ entry hk o (mem_spends_of_mem_spentBy ho) (List.mem_flatMap.mpr ⟨_, htx, ho⟩)

/-! ## A conflict the service leaves behind -/

/-- The pool stays consistent in every run of the tasks that validate what they
commit. -/
def PoolStaysConsistent (C : Crypto) : Prop :=
  ∀ calculateNext network es, (∀ e ∈ es, NodeEvent.validates e = true) →
    PoolConsistent C calculateNext network es

/-- A first reward, to the holder of the private key `1`. -/
def rewardTx : Transaction :=
  .coinbase 1 Stream.A.blockReward (Address.fromSlice generatorHash160)

def rewardTxid : H256 :=
  H256.ofNatBE 0x76a0363f2bcb3d3659d5bb026a9a0cfd2988d06510af51f8728dccf0154df7ae

/-- The reward as it stands in the UTXO set. -/
def rewardUtxo : Utxo :=
  ⟨.p2pkh Stream.A.blockReward (Address.fromSlice generatorHash160), 1, true⟩

/-- The coinbase of all later blocks. -/
def fillTx : Transaction := .coinbase 2 Stream.A.blockReward Address.ZERO

/-- Two transactions that spend the reward; the pool asks for no signature. -/
def pendingSpend : Transaction := .new [.new ⟨rewardTxid, 0⟩ []] [.p2pkh 1 Address.ZERO]

def rewardSignature : List UInt8 :=
  (H256.ofNatBE 0x5115d328f0be6c3bb6744ab7e066e3b844bfd359a77c68a11e238fd6b4d346d9).asBytes ++
    (H256.ofNatBE 0x2a30ffa52b08b0e4f07a93cb8fc5017d82beb6ec7e4bf494c9341991423370f5).asBytes

def minedInput : TxInput :=
  .new ⟨rewardTxid, 0⟩ (64 :: rewardSignature ++ 33 :: generatorCompressed)

def minedSpend : Transaction := .new [minedInput] [.p2pkh 4999990000 Address.ZERO]

/-- What has to be true of the hash functions and of ECDSA for the run below:
the digests differ where the transactions do, and the signature is good. -/
structure RewardSpendable (C : Crypto) : Prop where
  reward : rewardTx.txid C = rewardTxid
  fill : fillTx.txid C ≠ rewardTxid
  distinct : pendingSpend.txid C ≠ minedSpend.txid C
  signed : SignatureValid C minedSpend minedInput rewardUtxo

/-- The digests and the signature, as the functions give them. -/
def rewardTable : KeyTable where
  blake3 :=
    [(rewardTx.serialize, rewardTxid),
     (fillTx.serialize,
      H256.ofNatBE 0xf756d1ea23a4265355fcf9547e3925dcd797e8c52fdd60a78a6602e59946d490),
     (pendingSpend.serialize,
      H256.ofNatBE 0x1e236fb8f039ca66938760ed755a68c44e2ed8c47fa9ca8fe5410445bc597b7b),
     (minedSpend.serialize,
      H256.ofNatBE 0x3ff51dc0fa0407fdf7049d8927a7548e3f32b4dc123053aa6af316eaf7cf653a)]
  keccak256 :=
    [(signingPreimage minedSpend 0 rewardUtxo.output.scriptPubkey,
      H256.ofNatBE 0x241b5558601eb9e21002533624853b2abc68e15273c75464a21f4a6f9ea087a3)]
  sha256 := [(generatorCompressed, generatorSha256.bytes)]
  ripemd160 := [(generatorSha256.asBytes, arrayFromSlice 20 generatorHash160)]
  compressed := arrayFromSlice 33 generatorCompressed
  uncompressed := arrayFromSlice 65 (0x04 :: generatorX.asBytes ++ generatorY.asBytes)
  verified :=
    [((H256.ofNatBE 0x241b5558601eb9e21002533624853b2abc68e15273c75464a21f4a6f9ea087a3).asBytes,
      arrayFromSlice 64 rewardSignature)]
  signed := []

theorem rewardSpendable_table : RewardSpendable (.ofKey rewardTable) where
  reward := by decide +kernel
  fill := by decide +kernel
  distinct := by decide +kernel
  signed := by
    unfold SignatureValid
    decide +kernel

/-- A reward and then nothing but empty blocks. -/
def fillChain (C : Crypto) : Nat → ChainDB
  | 0 =>
    let s := openNew C NetworkId.DEVNET
    committed C s (easyBlock C s 1735689600 [rewardTx])
  | k + 1 => committed C (fillChain C k) (easyBlock C (fillChain C k) 1735689600 [fillTx])

theorem fillChain_height (k : Nat) : (fillChain C k).tip.height = UInt64.ofNat (k + 1) := by
  induction k with
  | zero => rfl
  | succ k ih =>
    show (fillChain C k).tip.height + 1 = _
    rw [ih, UInt64.ofNat_add (k + 1) 1]
    rfl

theorem fillChain_parentTime (k : Nat) {p : Block}
    (hp : (fillChain C k).getBlock (fillChain C k).tip.hash = some p) :
    p.header.timestamp ≤ 1735689600 := by
  cases k with
  | zero =>
    rw [← Option.some.inj ((committed_getBlock_tip _ _).symm.trans hp)]
    exact UInt64.le_refl _
  | succ k =>
    rw [← Option.some.inj ((committed_getBlock_tip _ _).symm.trans hp)]
    exact UInt64.le_refl _

/-- The reward stays unspent while the chain fills up. -/
theorem fillChain_getUtxo (h : RewardSpendable C) (k : Nat) :
    (fillChain C k).getUtxo ⟨rewardTxid, 0⟩ = some rewardUtxo := by
  induction k with
  | zero =>
    rw [← h.reward]
    exact committed_getUtxo_singleton _ rfl rfl
  | succ k ih =>
    -- each filling block writes one output, under its own hash
    have hne : (⟨rewardTxid, 0⟩ : OutPoint) ≠ ⟨fillTx.txid C, 0⟩ :=
      fun heq => h.fill (congrArg OutPoint.txid heq).symm
    exact (Finmap.lookup_insert_of_ne _ hne).trans ih

/-- The service takes every valid block. -/
theorem step_serviceBlock (calculateNext : UInt64 → UInt64 → UInt64 → UInt64) {n : State}
    {now : UInt64} (hv : BlockValid C now b n.db) :
    ∃ cachedTip, NodeStep C calculateNext n (.serviceBlock now b)
      { n with
        db := committed C n.db b
        mempool := ChainService.evictIncluded C n.mempool b
        cachedTip := cachedTip } :=
  ⟨_, .serviceBlock (ChainService.processBlock_ok_iff.mpr ⟨hv, rfl, rfl⟩)⟩

theorem fillChain_height_ne {k : Nat} (hk : k ≤ 99) : (fillChain C k).tip.height + 1 ≠ 0 := by
  rw [fillChain_height]
  intro h0
  have hnat := congrArg UInt64.toNat h0
  rw [UInt64.toNat_add, UInt64.toNat_ofNat'] at hnat
  have : (1 : UInt64).toNat = 1 := rfl
  have : (0 : UInt64).toNat = 0 := rfl
  omega

/-- The node gets there block by block, with nothing pending. -/
theorem exists_run_fillChain (C : Crypto)
    (calculateNext : UInt64 → UInt64 → UInt64 → UInt64) : ∀ k ≤ 99, ∃ es n,
      Run (NodeStep C calculateNext) (start C NetworkId.DEVNET) es n ∧
        (∀ e ∈ es, NodeEvent.validates e = true) ∧ n.db = fillChain C k ∧
        n.mempool = Mempool.new MempoolConfig.default
  | 0, _ => by
    have hv : BlockValid C 1735689600
        (easyBlock C (openNew C NetworkId.DEVNET) 1735689600 [rewardTx])
        (start C NetworkId.DEVNET).db :=
      easyBlock_valid_openNew C _ (coinbaseValid_coinbase (UInt64.le_refl _)) (by decide +kernel)
    obtain ⟨cachedTip, hstep⟩ := step_serviceBlock calculateNext hv
    refine ⟨[_], _, Run.single hstep, fun e he => ?_, rfl, rfl⟩
    rw [List.mem_singleton.mp he]
    rfl
  | k + 1, hk => by
    obtain ⟨es, n, hrun, hes, hdb, hpool⟩ := exists_run_fillChain C calculateNext k (by omega)
    have hv : BlockValid C 1735689600 (easyBlock C (fillChain C k) 1735689600 [fillTx]) n.db := by
      rw [hdb]
      exact easyBlock_valid
        (bodyValid_coinbase (coinbaseValid_coinbase (UInt64.le_refl _))) (by decide +kernel)
        (by decide) (fillChain_height_ne (by omega)) (by decide) fun _ hp =>
          fillChain_parentTime k hp
    obtain ⟨cachedTip, hstep⟩ := step_serviceBlock calculateNext hv
    refine ⟨es ++ [_], _, Run.snoc hrun hstep, fun e he => ?_, ?_, ?_⟩
    · rcases List.mem_append.mp he with he | he
      · exact hes e he
      · rw [List.mem_singleton.mp he]
        rfl
    · show committed C n.db _ = committed C (fillChain C k) _
      rw [hdb]
    · show ChainService.evictIncluded C n.mempool _ = _
      rw [hpool]
      rfl

theorem spend_totalInput (h : RewardSpendable C) {tx : Transaction}
    (htx : tx.spends = [⟨rewardTxid, 0⟩]) (k : Nat) :
    totalInput (fillChain C k) tx = 5000000000 :=
  totalInput_singleton htx (fillChain_getUtxo h k)

/-- The pool with the one pending transaction. -/
def pendingPool (C : Crypto) : Mempool :=
  (Mempool.new MempoolConfig.default).insertEntry C pendingSpend 4999999999 113

/-- At the hundredth block the pool takes a transaction that spends the reward. -/
theorem pendingSpend_add (C : Crypto) :
    (Mempool.new MempoolConfig.default).add C pendingSpend 5000000000 = .ok (pendingPool C) := by
  have hsize : pendingSpend.serialize.length = 113 := by decide +kernel
  exact Mempool.add_new hsize (by decide) (by decide) (by decide) (by decide +kernel) (by decide)

/-- The next block may spend the reward, which has matured. -/
theorem minedSpend_valid (h : RewardSpendable C) :
    BlockValid C 1735689600 (easyBlock C (fillChain C 99) 1735689600 [fillTx, minedSpend])
      (fillChain C 99) := by
  have htx : TxValid C (fillChain C 99) ((fillChain C 99).tip.height + 1) minedSpend := by
    refine ⟨List.cons_ne_nil _ _, List.cons_ne_nil _ _, List.nodup_singleton _, fun i hi => ?_, ?_⟩
    · obtain rfl := List.mem_singleton.mp hi
      refine ⟨rewardUtxo, fillChain_getUtxo h 99, ?_, h.signed⟩
      rw [fillChain_height]
      decide
    · rw [spend_totalInput h rfl]
      decide
  -- the body is the coinbase and this one spend
  refine easyBlock_valid ⟨coinbaseValid_coinbase (UInt64.le_refl _), fun tx hmem => ?_, ?_⟩
    (by decide +kernel) (by decide) (fillChain_height_ne (Nat.le_refl _)) (by decide)
    fun _ hp => fillChain_parentTime 99 hp
  · rw [List.mem_singleton.mp hmem]
    exact htx
  · exact List.nodup_singleton _

/-- With functions for which the digests and the signature are good, the pool
keeps a transaction whose input the block just spent. -/
theorem not_consistent_of_spendable (h : RewardSpendable C) : ¬ PoolStaysConsistent C := by
  intro hall
  let calculateNext : UInt64 → UInt64 → UInt64 → UInt64 := fun difficulty _ _ => difficulty
  obtain ⟨es, n, hrun, hes, hdb, hpool⟩ := exists_run_fillChain C calculateNext 99 (Nat.le_refl _)
  have hadd : NodeStep C calculateNext n (.addTx pendingSpend 5000000000)
      { n with mempool := pendingPool C } := by
    refine .addTx (fun o ho => ?_) (by rw [hpool]; exact pendingSpend_add C)
    have ho : o = ⟨rewardTxid, 0⟩ := List.mem_singleton.mp ho
    rw [ho, hdb, fillChain_getUtxo h]
    rfl
  have hv : BlockValid C 1735689600
      (easyBlock C (fillChain C 99) 1735689600 [fillTx, minedSpend]) n.db := by
    rw [hdb]
    exact minedSpend_valid h
  obtain ⟨cachedTip, hstep⟩ :=
    step_serviceBlock calculateNext (n := { n with mempool := pendingPool C }) hv
  have hcons := hall calculateNext NetworkId.DEVNET (es ++ [.addTx pendingSpend 5000000000] ++
    [.serviceBlock 1735689600 (easyBlock C (fillChain C 99) 1735689600 [fillTx, minedSpend])]) ?_
  · -- the service would have had to know the pending transaction by its hash
    have hev := (consistent_step_iff hstep).mp (hcons.last (Run.snoc hrun hadd) hstep)
    obtain ⟨tx, htx, hcb, hid⟩ := hev (pendingSpend.txid C) ⟨pendingSpend, 4999999999, 113⟩
      (by unfold pendingPool; rw [Mempool.lookup_insertEntry, if_pos rfl])
      ⟨⟨rewardTxid, 0⟩, List.mem_singleton_self _, List.mem_flatMap.mpr
        ⟨minedSpend, List.mem_cons_of_mem _ (List.mem_singleton_self _), by decide +kernel⟩⟩
    rcases List.mem_cons.mp htx with rfl | htx
    · cases hcb
    · rw [List.mem_singleton.mp htx] at hid
      exact h.distinct hid.symm
  · intro e he
    rcases List.mem_append.mp he with he | he
    · rcases List.mem_append.mp he with he | he
      · exact hes e he
      · rw [List.mem_singleton.mp he]
        rfl
    · rw [List.mem_singleton.mp he]
      rfl

/-- There are such functions, and none of them keeps the pool consistent. -/
theorem pool_not_consistent :
    RewardSpendable (.ofKey rewardTable) ∧
      ¬ ∃ C : Crypto, RewardSpendable C ∧ PoolStaysConsistent C := by
  refine ⟨rewardSpendable_table, fun h => ?_⟩
  obtain ⟨C, hC, hall⟩ := h
  exact not_consistent_of_spendable hC hall

end Pyrax.Node
