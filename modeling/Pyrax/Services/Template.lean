import Pyrax.Services.Chain
import Pyrax.Mempool.Admission

/-!
# From a template to the tip

A miner asks the service for a template, finds nonces and submits them. The
builder and the validator each carry the consensus rules in constants of their
own, and `template_roundtrip_iff` compares them: for a pool whose transactions
are acceptable one by one and share no input, and nonces that meet the target, a
submission makes the built block the tip iff

* the reward of the stream is within the validator's cap, which is stream A's,
* what was taken from the pool fits into a block, by count and by size,
* the cached tip is the database's tip, and
* the clock of the template lies between the parent's timestamp and the
  submission's horizon.
-/

namespace Pyrax.ChainService

open Base ChainDB Validation Ledger

variable {C : Crypto} {svc : ChainService} {order : List H256}
  {now t nonce extraNonce : UInt64} {beneficiary beneficiary' : Address} {stream stream' : UInt8}

/-- Every pending transaction is acceptable by itself at the next height, and no
two share an input. -/
structure PoolAcceptable (C : Crypto) (svc : ChainService) : Prop where
  each : ∀ k e, svc.mempool.byHash.lookup k = some e →
    ∃ spent, validateTransaction C (svc.cachedTip.height + 1) svc.db [] e.tx = .ok spent
  disjoint : ∀ k k' e e', svc.mempool.byHash.lookup k = some e →
    svc.mempool.byHash.lookup k' = some e' → k ≠ k' → ∀ o ∈ e.tx.spends, o ∉ e'.tx.spends

/-- `submit_mined_block` succeeds and the built block is the tip. -/
def BecomesTip (C : Crypto) (now : UInt64) (svc : ChainService) (template : ChainBlockTemplate)
    (nonce extraNonce : UInt64) (beneficiary : Address) (stream : UInt8) : Prop :=
  let block := buildBlock template nonce extraNonce beneficiary stream
  ∃ svc', svc.submitMinedBlock C now template nonce extraNonce beneficiary stream
      = .ok (block.hash C, svc') ∧
    svc'.db.tip.hash = block.hash C ∧ svc'.db.tip.height = block.height ∧
    svc'.cachedTip.hash = block.hash C ∧ svc'.cachedTip.height = block.height ∧
    svc'.db.getBlock (block.hash C) = some block

/-- The cached tip is the tip a block has to extend. At the last height of a
`u64` the next block has height `0` and extends nothing. -/
def CacheCurrent (svc : ChainService) : Prop :=
  if svc.cachedTip.height + 1 = 0 then svc.cachedTip.hash = H256.zero
  else svc.cachedTip.hash = svc.db.tip.hash ∧ svc.cachedTip.height = svc.db.tip.height

/-- What builder and validator must agree on for a template to go through. -/
structure TemplateFits (svc : ChainService) (order : List H256) (t now : UInt64)
    (stream : UInt8) : Prop where
  reward : svc.getBlockReward (svc.cachedTip.height + 1) stream ≤ Stream.A.blockReward
  count : (svc.pendingTxs order).length ≤ 4999
  bytes : ((svc.pendingTxs order).map fun tx => tx.serialize.length).sum ≤ 999705
  current : CacheCurrent svc
  clock : t ≤ now + 7200
  parent : svc.cachedTip.height + 1 ≠ 0 → ∀ p, svc.db.getBlock svc.cachedTip.hash = some p →
    p.header.timestamp ≤ t

/-! ## The built block -/

/-- A coinbase of the node always takes as many bytes. -/
theorem coinbase_serialize_length (height reward : UInt64) (miner : Address) :
    (Transaction.coinbase height reward miner).serialize.length = 126 := by
  rw [Transaction.serialize_length]
  show 24 + ((TxInput.serialize _).length + 0) + ((TxOutput.serialize _).length + 0) = 126
  rw [TxInput.serialize_length, TxOutput.serialize_length]
  simp [TxInput.coinbase, Transaction.coinbaseExtra, TxOutput.p2pkh]

/-- The selected transactions are a valid body behind any valid coinbase. -/
theorem pendingTxs_valid (hord : svc.mempool.Enumerates order) (hpool : PoolAcceptable C svc) :
    (∀ tx ∈ svc.pendingTxs order, TxValid C svc.db (svc.cachedTip.height + 1) tx) ∧
      (allSpends (svc.pendingTxs order)).Nodup := by
  have hvalid : ∀ tx ∈ svc.pendingTxs order, TxValid C svc.db (svc.cachedTip.height + 1) tx := by
    intro tx htx
    obtain ⟨k, e, hk, rfl⟩ := Mempool.exists_of_mem_getPending htx
    obtain ⟨spent, hok⟩ := hpool.each k e hk
    exact (validateTransaction_ok_iff.mp hok).1
  -- distinct inputs within a transaction and across two make all of them distinct
  refine ⟨hvalid, ?_⟩
  unfold allSpends
  rw [List.nodup_flatMap]
  exact ⟨fun tx htx => (hvalid tx htx).nodup, Mempool.getPending_disjoint hord hpool.disjoint _⟩

/-- Submitting is validating: the proof of work was found already. -/
theorem becomesTip_iff {template : ChainBlockTemplate}
    (hpow : (buildBlock template nonce extraNonce beneficiary stream).header.verifyPow C = true) :
    BecomesTip C now svc template nonce extraNonce beneficiary stream ↔
      BlockValid C now (buildBlock template nonce extraNonce beneficiary stream) svc.db := by
  have hsubmit : svc.submitMinedBlock C now template nonce extraNonce beneficiary stream
      = svc.processBlock C now (buildBlock template nonce extraNonce beneficiary stream) := by
    show (failIf ((buildBlock template nonce extraNonce beneficiary stream).header.verifyPow C
      = false) _ >>= fun _ => _) = _
    rw [hpow]
    rfl
  unfold BecomesTip
  rw [hsubmit]
  constructor
  · intro h
    obtain ⟨svc', h, _⟩ := h
    exact (processBlock_ok_iff.mp h).1
  · intro hv
    exact ⟨_, processBlock_ok_iff.mpr ⟨hv, rfl, rfl⟩, rfl, rfl, rfl, rfl,
      committed_getBlock_self _ _⟩

/-- The block built from a template of the service. -/
theorem buildBlock_serialize_length :
    (buildBlock (svc.createBlockTemplate C order t beneficiary stream) nonce extraNonce
      beneficiary' stream').serialize.length
        = 295 + ((svc.pendingTxs order).map fun tx => tx.serialize.length).sum := by
  rw [Block.serialize_length]
  show 169 + ((Transaction.coinbase _ _ _).serialize.length +
    ((svc.pendingTxs order).map fun tx => tx.serialize.length).sum) = _
  rw [coinbase_serialize_length]
  omega

/-- The cached tip decides whether the built block extends the chain. -/
theorem link_iff :
    (if svc.cachedTip.height + 1 = 0 then svc.cachedTip.hash = H256.zero
      else svc.cachedTip.hash = svc.db.tip.hash ∧
        svc.cachedTip.height + 1 = svc.db.tip.height + 1) ↔ CacheCurrent svc := by
  unfold CacheCurrent
  split
  · rfl
  · rw [UInt64.add_left_inj]

/-- The built block is valid exactly when the template fits. -/
theorem built_valid_iff (hord : svc.mempool.Enumerates order) (hpool : PoolAcceptable C svc)
    (hpow : (buildBlock (svc.createBlockTemplate C order t beneficiary stream) nonce extraNonce
      beneficiary' stream').header.verifyPow C = true) :
    BlockValid C now (buildBlock (svc.createBlockTemplate C order t beneficiary stream) nonce
      extraNonce beneficiary' stream') svc.db ↔ TemplateFits svc order t now stream := by
  obtain ⟨hvalid, hnodup⟩ := pendingTxs_valid hord hpool
  constructor
  · intro hv
    have hbody := (validateTransactions_cons_ok_iff rfl).mp hv.body
    have hsize := hv.size
    rw [buildBlock_serialize_length] at hsize
    -- a megabyte, less the header, the length prefix and the coinbase
    have hsize : 295 + ((svc.pendingTxs order).map fun tx => tx.serialize.length).sum
      ≤ 1000000 := hsize
    have hcount : (svc.pendingTxs order).length + 1 ≤ 5000 := hv.count
    refine ⟨?_, by omega, by omega, link_iff.mp hv.link, hv.clock, fun hne p hp => ?_⟩
    · have hreward := hbody.coinbase.reward
      rwa [show (svc.createBlockTemplate C order t beneficiary stream).coinbaseTx.totalOutput
        = svc.getBlockReward (svc.cachedTip.height + 1) stream from UInt64.add_zero _] at hreward
    · have hbefore := hv.parentTime (UInt64.pos_iff_ne_zero.mpr hne)
      unfold beforeParent at hbefore
      rw [show svc.db.getBlock (buildBlock (svc.createBlockTemplate C order t beneficiary stream)
        nonce extraNonce beneficiary' stream').header.parentHash = some p from hp] at hbefore
      exact UInt64.not_lt.mp (of_decide_eq_false hbefore)
  · intro hf
    have hsize := hf.bytes
    have hcount := hf.count
    refine ⟨?_, ?_, fun _ => List.cons_ne_nil _ _, hpow, link_iff.mpr hf.current, rfl, hf.clock,
      fun hpos => ?_, (validateTransactions_cons_ok_iff rfl).mpr ⟨?_, hvalid, hnodup⟩⟩
    · rw [buildBlock_serialize_length]
      show 295 + _ ≤ 1000000
      omega
    · show (svc.pendingTxs order).length + 1 ≤ 5000
      omega
    · unfold beforeParent
      cases hp : svc.db.getBlock (buildBlock (svc.createBlockTemplate C order t beneficiary
          stream) nonce extraNonce beneficiary' stream').header.parentHash with
      | none => rfl
      | some p =>
        have hle := hf.parent (UInt64.pos_iff_ne_zero.mp hpos) p hp
        exact decide_eq_false (UInt64.not_lt.mpr hle)
    · exact coinbaseValid_coinbase hf.reward

/-! ## The round trip -/

/-- A template that is submitted with good nonces becomes the tip iff it fits.
In between the pool may have changed; the chain has not. -/
theorem template_roundtrip_iff (hord : svc.mempool.Enumerates order)
    (hpool : PoolAcceptable C svc) (mempool : Mempool)
    (hpow : (buildBlock (svc.createBlockTemplate C order t beneficiary stream) nonce extraNonce
      beneficiary' stream').header.verifyPow C = true) :
    BecomesTip C now { svc with mempool := mempool }
        (svc.createBlockTemplate C order t beneficiary stream) nonce extraNonce beneficiary'
        stream' ↔
      TemplateFits svc order t now stream := by
  rw [becomesTip_iff hpow]
  exact built_valid_iff hord hpool hpow

/-- With the default configuration only stream B's reward is above the cap, and
the builder keeps to the count by itself. -/
theorem templateFits_default_iff (hcfg : svc.config = ChainServiceConfig.default) :
    TemplateFits svc order t now stream ↔
      stream ≠ 1 ∧ ((svc.pendingTxs order).map fun tx => tx.serialize.length).sum ≤ 999705 ∧
        CacheCurrent svc ∧ t ≤ now + 7200 ∧
        (svc.cachedTip.height + 1 ≠ 0 → ∀ p, svc.db.getBlock svc.cachedTip.hash = some p →
          p.header.timestamp ≤ t) := by
  have hreward : svc.getBlockReward (svc.cachedTip.height + 1) stream ≤ Stream.A.blockReward ↔
      stream ≠ 1 := by
    unfold getBlockReward
    rw [hcfg]
    by_cases h1 : stream = 1
    · rw [if_neg (by rw [h1]; decide), if_pos h1]
      exact iff_of_false (by decide) (fun h => h h1)
    · rw [if_neg h1]
      split
      · exact iff_of_true (by decide) h1
      · exact iff_of_true (by decide) h1
  have hcount : (svc.pendingTxs order).length ≤ 4999 := by
    unfold pendingTxs
    rw [hcfg]
    exact Mempool.getPending_length_le ..
  constructor
  · intro hf
    exact ⟨hreward.mp hf.reward, hf.bytes, hf.current, hf.clock, hf.parent⟩
  · intro hf
    obtain ⟨hstream, hbytes, hcurrent, hclock, hparent⟩ := hf
    exact ⟨hreward.mpr hstream, hcount, hbytes, hcurrent, hclock, hparent⟩

/-- The service of a node whose pool holds the one signed payment. -/
def payService : ChainService :=
  .new Mempool.grantedState Mempool.payPool ChainServiceConfig.default

theorem payService_lookup {k : H256} {e : MempoolEntry}
    (h : payService.mempool.byHash.lookup k = some e) :
    k = Mempool.payTx.txid Mempool.payCrypto ∧ e.tx = Mempool.payTx := by
  have h : Mempool.payPool.byHash.lookup k = some e := h
  rw [Mempool.payPool, Mempool.lookup_insertEntry] at h
  split at h
  · next hk => exact ⟨hk, (Option.some.inj h).symm ▸ rfl⟩
  · exact absurd (h.symm.trans (Finmap.lookup_empty k)) (Option.some_ne_none e)

theorem payService_acceptable : PoolAcceptable Mempool.payCrypto payService := by
  refine ⟨fun k e hk => ?_, fun k k' e e' hk hk' hne => ?_⟩
  · rw [(payService_lookup hk).2]
    exact ⟨_, validateTransaction_ok_iff.mpr
      ⟨Mempool.payTx_valid, fun _ _ => List.not_mem_nil, rfl⟩⟩
  · exact absurd ((payService_lookup hk).1.trans (payService_lookup hk').1.symm) hne

theorem payService_enumerates :
    payService.mempool.Enumerates [Mempool.payTx.txid Mempool.payCrypto] := by
  refine ⟨List.nodup_singleton _, fun k => ?_⟩
  show k ∈ [_] ↔ k ∈ Finmap.insert (Mempool.payTx.txid Mempool.payCrypto) _ ∅
  rw [Finmap.mem_insert, List.mem_singleton]
  exact ⟨Or.inl, fun h => h.resolve_right Finmap.notMem_empty⟩

theorem payService_pendingTxs :
    payService.pendingTxs [Mempool.payTx.txid Mempool.payCrypto] = [Mempool.payTx] := by
  have hlook : payService.mempool.byHash.lookup (Mempool.payTx.txid Mempool.payCrypto)
      = some ⟨Mempool.payTx, 10000, 212⟩ :=
    (Mempool.lookup_insertEntry ..).trans (if_pos rfl)
  unfold pendingTxs Mempool.getPending
  rw [List.filterMap_cons_some (f := fun k => payService.mempool.byHash.lookup k) hlook,
    List.filterMap_nil, List.mergeSort_singleton]
  rfl

theorem template_roundtrip_iff_payTx :
    BecomesTip Mempool.payCrypto 1735689600 payService
      (payService.createBlockTemplate Mempool.payCrypto [Mempool.payTx.txid Mempool.payCrypto]
        1735689600 Address.ZERO 0) 0 0 Address.ZERO 0 := by
  have hpow := BlockHeader.verifyPow_of_difficulty_one (C := Mempool.payCrypto)
    (h := (buildBlock (payService.createBlockTemplate Mempool.payCrypto
      [Mempool.payTx.txid Mempool.payCrypto] 1735689600 Address.ZERO 0) 0 0 Address.ZERO 0).header)
    rfl
  refine (template_roundtrip_iff payService_enumerates payService_acceptable
    payService.mempool hpow).mpr ((templateFits_default_iff rfl).mpr
      ⟨by decide, ?_, ?_, by decide, fun _ p hp => ?_⟩)
  · rw [payService_pendingTxs]
    decide +kernel
  · exact (if_neg (by decide : (0 : UInt64) + 1 + 1 ≠ 0)).mpr ⟨rfl, rfl⟩
  · have hfirst := committed_getBlock_tip (C := Mempool.payCrypto)
      (openNew Mempool.payCrypto NetworkId.DEVNET)
      (easyBlock Mempool.payCrypto (openNew Mempool.payCrypto NetworkId.DEVNET) 1735689600
        [Mempool.grantTx])
    rw [← Option.some.inj (hfirst.symm.trans hp)]
    exact UInt64.le_refl _

/-- What templates are for, on every chain of accepted blocks and every stream. -/
def TemplatesRoundTrip (C : Crypto) : Prop :=
  ∀ (network : NetworkId) (as : List Arrival) (s : ChainDB),
    Run (Accepts C) (openNew C network) as s →
    ∀ (pool mempool : Mempool) (order : List H256) (t now nonce extraNonce : UInt64)
      (beneficiary : Address) (stream : UInt8),
      let svc := ChainService.new s pool ChainServiceConfig.default
      let template := svc.createBlockTemplate C order t beneficiary stream
      pool.Enumerates order → PoolAcceptable C svc →
      (buildBlock template nonce extraNonce beneficiary stream).header.verifyPow C = true →
      BecomesTip C now { svc with mempool := mempool } template nonce extraNonce beneficiary stream

/-- Whatever the hash functions: a template for stream B on a new chain, with
nothing pending and the clock standing still, is refused. -/
theorem template_not_roundtrip : ¬ ∃ C : Crypto, TemplatesRoundTrip C := by
  intro h
  obtain ⟨C, hC⟩ := h
  have hnone : ∀ k, (Mempool.new MempoolConfig.default).byHash.lookup k = none :=
    fun k => Finmap.lookup_empty k
  have hpool : PoolAcceptable C (ChainService.new (openNew C NetworkId.DEVNET)
      (Mempool.new MempoolConfig.default) ChainServiceConfig.default) :=
    ⟨fun k e hk => absurd ((hnone k).symm.trans hk) (Option.some_ne_none e).symm,
      fun k _ e _ hk => absurd ((hnone k).symm.trans hk) (Option.some_ne_none e).symm⟩
  have hord : (Mempool.new MempoolConfig.default).Enumerates [] :=
    ⟨List.nodup_nil, fun _ => iff_of_false List.not_mem_nil Finmap.notMem_empty⟩
  have htip := hC NetworkId.DEVNET [] _ (Run.nil _) _ (Mempool.new MempoolConfig.default) []
    1735689600 1735689600 0 0 Address.ZERO 1 hord hpool
    (BlockHeader.verifyPow_of_difficulty_one rfl)
  have hfits := (becomesTip_iff (BlockHeader.verifyPow_of_difficulty_one rfl)).mp htip
  -- the coinbase of stream B pays twice the cap
  have hbody := (validateTransactions_cons_ok_iff rfl).mp hfits.body
  have hcap : (100 * 100000000 : UInt64) + 0 ≤ Stream.A.blockReward := hbody.coinbase.reward
  exact absurd hcap (by decide)

end Pyrax.ChainService
