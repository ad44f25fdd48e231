import Pyrax.Base.Run
import Pyrax.Evm.Chain
import Pyrax.Evm.Value

/-!
# Blocks of the EVM chain

What a chain of blocks should be: numbered without a gap, each block on its parent, times
that do not go back, each block found under its hash, with one receipt for each
transaction, the running gas in the receipts and the sum in the header, and a sum within
the gas limit. And a block takes its transactions from the front of the pool and leaves
the rest there.

All of it holds but the gas limit. A transaction is executed as long as the gas used
before it is below the limit, whatever it uses itself, so the last one of a block may
take it over. `integrity_of_roomy`: where every transaction a block takes fits into the gas
the block has left, and no number or time wraps, every state of a run is `Intact`.

The hash of a block is taken over its number and more. That it is found under it rests on
the digests of the blocks made in the run: none is the zero hash of the first block, and
two are equal for equal bytes only.
-/

namespace Pyrax.Evm

open Base Word EvmExecutor

/-- Receipt `i` is the one of transaction `i`, with the gas used up to it. -/
structure Receipted (number : UInt64) (txs : List SignedTransaction)
    (receipts : List TransactionReceipt) : Prop where
  length : receipts.length = txs.length
  belongs : ∀ i tx receipt, txs[i]? = some tx → receipts[i]? = some receipt →
    receipt.transactionHash = tx.hash ∧ receipt.transactionIndex = UInt64.ofNat i ∧
    receipt.blockNumber = number ∧ receipt.sender = tx.senderOrZero ∧
    receipt.recipient = tx.transaction.recipient
  running : ∀ i receipt, receipts[i]? = some receipt →
    receipt.cumulativeGasUsed.toNat = ((receipts.take (i + 1)).map (·.gasUsed.toNat)).sum

/-- The same without the gas: which receipt is whose. -/
structure Paired (number : UInt64) (txs : List SignedTransaction)
    (receipts : List TransactionReceipt) : Prop where
  length : receipts.length = txs.length
  belongs : ∀ i tx receipt, txs[i]? = some tx → receipts[i]? = some receipt →
    receipt.transactionHash = tx.hash ∧ receipt.transactionIndex = UInt64.ofNat i ∧
    receipt.blockNumber = number ∧ receipt.sender = tx.senderOrZero ∧
    receipt.recipient = tx.transaction.recipient

/-- A block and its receipts. -/
structure EvmBlock.Accounted (block : EvmBlock) : Prop where
  receipted : Receipted block.header.number block.transactions block.receipts
  hashed : ∀ receipt ∈ block.receipts, receipt.blockHash = block.header.hash
  gasUsed : block.header.gasUsed.toNat = (block.receipts.map (·.gasUsed.toNat)).sum
  within : block.header.gasUsed ≤ block.header.gasLimit

/-- What every state of a chain should be. -/
structure EvmChain.Intact (chain : EvmChain) : Prop where
  stored : ∀ n ≤ chain.head, ∃ block, chain.getBlock n = some block ∧ block.header.number = n ∧
    chain.getBlockByHash block.header.hash = some block ∧ block.Accounted
  linked : ∀ n < chain.head, ∀ block next, chain.getBlock n = some block →
    chain.getBlock (n + 1) = some next →
    next.header.parentHash = block.header.hash ∧ block.header.timestamp ≤ next.header.timestamp

/-- A call that made a block took its transactions from the front of the pool. -/
def ChainOp.Drains (op : ChainOp) (chain chain' : EvmChain) : Prop :=
  match op with
  | submitTransaction _ => True
  | produceNextBlock _ => ∃ block, chain'.latestBlock = some block ∧
      chain.producer.pendingTransactions
        = block.transactions ++ chain'.producer.pendingTransactions

/-! ## The loop -/

/-- Each transaction the block takes fits into the gas it has left. -/
def Producing.Fits (K : Curves) (C : Crypto) (config : ChainConfig) (ctx : TransactionContext) :
    Producing → List SignedTransaction → Prop
  | _, [] => True
  | p, tx :: txs =>
    (p.cumulativeGas < config.blockGasLimit → ∀ s r,
      executeTransaction K C p.state tx.transaction tx.senderOrZero ctx = some (s, r) →
      p.cumulativeGas.toNat + r.gasUsed.toNat ≤ config.blockGasLimit.toNat) ∧
    ∀ p', p.turn K C config ctx tx = some p' → Fits K C config ctx p' txs

section

variable {K : Curves} {C : Crypto} {config : ChainConfig} {ctx : TransactionContext}
  {p p' : Producing} {taken txs : List SignedTransaction} {tx : SignedTransaction}

/-- What the loop keeps: what was taken so far is what was executed and then what goes
back, and goes back only once the block is full. -/
structure Booked (config : ChainConfig) (ctx : TransactionContext)
    (taken : List SignedTransaction) (p : Producing) : Prop where
  split : taken = p.executedTxs ++ p.pending
  full : p.pending ≠ [] → config.blockGasLimit ≤ p.cumulativeGas
  receipted : Receipted ctx.blockNumber p.executedTxs p.receipts
  gas : p.cumulativeGas.toNat = (p.receipts.map (·.gasUsed.toNat)).sum
  within : p.cumulativeGas ≤ config.blockGasLimit

theorem booked_start (config : ChainConfig) (ctx : TransactionContext) (state : StateDB) :
    Booked config ctx [] (.start state) where
  split := rfl
  full h := absurd rfl h
  receipted := ⟨rfl, fun _ _ _ h => (by cases h), fun _ _ h => (by cases h)⟩
  gas := rfl
  within := UInt64.le_iff_toNat_le.mpr (Nat.zero_le _)

theorem Receipted.paired {number : UInt64} {receipts : List TransactionReceipt}
    (h : Receipted number txs receipts) : Paired number txs receipts :=
  ⟨h.length, h.belongs⟩

/-- One more transaction and its receipt. -/
theorem Paired.snoc {number : UInt64} {receipts : List TransactionReceipt}
    {receipt : TransactionReceipt} (h : Paired number txs receipts)
    (hhash : receipt.transactionHash = tx.hash)
    (hindex : receipt.transactionIndex = UInt64.ofNat txs.length)
    (hnumber : receipt.blockNumber = number) (hsender : receipt.sender = tx.senderOrZero)
    (hto : receipt.recipient = tx.transaction.recipient) :
    Paired number (txs ++ [tx]) (receipts ++ [receipt]) := by
  refine ⟨?_, fun i tx' receipt' htx' hreceipt' => ?_⟩
  · rw [List.length_append, List.length_append, h.length]
    rfl
  · rcases Nat.lt_trichotomy i txs.length with hlt | rfl | hgt
    · rw [List.getElem?_append_left hlt] at htx'
      rw [List.getElem?_append_left (by rw [h.length]; exact hlt)] at hreceipt'
      exact h.belongs i tx' receipt' htx' hreceipt'
    · rw [List.getElem?_concat_length] at htx'
      rw [← h.length, List.getElem?_concat_length] at hreceipt'
      cases htx'
      cases hreceipt'
      exact ⟨hhash, hindex, hnumber, hsender, hto⟩
    · rw [List.getElem?_eq_none (by rw [List.length_append, List.length_singleton]; exact hgt)] at htx'
      cases htx'

/-- The receipts get the hash of the block, and are otherwise as the loop left them. -/
theorem Paired.rehash {number : UInt64} {receipts : List TransactionReceipt}
    (h : Paired number txs receipts) (hash : B256) :
    Paired number txs (receipts.map ({ · with blockHash := hash })) := by
  refine ⟨by rw [List.length_map, h.length], fun i tx receipt htx hreceipt => ?_⟩
  rw [List.getElem?_map] at hreceipt
  obtain ⟨receipt, hold, rfl⟩ := Option.map_eq_some_iff.mp hreceipt
  exact h.belongs i tx receipt htx hold

theorem Receipted.snoc {number : UInt64} {receipts : List TransactionReceipt}
    {receipt : TransactionReceipt} (h : Receipted number txs receipts)
    (hpaired : Paired number (txs ++ [tx]) (receipts ++ [receipt]))
    (hgas : receipt.cumulativeGasUsed.toNat
      = (receipts.map (·.gasUsed.toNat)).sum + receipt.gasUsed.toNat) :
    Receipted number (txs ++ [tx]) (receipts ++ [receipt]) := by
  refine ⟨hpaired.length, hpaired.belongs, fun i receipt' hreceipt' => ?_⟩
  rcases Nat.lt_trichotomy i receipts.length with hlt | rfl | hgt
  · rw [List.getElem?_append_left hlt] at hreceipt'
    rw [List.take_append_of_le_length (Nat.succ_le_of_lt hlt)]
    exact h.running i receipt' hreceipt'
  · rw [List.getElem?_concat_length] at hreceipt'
    cases hreceipt'
    have hall : (receipts ++ [receipt]).take (receipts.length + 1) = receipts ++ [receipt] :=
      List.take_of_length_le (by rw [List.length_append, List.length_singleton])
    rw [hall, hgas, List.map_append, List.sum_append, List.map_singleton, List.sum_singleton]
  · rw [List.getElem?_eq_none (by rw [List.length_append, List.length_singleton]; exact hgt)]
      at hreceipt'
    cases hreceipt'

/-- **One turn.** -/
theorem Booked.turn (h : Booked config ctx taken p) (hfits : p.Fits K C config ctx (tx :: txs))
    (hturn : p.turn K C config ctx tx = some p') : Booked config ctx (taken ++ [tx]) p' := by
  unfold Producing.turn at hturn
  split at hturn
  · next hfull =>
    cases hturn
    refine ⟨?_, fun _ => hfull, h.receipted, h.gas, h.within⟩
    rw [h.split, List.append_assoc]
  · next hroom =>
    obtain ⟨⟨state, result⟩, hrun, rfl⟩ := Option.map_eq_some_iff.mp hturn
    have hle := hfits.1 (UInt64.not_le.mp hroom) state result hrun
    have hlimit := config.blockGasLimit.toNat_lt
    have hadd : (p.cumulativeGas + result.gasUsed).toNat
        = p.cumulativeGas.toNat + result.gasUsed.toNat := toNat_add_of_lt (by omega)
    -- nothing has gone back yet
    have hnone : p.pending = [] := by
      by_contra hne
      exact hroom (h.full hne)
    refine ⟨?_, fun hne => absurd hnone hne, ?_, ?_, ?_⟩
    · show taken ++ [tx] = p.executedTxs ++ [tx] ++ p.pending
      rw [h.split, hnone, List.append_nil, List.append_nil]
    · refine h.receipted.snoc (h.receipted.paired.snoc rfl rfl rfl rfl rfl) ?_
      show (p.cumulativeGas + result.gasUsed).toNat = _
      rw [hadd, h.gas]
    · show (p.cumulativeGas + result.gasUsed).toNat = _
      rw [hadd, h.gas, List.map_append, List.sum_append, List.map_singleton, List.sum_singleton]
    · rw [UInt64.le_iff_toNat_le]
      show (p.cumulativeGas + result.gasUsed).toNat ≤ _
      rw [hadd]
      exact hle

/-- **The loop.** -/
theorem Booked.drain (h : Booked config ctx taken p) (hfits : p.Fits K C config ctx txs)
    (hdrain : p.drain K C config ctx txs = some p') : Booked config ctx (taken ++ txs) p' := by
  induction txs generalizing p taken with
  | nil =>
    cases hdrain
    rw [List.append_nil]
    exact h
  | cons tx txs ih =>
    obtain ⟨p₁, hturn, hdrain⟩ := Option.bind_eq_some_iff.mp hdrain
    have hnext := ih (h.turn hfits hturn) (hfits.2 p₁ hturn) hdrain
    rwa [List.append_assoc, List.singleton_append] at hnext

theorem Receipted.rehash {number : UInt64} {receipts : List TransactionReceipt}
    (h : Receipted number txs receipts) (hash : B256) :
    Receipted number txs (receipts.map ({ · with blockHash := hash })) := by
  have hpaired := h.paired.rehash hash
  refine ⟨hpaired.length, hpaired.belongs, fun i receipt hreceipt => ?_⟩
  rw [List.getElem?_map] at hreceipt
  obtain ⟨receipt, hold, rfl⟩ := Option.map_eq_some_iff.mp hreceipt
  rw [← List.map_take, List.map_map]
  exact h.running i receipt hold

theorem accounted_sealBlock {parent : EvmBlock} {stateRoot : B256} (h : Booked config ctx taken p) :
    (BlockProducer.sealBlock C config parent ctx stateRoot p).Accounted where
  receipted := h.receipted.rehash _
  hashed := by
    intro receipt hreceipt
    obtain ⟨old, -, rfl⟩ := List.mem_map.mp hreceipt
    rfl
  gasUsed := by
    show p.cumulativeGas.toNat = ((p.receipts.map _).map _).sum
    rw [List.map_map]
    exact h.gas
  within := h.within

end

/-! ## The chain -/

/-- The blocks of a call and of a run. -/
def ChainOp.made (K : Curves) (C : Crypto) (chain : EvmChain) : ChainOp → List EvmBlock
  | submitTransaction _ => []
  | produceNextBlock now => ((chain.produceNextBlock K C now).bind Prod.snd).toList

def ChainOp.madeBy (K : Curves) (C : Crypto) : EvmChain → List ChainOp → List EvmBlock :=
  gather K C fun chain op => op.made K C chain

/-- The digests of blocks are not zero, and equal for equal bytes only. -/
structure Distinct (C : Crypto) (blocks : List EvmBlock) : Prop where
  nonzero : ∀ b ∈ blocks, (C.blake3 (EvmBlock.hashBytes b.header)).bytes ≠ zeroHash
  bytes : ∀ b ∈ blocks, ∀ b' ∈ blocks, C.blake3 (EvmBlock.hashBytes b.header)
    = C.blake3 (EvmBlock.hashBytes b'.header) →
    EvmBlock.hashBytes b.header = EvmBlock.hashBytes b'.header

theorem Distinct.left {C : Crypto} {blocks others : List EvmBlock}
    (h : Distinct C (blocks ++ others)) : Distinct C blocks :=
  ⟨fun b hb => h.nonzero b (List.mem_append_left _ hb), fun b hb b' hb' =>
    h.bytes b (List.mem_append_left _ hb) b' (List.mem_append_left _ hb')⟩

/-- A block made now has a number and a time that do not wrap, and room for what it takes. -/
def ChainOp.Roomy (K : Curves) (C : Crypto) (chain : EvmChain) : ChainOp → Prop
  | submitTransaction _ => True
  | produceNextBlock now => ∀ parent, chain.latestBlock = some parent →
      parent.header.number.toNat + 1 < 2 ^ 64 ∧
      (parent.header.timestamp ≤ now ∨ parent.header.timestamp.toNat
        + (chain.producer.config.blockTimeMs / 1000).toNat < 2 ^ 64) ∧
      ∀ baseFee, chain.producer.calculateBaseFee parent = some baseFee →
        (Producing.start chain.state).Fits K C chain.producer.config
          (chain.producer.context parent now baseFee) chain.producer.pendingTransactions

/-- What a run keeps besides. -/
structure EvmChain.Grown (C : Crypto) (chain : EvmChain) (made : List EvmBlock) : Prop where
  intact : chain.Intact
  ahead : ∀ n, chain.head < n → chain.getBlock n = none
  first : ∀ b, chain.getBlock 0 = some b → b.header.hash = zeroHash
  later : ∀ n, n ≠ 0 → ∀ b, chain.getBlock n = some b → b ∈ made ∧
    b.header.hash = (C.blake3 (EvmBlock.hashBytes b.header)).bytes

theorem EvmBlock.number_of_hashBytes {h h' : EvmBlockHeader}
    (heq : EvmBlock.hashBytes h = EvmBlock.hashBytes h') : h.number = h'.number := by
  unfold EvmBlock.hashBytes at heq
  simp only [List.append_assoc] at heq
  have hlength : (Word.toBeBytes h.number).length = (Word.toBeBytes h'.number).length := by
    rw [Word.length_toBeBytes, Word.length_toBeBytes]
  exact Word.toBeBytes_inj (List.append_inj_left heq hlength)

theorem EvmChain.getBlockByHash_eq {chain : EvmChain} {hash : B256} {block : EvmBlock} :
    chain.getBlockByHash hash = some block ↔
      ∃ n, chain.blockHashes.lookup hash = some n ∧ chain.getBlock n = some block :=
  Option.bind_eq_some_iff

namespace ChainOp

variable {K : Curves} {C : Crypto} {chain chain' : EvmChain} {made : List EvmBlock}

theorem grown_new (C : Crypto) (config : ChainConfig) (coinbase : Address) (timestamp : UInt64) :
    (EvmChain.new config coinbase timestamp).Grown C [] := by
  have hget : ∀ n, (EvmChain.new config coinbase timestamp).getBlock n
      = if n = 0 then some (EvmBlock.genesis config timestamp) else none := by
    intro n
    show (Finmap.insert _ _ _).lookup n = _
    split
    · next h => rw [h, Finmap.lookup_insert]
    · next h => rw [Finmap.lookup_insert_of_ne _ h, Finmap.lookup_empty]
  have hzero : ∀ n : UInt64, n ≤ 0 → n = 0 := by
    intro n hn
    exact UInt64.toNat_inj.mp (Nat.le_zero.mp (UInt64.le_iff_toNat_le.mp hn))
  refine ⟨⟨fun n hn => ?_, fun n hn => ?_⟩, fun n hn => ?_, fun b hb => ?_, fun n hn b hb => ?_⟩
  · cases hzero n hn
    refine ⟨EvmBlock.genesis config timestamp, ?_, rfl, ?_, ?_⟩
    · rw [hget, if_pos rfl]
    · refine EvmChain.getBlockByHash_eq.mpr ⟨0, Finmap.lookup_insert _, ?_⟩
      rw [hget, if_pos rfl]
    · exact ⟨⟨rfl, fun _ _ _ h => (by cases h), fun _ _ h => (by cases h)⟩,
        fun _ h => absurd h List.not_mem_nil, rfl, UInt64.le_iff_toNat_le.mpr (Nat.zero_le _)⟩
  · exact absurd (UInt64.lt_iff_toNat_lt.mp hn) (Nat.not_lt_zero _)
  · rw [hget, if_neg]
    rintro rfl
    exact UInt64.lt_irrefl _ hn
  · rw [hget, if_pos rfl] at hb
    cases hb
    rfl
  · rw [hget, if_neg hn] at hb
    cases hb

/-- The pool is not part of what is kept. -/
theorem grown_submit {tx : SignedTransaction} (h : chain.Grown C made)
    (happly : (submitTransaction tx).apply K C chain = some chain') : chain'.Grown C made := by
  rcases apply_submit happly with rfl | rfl
  · exact h
  · exact ⟨⟨h.intact.stored, h.intact.linked⟩, h.ahead, h.first, h.later⟩

/-- The head is stored under its number. -/
theorem latestBlock_spec (h : chain.Intact) :
    ∃ parent, chain.latestBlock = some parent ∧ parent.header.number = chain.head := by
  obtain ⟨block, hblock, hnumber, -⟩ := h.stored chain.head (UInt64.le_refl _)
  exact ⟨block, hblock, hnumber⟩

/-- The time of a block is not before its parent's. -/
theorem le_blockTimestamp {producer : BlockProducer} {parent : EvmBlock} {now : UInt64}
    (baseFee : UInt64)
    (h : parent.header.timestamp ≤ now ∨ parent.header.timestamp.toNat
      + (producer.config.blockTimeMs / 1000).toNat < 2 ^ 64) :
    parent.header.timestamp ≤ (producer.context parent now baseFee).blockTimestamp := by
  let earliest := parent.header.timestamp + producer.config.blockTimeMs / 1000
  show _ ≤ if now ≤ earliest then earliest else now
  rcases h with hnow | hfits
  · split
    · next hle => exact UInt64.le_trans hnow hle
    · exact hnow
  · have hmin : parent.header.timestamp ≤ earliest := by
      rw [UInt64.le_iff_toNat_le, toNat_add_of_lt hfits]
      exact Nat.le_add_right _ _
    split
    · exact hmin
    · next hnot => exact UInt64.le_trans hmin (UInt64.le_of_lt (UInt64.not_le.mp hnot))

/-- **One block.** -/
theorem grown_insert {block parent : EvmBlock} (h : chain.Grown C made)
    (hdistinct : Distinct C (made ++ [block])) (hparent : chain.latestBlock = some parent)
    (hroom : parent.header.number.toNat + 1 < 2 ^ 64)
    (hnumber : block.header.number = parent.header.number + 1)
    (hhash : block.header.hash = (C.blake3 (EvmBlock.hashBytes block.header)).bytes)
    (hlink : block.header.parentHash = parent.header.hash)
    (htime : parent.header.timestamp ≤ block.header.timestamp) (haccounted : block.Accounted)
    (hblocks : chain'.blocks = chain.blocks.insert block.header.number block)
    (hhashes : chain'.blockHashes = chain.blockHashes.insert block.header.hash block.header.number)
    (hhead : chain'.head = block.header.number) : chain'.Grown C (made ++ [block]) := by
  have hparentNumber : parent.header.number = chain.head := by
    obtain ⟨parent', hparent', heq⟩ := latestBlock_spec h.intact
    cases hparent.symm.trans hparent'
    exact heq
  have htop : block.header.number.toNat = chain.head.toNat + 1 := by
    rw [hnumber, hparentNumber]
    exact toNat_add_of_lt (by rw [← hparentNumber]; exact hroom)
  have hnew : block.header.number ≠ 0 := by
    intro heq
    rw [heq] at htop
    exact absurd htop.symm (Nat.succ_ne_zero _)
  have hget : ∀ n, n ≠ block.header.number → chain'.getBlock n = chain.getBlock n := by
    intro n hn
    rw [EvmChain.getBlock, hblocks, Finmap.lookup_insert_of_ne _ hn]
    rfl
  have hgetNew : chain'.getBlock block.header.number = some block := by
    rw [EvmChain.getBlock, hblocks, Finmap.lookup_insert]
  have hmem : block ∈ made ++ [block] := List.mem_append_right _ (List.mem_singleton_self _)
  -- the new hash is nobody's
  have hfree : ∀ n b, chain.getBlock n = some b → b.header.number = n → n ≤ chain.head →
      b.header.hash ≠ block.header.hash := by
    intro n b hb hbNumber hn heq
    by_cases hzero : n = 0
    · subst hzero
      rw [h.first b hb, hhash] at heq
      exact hdistinct.nonzero block hmem heq.symm
    · obtain ⟨hmade, hbHash⟩ := h.later n hzero b hb
      rw [hbHash, hhash] at heq
      have hbytes := hdistinct.bytes b (List.mem_append_left _ hmade) block hmem (congrArg H256.mk heq)
      have hsame := EvmBlock.number_of_hashBytes hbytes
      rw [hbNumber] at hsame
      rw [UInt64.le_iff_toNat_le, hsame] at hn
      omega
  have hcases : ∀ n : UInt64, n ≤ block.header.number →
      n ≤ chain.head ∧ n ≠ block.header.number ∨ n = block.header.number := by
    intro n hn
    by_cases heq : n = block.header.number
    · exact .inr heq
    · refine .inl ⟨?_, heq⟩
      rw [UInt64.le_iff_toNat_le] at hn ⊢
      have hne : n.toNat ≠ block.header.number.toNat := fun hsame => heq (UInt64.toNat_inj.mp hsame)
      omega
  refine ⟨⟨fun n hn => ?_, fun n hn b next hb hnext => ?_⟩, fun n hn => ?_, fun b hb => ?_,
    fun n hn b hb => ?_⟩
  · rw [hhead] at hn
    rcases hcases n hn with ⟨hold, hne⟩ | rfl
    · obtain ⟨b, hb, hbNumber, hbHash, hbAccounted⟩ := h.intact.stored n hold
      refine ⟨b, by rw [hget n hne, hb], hbNumber, ?_, hbAccounted⟩
      obtain ⟨m, hm, hmBlock⟩ := EvmChain.getBlockByHash_eq.mp hbHash
      refine EvmChain.getBlockByHash_eq.mpr ⟨m, ?_, ?_⟩
      · rw [hhashes, Finmap.lookup_insert_of_ne _ (hfree n b hb hbNumber hold), hm]
      · rw [hget, hmBlock]
        rintro rfl
        rw [h.ahead _ (UInt64.lt_iff_toNat_lt.mpr (by omega))] at hmBlock
        cases hmBlock
    · refine ⟨block, hgetNew, rfl, ?_, haccounted⟩
      refine EvmChain.getBlockByHash_eq.mpr ⟨block.header.number, ?_, hgetNew⟩
      rw [hhashes, Finmap.lookup_insert]
  · rw [hhead, UInt64.lt_iff_toNat_lt] at hn
    have hnFits : (n + 1).toNat = n.toNat + 1 := by
      refine toNat_add_of_lt ?_
      have hlt := block.header.number.toNat_lt
      show n.toNat + 1 < 2 ^ 64
      omega
    have hnNe : n ≠ block.header.number := by
      rintro rfl
      exact Nat.lt_irrefl _ hn
    rw [hget n hnNe] at hb
    by_cases hlast : n = chain.head
    · have heq : n + 1 = block.header.number := by
        refine UInt64.toNat_inj.mp ?_
        rw [hnFits, htop, hlast]
      rw [heq, hgetNew] at hnext
      have hsame : some b = some parent := by
        rw [← hb, hlast]
        exact hparent
      cases hnext
      cases hsame
      exact ⟨hlink, htime⟩
    · have hne : n.toNat ≠ chain.head.toNat := fun hsame => hlast (UInt64.toNat_inj.mp hsame)
      have hnextNe : n + 1 ≠ block.header.number := by
        intro heq
        rw [heq, htop] at hnFits
        omega
      rw [hget _ hnextNe] at hnext
      exact h.intact.linked n (UInt64.lt_iff_toNat_lt.mpr (by omega)) b next hb hnext
  · rw [hhead, UInt64.lt_iff_toNat_lt] at hn
    rw [hget n, h.ahead n (UInt64.lt_iff_toNat_lt.mpr (by omega))]
    rintro rfl
    exact Nat.lt_irrefl _ hn
  · rw [hget 0 hnew.symm] at hb
    exact h.first b hb
  · by_cases hlast : n = block.header.number
    · rw [hlast, hgetNew] at hb
      cases hb
      exact ⟨hmem, hhash⟩
    · rw [hget n hlast] at hb
      obtain ⟨hmade, hbHash⟩ := h.later n hn b hb
      exact ⟨List.mem_append_left _ hmade, hbHash⟩

/-- **One call** that has room. -/
theorem grown_apply {op : ChainOp} (h : chain.Grown C made) (hroomy : op.Roomy K C chain)
    (hdistinct : Distinct C (made ++ op.made K C chain))
    (happly : op.apply K C chain = some chain') :
    chain'.Grown C (made ++ op.made K C chain) ∧ op.Drains chain chain' := by
  cases op with
  | submitTransaction tx =>
    rw [ChainOp.made, List.append_nil]
    exact ⟨grown_submit h happly, trivial⟩
  | produceNextBlock now =>
    obtain ⟨parent, hparent, -⟩ := latestBlock_spec h.intact
    obtain ⟨hnumber, htime, hfits⟩ := hroomy parent hparent
    obtain ⟨baseFee, p, hfee, hdrain, hchain'⟩ := apply_produce hparent happly
    have hbooked := (booked_start chain.producer.config _ chain.state).drain (hfits baseFee hfee)
      hdrain
    rw [List.nil_append] at hbooked
    let ctx := chain.producer.context parent now baseFee
    let block := BlockProducer.sealBlock C chain.producer.config parent ctx
      (p.state.commit C).stateRoot p
    have hmade : (produceNextBlock now).made K C chain = [block] := by
      have hproduce : chain.producer.produceBlock K C parent chain.state now
          = some ({ chain.producer with
            pendingTransactions := p.pending, lastBlockTime := ctx.blockTimestamp },
            p.state.commit C, block) := by
        rw [BlockProducer.produceBlock, hfee]
        show (Producing.drain K C chain.producer.config ctx _ _).bind _ = _
        rw [hdrain]
        rfl
      rw [ChainOp.made, EvmChain.produceNextBlock, hparent]
      dsimp only
      rw [hproduce]
      rfl
    rw [hmade] at hdistinct ⊢
    subst hchain'
    refine ⟨grown_insert h hdistinct hparent hnumber rfl rfl rfl (le_blockTimestamp baseFee htime)
      (accounted_sealBlock hbooked) rfl rfl rfl, block, ?_, hbooked.split⟩
    exact Finmap.lookup_insert _

/-- After every call of the run the chain is as it should be, and the call took from the
pool what it put into its block. -/
def Integrity (K : Curves) (C : Crypto) (start : EvmChain) (ops : List ChainOp) : Prop :=
  (∀ pre, pre <+: ops → ∀ chain, run K C start pre = some chain → chain.Intact) ∧
  ∀ pre op, pre ++ [op] <+: ops → ∀ chain chain', run K C start pre = some chain →
    op.apply K C chain = some chain' → op.Drains chain chain'

/-- In every run in which each block has room for what it takes, every state is intact. -/
theorem integrity_of_roomy (K : Curves) (C : Crypto) (config : ChainConfig) (coinbase : Address)
    (timestamp : UInt64) (ops : List ChainOp)
    (hdistinct : Distinct C (madeBy K C (.new config coinbase timestamp) ops))
    (hroomy : ∀ pre op, pre ++ [op] <+: ops → ∀ chain,
      run K C (.new config coinbase timestamp) pre = some chain → op.Roomy K C chain) :
    Integrity K C (.new config coinbase timestamp) ops := by
  let start := EvmChain.new config coinbase timestamp
  have hstep : ∀ pre op, pre ++ [op] <+: ops → ∀ chain, run K C start pre = some chain →
      chain.Grown C (madeBy K C start pre) → ∀ chain', op.apply K C chain = some chain' →
      chain'.Grown C (madeBy K C start (pre ++ [op])) ∧ op.Drains chain chain' := by
    intro pre op hpre chain hrun hgrown chain' happly
    have hmade : madeBy K C start (pre ++ [op]) = madeBy K C start pre ++ op.made K C chain :=
      gather_snoc hrun
    rw [hmade]
    refine grown_apply hgrown (hroomy pre op hpre chain hrun) ?_ happly
    obtain ⟨post, rfl⟩ := hpre
    have hnext : run K C start (pre ++ [op]) = some chain' := by
      rw [run_snoc, hrun]
      exact happly
    have hall : madeBy K C start (pre ++ [op] ++ post)
        = madeBy K C start (pre ++ [op]) ++ madeBy K C chain' post := gather_append hnext post
    rw [← hmade]
    rw [hall] at hdistinct
    exact hdistinct.left
  have hgrown : ∀ pre, pre <+: ops → ∀ chain, run K C start pre = some chain →
      chain.Grown C (madeBy K C start pre) := by
    refine forall_prefixes ?_ fun pre op hpre ih chain' hrun => ?_
    · intro chain hrun
      cases hrun
      exact grown_new C config coinbase timestamp
    · rw [run_snoc] at hrun
      obtain ⟨chain, hrun, happly⟩ := Option.bind_eq_some_iff.mp hrun
      exact (hstep pre op hpre chain hrun (ih chain hrun) chain' happly).1
  refine ⟨fun pre hpre chain hrun => (hgrown pre hpre chain hrun).intact, ?_⟩
  intro pre op hpre chain chain' hrun happly
  have hbefore := hgrown pre ((List.prefix_append _ _).trans hpre) chain hrun
  exact (hstep pre op hpre chain hrun hbefore chain' happly).2

/-- A chain on which gas is free. -/
def freeChain : EvmChain := .new ⟨7777, 30000, 0, 2000⟩ (Vector.replicate 20 9) 5

/-- A transfer of nothing. -/
def freeTransfer (nonce : UInt64) : SignedTransaction where
  transaction := { EvmExecutor.plainTransfer 0 with
    nonce := nonce, maxPriorityFeePerGas := 0, value := U256.ZERO }
  signatureHash := zeroHash
  sender := Vector.replicate 20 1

/-- The digests of a block with two such transfers: of the sender's account, the
transactions, the receipts and the header. -/
def freeRoot : H256 :=
  H256.ofNatBE 0xb66df4cac0ec6b0f72321759757e756135ed7ff98f67b09cc4b70cdeb2b4c30b

def freeTransactions : H256 :=
  H256.ofNatBE 0x4d006976636a8696d909a630a4081aad4d7c50f81afdee04020bf05086ab6a55

def freeCrypto : Crypto := Crypto.ofTable
  [(List.replicate 20 1 ++ Word.toBeBytes 2 ++ List.replicate 32 0 ++ EMPTY_CODE_HASH.toList,
      freeRoot),
    (List.replicate 64 0, freeTransactions),
    (List.replicate 32 0 ++ [1] ++ Word.toBeBytes 21000 ++
        List.replicate 32 0 ++ [1] ++ Word.toBeBytes 42000,
      H256.ofNatBE 0xae14b1ae4a99523b11b7bde4945d5cef2e51915b43c11af6afa822784cc90bb1),
    (Word.toBeBytes 1 ++ List.replicate 32 0 ++ freeRoot.asBytes ++ freeTransactions.asBytes ++
        Word.toBeBytes 10,
      H256.ofNatBE 0xc67534c7487884c647707d6807b912a257c98a6ea3d6a670237f4ca4e9167df1)]

/-- With room for both. -/
def wideChain : EvmChain := .new ⟨7777, 60000, 0, 2000⟩ (Vector.replicate 20 9) 5

/-- Two transfers fit their block. -/
theorem integrity_two_transfers :
    let ops := [submitTransaction (freeTransfer 0), submitTransaction (freeTransfer 1),
      produceNextBlock 10]
    Integrity .none freeCrypto wideChain ops ∧
      ((run .none freeCrypto wideChain ops).bind (·.getBlock 1)).map (·.header.gasUsed)
        = some 42000 := by
  intro ops
  refine ⟨?_, by decide +kernel⟩
  refine integrity_of_roomy .none freeCrypto _ _ _ ops ⟨by decide +kernel, by decide +kernel⟩ ?_
  refine forall_prefixes_snoc fun i hi => ?_
  rcases i with _ | _ | _ | i
  · exact fun _ _ => trivial
  · exact fun _ _ => trivial
  · intro chain hrun parent hparent
    cases hrun
    cases hparent
    refine ⟨by decide, .inl (by decide), fun baseFee hfee => ?_⟩
    cases hfee
    let ctx := wideChain.producer.context (EvmBlock.genesis wideChain.config 5) 10 0
    let gas := fun (s : StateDB) (nonce : UInt64) => (executeTransaction .none freeCrypto s
      (freeTransfer nonce).transaction (Vector.replicate 20 1) ctx).map (·.2.gasUsed)
    refine ⟨fun _ s r hexecute => ?_, fun p hturn => ⟨fun _ s r hexecute => ?_, fun _ _ => trivial⟩⟩
    · have hgas : gas wideChain.state 0 = some 21000 := by decide +kernel
      have hused : some r.gasUsed = gas wideChain.state 0 :=
        (congrArg (Option.map fun out : StateDB × ExecutionResult => out.2.gasUsed) hexecute).symm
      rw [Option.some.inj (hused.trans hgas)]
      decide
    · have hgas : ((Producing.start wideChain.state).turn .none freeCrypto wideChain.config ctx
          (freeTransfer 0)).map (fun p => (p.cumulativeGas, gas p.state 1))
            = some (21000, some 21000) := by
        decide +kernel
      have hboth : some (p.cumulativeGas, gas p.state 1) = some (21000, some 21000) :=
        (congrArg (Option.map fun p : Producing => (p.cumulativeGas, gas p.state 1))
          hturn).symm.trans hgas
      obtain ⟨hbefore, hafter⟩ := Prod.mk.inj (Option.some.inj hboth)
      have hused : some r.gasUsed = gas p.state 1 :=
        (congrArg (Option.map fun out : StateDB × ExecutionResult => out.2.gasUsed) hexecute).symm
      rw [hbefore, Option.some.inj (hused.trans hafter)]
      decide
  · exact absurd hi (by simp [ops])

/-- Two transfers of 21000 gas are put into a block of 30000. -/
theorem block_over_gas_limit :
    let ops := [submitTransaction (freeTransfer 0), submitTransaction (freeTransfer 1),
      produceNextBlock 10]
    ¬ Integrity .none (Crypto.ofTable []) freeChain ops ∧
      ((run .none (Crypto.ofTable []) freeChain ops).bind (·.getBlock 1)).map
        (fun block => (block.header.gasUsed, block.header.gasLimit)) = some (42000, 30000) := by
  intro ops
  have hover : ((run .none (Crypto.ofTable []) freeChain ops).bind (·.getBlock 1)).map
      (fun block => (block.header.gasUsed, block.header.gasLimit)) = some (42000, 30000) := by
    decide +kernel
  refine ⟨fun h => ?_, hover⟩
  obtain ⟨block, hblock, hgas⟩ := Option.map_eq_some_iff.mp hover
  obtain ⟨chain, hrun, hget⟩ := Option.bind_eq_some_iff.mp hblock
  have hhead : (run .none (Crypto.ofTable []) freeChain ops).map (·.head) = some 1 := by
    decide +kernel
  rw [hrun] at hhead
  obtain ⟨block', hget', -, -, haccounted⟩ := (h.1 ops List.prefix_rfl chain hrun).stored 1
    (UInt64.le_of_eq (Option.some.inj hhead).symm)
  cases hget.symm.trans hget'
  have hwithin := haccounted.within
  obtain ⟨hused, hlimit⟩ := Prod.mk.inj hgas
  rw [hused, hlimit] at hwithin
  exact absurd hwithin (by decide)

end ChainOp

end Pyrax.Evm
