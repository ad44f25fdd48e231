import Pyrax.Rpc.Server
import Pyrax.Ledger.Rollback

/-!
# Admission against consensus

A transaction that `send_raw_transaction` accepted may end up in a block, where
`validate_transactions` judges it. The two were written separately. What the
first establishes of a transaction is `Admitted.spec`: its inputs are there and
unspent, its sums are in order, it has an input at all (the minimal fee rate sees
to that), and the pool keeps it apart from every other transaction it holds.

What it never asks is `Spendable`: an output, no input named twice, maturity and
signatures. `admission_agrees_iff` says that this is the whole difference.
-/

namespace Pyrax.Mempool

open Base Base.Hex ChainDB Validation Rpc Ledger

/-- A pool the node can have: the default configuration, any history. -/
def Reachable (C : Crypto) (m : Mempool) : Prop :=
  ∃ ops, m = runPool C (new MempoolConfig.default) ops

/-- `send_raw_transaction` reported this transaction accepted on the database
`s`, and the pool `m` holds it. -/
structure Admitted (C : Crypto) (s : ChainDB) (m : Mempool) (tx : Transaction) : Prop where
  accepted : ∃ m₀ m₁ r txHex, Reachable C m₀ ∧
    decodeParam Transaction.deserialize .invalidTransaction txHex = .ok tx ∧
    sendRawTransaction C s (some m₀) txHex = .ok (r, m₁) ∧ r.accepted = true
  held : m.Holds C tx

/-- What the validator asks of a transaction and the admission does not. -/
structure Spendable (C : Crypto) (s : ChainDB) (tx : Transaction) : Prop where
  outputs_ne : tx.outputs ≠ []
  nodup : tx.spends.Nodup
  mature : ∀ i ∈ tx.inputs, ∀ utxo, s.getUtxo i.previousOutput = some utxo →
    utxo.isMature (s.tip.height + 1) = true
  signed : ∀ i ∈ tx.inputs, ∀ utxo, s.getUtxo i.previousOutput = some utxo →
    SignatureValid C tx i utxo

variable {C : Crypto} {s : ChainDB} {m : Mempool} {tx : Transaction}

/-! ## What admission establishes -/

theorem config_op (m : Mempool) (op : PoolOp) : (op.run C m).config = m.config := by
  have hremove : ∀ (m : Mempool) (k : H256), (m.remove k).config = m.config := by
    intro m k
    unfold remove
    split
    · rfl
    · rfl
  cases op with
  | add tx inputValue =>
    rcases PoolOp.run_add_cases (C := C) m tx inputValue with hsame | hadd
    · rw [hsame]
    · rw [(add_ok_iff.mp hadd).2]
      rfl
  | remove txid => exact hremove m txid
  | removeConfirmed order spent =>
    show ((order.filter (m.conflicts spent)).foldl remove m).config = m.config
    generalize order.filter (m.conflicts spent) = ks
    induction ks generalizing m with
    | nil => rfl
    | cons k ks ih => rw [List.foldl_cons, ih, hremove]
  | clear => rfl

theorem Reachable.config (h : Reachable C m) : m.config = MempoolConfig.default := by
  obtain ⟨ops, rfl⟩ := h
  unfold runPool
  induction ops using List.reverseRecOn with
  | nil => rfl
  | append_singleton ops op ih => rw [List.foldl_append, List.foldl_cons, List.foldl_nil, config_op, ih]

theorem Reachable.wellFormed (h : Reachable C m) : WellFormed C m := by
  obtain ⟨ops, rfl⟩ := h
  exact wellFormed_run ops

/-- A transaction without inputs pays no fee, and the pool wants one. -/
theorem inputs_ne_of_add {m' : Mempool} (hcfg : m.config = MempoolConfig.default)
    (hadd : m.add C tx (totalInput s tx) = .ok m') : tx.inputs ≠ [] := by
  obtain ⟨⟨hle, _, hrate, _⟩, _⟩ := add_ok_iff.mp hadd
  intro hin
  have hzero : totalInput s tx = 0 := by
    unfold totalInput Transaction.spends
    rw [hin]
    rfl
  rw [hzero, UInt64.le_zero_iff] at hle
  rw [hzero, hle, hcfg, UInt64.sub_self, UInt64.zero_div] at hrate
  exact absurd hrate (by decide)

/-- What an accepted transaction satisfies on the database it was sent to. -/
theorem Admitted.spec (h : Admitted C s m tx) :
    tx.inputs ≠ [] ∧ (∀ i ∈ tx.inputs, ∃ utxo, s.getUtxo i.previousOutput = some utxo) ∧
      tx.totalOutput ≤ totalInput s tx := by
  obtain ⟨m₀, m₁, r, txHex, hreach, htx, hsend, hacc⟩ := h.accepted
  obtain ⟨tx', htx', hadm⟩ := sendRawTransaction_accepted_iff.mp ⟨r, hsend, hacc⟩
  obtain rfl := Except.ok.inj (htx'.symm.trans htx)
  obtain ⟨hin, hfunds, m', hadd, _⟩ := admitTx_ok_iff.mp hadm
  exact ⟨inputs_ne_of_add hreach.config hadd,
    fun i hi => Option.isSome_iff_exists.mp (hin i hi).2, hfunds⟩

/-- By itself an admitted transaction is valid iff it is spendable. -/
theorem Admitted.txValid_iff (h : Admitted C s m tx) :
    TxValid C s (s.tip.height + 1) tx ↔ Spendable C s tx := by
  obtain ⟨hne, hin, hfunds⟩ := h.spec
  constructor
  · intro hv
    refine ⟨hv.outputs_ne, hv.nodup, fun i hi utxo hutxo => ?_, fun i hi utxo hutxo => ?_⟩
    all_goals
      obtain ⟨utxo', hutxo', hmat, hsig⟩ := hv.input i hi
      obtain rfl := Option.some.inj (hutxo'.symm.trans hutxo)
    · exact hmat
    · exact hsig
  · intro hs
    refine ⟨hne, hs.outputs_ne, hs.nodup, fun i hi => ?_, hfunds⟩
    obtain ⟨utxo, hutxo⟩ := hin i hi
    exact ⟨utxo, hutxo, hs.mature i hi utxo hutxo, hs.signed i hi utxo hutxo⟩

/-- Distinct transactions of one pool never spend the same outpoint. -/
theorem allSpends_nodup (hm : WellFormed C m) {txs : List Transaction} (hnd : txs.Nodup)
    (hheld : ∀ tx ∈ txs, m.Holds C tx) (hown : ∀ tx ∈ txs, tx.spends.Nodup) :
    (allSpends txs).Nodup := by
  unfold allSpends
  rw [List.nodup_flatMap]
  refine ⟨hown, hnd.imp_of_mem fun {tx tx'} htx htx' hne => ?_⟩
  exact fun o ho ho' => Holds.disjoint hm (hheld tx htx) (hheld tx' htx') hne ho ho'

theorem reachable_new (C : Crypto) : Reachable C (new MempoolConfig.default) := ⟨[], rfl⟩

/-- What a pool takes can be sent to it as text and is then admitted. -/
theorem admitted_of_add {inputValue : UInt64} {m' : Mempool} (hm : Reachable C m)
    (hin : ∀ i ∈ tx.inputs, i.isCoinbase = false ∧ (s.getUtxo i.previousOutput).isSome = true)
    (htotal : inputValue = totalInput s tx) (hadd : m.add C tx inputValue = .ok m') :
    Reachable C m' ∧ Admitted C s m' tx := by
  obtain ⟨⟨hle, hsize, _⟩, hm'⟩ := add_ok_iff.mp hadd
  have hreach : Reachable C m' := by
    obtain ⟨ops, rfl⟩ := hm
    refine ⟨ops ++ [.add tx inputValue], ?_⟩
    rw [runPool, List.foldl_append]
    exact (PoolOp.run_add_of_ok hadd).symm
  have hsmall : tx.serialize.length ≤ 100000 := by
    rw [hm.config] at hsize
    exact hsize
  have hdec : decodeParam Transaction.deserialize .invalidTransaction
      ("0x" ++ encodeHex tx.serialize) = .ok tx :=
    decodeParam_encodeHex (Transaction.reads (Transaction.fits_of_length (by omega)))
  refine ⟨hreach, ⟨?_, ?_⟩⟩
  · rw [htotal] at hle hadd
    obtain ⟨r, hsend, hacc⟩ := sendRawTransaction_accepted_iff.mpr ⟨tx, hdec,
      admitTx_ok_iff.mpr ⟨hin, hle, m', hadd, rfl⟩⟩
    exact ⟨_, _, r, _, hm, hdec, hsend, hacc⟩
  · refine ⟨⟨tx, inputValue - tx.totalOutput, tx.serialize.length⟩, ?_, rfl⟩
    rw [hm', lookup_insertEntry, if_pos rfl]

/-! ## The two validators -/

/-- Admission and consensus differ in `Spendable` and in nothing else: a block
on the tip made of a valid coinbase and distinct admitted transactions passes
exactly when each of them is spendable. -/
theorem admission_agrees_iff (hm : Reachable C m) {b : Block} {coinbase : Transaction}
    {txs : List Transaction} (hadm : ∀ tx ∈ txs, Admitted C s m tx) (hnd : txs.Nodup)
    (hcoinbase : validateCoinbase coinbase = .ok ()) (hheight : b.height = s.tip.height + 1)
    (hb : b.transactions = coinbase :: txs) :
    validateTransactions C b s = .ok () ↔ ∀ tx ∈ txs, Spendable C s tx := by
  rw [validateTransactions_cons_ok_iff hb, hheight]
  constructor
  · intro hbody tx htx
    exact (hadm tx htx).txValid_iff.mp (hbody.valid tx htx)
  · intro hspend
    refine ⟨validateCoinbase_ok_iff.mp hcoinbase, fun tx htx => ?_, ?_⟩
    · exact (hadm tx htx).txValid_iff.mpr (hspend tx htx)
    · exact allSpends_nodup hm.wellFormed hnd (fun tx htx => (hadm tx htx).held)
        fun tx htx => (hspend tx htx).nodup

/-- Two outputs to the holder of the private key `1`, made by no input. -/
def grantTx : Transaction :=
  .new [] [.p2pkh 100000 (Address.fromSlice generatorHash160),
    .p2pkh 100000 (Address.fromSlice generatorHash160)]

def grantTxid : H256 :=
  H256.ofNatBE 0x2922f5de7a6ae7e33da42956435b0d932f96001d49adcad3e9fa221a8e56dd4c

/-- The signatures of that key under the two transactions below, `r || s`. -/
def paySignature : List UInt8 :=
  (H256.ofNatBE 0x80394aa8813085500e801a5871379213dfee6b26c24a1aa718568e60cf0a1e77).asBytes ++
    (H256.ofNatBE 0x02e11545e2f2c02ffd9add3d9cf8c70c9f9371e22c158dcb5d2ff4d727b4bca2).asBytes

def secondSignature : List UInt8 :=
  (H256.ofNatBE 0xf4b8204dcaab0475c1b4fd3127327d711fada4b6ba2ee67bba0d4c6da88f2d7e).asBytes ++
    (H256.ofNatBE 0x532bf1364113d959f55e1235d5c65994403636ff3368057e197b11010172bf30).asBytes

/-- A transaction that spends an output of the grant as the validator wants it signed. -/
def grantSpent (vout : UInt32) (signature : List UInt8) : Transaction :=
  .new [.new ⟨grantTxid, vout⟩ (64 :: signature ++ 33 :: generatorCompressed)]
    [.p2pkh 90000 Address.ZERO]

def payTx : Transaction := grantSpent 0 paySignature

def secondTx : Transaction := grantSpent 1 secondSignature

/-- Keccak-256 of the signing preimages, which are the messages that are signed. -/
def payMessage : H256 :=
  H256.ofNatBE 0xdd2f62f12217b29d00b5cbb96fbec4c376103a8e85cb1fff9c98a0328894d571

def secondMessage : H256 :=
  H256.ofNatBE 0x20b18f4c557fb0bd207a6a01eb86cefe23c3fd319a1150747a4f5759c5896dd9

/-- With BLAKE3 of what a block of the first payment hashes. -/
def payTable : KeyTable where
  blake3 :=
    let genesis := 0xfb9b0e3a9e57f1325309d251f117712de619335d9a09b6ec3190835df84995fa
    let grant := 0x2922f5de7a6ae7e33da42956435b0d932f96001d49adcad3e9fa221a8e56dd4c
    let first := 0xd8d4a23fb8697bb71b2e028a079b8f52ca1c32eab23c0d96202fd48d1031aac1
    let pay := 0x769731315277d0dae6873aae316b06c5f5fec03e7fb8369437b2b8dca561c4a3
    let reward := 0x5bf506fefb08836645f6566b13943fa5a602b051e0ac6654055a329a43bb14e4
    let root := 0x7aba544cfa151e61fc42055c79c61d5bda34c431e457ef06d96792a56cd0554f
    devnetTable.take 2 ++
      [(grantTx.serialize, grantTxid),
       ((tableHeader genesis grant 1).preimage, H256.ofNatBE first),
       (payTx.serialize, H256.ofNatBE pay),
       (secondTx.serialize,
        H256.ofNatBE 0xf1474de8fea99389d3e1b2f238f8784979e6cfc8d457867060c543bbb8a06e6b),
       (devnetCoinbase.serialize, H256.ofNatBE reward),
       ((H256.ofNatBE reward).asBytes ++ (H256.ofNatBE pay).asBytes, H256.ofNatBE root),
       ((tableHeader first root 2).preimage,
        H256.ofNatBE 0xe3fdc0b48a40354ba5c45d7152067ddbcb7b8604089cf6cbc2772e699414cd21)]
  keccak256 :=
    let script := (TxOutput.p2pkh 0 (Address.fromSlice generatorHash160)).scriptPubkey
    [(signingPreimage payTx 0 script, payMessage),
      (signingPreimage secondTx 0 script, secondMessage)]
  sha256 := [(generatorCompressed, generatorSha256.bytes)]
  ripemd160 := [(generatorSha256.asBytes, arrayFromSlice 20 generatorHash160)]
  compressed := arrayFromSlice 33 generatorCompressed
  uncompressed := arrayFromSlice 65 (0x04 :: generatorX.asBytes ++ generatorY.asBytes)
  verified := [(payMessage.asBytes, arrayFromSlice 64 paySignature),
    (secondMessage.asBytes, arrayFromSlice 64 secondSignature)]
  signed := []

def payCrypto : Crypto := .ofKey payTable

/-- The devnet after a block that makes the grant, committed unvalidated. -/
def grantedState : ChainDB :=
  committed payCrypto (openNew payCrypto NetworkId.DEVNET)
    (easyBlock payCrypto (openNew payCrypto NetworkId.DEVNET) 1735689600 [grantTx])

def grantUtxo : Utxo := ⟨.p2pkh 100000 (Address.fromSlice generatorHash160), 1, false⟩

theorem grantedState_getUtxo : grantedState.getUtxo ⟨grantTxid, 0⟩ = some grantUtxo ∧
    grantedState.getUtxo ⟨grantTxid, 1⟩ = some grantUtxo := by
  decide +kernel

/-- Each of the two payments has one input, an output of the grant, and is signed. -/
theorem grantSpent_of_mem {tx : Transaction} (h : tx ∈ [payTx, secondTx]) :
    ∃ i, tx.inputs = [i] ∧ grantedState.getUtxo i.previousOutput = some grantUtxo ∧
      SignatureValid payCrypto tx i grantUtxo := by
  unfold SignatureValid
  rcases List.mem_pair.mp h with rfl | rfl
  · exact ⟨_, rfl, grantedState_getUtxo.1, by decide +kernel⟩
  · exact ⟨_, rfl, grantedState_getUtxo.2, by decide +kernel⟩

theorem spendable_of_mem {tx : Transaction} (h : tx ∈ [payTx, secondTx]) :
    Spendable payCrypto grantedState tx := by
  obtain ⟨input, hinputs, hutxo, hsigned⟩ := grantSpent_of_mem h
  have hinput : ∀ i ∈ tx.inputs, ∀ utxo, grantedState.getUtxo i.previousOutput = some utxo →
      i = input ∧ utxo = grantUtxo := by
    intro i hi utxo hi'
    rw [hinputs] at hi
    obtain rfl := List.mem_singleton.mp hi
    exact ⟨rfl, (Option.some.inj (hutxo.symm.trans hi')).symm⟩
  refine ⟨?_, ?_, fun i hi utxo hi' => ?_, fun i hi utxo hi' => ?_⟩
  · rcases List.mem_pair.mp h with rfl | rfl <;> exact List.cons_ne_nil _ _
  · rw [Transaction.spends, hinputs]
    exact List.nodup_singleton _
  · rw [(hinput i hi utxo hi').2]
    rfl
  · obtain ⟨rfl, rfl⟩ := hinput i hi utxo hi'
    exact hsigned

theorem totalInput_of_mem {tx : Transaction} (h : tx ∈ [payTx, secondTx]) :
    totalInput grantedState tx = 100000 := by
  obtain ⟨input, hinputs, hutxo, _⟩ := grantSpent_of_mem h
  exact totalInput_singleton (by rw [Transaction.spends, hinputs]; rfl) hutxo

theorem payTx_valid : TxValid payCrypto grantedState (grantedState.tip.height + 1) payTx := by
  have hspendable := spendable_of_mem (List.mem_cons_self .. : payTx ∈ _)
  obtain ⟨input, hinputs, hutxo, hsigned⟩ := grantSpent_of_mem (List.mem_cons_self .. : payTx ∈ _)
  refine ⟨List.cons_ne_nil _ _, hspendable.outputs_ne, hspendable.nodup, fun i hi => ?_, ?_⟩
  · rw [hinputs] at hi
    obtain rfl := List.mem_singleton.mp hi
    exact ⟨_, hutxo, rfl, hsigned⟩
  · rw [totalInput_of_mem (List.mem_cons_self ..)]
    decide

/-- The pool with the first payment, and with both. -/
def payPool : Mempool := (new MempoolConfig.default).insertEntry payCrypto payTx 10000 212

def bothPool : Mempool := payPool.insertEntry payCrypto secondTx 10000 212

theorem payTx_add : (new MempoolConfig.default).add payCrypto payTx 100000 = .ok payPool := by
  have hsize : payTx.serialize.length = 212 := by decide +kernel
  exact add_new hsize (by decide) (by decide) (by decide) (by decide +kernel) (by decide)

theorem secondTx_add : payPool.add payCrypto secondTx 100000 = .ok bothPool := by
  have hsize : secondTx.serialize.length = 212 := by decide +kernel
  rw [add_ok_iff, hsize]
  exact ⟨by decide +kernel, rfl⟩

/-- Two payments that were sent, and are signed, make a block that passes. -/
theorem admission_agrees_iff_payments :
    validateTransactions payCrypto
      (easyBlock payCrypto grantedState 1735689600 [devnetCoinbase, payTx, secondTx]) grantedState
        = .ok () := by
  have hin : ∀ tx ∈ [payTx, secondTx], ∀ i ∈ tx.inputs,
      i.isCoinbase = false ∧ (grantedState.getUtxo i.previousOutput).isSome = true := by
    intro tx htx i hi
    obtain ⟨input, hinputs, hutxo, _⟩ := grantSpent_of_mem htx
    rw [hinputs] at hi
    obtain rfl := List.mem_singleton.mp hi
    refine ⟨?_, Option.isSome_iff_exists.mpr ⟨_, hutxo⟩⟩
    rcases List.mem_pair.mp htx with rfl | rfl <;> cases hinputs <;> decide +kernel
  have hfirst := List.mem_cons_self (a := payTx) (l := [secondTx])
  have hsecond := List.mem_cons_of_mem payTx (List.mem_singleton_self secondTx)
  obtain ⟨hreach, hpay⟩ := admitted_of_add (reachable_new _) (hin payTx hfirst)
    (totalInput_of_mem hfirst).symm payTx_add
  obtain ⟨hboth, hadmitted⟩ := admitted_of_add hreach (hin secondTx hsecond)
    (totalInput_of_mem hsecond).symm secondTx_add
  have hall : ∀ tx ∈ [payTx, secondTx], Admitted payCrypto grantedState bothPool tx := by
    intro tx htx
    rcases List.mem_pair.mp htx with rfl | rfl
    · refine ⟨hpay.accepted, ?_⟩
      obtain ⟨e, he, htx⟩ := hpay.held
      refine ⟨e, ?_, htx⟩
      rw [bothPool, lookup_insertEntry, if_neg (by decide +kernel)]
      exact he
    · exact hadmitted
  exact (admission_agrees_iff hboth hall (by decide +kernel)
    (validateCoinbase_ok_iff.mpr (coinbaseValid_coinbase (UInt64.le_refl _))) rfl rfl).mpr
      fun tx htx => spendable_of_mem htx

/-- What admission is for, with nothing said about the transactions. -/
def AdmissionAgrees (C : Crypto) : Prop :=
  ∀ (network : NetworkId) (as : List Arrival) (s : ChainDB),
    Run (Accepts C) (openNew C network) as s → ∀ m, Reachable C m →
    ∀ (b : Block) (coinbase : Transaction) (txs : List Transaction),
      (∀ tx ∈ txs, Admitted C s m tx) → txs.Nodup → validateCoinbase coinbase = .ok () →
      b.height = s.tip.height + 1 → b.transactions = coinbase :: txs →
      validateTransactions C b s = .ok ()

/-- A transaction without a signature that spends the first block's reward. -/
def unsignedTx (C : Crypto) : Transaction :=
  .new [.new ⟨devnetCoinbase.txid C, 0⟩ []] [.p2pkh 1 Address.ZERO]

theorem unsignedTx_add (C : Crypto) :
    (new MempoolConfig.default).add C (unsignedTx C) (totalInput (afterPlain C) (unsignedTx C))
      = .ok ((new MempoolConfig.default).insertEntry C (unsignedTx C)
          (totalInput (afterPlain C) (unsignedTx C) - 1) 113) := by
  have htotal : totalInput (afterPlain C) (unsignedTx C) = 5000000000 :=
    totalInput_singleton rfl (afterPlain_getUtxo C)
  have hsize : (unsignedTx C).serialize.length = 113 := by
    rw [Transaction.serialize_length]
    show 24 + ((TxInput.serialize _).length + 0) + ((TxOutput.serialize _).length + 0) = 113
    rw [TxInput.serialize_length, TxOutput.serialize_length]
    rfl
  have hcb : (unsignedTx C).isCoinbase = false := by
    simp [unsignedTx, Transaction.isCoinbase, Transaction.new, TxInput.new, TxInput.isCoinbase,
      OutPoint.isCoinbase]
  have hout : (unsignedTx C).totalOutput = 1 := rfl
  rw [htotal, ← hout]
  refine add_new hsize ?_ (by decide) ?_ hcb (by decide)
  · rw [hout]
    decide
  · rw [hout]
    decide

/-- Whatever the hash functions: a wallet need not even sign to get a
transaction into the pool from which no valid block can take it. -/
theorem admission_not_agrees : ¬ ∃ C : Crypto, AdmissionAgrees C := by
  intro h
  obtain ⟨C, hC⟩ := h
  have hin : ∀ i ∈ (unsignedTx C).inputs,
      i.isCoinbase = false ∧ ((afterPlain C).getUtxo i.previousOutput).isSome = true := by
    intro i hi
    rw [List.mem_singleton.mp hi]
    refine ⟨by simp [TxInput.new, TxInput.isCoinbase, OutPoint.isCoinbase], ?_⟩
    show ((afterPlain C).getUtxo ⟨devnetCoinbase.txid C, 0⟩).isSome = true
    rw [afterPlain_getUtxo]
    rfl
  -- admission looks at neither the age of the input nor its script
  obtain ⟨hreach, hadm⟩ := admitted_of_add (reachable_new C) hin rfl (unsignedTx_add C)
  have hrun : Run (Accepts C) (openNew C NetworkId.DEVNET) [⟨1735689600, plainBlock C⟩]
      (afterPlain C) :=
    Run.single (accepts_iff.mpr ⟨easyBlock_valid_openNew C _
      (coinbaseValid_coinbase (UInt64.le_refl _)) (by decide +kernel), rfl⟩)
  have hpass := hC NetworkId.DEVNET _ _ hrun _ hreach
    (easyBlock C (afterPlain C) 1735689600 [devnetCoinbase, unsignedTx C]) devnetCoinbase
    [unsignedTx C] (fun tx htx => List.mem_singleton.mp htx ▸ hadm) (List.nodup_singleton _)
    (validateCoinbase_ok_iff.mpr (coinbaseValid_coinbase (UInt64.le_refl _))) rfl rfl
  have hbody := (validateTransactions_cons_ok_iff rfl).mp hpass
  obtain ⟨utxo, hutxo, hmat, _⟩ := (hbody.valid _ (List.mem_singleton_self _)).input _
    (List.mem_singleton_self _)
  -- the reward is one block old
  have hutxo : (afterPlain C).getUtxo ⟨devnetCoinbase.txid C, 0⟩ = some utxo := hutxo
  rw [afterPlain_getUtxo] at hutxo
  rw [← Option.some.inj hutxo] at hmat
  exact absurd hmat (by decide : ¬ decide ((1 : UInt64) + 100 ≤ 0 + 1 + 1) = true)

end Pyrax.Mempool
