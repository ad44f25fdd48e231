import Pyrax.Validation.Pushes

/-!
# What a validated block satisfies

One specification per rule of `Validation.Rules`, each an equivalence: a
function returns `ok` exactly when a named property holds. Everything else in
the development uses these and does not unfold the rules again.

`InputValid` and `TxValid` say what one input and one transaction have to
satisfy against a database; they mention no other transaction. What the
transactions of a block owe each other is only that all their inputs are
distinct, and `validateTransactions_ok_iff` puts the two together:

> a non-empty list passes iff its head is a valid coinbase, every other
> transaction is `TxValid`, and no outpoint is spent twice among those.
-/

namespace Pyrax.Validation

open Base

variable {C : Crypto} {s : ChainDB} {height : UInt64}

/-! ## One transaction -/

/-- The value an outpoint holds, `0` when there is none. -/
def inputValue (s : ChainDB) (o : OutPoint) : UInt64 :=
  match s.getUtxo o with
  | some utxo => utxo.output.value
  | none => 0

/-- The wrapping sum of the values a transaction spends. -/
def totalInput (s : ChainDB) (tx : Transaction) : UInt64 := (tx.spends.map (inputValue s)).sum

theorem totalInput_singleton {s : ChainDB} {tx : Transaction} {o : OutPoint} {utxo : Utxo}
    (htx : tx.spends = [o]) (hutxo : s.getUtxo o = some utxo) :
    totalInput s tx = utxo.output.value := by
  rw [totalInput, htx, List.map_singleton, List.sum_singleton, inputValue, hutxo]

/-- The signature of an input unlocks the output it spends. -/
def SignatureValid (C : Crypto) (tx : Transaction) (input : TxInput) (utxo : Utxo) : Prop :=
  verifyP2pkhSignature C input.scriptSig utxo.output.scriptPubkey
    (computeSigningHash C tx (inputIndex tx input.previousOutput) utxo.output.scriptPubkey)
      = .ok ()

/-- An input spends a mature output of the UTXO set with a valid signature. -/
def InputValid (C : Crypto) (s : ChainDB) (height : UInt64) (tx : Transaction)
    (input : TxInput) : Prop :=
  ∃ utxo, s.getUtxo input.previousOutput = some utxo ∧ utxo.isMature height = true ∧
    SignatureValid C tx input utxo

/-- What a non-coinbase transaction owes the database, by itself. -/
structure TxValid (C : Crypto) (s : ChainDB) (height : UInt64) (tx : Transaction) : Prop where
  inputs_ne : tx.inputs ≠ []
  outputs_ne : tx.outputs ≠ []
  nodup : tx.spends.Nodup
  input : ∀ i ∈ tx.inputs, InputValid C s height tx i
  funds : tx.totalOutput ≤ totalInput s tx

/-- What `verify_p2pkh_signature` compares first: the hash of the key that the
unlocking script carries with the hash in the locking script. -/
theorem hash160_of_verify {signature pubkey scriptPubkey : List UInt8} {signingHash : H256}
    (hsig : signature.length < 256) (hpub : pubkey.length < 256)
    (h : verifyP2pkhSignature C
      (UInt8.ofNat signature.length :: signature ++ UInt8.ofNat pubkey.length :: pubkey)
      scriptPubkey signingHash = .ok ()) :
    hash160 C pubkey = (scriptPubkey.drop 3).take 20 := by
  have hpushes : TwoPushes
      (UInt8.ofNat signature.length :: signature ++ UInt8.ofNat pubkey.length :: pubkey)
      signature pubkey [] :=
    ⟨hsig, hpub, by rw [List.append_nil]; rfl⟩
  exact ((verify_ok_of_twoPushes_iff hpushes).mp h).hash

theorem validateInput_ok_iff {tx : Transaction} {acc acc' : UInt64 × List OutPoint}
    {i : TxInput} :
    validateInput C tx height s acc i = .ok acc' ↔
      i.previousOutput ∉ acc.2 ∧ InputValid C s height tx i ∧
        acc' = (acc.1 + inputValue s i.previousOutput, i.previousOutput :: acc.2) := by
  unfold validateInput
  simp only [failIf_bind_eq_ok]
  refine and_congr_right fun _ => ?_
  constructor
  · intro h
    obtain ⟨utxo, hutxo, h⟩ := bind_eq_ok.mp h
    rw [okOr_eq_ok] at hutxo
    obtain ⟨hmat, h⟩ := failIf_bind_eq_ok.mp h
    obtain ⟨hsig, h⟩ := bind_unit_eq_ok.mp h
    refine ⟨⟨utxo, hutxo, by simpa using hmat, hsig⟩, ?_⟩
    rw [inputValue, hutxo]
    exact (Except.ok.inj h).symm
  · intro h
    obtain ⟨⟨utxo, hutxo, hmat, hsig⟩, rfl⟩ := h
    refine bind_eq_ok.mpr ⟨utxo, okOr_eq_ok.mpr hutxo, ?_⟩
    refine failIf_bind_eq_ok.mpr ⟨by simp [hmat], ?_⟩
    refine bind_unit_eq_ok.mpr ⟨hsig, ?_⟩
    rw [inputValue, hutxo]

/-- The input loop, from any point of it. -/
theorem validateInputs_ok_iff {tx : Transaction} : ∀ {is : List TxInput}
    {acc acc' : UInt64 × List OutPoint},
    is.foldlM (validateInput C tx height s) acc = .ok acc' ↔
      (is.map (·.previousOutput)).Nodup ∧ (∀ i ∈ is, i.previousOutput ∉ acc.2) ∧
        (∀ i ∈ is, InputValid C s height tx i) ∧
        acc' = (acc.1 + (is.map fun i => inputValue s i.previousOutput).sum,
          (is.map (·.previousOutput)).reverse ++ acc.2)
  | [], acc, acc' => by
    have hacc : (acc.1, acc.2) = acc := rfl
    simp only [List.foldlM_nil, List.map_nil, List.nodup_nil, List.not_mem_nil, List.sum_nil,
      List.reverse_nil, List.nil_append, UInt64.add_zero, hacc, true_and]
    exact ⟨fun h => ⟨fun _ h => h.elim, fun _ h => h.elim, (Except.ok.inj h).symm⟩,
      fun ⟨_, _, h⟩ => congrArg Except.ok h.symm⟩
  | i :: is, acc, acc' => by
    rw [foldlM_cons_eq_ok]
    simp only [validateInput_ok_iff, @validateInputs_ok_iff tx is]
    simp only [List.map_cons, List.nodup_cons, List.mem_map, List.forall_mem_cons, List.sum_cons,
      List.reverse_cons, List.append_assoc, List.singleton_append]
    constructor
    · intro h
      obtain ⟨_, ⟨hi, hv, rfl⟩, hnd, hout, hall, rfl⟩ := h
      -- the head went into the set, so no later input repeats it
      refine ⟨⟨?_, hnd⟩, ⟨hi, fun j hj hm => hout j hj (List.mem_cons_of_mem _ hm)⟩, ⟨hv, hall⟩, ?_⟩
      · intro h
        obtain ⟨j, hj, hji⟩ := h
        exact hout j hj (hji ▸ List.mem_cons_self ..)
      · simp only [UInt64.add_assoc]
    · intro h
      obtain ⟨⟨hne, hnd⟩, ⟨hi, hout⟩, ⟨hv, hall⟩, rfl⟩ := h
      refine ⟨_, ⟨hi, hv, rfl⟩, hnd, fun j hj hm => ?_, hall, ?_⟩
      · rcases List.mem_cons.mp hm with hji | hm
        · exact hne ⟨j, hj, hji⟩
        · exact hout j hj hm
      · simp only [UInt64.add_assoc]

/-- A transaction passes iff it is valid by itself and spends nothing that was
spent before; it then adds its own inputs to the set. -/
theorem validateTransaction_ok_iff {spent spent' : List OutPoint} {tx : Transaction} :
    validateTransaction C height s spent tx = .ok spent' ↔
      TxValid C s height tx ∧ (∀ o ∈ tx.spends, o ∉ spent) ∧
        spent' = tx.spends.reverse ++ spent := by
  unfold validateTransaction
  simp only [failIf_bind_eq_ok]
  have hspent : (∀ o ∈ tx.spends, o ∉ spent) ↔ ∀ i ∈ tx.inputs, i.previousOutput ∉ spent := by
    simp [Transaction.spends]
  have htotal : (0 : UInt64) + (tx.inputs.map fun i => inputValue s i.previousOutput).sum
      = totalInput s tx := by
    simp [totalInput, Transaction.spends, Function.comp_def]
  rw [hspent]
  constructor
  · intro h
    obtain ⟨hin, hout, h⟩ := h
    obtain ⟨acc, hloop, h⟩ := bind_eq_ok.mp h
    obtain ⟨hnd, hfresh, hall, rfl⟩ := validateInputs_ok_iff.mp hloop
    obtain ⟨hfunds, h⟩ := failIf_bind_eq_ok.mp h
    rw [htotal, UInt64.not_lt] at hfunds
    exact ⟨⟨hin, hout, hnd, hall, hfunds⟩, hfresh, (Except.ok.inj h).symm⟩
  · intro h
    obtain ⟨⟨hin, hout, hnd, hall, hfunds⟩, hfresh, rfl⟩ := h
    refine ⟨hin, hout, bind_eq_ok.mpr ⟨_, validateInputs_ok_iff.mpr ⟨hnd, hfresh, hall, rfl⟩, ?_⟩⟩
    refine failIf_bind_eq_ok.mpr ⟨?_, rfl⟩
    rwa [htotal, UInt64.not_lt]

/-! ## All transactions of a block -/

/-- The outpoints a list of transactions spends. -/
def allSpends (txs : List Transaction) : List OutPoint := txs.flatMap (·.spends)

/-- What `validate_coinbase` asks of the first transaction. -/
structure CoinbaseValid (tx : Transaction) : Prop where
  isCoinbase : tx.isCoinbase = true
  outputs_ne : tx.outputs ≠ []
  reward : tx.totalOutput ≤ Stream.A.blockReward

theorem validateCoinbase_ok_iff {tx : Transaction} :
    validateCoinbase tx = .ok () ↔ CoinbaseValid tx := by
  unfold validateCoinbase
  simp only [failIf_bind_eq_ok, failIf_eq_ok, UInt64.not_lt]
  constructor
  · intro h
    obtain ⟨hc, _, ho, hr⟩ := h
    exact ⟨by simpa using hc, ho, hr⟩
  · intro h
    obtain ⟨hc, ho, hr⟩ := h
    -- that there is exactly one input is part of `is_coinbase`
    obtain ⟨i, hi, _⟩ := Transaction.isCoinbase_iff.mp hc
    exact ⟨by simp [hc], by simp [hi], ho, hr⟩

/-- The loop over a block's transactions, from any double-spend set. -/
theorem validateTxs_ok_iff : ∀ {txs : List Transaction} {spent spent' : List OutPoint},
    txs.foldlM (validateTransaction C height s) spent = .ok spent' ↔
      (∀ tx ∈ txs, TxValid C s height tx) ∧ (allSpends txs).Nodup ∧
        (∀ o ∈ allSpends txs, o ∉ spent) ∧ spent' = (allSpends txs).reverse ++ spent
  | [], spent, spent' => by
    simp only [List.foldlM_nil, allSpends, List.flatMap_nil, List.not_mem_nil, List.nodup_nil,
      List.reverse_nil, List.nil_append, true_and]
    exact ⟨fun h => ⟨fun _ h => h.elim, fun _ h => h.elim, (Except.ok.inj h).symm⟩,
      fun ⟨_, _, h⟩ => congrArg Except.ok h.symm⟩
  | tx :: txs, spent, spent' => by
    rw [foldlM_cons_eq_ok]
    simp only [validateTransaction_ok_iff, @validateTxs_ok_iff txs]
    have hcons : allSpends (tx :: txs) = tx.spends ++ allSpends txs := List.flatMap_cons
    rw [hcons, List.nodup_append', List.reverse_append, List.append_assoc]
    simp only [List.forall_mem_cons]
    constructor
    · intro h
      obtain ⟨_, ⟨hv, hfresh, rfl⟩, hall, hnd, hout, rfl⟩ := h
      -- the later transactions met the set with this one's inputs in it
      have hout' : ∀ o ∈ allSpends txs, o ∉ tx.spends ∧ o ∉ spent := fun o ho => by
        have h := hout o ho
        rw [List.mem_append, List.mem_reverse, not_or] at h
        exact h
      refine ⟨⟨hv, hall⟩, ⟨hv.nodup, hnd, fun o hx hy => (hout' o hy).1 hx⟩, ?_, rfl⟩
      intro o ho
      rcases List.mem_append.mp ho with h | h
      · exact hfresh o h
      · exact (hout' o h).2
    · intro h
      obtain ⟨⟨hv, hall⟩, ⟨_, hnd, hdisj⟩, hout, rfl⟩ := h
      refine ⟨_, ⟨hv, fun o ho => hout o (List.mem_append_left _ ho), rfl⟩, hall, hnd, ?_, rfl⟩
      intro o ho hm
      rw [List.mem_append, List.mem_reverse] at hm
      rcases hm with hm | hm
      · exact hdisj hm ho
      · exact hout o (List.mem_append_right _ ho) hm

/-- What the transactions of a block satisfy together. -/
structure BodyValid (C : Crypto) (s : ChainDB) (height : UInt64) (coinbase : Transaction)
    (rest : List Transaction) : Prop where
  coinbase : CoinbaseValid coinbase
  valid : ∀ tx ∈ rest, TxValid C s height tx
  nodup : (allSpends rest).Nodup

/-- A list of transactions with a first one passes iff the body is valid. -/
theorem validateTransactions_cons_ok_iff {block : Block} {coinbase : Transaction}
    {rest : List Transaction} (h : block.transactions = coinbase :: rest) :
    validateTransactions C block s = .ok () ↔ BodyValid C s block.height coinbase rest := by
  unfold validateTransactions
  rw [h]
  simp only
  rw [bind_unit_eq_ok, validateCoinbase_ok_iff, bind_eq_ok]
  constructor
  · intro h
    obtain ⟨hc, _, hloop, _⟩ := h
    obtain ⟨hall, hnd, _, _⟩ := validateTxs_ok_iff.mp hloop
    exact ⟨hc, hall, hnd⟩
  · intro h
    obtain ⟨hc, hall, hnd⟩ := h
    exact ⟨hc, _, validateTxs_ok_iff.mpr ⟨hall, hnd, fun _ _ => List.not_mem_nil, rfl⟩, rfl⟩

/-- Everything `validate_block` checks, as one record. -/
structure BlockValid (C : Crypto) (now : UInt64) (block : Block) (s : ChainDB) : Prop where
  size : block.serialize.length ≤ MAX_BLOCK_SIZE
  count : block.transactions.length ≤ MAX_TRANSACTIONS_PER_BLOCK
  nonempty : 0 < block.height → block.transactions ≠ []
  pow : block.header.verifyPow C = true
  link : if block.height = 0 then block.header.parentHash = H256.zero
    else block.header.parentHash = s.tip.hash ∧ block.height = s.tip.height + 1
  merkle : block.header.merkleRoot = block.computeMerkleRoot C
  clock : block.header.timestamp ≤ now + 7200
  parentTime : 0 < block.height → beforeParent block s = false
  body : validateTransactions C block s = .ok ()

theorem validateChainLink_ok_iff {block : Block} :
    validateChainLink block s = .ok () ↔
      if block.height = 0 then block.header.parentHash = H256.zero
      else block.header.parentHash = s.tip.hash ∧ block.height = s.tip.height + 1 := by
  unfold validateChainLink
  split
  · simp
  · simp [failIf_bind_eq_ok]

theorem validateBlock_ok_iff {now : UInt64} {block : Block} :
    validateBlock C now block s = .ok () ↔ BlockValid C now block s := by
  unfold validateBlock validateStructure validatePow validateMerkle validateTimestamp
  simp only [bind_unit_eq_ok, failIf_eq_ok, validateChainLink_ok_iff, UInt64.not_lt, Nat.not_lt]
  constructor
  · intro h
    obtain ⟨⟨hsize, hcount, hne⟩, hpow, hlink, hmerkle, ⟨hclock, hparent⟩, hbody⟩ := h
    exact ⟨hsize, hcount, fun h0 he => hne ⟨h0, he⟩, by simpa using hpow, hlink,
      by simpa [Block.verifyMerkle] using hmerkle, hclock,
      fun h0 => by simpa [h0] using hparent, hbody⟩
  · intro h
    obtain ⟨hsize, hcount, hne, hpow, hlink, hmerkle, hclock, hparent, hbody⟩ := h
    refine ⟨⟨hsize, hcount, fun h => hne h.1 h.2⟩, by simp [hpow], hlink,
      by simp [Block.verifyMerkle, hmerkle], ⟨hclock, fun h => ?_⟩, hbody⟩
    exact absurd ((hparent h.1).symm.trans h.2) Bool.false_ne_true

end Pyrax.Validation
