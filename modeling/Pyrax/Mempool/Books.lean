import Pyrax.Base.Records
import Pyrax.Base.Word
import Pyrax.Mempool.Pool

/-!
# The books of the transaction pool

`WellFormed` says of the spent outpoints that none is missing. Here the pool's two indices
and its two running totals are exact (`Represented`): nothing is recorded that no entry
spends, and `total_bytes` and `total_fees` are the sums over the entries, although a removal
subtracts with saturation. Every `add` that is refused leaves the pool alone; for this
`addCall` is `add` with the pool it leaves in either case.

The totals are words. The fees fit because the values of the inputs do, and where a fee rate
is asked for, no entry is larger than its fee; without one, only the memory of the machine
bounds the sizes.
-/

namespace Pyrax.Mempool

open Base Word

/-- One turn of the loop that records the inputs. -/
def spendInput (m : Mempool) (i : TxInput) : Mempool :=
  { m with spentOutpoints := insert i.previousOutput m.spentOutpoints }

/-- `add`: what the caller is told, and the pool after the call. -/
def addCall (C : Crypto) (m : Mempool) (tx : Transaction) (inputValue : UInt64) :
    Except MempoolError Unit × Mempool :=
  let outputValue := tx.totalOutput
  if inputValue < outputValue then (.error .insufficientFee, m)
  else
    let fee := inputValue - outputValue
    let size := tx.serialize.length
    if m.config.maxTxSize < size then (.error .transactionTooLarge, m)
    else if fee / UInt64.ofNat size < m.config.minFeeRate then (.error .feeTooLow, m)
    else if tx.isCoinbase = true then (.error .coinbaseNotAllowed, m)
    else if m.config.maxSize ≤ m.byHash.keys.card then (.error .poolFull, m)
    else if tx.txid C ∈ m.byHash then (.error .duplicateTransaction, m)
    else if ∃ i ∈ tx.inputs, i.previousOutput ∈ m.spentOutpoints then (.error .doubleSpend, m)
    else
      let m₁ := tx.inputs.foldl spendInput m
      let m₂ := { m₁ with
        totalBytes := m₁.totalBytes + UInt64.ofNat size
        totalFees := m₁.totalFees + fee }
      (.ok (), { m₂ with byHash := m₂.byHash.insert (tx.txid C) ⟨tx, fee, size⟩ })

variable {C : Crypto} {m m' : Mempool} {tx : Transaction} {inputValue : UInt64}

theorem foldl_spendInput (inputs : List TxInput) (m : Mempool) : inputs.foldl spendInput m
    = { m with spentOutpoints := m.spentOutpoints ∪ (inputs.map (·.previousOutput)).toFinset } := by
  induction inputs generalizing m with
  | nil => rw [List.foldl_nil, List.map_nil, List.toFinset_nil, Finset.union_empty]
  | cons i inputs ih =>
    rw [List.foldl_cons, ih, List.map_cons, List.toFinset_cons, Finset.union_insert,
      ← Finset.insert_union]
    rfl

theorem addCall_eq (C : Crypto) (m : Mempool) (tx : Transaction) (inputValue : UInt64) :
    m.addCall C tx inputValue = match m.add C tx inputValue with
      | .ok m' => (.ok (), m')
      | .error e => (.error e, m) := by
  have hspends : (∃ i ∈ tx.inputs, i.previousOutput ∈ m.spentOutpoints) ↔
      ∃ o ∈ tx.spends, o ∈ m.spentOutpoints := by
    simp only [Transaction.spends, List.mem_map, exists_exists_and_eq_and]
  unfold addCall add
  simp only [failIf_bind, hspends]
  -- check by check; the last branch records the inputs
  split_ifs
  all_goals try rfl
  rw [foldl_spendInput]
  rfl

/-- What `add` is told when it is refused, and that the pool stays. -/
theorem addCall_of_error {e : MempoolError} (h : m.addCall C tx inputValue = (.error e, m')) :
    m' = m := by
  rw [addCall_eq] at h
  cases hadd : m.add C tx inputValue with
  | ok m₁ =>
    rw [hadd] at h
    cases h
  | error e' =>
    rw [hadd] at h
    cases h
    rfl

/-! ## The law -/

structure Represented (C : Crypto) (m : Mempool) : Prop where
  key : ∀ k e, m.byHash.lookup k = some e → k = e.tx.txid C
  spent : ∀ o, o ∈ m.spentOutpoints ↔ ∃ k e, m.byHash.lookup k = some e ∧ o ∈ e.tx.spends
  disjoint : ∀ k k' e e', m.byHash.lookup k = some e → m.byHash.lookup k' = some e' → k ≠ k' →
    ∀ o ∈ e.tx.spends, o ∉ e'.tx.spends
  sized : ∀ k e, m.byHash.lookup k = some e → e.size = e.tx.serialize.length
  bytes : m.totalBytes.toNat = Column.total MempoolEntry.size m.byHash
  fees : m.totalFees.toNat = Column.total (fun e => e.fee.toNat) m.byHash
  room : m.byHash.keys.card ≤ m.config.maxSize

/-- The pool, and the value each transaction was added with. -/
structure PoolRun where
  pool : Mempool
  values : Column H256 UInt64

namespace PoolRun

def start (config : MempoolConfig) : PoolRun := ⟨.new config, ∅⟩

def step (C : Crypto) (t : PoolRun) : PoolOp → PoolRun
  | .add tx inputValue =>
    match t.pool.addCall C tx inputValue with
    | (.ok (), m) => ⟨m, t.values.insert (tx.txid C) inputValue⟩
    | (.error _, m) => { t with pool := m }
  | op => { t with pool := op.run C t.pool }

def run (C : Crypto) (config : MempoolConfig) (ops : List PoolOp) : PoolRun :=
  ops.foldl (step C) (start config)

theorem run_snoc (C : Crypto) (config : MempoolConfig) (ops : List PoolOp) (op : PoolOp) :
    run C config (ops ++ [op]) = (run C config ops).step C op := by
  rw [run, List.foldl_append]
  rfl

/-- The values of the inputs of what is pooled. -/
def funds (t : PoolRun) : Nat :=
  (t.pool.byHash.entries.map fun e => ((t.values.lookup e.1).getD 0).toNat).sum

end PoolRun

/-! ## The outpoints -/

/-- No outpoint is recorded that no entry spends. -/
def Needed (m : Mempool) : Prop :=
  ∀ o ∈ m.spentOutpoints, ∃ k e, m.byHash.lookup k = some e ∧ o ∈ e.tx.spends

theorem Needed.insertEntry (h : Needed m) (hnew : tx.txid C ∉ m.byHash) (fee : UInt64)
    (size : Nat) : Needed (m.insertEntry C tx fee size) := by
  intro o ho
  rcases mem_spentOutpoints_insertEntry.mp ho with hold | hin
  · obtain ⟨k, e, hk, hspends⟩ := h o hold
    refine ⟨k, e, ?_, hspends⟩
    rw [lookup_insertEntry, if_neg, hk]
    rintro rfl
    exact hnew (Finmap.mem_of_lookup_eq_some hk)
  · exact ⟨tx.txid C, ⟨tx, fee, size⟩, by rw [lookup_insertEntry, if_pos rfl], hin⟩

theorem Needed.remove (h : Needed m) (txid : H256) : Needed (m.remove txid) := by
  intro o ho
  cases hp : m.byHash.lookup txid with
  | none =>
    rw [Mempool.remove, hp] at ho ⊢
    exact h o ho
  | some entry =>
    have hmem : o ∈ m.spentOutpoints \ entry.tx.spends.toFinset := by
      rw [Mempool.remove, hp] at ho
      exact ho
    obtain ⟨hold, hnot⟩ := Finset.mem_sdiff.mp hmem
    obtain ⟨k, e, hk, hspends⟩ := h o hold
    refine ⟨k, e, ?_, hspends⟩
    rw [lookup_remove, if_neg, hk]
    -- the entry that went spends none of what is left
    rintro rfl
    rw [hp] at hk
    cases hk
    exact hnot (List.mem_toFinset.mpr hspends)

/-! ## The totals -/

/-- Both totals are the sums over the entries. -/
structure Summed (m : Mempool) : Prop where
  bytes : m.totalBytes.toNat = Column.total MempoolEntry.size m.byHash
  fees : m.totalFees.toNat = Column.total (fun e => e.fee.toNat) m.byHash

theorem Summed.insertEntry (h : Summed m) (hnew : tx.txid C ∉ m.byHash) {fee : UInt64}
    {size : Nat} (hbytes : Column.total MempoolEntry.size m.byHash + size < 2 ^ 64)
    (hfees : Column.total (fun e => e.fee.toNat) m.byHash + fee.toNat < 2 ^ 64) :
    Summed (m.insertEntry C tx fee size) where
  bytes := by
    have hsize : (UInt64.ofNat size).toNat = size :=
      UInt64.toNat_ofNat_of_lt' (lt_of_le_of_lt (Nat.le_add_left _ _) hbytes)
    show (m.totalBytes + UInt64.ofNat size).toNat
      = Column.total MempoolEntry.size (m.byHash.insert (tx.txid C) ⟨tx, fee, size⟩)
    rw [Column.total_insert_of_notMem _ _ hnew, toNat_add_of_lt, h.bytes, hsize, Nat.add_comm]
    rw [h.bytes, hsize]
    exact hbytes
  fees := by
    show (m.totalFees + fee).toNat
      = Column.total (fun e => e.fee.toNat) (m.byHash.insert (tx.txid C) ⟨tx, fee, size⟩)
    rw [Column.total_insert_of_notMem _ _ hnew, toNat_add_of_lt, h.fees, Nat.add_comm]
    rw [h.fees]
    exact hfees

/-- What an entry counts for is in the total, so that nothing saturates. -/
theorem Summed.remove (h : Summed m) (txid : H256) : Summed (m.remove txid) := by
  cases hp : m.byHash.lookup txid with
  | none =>
    rw [Mempool.remove, hp]
    exact h
  | some entry =>
    have hbytes := Column.total_erase MempoolEntry.size m.byHash txid
    have hfees := Column.total_erase (fun e => e.fee.toNat) m.byHash txid
    rw [Column.valueAt, hp, ← h.bytes] at hbytes
    rw [Column.valueAt, hp, ← h.fees] at hfees
    have hlt := m.totalBytes.toNat_lt
    have hsize : (UInt64.ofNat entry.size).toNat = entry.size :=
      UInt64.toNat_ofNat_of_lt' (lt_of_le_of_lt (hbytes ▸ Nat.le_add_left _ _) hlt)
    rw [Mempool.remove, hp]
    constructor
    · show (Word.saturatingSub m.totalBytes (UInt64.ofNat entry.size)).toNat
        = Column.total MempoolEntry.size (m.byHash.erase txid)
      rw [toNat_saturatingSub, hsize, ← hbytes]
      exact Nat.add_sub_cancel ..
    · show (Word.saturatingSub m.totalFees entry.fee).toNat
        = Column.total (fun e => e.fee.toNat) (m.byHash.erase txid)
      rw [toNat_saturatingSub, ← hfees]
      exact Nat.add_sub_cancel ..

/-! ## What an entry was added with -/

/-- An entry is not larger than its fee where a fee rate is asked for, and its fee was paid. -/
structure Backed (t : PoolRun) (k : H256) (e : MempoolEntry) : Prop where
  sized : e.size = e.tx.serialize.length
  rated : t.pool.config.minFeeRate ≠ 0 → e.size ≤ e.fee.toNat
  paid : e.fee.toNat ≤ ((t.values.lookup k).getD 0).toNat

/-- A fee that is as high as a rate of at least one asks for. -/
theorem le_of_rate {fee rate : UInt64} {size : Nat} (hsize : size < 2 ^ 64) (hrate : rate ≠ 0)
    (hfee : rate ≤ fee / UInt64.ofNat size) : size ≤ fee.toNat := by
  have hle := UInt64.le_iff_toNat_le.mp hfee
  rw [UInt64.toNat_div, UInt64.toNat_ofNat_of_lt' hsize] at hle
  have hpos : 0 < rate.toNat := by
    have hne : rate.toNat ≠ 0 := fun h => hrate (UInt64.toNat_inj.mp h)
    omega
  exact (Nat.div_pos_iff.mp (lt_of_lt_of_le hpos hle)).2

/-- The fees of what is pooled are not more than the values. -/
theorem fees_le_funds {t : PoolRun}
    (h : ∀ k e, t.pool.byHash.lookup k = some e → Backed t k e) :
    Column.total (fun e => e.fee.toNat) t.pool.byHash ≤ t.funds :=
  Multiset.sum_map_le_sum_map _ _ fun e he =>
    (h e.1 e.2 (Finmap.lookup_eq_some_iff.mpr he)).paid

/-- With a fee rate the sizes are not more than the fees. -/
theorem bytes_le_fees {t : PoolRun} (hrate : t.pool.config.minFeeRate ≠ 0)
    (h : ∀ k e, t.pool.byHash.lookup k = some e → Backed t k e) :
    Column.total MempoolEntry.size t.pool.byHash
      ≤ Column.total (fun e => e.fee.toNat) t.pool.byHash :=
  Column.total_le_total fun k e he => (h k e (Finmap.lookup_eq_some_iff.mpr he)).rated hrate

/-! ## One operation -/

/-- What every operation keeps. -/
structure Booked (config : MempoolConfig) (t : PoolRun) : Prop where
  config_eq : t.pool.config = config
  needed : Needed t.pool
  summed : Summed t.pool
  backed : ∀ k e, t.pool.byHash.lookup k = some e → Backed t k e
  room : t.pool.byHash.keys.card ≤ config.maxSize

variable {config : MempoolConfig} {t : PoolRun}

theorem config_remove (m : Mempool) (txid : H256) : (m.remove txid).config = m.config := by
  unfold Mempool.remove
  split
  · rfl
  · rfl

theorem Booked.remove (h : Booked config t) (txid : H256) :
    Booked config { t with pool := t.pool.remove txid } := by
  have hconfig : (t.pool.remove txid).config = config :=
    (config_remove t.pool txid).trans h.config_eq
  refine ⟨hconfig, h.needed.remove txid, h.summed.remove txid, fun k e hk => ?_, ?_⟩
  · have hold : t.pool.byHash.lookup k = some e := by
      by_cases hkey : k = txid
      · rw [lookup_remove, if_pos hkey] at hk
        cases hk
      · rw [lookup_remove, if_neg hkey] at hk
        exact hk
    obtain ⟨hsized, hrated, hpaid⟩ := h.backed k e hold
    exact ⟨hsized, fun hrate => hrated ((config_remove t.pool txid) ▸ hrate), hpaid⟩
  · refine le_trans ?_ h.room
    show (t.pool.remove txid).byHash.keys.card ≤ t.pool.byHash.keys.card
    unfold Mempool.remove
    split
    · rw [Column.keys_erase]
      exact Finset.card_erase_le
    · exact le_refl _

theorem Booked.foldl_remove (h : Booked config t) (ks : List H256) :
    Booked config { t with pool := ks.foldl Mempool.remove t.pool } := by
  induction ks generalizing t with
  | nil => exact h
  | cons k ks ih => exact ih (h.remove k)

/-- The room the new totals need: the values fit, and so do the sizes where no fee rate is
asked for. -/
structure Fits (config : MempoolConfig) (t : PoolRun) : Prop where
  funds : t.funds < 2 ^ 64
  sizes : config.minFeeRate = 0 → Column.total MempoolEntry.size t.pool.byHash < 2 ^ 64

theorem Booked.add (h : Booked config t) (hmax : config.maxTxSize < 2 ^ 64)
    (hadd : t.pool.add C tx inputValue = .ok m')
    (hfits : Fits config ⟨m', t.values.insert (tx.txid C) inputValue⟩) :
    Booked config ⟨m', t.values.insert (tx.txid C) inputValue⟩ := by
  obtain ⟨⟨hvalue, hsize, hrate, -, hroom, hnew, -⟩, rfl⟩ := add_ok_iff.mp hadd
  rw [h.config_eq] at hsize hroom hrate
  have hbacked : ∀ k e, (t.pool.insertEntry C tx (inputValue - tx.totalOutput)
      tx.serialize.length).byHash.lookup k = some e →
      Backed ⟨t.pool.insertEntry C tx (inputValue - tx.totalOutput) tx.serialize.length,
        t.values.insert (tx.txid C) inputValue⟩ k e := by
    intro k e hk
    rw [lookup_insertEntry] at hk
    by_cases hkey : k = tx.txid C
    · rw [if_pos hkey] at hk
      cases hk
      refine ⟨rfl, fun hne => ?_, ?_⟩
      · rw [show (t.pool.insertEntry C tx _ _).config = config from h.config_eq] at hne
        exact le_of_rate (lt_of_le_of_lt hsize hmax) hne hrate
      · show (inputValue - tx.totalOutput).toNat ≤
          (((t.values.insert (tx.txid C) inputValue).lookup k).getD 0).toNat
        rw [hkey, Finmap.lookup_insert, UInt64.toNat_sub_of_le _ _ hvalue]
        exact Nat.sub_le ..
    · rw [if_neg hkey] at hk
      obtain ⟨hsized, hrated, hpaid⟩ := h.backed k e hk
      refine ⟨hsized, hrated, ?_⟩
      show _ ≤ (((t.values.insert (tx.txid C) inputValue).lookup k).getD 0).toNat
      rw [Finmap.lookup_insert_of_ne _ hkey]
      exact hpaid
  have hfees := lt_of_le_of_lt (fees_le_funds hbacked) hfits.funds
  have hbytes : Column.total MempoolEntry.size (t.pool.insertEntry C tx
      (inputValue - tx.totalOutput) tx.serialize.length).byHash < 2 ^ 64 := by
    by_cases hzero : config.minFeeRate = 0
    · exact hfits.sizes hzero
    · have hne : (t.pool.insertEntry C tx (inputValue - tx.totalOutput)
          tx.serialize.length).config.minFeeRate ≠ 0 := h.config_eq ▸ hzero
      exact lt_of_le_of_lt
        (bytes_le_fees (t := ⟨_, t.values.insert (tx.txid C) inputValue⟩) hne hbacked) hfees
  refine ⟨h.config_eq, h.needed.insertEntry hnew _ _, h.summed.insertEntry hnew ?_ ?_, hbacked, ?_⟩
  · rw [Nat.add_comm]
    exact lt_of_eq_of_lt (Column.total_insert_of_notMem MempoolEntry.size
      ⟨tx, inputValue - tx.totalOutput, tx.serialize.length⟩ hnew).symm hbytes
  · rw [Nat.add_comm]
    exact lt_of_eq_of_lt (Column.total_insert_of_notMem (fun e => e.fee.toNat)
      ⟨tx, inputValue - tx.totalOutput, tx.serialize.length⟩ hnew).symm hfees
  · show (t.pool.byHash.insert (tx.txid C) _).keys.card ≤ config.maxSize
    rw [Column.keys_insert]
    exact (Finset.card_insert_le _ _).trans hroom

/-! ## Runs -/

theorem PoolRun.step_add (C : Crypto) (t : PoolRun) (tx : Transaction) (inputValue : UInt64) :
    t.step C (.add tx inputValue) = match t.pool.add C tx inputValue with
      | .ok m' => ⟨m', t.values.insert (tx.txid C) inputValue⟩
      | .error _ => t := by
  rw [PoolRun.step, addCall_eq]
  cases t.pool.add C tx inputValue with
  | ok m' => rfl
  | error e => rfl

/-- The pool of a run is the one the operations give. -/
theorem PoolRun.run_pool (C : Crypto) (config : MempoolConfig) (ops : List PoolOp) :
    (PoolRun.run C config ops).pool = runPool C (new config) ops := by
  induction ops using List.reverseRecOn with
  | nil => rfl
  | append_singleton ops op ih =>
    rw [run_snoc, runPool, List.foldl_append, List.foldl_cons, List.foldl_nil]
    rw [runPool] at ih
    rw [← ih]
    cases op with
    | add tx inputValue =>
      rw [step_add, PoolOp.run]
      cases (PoolRun.run C config ops).pool.add C tx inputValue with
      | ok m' => rfl
      | error e => rfl
    | _ => rfl

theorem booked_new (config : MempoolConfig) : Booked config (PoolRun.start config) := by
  refine ⟨rfl, fun o ho => absurd ho (Finset.notMem_empty o), ⟨rfl, rfl⟩, fun k e hk => ?_,
    Nat.zero_le _⟩
  cases hk

theorem Booked.step (h : Booked config t) (hmax : config.maxTxSize < 2 ^ 64) (op : PoolOp)
    (hfits : Fits config (t.step C op)) : Booked config (t.step C op) := by
  cases op with
  | add tx inputValue =>
    rw [PoolRun.step_add] at hfits ⊢
    cases hadd : t.pool.add C tx inputValue with
    | ok m' =>
      rw [hadd] at hfits
      exact h.add hmax hadd hfits
    | error e => exact h
  | remove txid => exact h.remove txid
  | removeConfirmed order spent => exact h.foldl_remove _
  | clear =>
    have hnew := booked_new t.pool.config
    refine ⟨h.config_eq, hnew.needed, hnew.summed, fun k e hk => ?_, Nat.zero_le _⟩
    cases hk

/-- **The pool's books.** After every sequence of operations the two indices agree, the
totals are exact and the pool has room; a refused `add` changes nothing. -/
theorem represented_run {ops : List PoolOp} (hmax : config.maxTxSize < 2 ^ 64)
    (hfunds : ∀ pre, pre <+: ops → (PoolRun.run C config pre).funds < 2 ^ 64)
    (hmemory : config.minFeeRate = 0 → ∀ pre, pre <+: ops →
      Column.total MempoolEntry.size (PoolRun.run C config pre).pool.byHash < 2 ^ 64) :
    Represented C (PoolRun.run C config ops).pool ∧
      (PoolRun.run C config ops).pool.config = config ∧
      ∀ tx inputValue e m', (PoolRun.run C config ops).pool.addCall C tx inputValue
        = (.error e, m') → m' = (PoolRun.run C config ops).pool := by
  have hbooked : ∀ pre, pre <+: ops → Booked config (PoolRun.run C config pre) := by
    refine forall_prefixes (booked_new config) fun pre op hpre h => ?_
    rw [PoolRun.run_snoc]
    refine h.step hmax op ?_
    rw [← PoolRun.run_snoc]
    exact ⟨hfunds _ hpre, fun hrate => hmemory hrate _ hpre⟩
  have hwell : WellFormed C (PoolRun.run C config ops).pool := by
    rw [PoolRun.run_pool]
    exact wellFormed_run ops
  obtain ⟨hconfig, hneeded, hsummed, hbacked, hroom⟩ := hbooked ops List.prefix_rfl
  refine ⟨⟨hwell.key, fun o => ⟨hneeded o, ?_⟩, hwell.disjoint, fun k e hk =>
    (hbacked k e hk).sized, hsummed.bytes, hsummed.fees, hconfig.symm ▸ hroom⟩, hconfig,
    fun tx inputValue e m' => addCall_of_error⟩
  rintro ⟨k, e, hk, ho⟩
  exact hwell.recorded k e hk o ho

/-- A transaction that pays ten thousand less the value for its bytes. -/
def feeTx (vout : UInt32) (value : UInt64) : Transaction :=
  .new [.new ⟨.zero, vout⟩ [1, 2]] [.p2pkh value Address.ZERO]

/-- BLAKE3 of three of them. -/
def feeCrypto : Crypto := Crypto.ofTable
  [((feeTx 0 9000).serialize,
      .ofNatBE 0xb5842fd832d9af329e9edb1c31c312582752ddf278bc8c4585a6642506b4dcca),
    ((feeTx 1 8000).serialize,
      .ofNatBE 0x3cd7e257351ef71a4c9dc66773f427d9b78ce9273a925dea2f3fd5355884db5b),
    ((feeTx 2 7000).serialize,
      .ofNatBE 0xb2903e8c704f5134d6a72869b46bf7844dc4a82de2ce5671d478604fc5258137)]

/-- The three are added, the first is refused the second time, and it is taken out again. -/
def feeOps : List PoolOp :=
  [.add (feeTx 0 9000) 10000, .add (feeTx 1 8000) 10000, .add (feeTx 0 9000) 10000,
    .add (feeTx 2 7000) 10000, .remove ((feeTx 0 9000).txid feeCrypto)]

theorem represented_fees :
    Represented feeCrypto (PoolRun.run feeCrypto .default feeOps).pool ∧
      (PoolRun.run feeCrypto .default feeOps).pool.config = .default ∧
      (∀ tx inputValue e m', (PoolRun.run feeCrypto .default feeOps).pool.addCall feeCrypto tx
        inputValue = (.error e, m') → m' = (PoolRun.run feeCrypto .default feeOps).pool) ∧
      (PoolRun.run feeCrypto .default feeOps).pool.byHash.keys.card = 2 ∧
      (PoolRun.run feeCrypto .default feeOps).pool.totalFees = 5000 := by
  have hfunds : ∀ k ≤ 5, (PoolRun.run feeCrypto .default (feeOps.take k)).funds < 2 ^ 64 := by
    decide +kernel
  obtain ⟨hrepresented, hconfig, hrefused⟩ := @represented_run feeCrypto .default feeOps
    (by decide)
    (fun pre hpre => by
      rw [List.prefix_iff_eq_take.mp hpre]
      exact hfunds _ hpre.length_le)
    fun hrate => absurd hrate (by decide)
  exact ⟨hrepresented, hconfig, hrefused, by decide +kernel, by decide +kernel⟩

end Pyrax.Mempool
