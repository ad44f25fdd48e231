import Pyrax.Types.Block
import Pyrax.Base.Column
import Pyrax.Base.Checks
import Pyrax.Base.Run

/-!
# The transaction pool

`pyrax-node/src/mempool/mod.rs`. The pool is a map from transaction hashes to
entries and a set of the outpoints they spend. The source iterates over a
`HashMap` in two places, to pick what to evict and to list what is pending; its
order is not specified, so those functions take the order as an argument, and
the theorems hold for every enumeration of the keys (`Enumerates`).

`WellFormed` is the pool's invariant: an entry stands under its own hash, its
inputs are in the set, and no two entries share an input. Every operation keeps
it, from the empty pool on (`wellFormed_run`): `add` refuses an input that is in
the set, and removing an entry takes only its own inputs out.
-/

namespace Pyrax

open Base

structure MempoolConfig where
  maxSize : Nat
  maxTxSize : Nat
  minFeeRate : UInt64
  deriving DecidableEq

/-- `MempoolConfig::default`, which the node uses. -/
def MempoolConfig.default : MempoolConfig := ⟨10000, 100000, 1⟩

structure MempoolEntry where
  tx : Transaction
  fee : UInt64
  size : Nat
  deriving DecidableEq

inductive MempoolError where
  | transactionTooLarge
  | feeTooLow
  | insufficientFee
  | duplicateTransaction
  | poolFull
  | doubleSpend
  | coinbaseNotAllowed
  deriving DecidableEq

instance : ToString MempoolError where
  toString
    | .transactionTooLarge => "Transaction too large"
    | .feeTooLow => "Fee too low"
    | .insufficientFee => "Insufficient fee (output > input)"
    | .duplicateTransaction => "Duplicate transaction"
    | .poolFull => "Mempool is full"
    | .doubleSpend => "Double spend detected"
    | .coinbaseNotAllowed => "Coinbase not allowed in mempool"

structure Mempool where
  byHash : Column H256 MempoolEntry
  spentOutpoints : Finset OutPoint
  totalBytes : UInt64
  totalFees : UInt64
  config : MempoolConfig

namespace Mempool

def new (config : MempoolConfig) : Mempool := ⟨∅, ∅, 0, 0, config⟩

/-- The pool with one more entry and its inputs recorded. -/
def insertEntry (C : Crypto) (m : Mempool) (tx : Transaction) (fee : UInt64) (size : Nat) :
    Mempool where
  byHash := m.byHash.insert (tx.txid C) ⟨tx, fee, size⟩
  spentOutpoints := m.spentOutpoints ∪ tx.spends.toFinset
  totalBytes := m.totalBytes + UInt64.ofNat size
  totalFees := m.totalFees + fee
  config := m.config

/-- `add`, with the value of the transaction's inputs as the caller found it. -/
def add (C : Crypto) (m : Mempool) (tx : Transaction) (inputValue : UInt64) :
    Except MempoolError Mempool := do
  failIf (inputValue < tx.totalOutput) .insufficientFee
  let fee := inputValue - tx.totalOutput
  let size := tx.serialize.length
  failIf (m.config.maxTxSize < size) .transactionTooLarge
  failIf (fee / UInt64.ofNat size < m.config.minFeeRate) .feeTooLow
  failIf (tx.isCoinbase = true) .coinbaseNotAllowed
  failIf (m.config.maxSize ≤ m.byHash.keys.card) .poolFull
  failIf (tx.txid C ∈ m.byHash) .duplicateTransaction
  failIf (∃ o ∈ tx.spends, o ∈ m.spentOutpoints) .doubleSpend
  .ok (m.insertEntry C tx fee size)

/-- `u64::saturating_sub`. -/
def saturatingSub (a b : UInt64) : UInt64 := if b ≤ a then a - b else 0

/-- `remove`: the entry goes, and its inputs leave the set. -/
def remove (m : Mempool) (txid : H256) : Mempool :=
  match m.byHash.lookup txid with
  | some entry =>
    { byHash := m.byHash.erase txid
      spentOutpoints := m.spentOutpoints \ entry.tx.spends.toFinset
      totalBytes := saturatingSub m.totalBytes (UInt64.ofNat entry.size)
      totalFees := saturatingSub m.totalFees entry.fee
      config := m.config }
  | none => m

/-- The entry under a key spends one of the given outpoints. -/
def conflicts (m : Mempool) (spent : List OutPoint) (txid : H256) : Bool :=
  match m.byHash.lookup txid with
  | some entry => entry.tx.inputs.any fun i => decide (i.previousOutput ∈ spent)
  | none => false

/-- `remove_confirmed`, with the order in which the map lists its keys. -/
def removeConfirmed (m : Mempool) (order : List H256) (spent : List OutPoint) : Mempool :=
  (order.filter (m.conflicts spent)).foldl remove m

def contains (m : Mempool) (txid : H256) : Bool := decide (txid ∈ m.byHash)

/-- `fee / size as u64`. -/
def feeRate (e : MempoolEntry) : UInt64 := e.fee / UInt64.ofNat e.size

/-- `get_pending`: the entries in the map's order, stably sorted by fee rate,
highest first. -/
def getPending (m : Mempool) (order : List H256) (maxCount : Nat) : List Transaction :=
  (((order.filterMap m.byHash.lookup).mergeSort fun a b => decide (feeRate b ≤ feeRate a)).take
    maxCount).map (·.tx)

def clear (m : Mempool) : Mempool := new m.config

/-- The order lists every key once. -/
def Enumerates (m : Mempool) (order : List H256) : Prop :=
  order.Nodup ∧ ∀ k, k ∈ order ↔ k ∈ m.byHash

/-- The pool holds this transaction. -/
def Holds (C : Crypto) (m : Mempool) (tx : Transaction) : Prop :=
  ∃ entry, m.byHash.lookup (tx.txid C) = some entry ∧ entry.tx = tx

/-- The pool's invariant. -/
structure WellFormed (C : Crypto) (m : Mempool) : Prop where
  key : ∀ k e, m.byHash.lookup k = some e → k = e.tx.txid C
  recorded : ∀ k e, m.byHash.lookup k = some e → ∀ o ∈ e.tx.spends, o ∈ m.spentOutpoints
  disjoint : ∀ k k' e e', m.byHash.lookup k = some e → m.byHash.lookup k' = some e' → k ≠ k' →
    ∀ o ∈ e.tx.spends, o ∉ e'.tx.spends

variable {C : Crypto} {m m' : Mempool} {tx : Transaction} {inputValue : UInt64}

/-! ## Adding -/

/-- When `add` succeeds, and what it leaves. -/
theorem add_ok_iff :
    m.add C tx inputValue = .ok m' ↔
      (tx.totalOutput ≤ inputValue ∧ tx.serialize.length ≤ m.config.maxTxSize ∧
        m.config.minFeeRate ≤ (inputValue - tx.totalOutput) / UInt64.ofNat tx.serialize.length ∧
        tx.isCoinbase = false ∧ m.byHash.keys.card < m.config.maxSize ∧ tx.txid C ∉ m.byHash ∧
        ∀ o ∈ tx.spends, o ∉ m.spentOutpoints) ∧
      m' = m.insertEntry C tx (inputValue - tx.totalOutput) tx.serialize.length := by
  unfold add
  simp only [failIf_bind_eq_ok, UInt64.not_lt, Nat.not_lt, Nat.not_le, Bool.not_eq_true,
    not_exists, not_and, Except.ok.injEq, and_assoc]
  refine and_congr_right fun _ => and_congr_right fun _ => and_congr_right fun _ =>
    and_congr_right fun _ => and_congr_right fun _ => and_congr_right fun _ =>
    and_congr_right fun _ => eq_comm

/-- An empty pool only looks at the fee, the size and the coinbase flag. -/
theorem add_new {config : MempoolConfig} {size : Nat} (hsize : tx.serialize.length = size)
    (hfunds : tx.totalOutput ≤ inputValue) (hmax : size ≤ config.maxTxSize)
    (hrate : config.minFeeRate ≤ (inputValue - tx.totalOutput) / UInt64.ofNat size)
    (hcb : tx.isCoinbase = false) (hroom : 0 < config.maxSize) :
    (new config).add C tx inputValue
      = .ok ((new config).insertEntry C tx (inputValue - tx.totalOutput) size) := by
  subst hsize
  exact add_ok_iff.mpr ⟨⟨hfunds, hmax, hrate, hcb, hroom, Finmap.notMem_empty,
    fun _ _ => Finset.notMem_empty _⟩, rfl⟩

/-- Looking a key up after an entry was inserted. -/
theorem lookup_insertEntry (fee : UInt64) (size : Nat) (k : H256) :
    (m.insertEntry C tx fee size).byHash.lookup k
      = if k = tx.txid C then some ⟨tx, fee, size⟩ else m.byHash.lookup k := by
  show (m.byHash.insert (tx.txid C) _).lookup k = _
  by_cases hk : k = tx.txid C
  · rw [if_pos hk, hk, Finmap.lookup_insert]
  · rw [if_neg hk, Finmap.lookup_insert_of_ne _ hk]

theorem mem_spentOutpoints_insertEntry {fee : UInt64} {size : Nat} {o : OutPoint} :
    o ∈ (m.insertEntry C tx fee size).spentOutpoints ↔ o ∈ m.spentOutpoints ∨ o ∈ tx.spends := by
  show o ∈ m.spentOutpoints ∪ tx.spends.toFinset ↔ _
  rw [Finset.mem_union, List.mem_toFinset]

theorem wellFormed_insertEntry (hm : WellFormed C m) (hfresh : ∀ o ∈ tx.spends, o ∉ m.spentOutpoints)
    (fee : UInt64) (size : Nat) : WellFormed C (m.insertEntry C tx fee size) := by
  refine ⟨fun k e hk => ?_, fun k e hk o ho => ?_, fun k k' e e' hk hk' hne o ho => ?_⟩
  · rw [lookup_insertEntry] at hk
    split at hk
    · next heq => rw [← Option.some.inj hk, heq]
    · exact hm.key k e hk
  · -- every input is recorded
    rw [lookup_insertEntry] at hk
    rw [mem_spentOutpoints_insertEntry]
    split at hk
    · rw [← Option.some.inj hk] at ho
      exact Or.inr ho
    · exact Or.inl (hm.recorded k e hk o ho)
  · rw [lookup_insertEntry] at hk hk'
    -- the new entry against an old one, either way round: the old one's inputs are recorded
    split at hk
    · next heq =>
      rw [if_neg (fun h => hne (heq.trans h.symm))] at hk'
      rw [← Option.some.inj hk] at ho
      exact fun ho' => hfresh o ho (hm.recorded k' e' hk' o ho')
    · split at hk'
      · rw [← Option.some.inj hk']
        exact fun ho' => hfresh o ho' (hm.recorded k e hk o ho)
      · exact hm.disjoint k k' e e' hk hk' hne o ho

theorem wellFormed_add (hm : WellFormed C m) (hadd : m.add C tx inputValue = .ok m') :
    WellFormed C m' := by
  obtain ⟨⟨_, _, _, _, _, _, hfresh⟩, rfl⟩ := add_ok_iff.mp hadd
  exact wellFormed_insertEntry hm hfresh _ _

/-! ## Removing -/

/-- Looking a key up after a removal. -/
theorem lookup_remove (m : Mempool) (txid k : H256) :
    (m.remove txid).byHash.lookup k = if k = txid then none else m.byHash.lookup k := by
  unfold remove
  split
  · by_cases hk : k = txid
    · rw [if_pos hk, hk]
      exact Finmap.lookup_erase ..
    · rw [if_neg hk]
      exact Finmap.lookup_erase_ne hk
  · next hnone =>
    by_cases hk : k = txid
    · rw [if_pos hk, hk, hnone]
    · rw [if_neg hk]

theorem wellFormed_remove (hm : WellFormed C m) (txid : H256) : WellFormed C (m.remove txid) := by
  have hlook : ∀ {k e}, (m.remove txid).byHash.lookup k = some e →
      k ≠ txid ∧ m.byHash.lookup k = some e := by
    intro k e hk
    rw [lookup_remove] at hk
    split at hk
    · cases hk
    · next hne => exact ⟨hne, hk⟩
  refine ⟨fun k e hk => hm.key k e (hlook hk).2, fun k e hk o ho => ?_,
    fun k k' e e' hk hk' => hm.disjoint k k' e e' (hlook hk).2 (hlook hk').2⟩
  obtain ⟨hne, hk⟩ := hlook hk
  have hin := hm.recorded k e hk o ho
  unfold remove
  split
  · next entry hentry =>
    show o ∈ m.spentOutpoints \ entry.tx.spends.toFinset
    rw [Finset.mem_sdiff, List.mem_toFinset]
    -- what the removed entry spent is not what this one spends
    exact ⟨hin, hm.disjoint k txid e entry hk hentry hne o ho⟩
  · exact hin

/-- Removing several keys. -/
theorem lookup_foldl_remove : ∀ (ks : List H256) (m : Mempool) (k : H256),
    (ks.foldl remove m).byHash.lookup k = if k ∈ ks then none else m.byHash.lookup k
  | [], _, _ => by simp
  | k' :: ks, m, k => by
    rw [List.foldl_cons, lookup_foldl_remove ks, lookup_remove]
    by_cases hmem : k ∈ ks
    · rw [if_pos hmem, if_pos (List.mem_cons_of_mem _ hmem)]
    · rw [if_neg hmem]
      by_cases heq : k = k'
      · rw [if_pos heq, if_pos (heq ▸ List.mem_cons_self ..)]
      · rw [if_neg heq, if_neg (by simp [heq, hmem])]

theorem wellFormed_foldl_remove : ∀ (ks : List H256) {m : Mempool}, WellFormed C m →
    WellFormed C (ks.foldl remove m)
  | [], _, hm => hm
  | k :: ks, _, hm => wellFormed_foldl_remove ks (wellFormed_remove hm k)

/-- After `remove_confirmed` no entry spends one of the given outpoints,
whatever the order of the map. -/
theorem removeConfirmed_spec {order : List H256} {spent : List OutPoint}
    (hord : m.Enumerates order) {k : H256} {e : MempoolEntry}
    (hk : (m.removeConfirmed order spent).byHash.lookup k = some e) :
    m.byHash.lookup k = some e ∧ ∀ o ∈ e.tx.spends, o ∉ spent := by
  unfold removeConfirmed at hk
  rw [lookup_foldl_remove] at hk
  split at hk
  · cases hk
  · next hkeep =>
    refine ⟨hk, fun o ho hsp => hkeep ?_⟩
    have hmem : k ∈ order := (hord.2 k).mpr (Finmap.mem_of_lookup_eq_some hk)
    refine List.mem_filter.mpr ⟨hmem, ?_⟩
    unfold conflicts
    rw [hk]
    obtain ⟨i, hi, rfl⟩ := List.mem_map.mp ho
    exact List.any_eq_true.mpr ⟨i, hi, decide_eq_true hsp⟩

/-! ## Listing what is pending -/

/-- What is pending is an entry's transaction. -/
theorem exists_of_mem_getPending {order : List H256} {maxCount : Nat}
    (h : tx ∈ m.getPending order maxCount) :
    ∃ k e, m.byHash.lookup k = some e ∧ e.tx = tx := by
  unfold getPending at h
  obtain ⟨e, he, hetx⟩ := List.mem_map.mp h
  have he := List.mem_mergeSort.mp (List.mem_of_mem_take he)
  obtain ⟨k, _, hk⟩ := List.mem_filterMap.mp he
  exact ⟨k, e, hk, hetx⟩

theorem getPending_length_le (m : Mempool) (order : List H256) (maxCount : Nat) :
    (m.getPending order maxCount).length ≤ maxCount := by
  unfold getPending
  rw [List.length_map]
  exact List.length_take_le ..

/-- Where no two entries share an input, no two pending transactions do, however
the entries were sorted. -/
theorem getPending_disjoint {order : List H256} (hord : m.Enumerates order)
    (hdisj : ∀ k k' e e', m.byHash.lookup k = some e → m.byHash.lookup k' = some e' → k ≠ k' →
      ∀ o ∈ e.tx.spends, o ∉ e'.tx.spends) (maxCount : Nat) :
    (m.getPending order maxCount).Pairwise fun a b => a.spends.Disjoint b.spends := by
  unfold getPending
  rw [List.pairwise_map]
  refine List.Pairwise.sublist (List.take_sublist ..) ?_
  -- the relation is symmetric, so sorting keeps it
  refine ((List.mergeSort_perm ..).pairwise_iff fun {_ _} h => h.symm).mpr ?_
  refine List.Pairwise.filterMap _ (fun k k' hne e he e' he' => ?_) hord.1
  exact fun o ho ho' => hdisj k k' e e' he he' hne o ho ho'

/-! ## Runs -/

/-- What callers do to the pool. -/
inductive PoolOp where
  | add (tx : Transaction) (inputValue : UInt64)
  | remove (txid : H256)
  | removeConfirmed (order : List H256) (spent : List OutPoint)
  | clear

/-- A refused `add` leaves the pool as it is. -/
def PoolOp.run (C : Crypto) (m : Mempool) : PoolOp → Mempool
  | .add tx inputValue =>
    match m.add C tx inputValue with
    | .ok m' => m'
    | .error _ => m
  | .remove txid => m.remove txid
  | .removeConfirmed order spent => m.removeConfirmed order spent
  | .clear => m.clear

def runPool (C : Crypto) (m : Mempool) (ops : List PoolOp) : Mempool := ops.foldl (PoolOp.run C) m

/-- An `add` either leaves the pool or gives the one it returned. -/
theorem PoolOp.run_add_cases (m : Mempool) (tx : Transaction) (inputValue : UInt64) :
    (PoolOp.add tx inputValue).run C m = m ∨
      m.add C tx inputValue = .ok ((PoolOp.add tx inputValue).run C m) := by
  rw [PoolOp.run]
  cases m.add C tx inputValue with
  | ok m' => exact Or.inr rfl
  | error e => exact Or.inl rfl

theorem PoolOp.run_add_of_ok (hadd : m.add C tx inputValue = .ok m') :
    (PoolOp.add tx inputValue).run C m = m' := by
  rw [PoolOp.run, hadd]

theorem wellFormed_new (config : MempoolConfig) : WellFormed C (new config) := by
  have hnone : ∀ k, (new config).byHash.lookup k = none := fun k => Finmap.lookup_empty k
  refine ⟨fun k e hk => ?_, fun k e hk => ?_, fun k k' e e' hk => ?_⟩
  all_goals
    rw [hnone] at hk
    cases hk

theorem wellFormed_op (hm : WellFormed C m) (op : PoolOp) : WellFormed C (op.run C m) := by
  cases op with
  | add tx inputValue =>
    rcases PoolOp.run_add_cases (C := C) m tx inputValue with hsame | hadd
    · rw [hsame]
      exact hm
    · exact wellFormed_add hm hadd
  | remove txid => exact wellFormed_remove hm txid
  | removeConfirmed order spent => exact wellFormed_foldl_remove _ hm
  | clear => exact wellFormed_new m.config

/-- Every pool reached from the empty one is well formed. -/
theorem wellFormed_run {config : MempoolConfig} (ops : List PoolOp) :
    WellFormed C (runPool C (new config) ops) := by
  unfold runPool
  induction ops using List.reverseRecOn with
  | nil => exact wellFormed_new config
  | append_singleton ops op ih =>
    rw [List.foldl_append]
    exact wellFormed_op ih op

/-- Two transactions a well-formed pool holds are equal or spend different
outpoints. -/
theorem Holds.disjoint (hm : WellFormed C m) {tx tx' : Transaction} (h : m.Holds C tx)
    (h' : m.Holds C tx') (hne : tx ≠ tx') {o : OutPoint} (ho : o ∈ tx.spends) :
    o ∉ tx'.spends := by
  obtain ⟨e, he, rfl⟩ := h
  obtain ⟨e', he', rfl⟩ := h'
  refine hm.disjoint _ _ e e' he he' (fun hid => hne ?_) o ho
  rw [hid] at he
  rw [Option.some.inj (he.symm.trans he')]

end Mempool

end Pyrax
