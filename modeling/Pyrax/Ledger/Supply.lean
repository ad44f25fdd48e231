import Pyrax.Ledger.Extend

/-!
# The money supply along a run

`supply` is the exact sum of all values in the UTXO set. A valid block moves it
through three facts: the batch deletes pairwise distinct outpoints (the
double-spend set), so what stood there leaves (`Column.total_write_le`); each
transaction but the first puts at most what it took (`validate_transaction`);
and the first puts at most the reward (`validate_coinbase`).

The last two are checks on machine sums. A transaction whose exact output sum
reaches `2 ^ 64` passes them with the sum's remainder, so the bound holds of
blocks in which no output sum wraps (`supply_le_of_outputsFit`), and a coinbase
of two outputs of `2 ^ 63` units each mints `2 ^ 64` units out of nothing
(`supply_not_bounded`).
-/

namespace Pyrax.Ledger

open Base ChainDB Validation

/-- The value of an unspent output. -/
def utxoValue (u : Utxo) : Nat := u.output.value.toNat

/-- The exact sum of all unspent values. -/
def supply (s : ChainDB) : Nat := Column.total utxoValue s.db.utxoSet

/-- No transaction of the block has outputs worth `2 ^ 64` units or more. -/
def OutputsFit (b : Block) : Prop := ∀ tx ∈ b.transactions, tx.outputSum < 2 ^ 64

variable {C : Crypto} {s s' : ChainDB} {now : UInt64} {b : Block}

/-! ## What a transaction takes and puts -/

theorem sum_puts_utxoOps (C : Crypto) (height : UInt64) (tx : Transaction) :
    ((WriteOp.puts (utxoOps C height tx)).map utxoValue).sum = tx.outputSum := by
  rw [puts_utxoOps, List.map_map]
  rfl

/-- The value under an outpoint is the column's value there. -/
theorem inputValue_toNat (s : ChainDB) (o : OutPoint) :
    (inputValue s o).toNat = Column.valueAt utxoValue s.db.utxoSet o := by
  unfold inputValue Column.valueAt getUtxo
  cases s.db.utxoSet.lookup o with
  | none => rfl
  | some u => rfl

/-- The wrapping sum of the inputs is at most the exact one. -/
theorem totalInput_toNat_le (s : ChainDB) (tx : Transaction) :
    (totalInput s tx).toNat ≤ (tx.spends.map (Column.valueAt utxoValue s.db.utxoSet)).sum := by
  rw [totalInput, Transaction.sum_toNat, List.map_map]
  have hmap : tx.spends.map ((fun x : UInt64 => x.toNat) ∘ inputValue s)
      = tx.spends.map (Column.valueAt utxoValue s.db.utxoSet) :=
    List.map_congr_left fun o _ => inputValue_toNat s o
  rw [hmap]
  exact Nat.mod_le _ _

/-- A valid transaction whose output sum fits puts at most what it takes. -/
theorem outputSum_le_inputs {height : UInt64} {tx : Transaction} (hv : TxValid C s height tx)
    (hfit : tx.outputSum < 2 ^ 64) :
    tx.outputSum ≤ (tx.spends.map (Column.valueAt utxoValue s.db.utxoSet)).sum := by
  calc tx.outputSum = tx.totalOutput.toNat := (Transaction.totalOutput_toNat_of_lt hfit).symm
    _ ≤ (totalInput s tx).toNat := UInt64.le_iff_toNat_le.mp hv.funds
    _ ≤ _ := totalInput_toNat_le s tx

/-- The same over the transactions after the coinbase. -/
theorem sum_outputs_le_sum_inputs {height : UInt64} : ∀ {txs : List Transaction},
    (∀ tx ∈ txs, TxValid C s height tx) → (∀ tx ∈ txs, tx.outputSum < 2 ^ 64) →
    (txs.map (·.outputSum)).sum
      ≤ ((allSpends txs).map (Column.valueAt utxoValue s.db.utxoSet)).sum
  | [], _, _ => Nat.le_refl 0
  | tx :: txs, hv, hfit => by
    have ih := sum_outputs_le_sum_inputs (fun t ht => hv t (List.mem_cons_of_mem _ ht))
      fun t ht => hfit t (List.mem_cons_of_mem _ ht)
    have htx := outputSum_le_inputs (hv tx (List.mem_cons_self ..)) (hfit tx (List.mem_cons_self ..))
    rw [List.map_cons, List.sum_cons, allSpends, List.flatMap_cons, List.map_append,
      List.sum_append]
    exact Nat.add_le_add htx ih

/-! ## What a block's batch takes and puts -/

theorem deletes_flatMap (C : Crypto) (height : UInt64) : ∀ txs : List Transaction,
    WriteOp.deletes (txs.flatMap (utxoOps C height)) = txs.flatMap spentBy
  | [] => rfl
  | tx :: txs => by
    rw [List.flatMap_cons, WriteOp.deletes_append, deletes_utxoOps, deletes_flatMap C height txs,
      List.flatMap_cons]

theorem sum_puts_flatMap (C : Crypto) (height : UInt64) : ∀ txs : List Transaction,
    ((WriteOp.puts (txs.flatMap (utxoOps C height))).map utxoValue).sum
      = (txs.map (·.outputSum)).sum
  | [] => rfl
  | tx :: txs => by
    rw [List.flatMap_cons, WriteOp.puts_append, List.map_append, List.sum_append,
      sum_puts_utxoOps, sum_puts_flatMap C height txs, List.map_cons, List.sum_cons]

/-- A block deletes exactly what its transactions after the coinbase spend. -/
theorem spentBy_body {height : UInt64} {coinbase : Transaction} {rest : List Transaction}
    (hs : NullFree s) (hbody : BodyValid C s height coinbase rest) :
    (coinbase :: rest).flatMap spentBy = allSpends rest := by
  rw [List.flatMap_cons, spentBy_of_isCoinbase hbody.coinbase.isCoinbase, List.nil_append]
  exact List.flatMap_congr fun tx htx => spentBy_of_valid hs (hbody.valid tx htx)

/-- **One accepted block.** If no output sum wraps, the supply grows by at most
the block reward. -/
theorem supply_committed_le (hs : NullFree s) (hv : BlockValid C now b s)
    (hfit : OutputsFit b) :
    supply (committed C s b) ≤ supply s + Stream.A.blockReward.toNat := by
  unfold supply
  rw [committed_utxoSet]
  rcases body_cases hv with hnil | ⟨coinbase, rest, htxs, hbody⟩
  · rw [hnil]
    exact Nat.le_add_right ..
  · rw [OutputsFit, htxs] at hfit
    -- the batch deletes what the rest spends, pairwise different, and puts all outputs
    have hdel := (deletes_flatMap C b.height (coinbase :: rest)).trans (spentBy_body hs hbody)
    have hputs := sum_puts_flatMap C b.height (coinbase :: rest)
    have hwrite := Column.total_write_le utxoValue
      ((coinbase :: rest).flatMap (utxoOps C b.height)) s.db.utxoSet (by rw [hdel]; exact hbody.nodup)
    rw [hdel, hputs, List.map_cons, List.sum_cons] at hwrite
    have hrest := sum_outputs_le_sum_inputs hbody.valid
      fun tx htx => hfit tx (List.mem_cons_of_mem _ htx)
    -- the cap was checked on the machine sum, which did not wrap
    have hcb : coinbase.outputSum ≤ Stream.A.blockReward.toNat := by
      rw [← Transaction.totalOutput_toNat_of_lt (hfit coinbase (List.mem_cons_self ..))]
      exact UInt64.le_iff_toNat_le.mp hbody.coinbase.reward
    rw [htxs]
    omega

/-! ## Whole runs -/

/-- **No inflation where no output sum wraps.** Whatever blocks a new database
has accepted, the next accepted block in which every transaction's outputs are
worth less than `2 ^ 64` units raises the supply by at most the reward. -/
theorem supply_le_of_outputsFit {network : NetworkId} {as : List Arrival} {a : Arrival}
    (hrun : Run (Accepts C) (openNew C network) as s) (hstep : Accepts C s a s')
    (hfit : OutputsFit a.block) :
    supply s' ≤ supply s + Stream.A.blockReward.toNat := by
  obtain ⟨hv, rfl⟩ := accepts_iff.mp hstep
  exact supply_committed_le (nullFree_run hrun) hv hfit

theorem supply_le_of_outputsFit_devnetFirst :
    supply (committed devnetCrypto devnetOpen devnetFirst)
      ≤ supply devnetOpen + Stream.A.blockReward.toNat := by
  refine supply_le_of_outputsFit (a := ⟨1735689600, devnetFirst⟩)
    (Run.nil (openNew devnetCrypto NetworkId.DEVNET)) (accepts_iff.mpr ⟨devnetFirst_valid, rfl⟩) ?_
  intro tx htx
  rw [List.mem_singleton.mp htx]
  decide

/-- The supply law with nothing said about the outputs. -/
def SupplyBounded (C : Crypto) : Prop :=
  ∀ (network : NetworkId) (as : List Arrival) (a : Arrival) (s s' : ChainDB),
    Run (Accepts C) (openNew C network) as s → Accepts C s a s' → 1 ≤ a.block.height →
      supply s' ≤ supply s + Stream.A.blockReward.toNat

/-- A coinbase whose two outputs sum to `0` in a `u64`. -/
def wrapCoinbase : Transaction :=
  ⟨1, [TxInput.coinbase 1 Transaction.coinbaseExtra],
    [⟨9223372036854775808, []⟩, ⟨9223372036854775808, []⟩], 0⟩

/-- The devnet's first block, with that coinbase. -/
def wrapBlock (C : Crypto) : Block :=
  easyBlock C (openNew C NetworkId.DEVNET) 1735689600 [wrapCoinbase]

theorem wrapBlock_valid (C : Crypto) :
    BlockValid C 1735689600 (wrapBlock C) (openNew C NetworkId.DEVNET) :=
  easyBlock_valid_openNew C _ ⟨rfl, List.cons_ne_nil _ _, by decide +kernel⟩ (by decide +kernel)

/-- Committed on an empty UTXO set, it leaves its two outputs. -/
theorem supply_wrapBlock (C : Crypto) :
    supply (committed C (openNew C NetworkId.DEVNET) (wrapBlock C)) = 2 ^ 64 := by
  unfold supply
  rw [committed_utxoSet, openNew_utxoSet]
  let half : Utxo := ⟨⟨9223372036854775808, []⟩, 0 + 1, true⟩
  let one : Column OutPoint Utxo := Finmap.insert ⟨wrapCoinbase.txid C, 0⟩ half ∅
  show Column.total utxoValue (Finmap.insert ⟨wrapCoinbase.txid C, 1⟩ half one) = 2 ^ 64
  have hne : (⟨wrapCoinbase.txid C, 1⟩ : OutPoint) ∉ one := by
    simp [one, Finmap.notMem_empty]
  rw [Column.total_insert_of_notMem _ _ hne,
    Column.total_insert_of_notMem _ _ Finmap.notMem_empty, Column.total_empty,
    show utxoValue half = 2 ^ 63 from rfl]
  decide

/-- Under no hash functions does the law hold of the code. -/
theorem supply_not_bounded : ¬ ∃ C : Crypto, SupplyBounded C := by
  intro h
  obtain ⟨C, hC⟩ := h
  have hle := hC NetworkId.DEVNET [] ⟨1735689600, wrapBlock C⟩ _ _ (Run.nil _)
    (accepts_iff.mpr ⟨wrapBlock_valid C, rfl⟩) (by decide : (1 : UInt64) ≤ 0 + 1)
  rw [supply_wrapBlock, show supply (openNew C NetworkId.DEVNET) = 0 from rfl] at hle
  exact absurd hle (by decide)

end Pyrax.Ledger
