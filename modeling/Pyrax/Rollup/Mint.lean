import Pyrax.Rollup.Drain
import Pyrax.Base.Run
import Mathlib.Data.List.Infix

/-!
# Minting on L2

Whether batches of `zkrollup/sequencer.rs` can raise the sum of all L2 balances.
They should not: L2 supply comes in through `process_deposit` of the bridge.

`validate_transaction` never looks at the transaction type, so anyone may submit
a transaction of type 2, a deposit, and `execute_transaction` credits its value
to the sender. A transfer to oneself does the same, because `transfer` writes the
credited copy last. These are the only two ways (`totalBalance_execute_le`), and
without them no call of a run raises the sum (`no_mint_of_harmless`).
-/

namespace Pyrax.Rollup

open Base

/-- Neither a deposit nor a transfer to oneself, unless of nothing. -/
def L2Transaction.Harmless (tx : L2Transaction) : Prop :=
  tx.value ≠ 0 → tx.txType ≠ 2 ∧ ¬ (tx.txType = 0 ∧ tx.recipient = some tx.sender)

section Steps

variable {C : Crypto} {P : Platform} {s s' : L2State} {tx : L2Transaction} {gas : UInt64}
  {a : Address}

/-- Writing an account with no more than it had adds nothing. -/
theorem totalBalance_updateAccount_le {acc : L2Account}
    (h : acc.balance ≤ (s.getAccount a).balance) :
    totalBalance (s.updateAccount C P a acc) ≤ totalBalance s := by
  have hupd := totalBalance_updateAccount (C := C) (P := P) s a acc
  have hle := UInt64.le_iff_toNat_le.mp h
  omega

theorem totalBalance_incrementNonce_le :
    totalBalance (s.incrementNonce C P a) ≤ totalBalance s :=
  totalBalance_updateAccount_le (UInt64.le_refl _)

theorem totalBalance_credit_zero_le : totalBalance (s.credit C P a 0) ≤ totalBalance s := by
  refine totalBalance_updateAccount_le ?_
  show (s.getAccount a).balance + 0 ≤ _
  rw [UInt64.add_zero]
  exact UInt64.le_refl _

/-- A transfer of nothing to oneself writes the same balance twice. -/
theorem totalBalance_transfer_zero_le (h : s.transfer C P a a 0 = .ok s') :
    totalBalance s' ≤ totalBalance s := by
  obtain ⟨_, rfl⟩ := transfer_ok_iff.mp h
  refine le_trans (totalBalance_updateAccount_le ?_) (totalBalance_updateAccount_le ?_)
  · rw [getAccount_updateAccount, if_pos rfl]
    show (s.getAccount a).balance + 0 ≤ (s.getAccount a).balance - 0
    rw [UInt64.add_zero, UInt64.sub_zero]
    exact UInt64.le_refl _
  · show (s.getAccount a).balance - 0 ≤ _
    rw [UInt64.sub_zero]
    exact UInt64.le_refl _

/-- **One transaction.** Without the two exceptions, execution never adds to the
sum of the balances. -/
theorem totalBalance_execute_le (hharmless : tx.Harmless)
    (h : executeTransaction C P s tx = .ok (s', gas)) : totalBalance s' ≤ totalBalance s := by
  obtain ⟨_, hcases⟩ := execute_cases h
  rcases hcases with ⟨h0, r, hr, htransfer⟩ | ⟨_, _, rfl⟩ | ⟨_, rfl⟩ | ⟨h2, rfl⟩ | ⟨_, hdebit⟩
  · by_cases hself : tx.sender = r
    · -- to oneself, so of nothing
      have hvalue : tx.value = 0 := by
        by_contra hne
        exact (hharmless hne).2 ⟨h0, hself ▸ hr⟩
      rw [← hself, hvalue] at htransfer
      exact totalBalance_transfer_zero_le htransfer
    · exact totalBalance_transfer_le hself htransfer
  · exact le_refl _
  · exact totalBalance_incrementNonce_le
  · have hvalue : tx.value = 0 := by
      by_contra hne
      exact (hharmless hne).1 h2
    rw [hvalue]
    exact totalBalance_credit_zero_le
  · have hless := totalBalance_debit hdebit
    omega

/-- **One batch.** A queue of such transactions leaves the loop with no more than
it started with. -/
theorem totalBalance_drain_le {config : SequencerConfig} {l1Block : UInt64} {l l' : Loop}
    {mempool rest : List PendingTransaction}
    (hdrain : l.drain C P config l1Block mempool = (l', rest))
    (hharmless : ∀ p ∈ mempool, p.tx.Harmless) : totalBalance l'.state ≤ totalBalance l.state := by
  have hend : l' = (l.drain C P config l1Block mempool).1 := by rw [hdrain]
  rw [hend]
  refine Loop.drain_invariant (I := fun l₁ => totalBalance l₁.state ≤ totalBalance l.state) ?_
    (le_refl _)
  intro l₁ p hp _ hle
  have heff := Loop.step_effect C P config l1Block l₁ p
  generalize l₁.step C P config l1Block p = l₂ at heff
  cases heff with
  | skipped _ => exact hle
  | failed _ _ => exact hle
  | batched _ hexec _ => exact (totalBalance_execute_le (hharmless p hp) hexec).trans hle
  | dropped _ hexec _ => exact (totalBalance_execute_le (hharmless p hp) hexec).trans hle

/-- **One call** on a harmless queue keeps the queue harmless and the sum from
growing. -/
theorem totalBalance_call_le {q : Sequencer} {op : SequencerOp}
    (hqueue : ∀ p ∈ q.mempool, p.tx.Harmless) (haccept : ∀ tx ∈ op.accepts q, tx.Harmless) :
    (∀ p ∈ (op.run C P q).mempool, p.tx.Harmless) ∧
      totalBalance (op.run C P q).state ≤ totalBalance q.state := by
  cases SequencerOp.effect_run (C := C) (P := P) q op with
  | idle _ _ _ hsame =>
    rw [hsame.mempool, hsame.state]
    exact ⟨hqueue, le_refl _⟩
  | @accepted p _ haccepts _ _ hmempool hstate _ =>
    rw [hstate]
    refine ⟨fun p' hp' => ?_, le_refl _⟩
    rcases List.mem_cons.mp (hmempool.subset hp') with rfl | hold
    · exact haccept p'.tx (haccepts ▸ List.mem_singleton_self _)
    · exact hqueue p' hold
  | produced _ _ _ _ hloop _ _ hmempool hstate _ =>
    obtain ⟨_, hdrained⟩ := produceLoop_ok_iff.mp hloop
    rw [hmempool, hstate]
    exact ⟨fun p hp => hqueue p (Loop.mem_of_mem_rest hdrained.drain hp),
      totalBalance_drain_le hdrained.drain hqueue⟩

end Steps

/-- **No minting** in a run that accepts only such transactions: no call raises
the sum of the L2 balances. -/
theorem no_mint_of_harmless (C : Crypto) (P : Platform) (registered active : UInt64)
    (config : SequencerConfig) (address : Address) (stake : UInt64) (endpoint : String)
    (s : L2State) (ops : List SequencerOp)
    (hharmless : ∀ pre op, pre ++ [op] <+: ops → ∀ tx ∈ op.accepts (runSequencer C P
      (Sequencer.new registered active config address stake endpoint s) pre), tx.Harmless) :
    ∀ pre op, pre ++ [op] <+: ops →
      totalBalance (runSequencer C P
          (Sequencer.new registered active config address stake endpoint s) (pre ++ [op])).state
        ≤ totalBalance (runSequencer C P
          (Sequencer.new registered active config address stake endpoint s) pre).state := by
  intro pre op hpre
  have hqueue := forall_prefixes (P := fun pre => ∀ p ∈ (runSequencer C P
      (Sequencer.new registered active config address stake endpoint s) pre).mempool,
      p.tx.Harmless) (fun p hp => absurd hp List.not_mem_nil)
    (fun pre op hpre h => by
      rw [runSequencer_snoc]
      exact (totalBalance_call_le h (hharmless pre op hpre)).1)
    pre ((List.prefix_append pre [op]).trans hpre)
  rw [runSequencer_snoc]
  exact (totalBalance_call_le hqueue (hharmless pre op hpre)).2

/-! ### A payment and a deposit -/

theorem no_mint_of_harmless_payment :
    totalBalance (runSequencer paymentCrypto Platform.exact soloSequencer
        (oneBatch payment)).state
      ≤ totalBalance (runSequencer paymentCrypto Platform.exact soloSequencer
        [.submitTransaction 100 payment]).state := by
  refine no_mint_of_harmless _ _ _ _ _ _ _ _ _ (oneBatch payment) ?_
    [.submitTransaction 100 payment] (.produceBatch ⟨101, 101, 101, 101⟩) (List.prefix_refl _)
  intro pre op hpre tx htx
  obtain ⟨_, rfl⟩ := accepts_oneBatch hpre htx
  exact fun _ => by decide

/-- The same payment with type 2: nobody deposited anything, and a thousand more
are there. -/
theorem deposit_mints :
    ¬ ∀ (C : Crypto) (P : Platform) (registered active : UInt64) (config : SequencerConfig)
      (address : Address) (stake : UInt64) (endpoint : String) (s : L2State)
      (ops : List SequencerOp) (pre : List SequencerOp) (op : SequencerOp), pre ++ [op] <+: ops →
      totalBalance (runSequencer C P
          (Sequencer.new registered active config address stake endpoint s) (pre ++ [op])).state
        ≤ totalBalance (runSequencer C P
          (Sequencer.new registered active config address stake endpoint s) pre).state := by
  intro hall
  have h := hall paymentCrypto Platform.exact 100 100 { mode := .single } alice
    MIN_SEQUENCER_STAKE "https://seq.example.com"
    ((L2State.new paymentCrypto).credit paymentCrypto Platform.exact alice 1000000000000)
    (oneBatch { payment with txType := 2 }) [.submitTransaction 100 { payment with txType := 2 }]
    (.produceBatch ⟨101, 101, 101, 101⟩) (List.prefix_refl _)
  exact absurd h (by decide +kernel)

end Pyrax.Rollup
