import Pyrax.Rollup.Drain
import Pyrax.Base.Run
import Mathlib.Data.List.Infix

/-!
# Nonces on L2

A transaction should be executed at most once: no two executed transactions have
the same sender and nonce, and a sender's nonce counts its executed transactions
(`NoReplay`).

`validate_transaction` of `zkrollup/sequencer.rs` compares the nonce with the
state when a transaction comes in, and nothing compares it again. Two
transactions with one nonce that both come in before a batch are both executed.
And only a contract call and a transfer move the nonce: a deposit, a withdrawal
and a transfer to nobody leave it, and a transfer to oneself writes the old one
back. `no_replay_of_fresh`: a run that accepts no such transaction replays
nothing.
-/

namespace Pyrax.Rollup

open Base

/-- What a nonce is there to make unique. -/
def L2Transaction.key (tx : L2Transaction) : Address × UInt64 := (tx.sender, tx.nonce)

/-- A type that `execute_transaction` knows. -/
def L2Transaction.Known (tx : L2Transaction) : Prop := tx.txType ≤ 3

instance (tx : L2Transaction) : Decidable tx.Known := inferInstanceAs (Decidable (_ ≤ _))

/-- A call, or a transfer to another account. -/
def L2Transaction.Bumps (tx : L2Transaction) : Prop :=
  tx.txType = 1 ∨ tx.txType = 0 ∧ ∃ r, tx.recipient = some r ∧ r ≠ tx.sender

/-- Unless execution is bound to refuse it: the transaction moves the nonce, there
is a next one, and nobody waits with the same. -/
def L2Transaction.Fresh (tx : L2Transaction) (mempool : List PendingTransaction) : Prop :=
  tx.Known → tx.Bumps ∧ tx.nonce.toNat + 1 < 2 ^ 64 ∧
    ∀ p ∈ mempool, p.tx.Known → p.tx.key ≠ tx.key

/-- From `s` to `s'` these were executed, each once and each counted. -/
structure NoReplay (s s' : L2State) (executed : List L2Transaction) : Prop where
  once : (executed.map L2Transaction.key).Nodup
  grows : ∀ a, (s'.getNonce a).toNat
    = (s.getNonce a).toNat + executed.countP fun tx => tx.sender = a

/-- The transactions executed by a list of calls. -/
def executions (C : Crypto) (P : Platform) (q : Sequencer) : List SequencerOp → List L2Transaction
  | [] => []
  | op :: ops => executedOf (op.history C P q) ++ executions C P (op.run C P q) ops

/-! ## Execution and the nonce -/

section Steps

variable {C : Crypto} {P : Platform} {s s₀ s' : L2State} {tx : L2Transaction} {gas : UInt64}
  {executed : List L2Transaction} {p : PendingTransaction} {mempool : List PendingTransaction}

theorem getNonce_updateAccount (acc : L2Account) (x a : Address) :
    (s.updateAccount C P a acc).getNonce x = if x = a then acc.nonce else s.getNonce x := by
  rw [L2State.getNonce, getAccount_updateAccount]
  split
  · rfl
  · rfl

theorem known_of_execute (h : executeTransaction C P s tx = .ok (s', gas)) : tx.Known := by
  obtain ⟨_, hcases⟩ := execute_cases h
  rw [L2Transaction.Known]
  rcases hcases with ⟨h, _⟩ | ⟨h, _⟩ | ⟨h, _⟩ | ⟨h, _⟩ | ⟨h, _⟩ <;> rw [h] <;> decide

/-- Such a transaction moves its sender's nonce by one and no other. -/
theorem getNonce_execute (hbumps : tx.Bumps) (h : executeTransaction C P s tx = .ok (s', gas))
    (a : Address) : s'.getNonce a = if a = tx.sender then s.getNonce a + 1 else s.getNonce a := by
  obtain ⟨_, hcases⟩ := execute_cases h
  rcases hbumps with h1 | ⟨h0, r, hr, hne⟩
  · rcases hcases with ⟨h, _⟩ | ⟨h, _⟩ | ⟨_, rfl⟩ | ⟨h, _⟩ | ⟨h, _⟩
    · exact absurd (h.symm.trans h1) (by decide)
    · exact absurd (h.symm.trans h1) (by decide)
    · rw [L2State.incrementNonce, getNonce_updateAccount]
      split
      · next ha =>
        rw [ha]
        rfl
      · rfl
    · exact absurd (h.symm.trans h1) (by decide)
    · exact absurd (h.symm.trans h1) (by decide)
  · rcases hcases with ⟨_, r', hr', htransfer⟩ | ⟨_, hnone, _⟩ | ⟨h, _⟩ | ⟨h, _⟩ | ⟨h, _⟩
    · cases hr.symm.trans hr'
      obtain ⟨_, rfl⟩ := transfer_ok_iff.mp htransfer
      rw [getNonce_updateAccount, getNonce_updateAccount]
      by_cases har : a = r
      · rw [if_pos har, if_neg (har ▸ hne), har]
        rfl
      · rw [if_neg har]
        split
        · next ha =>
          rw [ha]
          rfl
        · rfl
    · rw [hr] at hnone
      cases hnone
    · exact absurd (h.symm.trans h0) (by decide)
    · exact absurd (h.symm.trans h0) (by decide)
    · exact absurd (h.symm.trans h0) (by decide)

/-- What keeps replays out: what was executed lies below the nonces, and what waits
carries them, one for each sender. -/
structure Ordered (s₀ s : L2State) (executed : List L2Transaction)
    (mempool : List PendingTransaction) : Prop where
  free : NoReplay s₀ s executed
  below : ∀ tx ∈ executed, tx.nonce < s.getNonce tx.sender
  waiting : ∀ p ∈ mempool, p.tx.Known →
    p.tx.Bumps ∧ p.tx.nonce.toNat + 1 < 2 ^ 64 ∧ p.tx.nonce = s.getNonce p.tx.sender
  apart : mempool.Pairwise fun p p' => p.tx.Known → p'.tx.Known → p.tx.key ≠ p'.tx.key

theorem ordered_tail (h : Ordered s₀ s executed (p :: mempool)) :
    Ordered s₀ s executed mempool where
  free := h.free
  below := h.below
  waiting := fun p' hp' => h.waiting p' (List.mem_cons_of_mem _ hp')
  apart := (List.pairwise_cons.mp h.apart).2

/-- **One transaction** executed from the front of the queue. -/
theorem ordered_execute (h : Ordered s₀ s executed (p :: mempool))
    (hexec : executeTransaction C P s p.tx = .ok (s', gas)) :
    Ordered s₀ s' (executed ++ [p.tx]) mempool := by
  have hknown := known_of_execute hexec
  obtain ⟨hbumps, hlast, hnonce⟩ := h.waiting p (List.mem_cons_self ..) hknown
  have hget := getNonce_execute hbumps hexec
  rw [hnonce] at hlast
  have hnext : (s.getNonce p.tx.sender + 1).toNat = (s.getNonce p.tx.sender).toNat + 1 := by
    rw [UInt64.toNat_add]
    exact Nat.mod_eq_of_lt hlast
  have hle : ∀ a, s.getNonce a ≤ s'.getNonce a := by
    intro a
    rw [hget a, UInt64.le_iff_toNat_le]
    split
    · next ha =>
      rw [ha, hnext]
      omega
    · exact le_refl _
  refine ⟨⟨?_, ?_⟩, ?_, ?_, (List.pairwise_cons.mp h.apart).2⟩
  · -- an executed transaction of this sender has a smaller nonce
    rw [List.map_append, List.nodup_append]
    refine ⟨h.free.once, List.nodup_singleton _, ?_⟩
    intro key hkey key' hkey' heq
    obtain ⟨tx, htx, rfl⟩ := List.mem_map.mp hkey
    rw [List.map_singleton, List.mem_singleton] at hkey'
    rw [hkey'] at heq
    have hsender : tx.sender = p.tx.sender := congrArg Prod.fst heq
    have hsame : tx.nonce = p.tx.nonce := congrArg Prod.snd heq
    have hlt := h.below tx htx
    rw [hsender, hsame, hnonce] at hlt
    exact absurd hlt (UInt64.lt_irrefl _)
  · intro a
    rw [hget a, List.countP_append, ← Nat.add_assoc, ← h.free.grows a]
    by_cases ha : a = p.tx.sender
    · rw [if_pos ha, ha, hnext]
      simp
    · rw [if_neg ha]
      simp [Ne.symm ha]
  · intro tx htx
    rcases List.mem_append.mp htx with hold | hnew
    · exact UInt64.lt_of_lt_of_le (h.below tx hold) (hle tx.sender)
    · rw [List.mem_singleton.mp hnew, hget, if_pos rfl, hnonce, UInt64.lt_iff_toNat_lt, hnext]
      exact Nat.lt_succ_self _
  · intro p' hp' hknown'
    obtain ⟨hbumps', hlast', hnonce'⟩ := h.waiting p' (List.mem_cons_of_mem _ hp') hknown'
    refine ⟨hbumps', hlast', ?_⟩
    rw [hget, if_neg, hnonce']
    intro hsender
    refine (List.pairwise_cons.mp h.apart).1 p' hp' hknown hknown' ?_
    rw [L2Transaction.key, L2Transaction.key, hnonce, hnonce', hsender]

/-- **One batch**: the loop goes through the queue from the front. -/
theorem ordered_drain {config : SequencerConfig} {l1Block : UInt64} {l' : Loop}
    {rest : List PendingTransaction} :
    ∀ {mempool : List PendingTransaction} {l : Loop},
      Ordered s₀ l.state (executed ++ executedOf l.history) mempool →
      l.drain C P config l1Block mempool = (l', rest) →
      Ordered s₀ l'.state (executed ++ executedOf l'.history) rest
  | [], l, h, hdrain => by
    cases hdrain
    exact h
  | p :: mempool, l, h, hdrain => by
    rw [Loop.drain] at hdrain
    split at hdrain
    · refine ordered_drain ?_ hdrain
      have heff := Loop.step_effect C P config l1Block l p
      generalize l.step C P config l1Block p = l₁ at heff
      cases heff with
      | skipped _ => simpa [executedOf_snoc] using ordered_tail h
      | failed _ _ => simpa [executedOf_snoc] using ordered_tail h
      | batched _ hexec _ => simpa [executedOf_snoc] using ordered_execute h hexec
      | dropped _ hexec _ => simpa [executedOf_snoc] using ordered_execute h hexec
    · cases hdrain
      exact h

theorem nonce_of_valid {q : Sequencer} (h : q.validateTransaction tx = .ok ()) :
    tx.nonce = q.state.getNonce tx.sender := by
  rw [Sequencer.validateTransaction] at h
  split at h
  · cases h
  · next hnonce => exact not_not.mp hnonce

/-- **One call** that accepts only fresh transactions. -/
theorem ordered_call {q : Sequencer} {op : SequencerOp}
    (h : Ordered s₀ q.state executed q.mempool)
    (hfresh : ∀ tx ∈ op.accepts q, tx.Fresh q.mempool) :
    Ordered s₀ (op.run C P q).state (executed ++ executedOf (op.history C P q))
      (op.run C P q).mempool := by
  cases SequencerOp.effect_run (C := C) (P := P) q op with
  | idle _ hhistory _ hsame =>
    rw [hhistory, hsame.state, hsame.mempool]
    simpa [executedOf] using h
  | @accepted p hvalid haccepts hhistory _ hmempool hstate _ =>
    have hp := hfresh p.tx (haccepts ▸ List.mem_singleton_self _)
    rw [hhistory, hstate]
    refine ⟨by simpa [executedOf] using h.free, by simpa [executedOf] using h.below, ?_, ?_⟩
    · intro p' hp' hknown
      rcases List.mem_cons.mp (hmempool.subset hp') with rfl | hold
      · exact ⟨(hp hknown).1, (hp hknown).2.1, nonce_of_valid hvalid⟩
      · exact h.waiting p' hold hknown
    · have hsymm : ∀ {p p' : PendingTransaction},
          (p.tx.Known → p'.tx.Known → p.tx.key ≠ p'.tx.key) →
          p'.tx.Known → p.tx.Known → p'.tx.key ≠ p.tx.key := by
        intro p p' hne hknown' hknown heq
        exact hne hknown hknown' heq.symm
      refine (hmempool.pairwise_iff hsymm).mpr (List.pairwise_cons.mpr ⟨?_, h.apart⟩)
      intro p' hp' hknown hknown' heq
      exact (hp hknown).2.2 p' hp' hknown' heq.symm
  | produced _ _ hhistory _ hloop _ _ hmempool hstate _ =>
    obtain ⟨_, hdrained⟩ := produceLoop_ok_iff.mp hloop
    rw [hhistory, hstate, hmempool]
    refine ordered_drain ?_ hdrained.drain
    simpa [executedOf, Loop.start] using h

theorem executions_snoc (op : SequencerOp) : ∀ (ops : List SequencerOp) (q : Sequencer),
    executions C P q (ops ++ [op])
      = executions C P q ops ++ executedOf (op.history C P (runSequencer C P q ops))
  | [], q => List.append_nil _
  | op' :: ops, q => by
    rw [List.cons_append, executions, executions, executions_snoc op ops, List.append_assoc]
    rfl

end Steps

/-! ## Every run -/

/-- **No replay** in a run that accepts only fresh transactions. -/
theorem no_replay_of_fresh (C : Crypto) (P : Platform) (registered active : UInt64)
    (config : SequencerConfig) (address : Address) (stake : UInt64) (endpoint : String)
    (s : L2State) (ops : List SequencerOp)
    (hfresh : ∀ pre op, pre ++ [op] <+: ops → ∀ tx ∈ op.accepts (runSequencer C P
      (Sequencer.new registered active config address stake endpoint s) pre),
      tx.Fresh (runSequencer C P
        (Sequencer.new registered active config address stake endpoint s) pre).mempool) :
    ∀ pre, pre <+: ops → NoReplay s (runSequencer C P
        (Sequencer.new registered active config address stake endpoint s) pre).state
      (executions C P (Sequencer.new registered active config address stake endpoint s) pre) := by
  intro pre hpre
  have hstart : Ordered s s [] [] := by
    refine ⟨⟨List.nodup_nil, fun a => rfl⟩, ?_, ?_, List.Pairwise.nil⟩
    · exact fun tx htx => absurd htx List.not_mem_nil
    · exact fun p hp => absurd hp List.not_mem_nil
  refine (forall_prefixes (P := fun pre => Ordered s (runSequencer C P
      (Sequencer.new registered active config address stake endpoint s) pre).state
    (executions C P (Sequencer.new registered active config address stake endpoint s) pre)
    (runSequencer C P
      (Sequencer.new registered active config address stake endpoint s) pre).mempool)
    hstart ?_ pre hpre).free
  intro pre op hpre h
  rw [runSequencer_snoc, executions_snoc]
  exact ordered_call h (hfresh pre op hpre)

/-- Alice pays Bob twice, in two batches. -/
theorem no_replay_of_fresh_payments :
    let ops := oneBatch payment ++ [.submitTransaction 102 nextPayment,
      .produceBatch ⟨103, 103, 103, 103⟩]
    NoReplay soloSequencer.state
        (runSequencer paymentCrypto Platform.exact soloSequencer ops).state
        (executions paymentCrypto Platform.exact soloSequencer ops) ∧
      (executions paymentCrypto Platform.exact soloSequencer ops).map (·.nonce) = [0, 1] := by
  intro ops
  refine ⟨?_, by decide +kernel⟩
  have hbumps : payment.Bumps ∧ nextPayment.Bumps :=
    ⟨Or.inr ⟨rfl, bob, rfl, by decide⟩, Or.inr ⟨rfl, bob, rfl, by decide⟩⟩
  refine no_replay_of_fresh _ _ _ _ _ _ _ _ _ ops (forall_prefixes_snoc ?_) _ List.prefix_rfl
  intro i hi tx htx
  rcases i with _ | _ | _ | _ | i
  · rw [mem_accepts_submit htx]
    exact fun _ => ⟨hbumps.1, by decide, fun p hp => absurd hp List.not_mem_nil⟩
  · cases htx
  · rw [mem_accepts_submit htx]
    -- the batch has emptied the queue
    have hdrained : (runSequencer paymentCrypto Platform.exact soloSequencer
        (oneBatch payment)).mempool = [] := by
      decide +kernel
    refine fun _ => ⟨hbumps.2, by decide, fun p hp => ?_⟩
    exact absurd (hdrained ▸ hp) List.not_mem_nil
  · cases htx
  · exact absurd hi (by simp [ops, oneBatch])

/-- One payment handed in twice before a batch is paid twice. -/
theorem payment_replayed :
    ¬ ∀ (C : Crypto) (P : Platform) (registered active : UInt64) (config : SequencerConfig)
      (address : Address) (stake : UInt64) (endpoint : String) (s : L2State)
      (ops : List SequencerOp), NoReplay s (runSequencer C P
          (Sequencer.new registered active config address stake endpoint s) ops).state
        (executions C P (Sequencer.new registered active config address stake endpoint s) ops) := by
  intro hall
  have h := hall paymentCrypto Platform.exact 100 100 { mode := .single } alice
    MIN_SEQUENCER_STAKE "https://seq.example.com"
    ((L2State.new paymentCrypto).credit paymentCrypto Platform.exact alice 1000000000000)
    (.submitTransaction 100 payment :: oneBatch payment)
  exact absurd h.once (by decide +kernel)

end Pyrax.Rollup
