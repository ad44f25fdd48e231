import Pyrax.Rollup.Drain

/-!
# The order of the sequencer's queue

With `priority_ordering` `submit_transaction` puts a transaction before the first one of a
lower priority, `force_include` puts one of the highest priority at the front, and
`produce_batch` takes from the front. So the queue is always sorted by falling priority,
and what was submitted at one gas price waits in the order in which it was submitted
(`queue_ordered`): it is what is left at the end of that list.
-/

namespace Pyrax.Rollup

open Base

/-- The transactions of a list that were submitted, and not forced, at a gas price. -/
def ofPrice (gasPrice : UInt64) (l : List PendingTransaction) : List PendingTransaction :=
  l.filter fun p => p.l1InclusionBlock.isNone && p.tx.gasPrice == gasPrice

namespace SequencerOp

/-- What a call of `submit_transaction` puts into the queue. -/
def submitted (q : Sequencer) : SequencerOp → List PendingTransaction
  | submitTransaction now tx =>
    if (q.submitTransaction now tx).2.isOk then [PendingTransaction.new now tx] else []
  | _ => []

end SequencerOp

/-- All that the calls submit and have accepted, in order. -/
def submissions (C : Crypto) (P : Platform) : Sequencer → List SequencerOp →
    List PendingTransaction
  | _, [] => []
  | q, op :: ops => op.submitted q ++ submissions C P (op.run C P q) ops

/-- The queue is sorted, and of each gas price it holds the last of the submissions. -/
structure Queued (log mempool : List PendingTransaction) : Prop where
  sorted : mempool.Pairwise fun a b => b.priority ≤ a.priority
  stable : ∀ gasPrice, ofPrice gasPrice mempool <:+ ofPrice gasPrice log
  priced : ∀ p ∈ mempool, p.l1InclusionBlock = none → p.priority = p.tx.gasPrice

variable {C : Crypto} {P : Platform} {log mempool : List PendingTransaction}
  {p : PendingTransaction}

/-! ## Inserting -/

theorem ofPrice_append (gasPrice : UInt64) (l l' : List PendingTransaction) :
    ofPrice gasPrice (l ++ l') = ofPrice gasPrice l ++ ofPrice gasPrice l' := List.filter_append ..

theorem mem_ofPrice_iff {gasPrice : UInt64} {l : List PendingTransaction} :
    p ∈ ofPrice gasPrice l ↔ p ∈ l ∧ p.l1InclusionBlock = none ∧ p.tx.gasPrice = gasPrice := by
  rw [ofPrice, List.mem_filter, Bool.and_eq_true, Option.isNone_iff_eq_none, beq_iff_eq]

theorem sorted_insertByPriority (p : PendingTransaction) : ∀ {mempool : List PendingTransaction},
    (mempool.Pairwise fun a b => b.priority ≤ a.priority) →
      (Sequencer.insertByPriority p mempool).Pairwise fun a b => b.priority ≤ a.priority
  | [], _ => List.pairwise_singleton _ _
  | x :: mempool, h => by
    obtain ⟨hx, hrest⟩ := List.pairwise_cons.mp h
    rw [Sequencer.insertByPriority]
    split
    · next hlt =>
      refine List.pairwise_cons.mpr ⟨fun y hy => ?_, h⟩
      have hle := UInt64.le_of_lt hlt
      rcases List.mem_cons.mp hy with rfl | hy
      · exact hle
      · exact UInt64.le_trans (hx y hy) hle
    · next hge =>
      refine List.pairwise_cons.mpr ⟨fun y hy => ?_, sorted_insertByPriority p hrest⟩
      rcases List.mem_cons.mp ((SequencerOp.perm_insertByPriority p mempool).mem_iff.mp hy)
        with rfl | hy
      · exact UInt64.not_lt.mp hge
      · exact hx y hy

/-- Below its own priority nothing of its gas price waits. -/
theorem ofPrice_insertByPriority (hnone : p.l1InclusionBlock = none)
    (hpriority : p.priority = p.tx.gasPrice) (gasPrice : UInt64) :
    ∀ {mempool : List PendingTransaction},
      (mempool.Pairwise fun a b => b.priority ≤ a.priority) →
      (∀ y ∈ mempool, y.l1InclusionBlock = none → y.priority = y.tx.gasPrice) →
      ofPrice gasPrice (Sequencer.insertByPriority p mempool)
        = ofPrice gasPrice mempool ++ ofPrice gasPrice [p]
  | [], _, _ => rfl
  | x :: mempool, hsorted, hpriced => by
    obtain ⟨hx, hrest⟩ := List.pairwise_cons.mp hsorted
    rw [Sequencer.insertByPriority]
    split
    · next hlt =>
      rw [← List.singleton_append, ofPrice_append]
      by_cases hprice : p.tx.gasPrice = gasPrice
      · -- whatever waits from here on is of a lower price
        have hempty : ofPrice gasPrice (x :: mempool) = [] := by
          refine List.eq_nil_iff_forall_not_mem.mpr fun y hy => ?_
          obtain ⟨hmem, hfree, hy⟩ := mem_ofPrice_iff.mp hy
          have hpy := hpriced y hmem hfree
          have hle : y.priority ≤ x.priority := by
            rcases List.mem_cons.mp hmem with rfl | hmem
            · exact UInt64.le_refl _
            · exact hx y hmem
          rw [hpy, hy, ← hprice, ← hpriority] at hle
          exact UInt64.not_lt.mpr hle hlt
        rw [hempty, List.append_nil, List.nil_append]
      · have hother : ofPrice gasPrice [p] = [] := by
          refine List.eq_nil_iff_forall_not_mem.mpr fun y hy => ?_
          obtain ⟨hmem, _, hy⟩ := mem_ofPrice_iff.mp hy
          rw [List.mem_singleton.mp hmem] at hy
          exact hprice hy
        rw [hother, List.append_nil, List.nil_append]
    · have ih := ofPrice_insertByPriority hnone hpriority gasPrice hrest
        fun y hy => hpriced y (List.mem_cons_of_mem _ hy)
      rw [← List.singleton_append, ofPrice_append, ih, ← List.append_assoc, ← ofPrice_append]
      rfl

theorem Queued.submitted (h : Queued log mempool) (now : UInt64) (tx : L2Transaction) :
    Queued (log ++ [PendingTransaction.new now tx])
      (Sequencer.insertByPriority (PendingTransaction.new now tx) mempool) where
  sorted := sorted_insertByPriority _ h.sorted
  stable gasPrice := by
    rw [ofPrice_insertByPriority rfl rfl gasPrice h.sorted h.priced, ofPrice_append]
    obtain ⟨before, hbefore⟩ := h.stable gasPrice
    exact ⟨before, by rw [← List.append_assoc, hbefore]⟩
  priced y hy hfree := by
    rcases List.mem_cons.mp ((SequencerOp.perm_insertByPriority _ mempool).mem_iff.mp hy)
      with rfl | hy
    · rfl
    · exact h.priced y hy hfree

/-- No priority is above that of a forced inclusion. -/
theorem Queued.forced (h : Queued log mempool) (now : UInt64) (tx : L2Transaction)
    (l1Block : UInt64) :
    Queued log (PendingTransaction.withForceInclusion now tx l1Block :: mempool) where
  sorted := by
    refine List.pairwise_cons.mpr ⟨fun y _ => ?_, h.sorted⟩
    have hmax := y.priority.toNat_lt
    refine UInt64.le_iff_toNat_le.mpr ?_
    show y.priority.toNat ≤ 18446744073709551615
    omega
  stable gasPrice := by
    rw [← List.singleton_append, ofPrice_append]
    exact h.stable gasPrice
  priced y hy hfree := by
    rcases List.mem_cons.mp hy with rfl | hy
    · cases hfree
    · exact h.priced y hy hfree

/-- Taking from the front leaves the end. -/
theorem Queued.drained {rest : List PendingTransaction} (h : Queued log mempool)
    (hrest : rest <:+ mempool) : Queued log rest where
  sorted := h.sorted.sublist hrest.sublist
  stable gasPrice := (hrest.filter _).trans (h.stable gasPrice)
  priced y hy := h.priced y (hrest.subset hy)

/-! ## The calls -/

theorem rest_suffix {config : SequencerConfig} {l1Block : UInt64} {l' : Loop}
    {rest : List PendingTransaction} :
    ∀ {mempool : List PendingTransaction} {l : Loop},
      l.drain C P config l1Block mempool = (l', rest) → rest <:+ mempool
  | [], _, h => by
    cases h
    exact List.suffix_refl _
  | p :: mempool, l, h => by
    rw [Loop.drain] at h
    split at h
    · exact (rest_suffix h).trans (List.suffix_cons p mempool)
    · cases h
      exact List.suffix_refl _

theorem config_run (q : Sequencer) (op : SequencerOp) : (op.run C P q).config = q.config := by
  cases op with
  | register =>
    rw [SequencerOp.run, Sequencer.register]
    split
    · rfl
    · rfl
  | rotateLeader =>
    rw [SequencerOp.run, Sequencer.rotateLeader]
    dsimp only
    split
    · rfl
    · split
      · rfl
      · rfl
  | submitTransaction now tx =>
    rw [SequencerOp.run, Sequencer.submitTransaction]
    split
    · rfl
    · rfl
  | forceInclude now tx l1Block =>
    rw [SequencerOp.run, Sequencer.forceInclude]
    split
    · rfl
    · rfl
  | updateL1Block block =>
    rw [SequencerOp.run, Sequencer.updateL1Block, Sequencer.processForceInclusions]
    generalize (if block < q.config.forceInclusionDelay then (0 : UInt64) else _) = deadline
    dsimp only
    split
    · rfl
    · rfl
  | produceBatch now =>
    rw [SequencerOp.run, Sequencer.produceBatch]
    split
    · rfl
    · dsimp only
      split
      · rfl
      · rfl

/-- **One call** keeps the queue in order. -/
theorem Queued.call {q : Sequencer} (h : Queued log q.mempool)
    (hordering : q.config.priorityOrdering = true) (op : SequencerOp) :
    Queued (log ++ op.submitted q) (op.run C P q).mempool := by
  have hnone : Queued (log ++ []) q.mempool := (List.append_nil log).symm ▸ h
  cases op with
  | register => exact (SequencerOp.same_register q).mempool.symm ▸ hnone
  | rotateLeader => exact (SequencerOp.same_rotateLeader q).mempool.symm ▸ hnone
  | updateL1Block block => exact (SequencerOp.same_updateL1Block q block).mempool.symm ▸ hnone
  | submitTransaction now tx =>
    show Queued (log ++ if (q.submitTransaction now tx).2.isOk then _ else _)
      (q.submitTransaction now tx).1.mempool
    cases hvalid : q.validateTransaction tx with
    | error e =>
      have hcall : q.submitTransaction now tx = (q, .error e) := by
        rw [Sequencer.submitTransaction, hvalid]
      rw [hcall]
      exact hnone
    | ok _ =>
      have hok : (q.submitTransaction now tx).2 = .ok tx.hash := by
        rw [Sequencer.submitTransaction, hvalid]
      have hnext : (q.submitTransaction now tx).1.mempool
          = Sequencer.insertByPriority (PendingTransaction.new now tx) q.mempool := by
        rw [Sequencer.submitTransaction, hvalid]
        exact if_pos hordering
      rw [hok, hnext]
      exact h.submitted now tx
  | forceInclude now tx l1Block =>
    show Queued (log ++ []) (q.forceInclude now tx l1Block).1.mempool
    rw [Sequencer.forceInclude]
    split
    · exact hnone
    · exact (List.append_nil log).symm ▸ h.forced now tx l1Block
  | produceBatch now =>
    have heffect := SequencerOp.effect_produceBatch (C := C) (P := P) q now
    cases heffect with
    | idle _ _ _ hsame => exact hsame.mempool.symm ▸ hnone
    | accepted _ haccepts => cases haccepts
    | produced _ _ _ _ hloop _ _ hmempool =>
      obtain ⟨_, hdrained⟩ := produceLoop_ok_iff.mp hloop
      rw [hmempool]
      exact (List.append_nil log).symm ▸ h.drained (rest_suffix hdrained.drain)

theorem submissions_snoc (op : SequencerOp) : ∀ (ops : List SequencerOp) (q : Sequencer),
    submissions C P q (ops ++ [op])
      = submissions C P q ops ++ op.submitted (runSequencer C P q ops)
  | [], q => List.append_nil _
  | op' :: ops, q => by
    rw [List.cons_append, submissions, submissions, submissions_snoc op ops, List.append_assoc]
    rfl

theorem config_runSequencer (q : Sequencer) (ops : List SequencerOp) :
    (runSequencer C P q ops).config = q.config := by
  induction ops using List.reverseRecOn with
  | nil => rfl
  | append_singleton ops op ih => rw [runSequencer_snoc, config_run, ih]

/-- **The queue.** After any calls on a new sequencer with priority ordering the queue is
sorted by falling priority, and the transactions of one gas price that were submitted
stand in it in the order in which they were. -/
theorem queue_ordered (C : Crypto) (P : Platform) (registered active : UInt64)
    (config : SequencerConfig) (address : Address) (stake : UInt64) (endpoint : String)
    (s : L2State) (ops : List SequencerOp) (h : config.priorityOrdering = true) :
    let start := Sequencer.new registered active config address stake endpoint s
    Queued (submissions C P start ops) (runSequencer C P start ops).mempool := by
  intro start
  induction ops using List.reverseRecOn with
  | nil =>
    refine ⟨List.Pairwise.nil, fun gasPrice => List.suffix_refl _, fun p hp => ?_⟩
    exact absurd hp List.not_mem_nil
  | append_singleton ops op ih =>
    rw [submissions_snoc, runSequencer_snoc]
    exact ih.call (by rw [config_runSequencer]; exact h) op

/-- After a batch two payments wait, of which the second offers more. -/
theorem queue_ordered_twoPrices :
    let start := Sequencer.new 100 100 { mode := .single } alice MIN_SEQUENCER_STAKE
      "https://seq.example.com"
      ((L2State.new paymentCrypto).credit paymentCrypto Platform.exact alice 1000000000000)
    let ops := oneBatch payment ++ [.submitTransaction 102 nextPayment,
      .submitTransaction 103 { nextPayment with gasPrice := 2000000 }]
    Queued (submissions paymentCrypto Platform.exact start ops)
        (runSequencer paymentCrypto Platform.exact start ops).mempool ∧
      (runSequencer paymentCrypto Platform.exact start ops).mempool.map (·.tx.gasPrice)
        = [2000000, 1000000] := by
  intro start ops
  refine ⟨?_, by decide +kernel⟩
  exact queue_ordered paymentCrypto Platform.exact 100 100 { mode := .single } alice
    MIN_SEQUENCER_STAKE "https://seq.example.com" _ ops rfl

end Pyrax.Rollup
