import Pyrax.Rollup.Drain

/-!
# What a batch says about its state change

A batch that `produce_batch` of `zkrollup/sequencer.rs` returns should explain
what the call did to the L2 state: executing its transactions in order on the
state before gives the state after, its header counts them, and its gas is the
sum of their limits and within the limit of the configuration (`Explains`).

The count is always right. The other two are lost at the edges of the loop: the
gas limit is looked at before a transaction is popped and not with its gas added,
and a transaction is executed before the batch is asked whether it has room.
`explains_iff_fits`: neither happens exactly when every executed transaction fits
(`Loop.Fits`).
-/

namespace Pyrax.Rollup

open Base

/-- The sum of the gas limits. -/
def gasTotal (txs : List L2Transaction) : Nat := (txs.map fun tx => tx.gasLimit.toNat).sum

/-- The batch tells how the call got from `q` to `q'`. -/
structure Explains (C : Crypto) (P : Platform) (q q' : Sequencer) (batch : Batch) : Prop where
  state : executeAll C P q.state batch.transactions = .ok q'.state
  count : batch.header.txCount.toNat = batch.transactions.length
  gas : batch.header.gasUsed.toNat = gasTotal batch.transactions
  limit : batch.header.gasUsed ≤ q.config.maxBatchGas

/-! ## The condition -/

/-- A transaction fits where the loop stands: unless it is not due or fails, there
is room in the batch and gas left for it, or the batch is full and it changes
nothing. -/
def Loop.Fit (C : Crypto) (P : Platform) (config : SequencerConfig) (l1Block : UInt64) (l : Loop)
    (p : PendingTransaction) : Prop :=
  ∀ state gas, p.early config l1Block = false →
    executeTransaction C P l.state p.tx = .ok (state, gas) →
    (l.builder.Full → state = l.state) ∧
      (¬ l.builder.Full → l.totalGas.toNat + p.tx.gasLimit.toNat ≤ config.maxBatchGas.toNat)

/-- Every transaction the loop pops fits. -/
def Loop.Fits (C : Crypto) (P : Platform) (config : SequencerConfig) (l1Block : UInt64)
    (l : Loop) : List PendingTransaction → Prop
  | [] => True
  | p :: mempool => l.Running config →
      l.Fit C P config l1Block p ∧ (l.step C P config l1Block p).Fits C P config l1Block mempool

/-- The same of the loop of `produce_batch`. -/
def Sequencer.Fits (C : Crypto) (P : Platform) (now : Sequencer.Readings) (q : Sequencer) : Prop :=
  ∀ builder, q.batchBuilder.startBatch now.stamp now.created q.state.stateRoot q.l1BlockNumber
      = .ok builder →
    (Loop.start q.state builder q.stats.txsFailed).Fits C P q.config q.l1BlockNumber q.mempool

/-! ## One turn -/

section Turn

variable {C : Crypto} {P : Platform} {config : SequencerConfig} {l1Block : UInt64} {l l' : Loop}
  {p : PendingTransaction} {batch : Batch} {s₀ : L2State} {failed₀ : UInt64}

theorem gasTotal_snoc (txs : List L2Transaction) (tx : L2Transaction) :
    gasTotal (txs ++ [tx]) = gasTotal txs + tx.gasLimit.toNat := by
  rw [gasTotal, gasTotal, List.map_append, List.sum_append]
  rfl

theorem gasSum_toNat (txs : List L2Transaction) : (gasSum txs).toNat = gasTotal txs % 2 ^ 64 := by
  induction txs using List.reverseRecOn with
  | nil => rfl
  | append_singleton txs tx ih =>
    rw [gasSum_snoc, gasTotal_snoc, UInt64.toNat_add, ih, Nat.mod_add_mod]

theorem gasSum_exact {txs : List L2Transaction} (h : gasTotal txs ≤ config.maxBatchGas.toNat) :
    (gasSum txs).toNat = gasTotal txs := by
  have hlt := config.maxBatchGas.toNat_lt
  rw [gasSum_toNat, Nat.mod_eq_of_lt (by omega)]

/-- The batch so far explains the loop so far. -/
structure Loop.Explained (C : Crypto) (P : Platform) (config : SequencerConfig) (s₀ : L2State)
    (l : Loop) : Prop where
  state : executeAll C P s₀ (txsOf .batched l.history) = .ok l.state
  limit : gasTotal (txsOf .batched l.history) ≤ config.maxBatchGas.toNat

/-- Until it breaks off the loop has executed what is in the batch. -/
theorem executed_going (hkept : Loop.Kept C P s₀ failed₀ l batch) (hgoing : l.stopped = false) :
    executedOf l.history = txsOf .batched l.history := by
  rw [hkept.order, hkept.going hgoing, List.append_nil]

/-- So its state is explained, and only the gas can be too much. -/
theorem explained_going (hkept : Loop.Kept C P s₀ failed₀ l batch) (hgoing : l.stopped = false)
    (hlimit : gasTotal (txsOf .batched l.history) ≤ config.maxBatchGas.toNat) :
    l.Explained C P config s₀ := by
  refine ⟨?_, hlimit⟩
  rw [← executed_going hkept hgoing]
  exact hkept.state

/-- **One turn** of an explained loop leaves it explained exactly when its
transaction fits. -/
theorem explained_effect_iff (hkept : Loop.Kept C P s₀ failed₀ l batch)
    (hgoing : l.stopped = false) (hl : l.Explained C P config s₀)
    (heff : Loop.Effect C P config l1Block l p l') :
    l'.Explained C P config s₀ ↔ l.Fit C P config l1Block p := by
  cases heff with
  | skipped hearly =>
    refine iff_of_true ⟨?_, ?_⟩ ?_
    · simpa [txsOf_snoc] using hl.state
    · simpa [txsOf_snoc] using hl.limit
    · intro state gas hdue _
      rw [hearly] at hdue
      cases hdue
  | failed hdue hexec =>
    refine iff_of_true ⟨?_, ?_⟩ ?_
    · simpa [txsOf_snoc] using hl.state
    · simpa [txsOf_snoc] using hl.limit
    · intro state gas _ hok
      rw [hexec] at hok
      cases hok
  | batched hdue hexec hadd =>
    have hnot := not_full_of_add hkept.holds hadd
    have htotal : l.totalGas.toNat = gasTotal (txsOf .batched l.history) := by
      rw [hkept.total, executed_going hkept hgoing, gasSum_exact hl.limit]
    have hstate := executeAll_snoc hl.state hexec
    constructor
    · intro hl' state gas _ _
      refine ⟨fun hfull => absurd hfull hnot, fun _ => ?_⟩
      rw [htotal, ← gasTotal_snoc]
      simpa [txsOf_snoc] using hl'.limit
    · intro hfit
      have hroom := (hfit _ _ hdue hexec).2 hnot
      rw [htotal, ← gasTotal_snoc] at hroom
      refine ⟨?_, ?_⟩
      · simpa [txsOf_snoc] using hstate
      · simpa [txsOf_snoc] using hroom
  | dropped hdue hexec hadd =>
    have hfull := full_of_add hkept.holds hadd
    constructor
    · intro hl' state gas _ hok
      rw [hexec] at hok
      cases hok
      refine ⟨fun _ => ?_, fun hnot => absurd hfull hnot⟩
      have hsame := hl'.state
      simp only [txsOf_snoc, reduceCtorEq, if_false, List.append_nil] at hsame
      rw [hl.state] at hsame
      exact (Except.ok.inj hsame).symm
    · intro hfit
      have hsame := (hfit _ _ hdue hexec).1 hfull
      refine ⟨?_, ?_⟩
      · simpa [txsOf_snoc, hsame] using hl.state
      · simpa [txsOf_snoc] using hl.limit

/-- The gas in the batch only grows. -/
theorem gasTotal_effect_le (heff : Loop.Effect C P config l1Block l p l') :
    gasTotal (txsOf .batched l.history) ≤ gasTotal (txsOf .batched l'.history) := by
  cases heff with
  | skipped _ => simp [txsOf_snoc]
  | failed _ _ => simp [txsOf_snoc]
  | batched _ _ _ => simp [txsOf_snoc, gasTotal_snoc]
  | dropped _ _ _ => simp [txsOf_snoc]

end Turn

/-! ## The whole loop -/

section Whole

variable {C : Crypto} {P : Platform} {config : SequencerConfig} {l1Block : UInt64}
  {s₀ : L2State} {failed₀ : UInt64}

/-- What is explained at the end was explained on the way. -/
theorem explained_of_drain : ∀ {mempool : List PendingTransaction} {l : Loop} {batch : Batch},
    Loop.Kept C P s₀ failed₀ l batch →
    (l.drain C P config l1Block mempool).1.Explained C P config s₀ → l.Explained C P config s₀
  | [], _, _, _, h => h
  | p :: mempool, l, batch, hkept, h => by
    rw [Loop.drain] at h
    split at h
    · next hrun =>
      have heff := Loop.step_effect C P config l1Block l p
      obtain ⟨batch', hkept'⟩ := Loop.kept_effect hkept hrun.1 heff
      have hnext := explained_of_drain hkept' h
      exact explained_going hkept hrun.1 ((gasTotal_effect_le heff).trans hnext.limit)
    · exact h

/-- **The loop** ends explained exactly when all it pops fits. -/
theorem explained_drain_iff (l1Block : UInt64) :
    ∀ (mempool : List PendingTransaction) {l : Loop} {batch : Batch},
    Loop.Kept C P s₀ failed₀ l batch → l.Explained C P config s₀ →
    ((l.drain C P config l1Block mempool).1.Explained C P config s₀ ↔
      l.Fits C P config l1Block mempool)
  | [], _, _, _, hl => iff_of_true hl trivial
  | p :: mempool, l, batch, hkept, hl => by
    rw [Loop.drain, Loop.Fits]
    split
    · next hrun =>
      have heff := Loop.step_effect C P config l1Block l p
      obtain ⟨batch', hkept'⟩ := Loop.kept_effect hkept hrun.1 heff
      have hturn := explained_effect_iff hkept hrun.1 hl heff
      constructor
      · intro h _
        have hnext := explained_of_drain hkept' h
        exact ⟨hturn.mp hnext, (explained_drain_iff l1Block mempool hkept' hnext).mp h⟩
      · intro h
        obtain ⟨hfit, hrest⟩ := h hrun
        exact (explained_drain_iff l1Block mempool hkept' (hturn.mpr hfit)).mpr hrest
    · next hstop => exact iff_of_true hl fun hrun => absurd hrun hstop

/-- A sealed batch explains the call when the open one explains the loop. -/
theorem explains_iff_explained {q q' : Sequencer} {l : Loop} {opened batch : Batch}
    (hkept : Loop.Kept C P q.state q.stats.txsFailed l opened)
    (htxs : batch.transactions = opened.transactions)
    (hcount : batch.header.txCount = opened.header.txCount)
    (hgas : batch.header.gasUsed = opened.header.gasUsed) (hstate : q'.state = l.state) :
    Explains C P q q' batch ↔ l.Explained C P q.config q.state := by
  constructor
  · intro h
    refine ⟨?_, ?_⟩
    · rw [← hstate, ← hkept.txs, ← htxs]
      exact h.state
    · rw [← hkept.txs, ← htxs, ← h.gas]
      exact UInt64.le_iff_toNat_le.mp h.limit
  · intro h
    have hgas' : batch.header.gasUsed.toNat = gasTotal batch.transactions := by
      rw [hgas, hkept.gas, htxs, hkept.txs, gasSum_exact h.limit]
    refine ⟨?_, ?_, hgas', ?_⟩
    · rw [hstate, htxs, hkept.txs]
      exact h.state
    · have hroom := hkept.room
      rw [hcount, hkept.count, htxs, UInt32.toNat_ofNat_of_lt' (lt_of_le_of_lt hroom (by decide))]
    · rw [UInt64.le_iff_toNat_le, hgas', htxs, hkept.txs]
      exact h.limit

end Whole

/-- **A batch explains its state change** exactly when every transaction that its
loop executed fits. -/
theorem explains_iff_fits (C : Crypto) (P : Platform) (now : Sequencer.Readings)
    (q q' : Sequencer) (batch : Batch) (h : q.produceBatch C P now = (q', .ok batch)) :
    Explains C P q q' batch ↔ q.Fits C P now := by
  have hproduced := produced (C := C) (P := P) now q
  rw [h] at hproduced
  cases hproduced with
  | sealed hloop hkept htxs hcount hgas _ hstate _ =>
    rw [explains_iff_explained hkept htxs hcount hgas hstate]
    obtain ⟨builder, hdrained⟩ := produceLoop_ok_iff.mp hloop
    obtain ⟨first, hstart⟩ := kept_start (C := C) (P := P) hdrained.start
    have hfirst : (Loop.start q.state builder q.stats.txsFailed).Explained C P q.config q.state :=
      ⟨rfl, Nat.zero_le _⟩
    have hiff := explained_drain_iff q.l1BlockNumber q.mempool hstart hfirst
    rw [hdrained.drain] at hiff
    rw [hiff]
    constructor
    · intro hfits builder' hstart'
      rw [hdrained.start] at hstart'
      cases hstart'
      exact hfits
    · intro hfits
      exact hfits builder hdrained.start

/-! ### A payment and one that is too large -/

/-- The sequencer with one transaction waiting. -/
noncomputable def submitted (tx : L2Transaction) : Sequencer :=
  runSequencer paymentCrypto Platform.exact soloSequencer [.submitTransaction 100 tx]

theorem explains_iff_fits_payment : ∃ q' batch,
    (submitted payment).produceBatch paymentCrypto Platform.exact ⟨101, 101, 101, 101⟩
      = (q', .ok batch) ∧ Explains paymentCrypto Platform.exact (submitted payment) q' batch := by
  generalize hr : (submitted payment).produceBatch paymentCrypto Platform.exact
    ⟨101, 101, 101, 101⟩ = r
  have hok : r.2.isOk = true := by
    rw [← hr]
    decide +kernel
  obtain ⟨q', _ | batch⟩ := r
  · cases hok
  · refine ⟨q', batch, rfl, (explains_iff_fits _ _ _ _ _ _ hr).mpr ?_⟩
    intro builder hstart
    obtain ⟨opened, hholds, htxs, _⟩ := holds_start hstart
    have hqueue : (submitted payment).mempool = [PendingTransaction.new 100 payment] := by
      decide +kernel
    rw [hqueue, Loop.Fits]
    refine fun _ => ⟨?_, trivial⟩
    intro state gas _ _
    have hroom : 0 + payment.gasLimit.toNat ≤ (submitted payment).config.maxBatchGas.toNat := by
      decide +kernel
    refine ⟨fun hfull => ?_, fun _ => hroom⟩
    -- the batch has just been opened
    obtain ⟨batch', hcurrent, hlen⟩ := hfull
    cases hcurrent.symm.trans hholds.1
    rw [htxs] at hlen
    exact absurd hlen (by decide)

/-- Gas beyond the limit of the whole batch: the loop starts with no gas used and
takes it. -/
theorem batch_over_gas :
    ¬ ∀ (C : Crypto) (P : Platform) (now : Sequencer.Readings) (q q' : Sequencer) (batch : Batch),
      q.produceBatch C P now = (q', .ok batch) → Explains C P q q' batch := by
  intro hall
  generalize hr : (submitted { payment with gasLimit := 30000001, gasPrice := 0 }).produceBatch
    paymentCrypto Platform.exact ⟨101, 101, 101, 101⟩ = r
  have hgas : r.2.toOption.map (fun batch => batch.header.gasUsed) = some 30000001 := by
    rw [← hr]
    decide +kernel
  obtain ⟨q', _ | batch⟩ := r
  · cases hgas
  · have hlimit := (hall _ _ _ _ _ _ hr).limit
    have hused : batch.header.gasUsed = 30000001 := Option.some.inj hgas
    rw [hused] at hlimit
    exact absurd hlimit (by decide +kernel)

end Pyrax.Rollup
