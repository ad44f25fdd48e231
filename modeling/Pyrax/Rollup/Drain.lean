import Pyrax.Rollup.Sequencer

/-!
# What the batch loop does

The loop of `Sequencer::produce_batch`, taken apart once for everything that is
said about batches later. `execute_cases` says what executing a transaction can
do, `Loop.step_effect` what one turn of the loop can do, and
`Loop.drain_invariant` that the whole loop keeps what every turn keeps.

`Loop.Kept` is the invariant of the loop. Its history lists the popped
transactions in order; the open batch holds the ones with outcome `batched`, with
their number and their gas, the failure counter has moved by the ones with
outcome `failed`, and the state is what executing the others from the first state
on gives.
-/

namespace Pyrax.Rollup

open Base

/-! ## Execution -/

section Execution

variable {C : Crypto} {P : Platform} {s s' : L2State} {tx : L2Transaction} {gas : UInt64}

theorem execute_cases (h : executeTransaction C P s tx = .ok (s', gas)) :
    gas = tx.gasLimit ∧
      (tx.txType = 0 ∧ (∃ r, tx.recipient = some r ∧
          s.transfer C P tx.sender r tx.value = .ok s') ∨
        tx.txType = 0 ∧ tx.recipient = none ∧ s' = s ∨
        tx.txType = 1 ∧ s' = s.incrementNonce C P tx.sender ∨
        tx.txType = 2 ∧ s' = s.credit C P tx.sender tx.value ∨
        tx.txType = 3 ∧ s.debit C P tx.sender tx.value = .ok s') := by
  rw [executeTransaction] at h
  split at h
  · next h0 =>
    split at h
    · next r hr =>
      split at h
      · next s₁ hs₁ =>
        cases h
        exact ⟨rfl, Or.inl ⟨h0, r, hr, hs₁⟩⟩
      · cases h
    · next hr =>
      cases h
      exact ⟨rfl, Or.inr (Or.inl ⟨h0, hr, rfl⟩)⟩
  · split at h
    · next h1 =>
      cases h
      exact ⟨rfl, Or.inr (Or.inr (Or.inl ⟨h1, rfl⟩))⟩
    · split at h
      · next h2 =>
        cases h
        exact ⟨rfl, Or.inr (Or.inr (Or.inr (Or.inl ⟨h2, rfl⟩)))⟩
      · split at h
        · next h3 =>
          split at h
          · next s₁ hs₁ =>
            cases h
            exact ⟨rfl, Or.inr (Or.inr (Or.inr (Or.inr ⟨h3, hs₁⟩)))⟩
          · cases h
        · cases h

/-- The state after executing transactions in order, all of them successfully. -/
def executeAll (C : Crypto) (P : Platform) : L2State → List L2Transaction →
    Except SequencerError L2State
  | s, [] => .ok s
  | s, tx :: txs =>
    match executeTransaction C P s tx with
    | .ok (s, _) => executeAll C P s txs
    | .error e => .error e

theorem executeAll_snoc {txs : List L2Transaction} {s₁ : L2State}
    (h : executeAll C P s txs = .ok s₁) (htx : executeTransaction C P s₁ tx = .ok (s', gas)) :
    executeAll C P s (txs ++ [tx]) = .ok s' := by
  induction txs generalizing s with
  | nil =>
    cases h
    rw [List.nil_append, executeAll, htx]
    rfl
  | cons t txs ih =>
    rw [executeAll] at h
    rw [List.cons_append, executeAll]
    split at h
    · exact ih h
    · cases h

end Execution

/-! ## An open batch -/

section Builder

variable {C : Crypto} {builder builder' : BatchBuilder} {batch : Batch} {tx : L2Transaction}

/-- A batch is open in the builder. -/
def BatchBuilder.Holds (builder : BatchBuilder) (batch : Batch) : Prop :=
  builder.current = some batch ∧ batch.status = .building

/-- The batch with one more transaction. -/
def Batch.push (batch : Batch) (tx : L2Transaction) : Batch :=
  { batch with
    header :=
      { batch.header with
        gasUsed := batch.header.gasUsed + tx.gasLimit
        txCount := UInt32.ofNat (batch.transactions ++ [tx]).length }
    transactions := batch.transactions ++ [tx] }

theorem holds_start {stamp created l1Block : UInt64} {root : H256}
    (h : builder.startBatch stamp created root l1Block = .ok builder') :
    ∃ batch, builder'.Holds batch ∧ batch.transactions = [] ∧ batch.header.txCount = 0 ∧
      batch.header.gasUsed = 0 := by
  rw [BatchBuilder.startBatch] at h
  split at h
  · cases h
  · cases h
    exact ⟨_, ⟨rfl, rfl⟩, rfl, rfl, rfl⟩

/-- An open batch takes a transaction exactly when it is not full. -/
theorem holds_add (h : builder.Holds batch)
    (hadd : builder.addTransaction tx = .ok builder') :
    batch.transactions.length < MAX_BATCH_SIZE ∧ builder'.Holds (batch.push tx) := by
  rw [BatchBuilder.addTransaction, h.1] at hadd
  dsimp only at hadd
  rw [Batch.addTransaction, if_neg (not_not.mpr h.2)] at hadd
  split at hadd
  · next e he =>
    cases hadd
  · next b hb =>
    split at hb
    · cases hb
    · next hlt =>
      cases hb
      cases hadd
      exact ⟨Nat.lt_of_not_le hlt, rfl, h.2⟩

/-- The open batch takes no more. -/
def BatchBuilder.Full (builder : BatchBuilder) : Prop :=
  ∃ batch, builder.current = some batch ∧ MAX_BATCH_SIZE ≤ batch.transactions.length

theorem not_full_of_add (h : builder.Holds batch)
    (hadd : builder.addTransaction tx = .ok builder') : ¬ builder.Full := by
  intro ⟨batch', hcurrent, hfull⟩
  rw [h.1] at hcurrent
  cases hcurrent
  exact absurd hfull (Nat.not_le.mpr (holds_add h hadd).1)

theorem full_of_add {e : BatchError} (h : builder.Holds batch)
    (hadd : builder.addTransaction tx = .error e) : builder.Full := by
  refine ⟨batch, h.1, ?_⟩
  rw [BatchBuilder.addTransaction, h.1] at hadd
  dsimp only at hadd
  rw [Batch.addTransaction, if_neg (not_not.mpr h.2)] at hadd
  split at hadd
  · next e he =>
    split at he
    · next hle => exact hle
    · cases he
  · cases hadd

/-- Sealing an open batch succeeds and keeps what it holds. -/
theorem holds_seal (h : builder.Holds batch) (now : UInt64) (root : H256) :
    ∃ sealed, (builder.sealBatch C now root).2 = .ok sealed ∧
      (builder.sealBatch C now root).1.current = none ∧
      sealed.transactions = batch.transactions ∧
      sealed.header.txCount = batch.header.txCount ∧
      sealed.header.gasUsed = batch.header.gasUsed := by
  rw [BatchBuilder.sealBatch, h.1]
  dsimp only
  rw [Batch.seal, if_neg (not_not.mpr h.2)]
  exact ⟨_, rfl, rfl, rfl, rfl, rfl⟩

end Builder

/-! ## One turn -/

/-- The transactions of a history with an outcome. -/
def txsOf (o : Outcome) (history : List (L2Transaction × Outcome)) : List L2Transaction :=
  (history.filter fun e => e.2 = o).map Prod.fst

/-- The transactions that were executed, with room in the batch or not. -/
def executedOf (history : List (L2Transaction × Outcome)) : List L2Transaction :=
  (history.filter fun e => e.2 = .batched ∨ e.2 = .dropped).map Prod.fst

theorem txsOf_snoc (o o' : Outcome) (history : List (L2Transaction × Outcome))
    (tx : L2Transaction) :
    txsOf o (history ++ [(tx, o')]) = txsOf o history ++ if o' = o then [tx] else [] := by
  rw [txsOf, txsOf, List.filter_append, List.map_append]
  by_cases h : o' = o <;> simp [h]

theorem executedOf_snoc (o : Outcome) (history : List (L2Transaction × Outcome))
    (tx : L2Transaction) :
    executedOf (history ++ [(tx, o)])
      = executedOf history ++ if o = .batched ∨ o = .dropped then [tx] else [] := by
  rw [executedOf, executedOf, List.filter_append, List.map_append]
  by_cases h : o = .batched ∨ o = .dropped <;> simp [h]

/-- The sum of the gas limits, as a machine word. -/
def gasSum (txs : List L2Transaction) : UInt64 := (txs.map L2Transaction.gasLimit).foldl (· + ·) 0

theorem gasSum_snoc (txs : List L2Transaction) (tx : L2Transaction) :
    gasSum (txs ++ [tx]) = gasSum txs + tx.gasLimit := by
  rw [gasSum, gasSum, List.map_append, List.foldl_append]
  rfl

namespace Loop

section Step

variable {C : Crypto} {P : Platform} {config : SequencerConfig} {l1Block : UInt64} {l l' : Loop}
  {p : PendingTransaction}

/-- The size check touches nothing but the flag. -/
theorem checkSize_eq (config : SequencerConfig) (l : Loop) :
    ∃ b, checkSize config l = { l with stopped := b } := by
  rw [checkSize]
  split
  · exact ⟨true, rfl⟩
  · exact ⟨l.stopped, rfl⟩

/-- What one turn can do. -/
inductive Effect (C : Crypto) (P : Platform) (config : SequencerConfig) (l1Block : UInt64)
    (l : Loop) (p : PendingTransaction) : Loop → Prop where
  | skipped (hearly : p.early config l1Block = true) :
      Effect C P config l1Block l p { l with history := l.history ++ [(p.tx, .skipped)] }
  | failed {e : SequencerError} {stopped : Bool} (hdue : p.early config l1Block = false)
      (hexec : executeTransaction C P l.state p.tx = .error e) :
      Effect C P config l1Block l p
        { l with
          txsFailed := l.txsFailed + 1
          stopped := stopped
          history := l.history ++ [(p.tx, .failed)] }
  | batched {state : L2State} {builder : BatchBuilder} {stopped : Bool}
      (hdue : p.early config l1Block = false)
      (hexec : executeTransaction C P l.state p.tx = .ok (state, p.tx.gasLimit))
      (hadd : l.builder.addTransaction p.tx = .ok builder) :
      Effect C P config l1Block l p
        { l with
          state := state
          totalGas := l.totalGas + p.tx.gasLimit
          processedTxs := l.processedTxs ++ [p.tx]
          builder := builder
          stopped := stopped
          history := l.history ++ [(p.tx, .batched)] }
  | dropped {state : L2State} {e : BatchError} (hdue : p.early config l1Block = false)
      (hexec : executeTransaction C P l.state p.tx = .ok (state, p.tx.gasLimit))
      (hadd : l.builder.addTransaction p.tx = .error e) :
      Effect C P config l1Block l p
        { l with
          state := state
          totalGas := l.totalGas + p.tx.gasLimit
          processedTxs := l.processedTxs ++ [p.tx]
          stopped := true
          history := l.history ++ [(p.tx, .dropped)] }

theorem step_effect (C : Crypto) (P : Platform) (config : SequencerConfig) (l1Block : UInt64)
    (l : Loop) (p : PendingTransaction) :
    Effect C P config l1Block l p (l.step C P config l1Block p) := by
  rw [step]
  split
  · next h => exact .skipped h
  · next h =>
    have hdue : p.early config l1Block = false := by simpa using h
    split
    · next state gas hexec =>
      obtain ⟨rfl, _⟩ := execute_cases hexec
      dsimp only
      split
      · next e hadd => exact .dropped hdue hexec hadd
      · next builder hadd =>
        obtain ⟨b, hb⟩ := checkSize_eq config
          { l with
            state := state
            totalGas := l.totalGas + p.tx.gasLimit
            processedTxs := l.processedTxs ++ [p.tx]
            builder := builder
            history := l.history ++ [(p.tx, .batched)] }
        rw [hb]
        exact .batched hdue hexec hadd
    · next e hexec =>
      obtain ⟨b, hb⟩ := checkSize_eq config
        { l with txsFailed := l.txsFailed + 1, history := l.history ++ [(p.tx, .failed)] }
      rw [hb]
      exact .failed hdue hexec

/-- The history and the rest of the loop tell the same story. -/
structure Kept (C : Crypto) (P : Platform) (s₀ : L2State) (failed₀ : UInt64) (l : Loop)
    (batch : Batch) : Prop where
  holds : l.builder.Holds batch
  txs : batch.transactions = txsOf .batched l.history
  count : batch.header.txCount = UInt32.ofNat batch.transactions.length
  gas : batch.header.gasUsed = gasSum batch.transactions
  room : batch.transactions.length ≤ MAX_BATCH_SIZE
  failed : l.txsFailed = failed₀ + UInt64.ofNat (txsOf .failed l.history).length
  state : executeAll C P s₀ (executedOf l.history) = .ok l.state
  total : l.totalGas = gasSum (executedOf l.history)
  order : executedOf l.history = txsOf .batched l.history ++ txsOf .dropped l.history
  going : l.stopped = false → txsOf .dropped l.history = []

theorem kept_effect {s₀ : L2State} {failed₀ : UInt64} {batch : Batch}
    (h : Kept C P s₀ failed₀ l batch) (hgoing : l.stopped = false)
    (heff : Effect C P config l1Block l p l') : ∃ batch', Kept C P s₀ failed₀ l' batch' := by
  have hdropped := h.going hgoing
  have horder := h.order
  rw [hdropped, List.append_nil] at horder
  cases heff with
  | skipped _ =>
    refine ⟨batch, h.holds, ?_, h.count, h.gas, h.room, ?_, ?_, ?_, ?_, ?_⟩
    · simp [txsOf_snoc, h.txs]
    · simp [txsOf_snoc, h.failed]
    · simp [executedOf_snoc, h.state]
    · simp [executedOf_snoc, h.total]
    · simp [txsOf_snoc, executedOf_snoc, h.order]
    · simp [txsOf_snoc, hdropped]
  | failed _ _ =>
    refine ⟨batch, h.holds, ?_, h.count, h.gas, h.room, ?_, ?_, ?_, ?_, ?_⟩
    · simp [txsOf_snoc, h.txs]
    · simp [txsOf_snoc, h.failed, add_assoc]
    · simp [executedOf_snoc, h.state]
    · simp [executedOf_snoc, h.total]
    · simp [txsOf_snoc, executedOf_snoc, h.order]
    · simp [txsOf_snoc, hdropped]
  | batched _ hexec hadd =>
    obtain ⟨hroom, hholds⟩ := holds_add h.holds hadd
    refine ⟨batch.push p.tx, hholds, ?_, rfl, ?_, ?_, ?_, ?_, ?_, ?_, ?_⟩
    · simp [Batch.push, txsOf_snoc, h.txs]
    · simp [Batch.push, gasSum_snoc, h.gas]
    · simpa [Batch.push, Nat.add_one_le_iff] using hroom
    · simp [txsOf_snoc, h.failed]
    · simpa [executedOf_snoc] using executeAll_snoc h.state hexec
    · simp [executedOf_snoc, gasSum_snoc, h.total]
    · simp [txsOf_snoc, executedOf_snoc, horder, hdropped]
    · simp [txsOf_snoc, hdropped]
  | dropped _ hexec hadd =>
    refine ⟨batch, h.holds, ?_, h.count, h.gas, h.room, ?_, ?_, ?_, ?_, ?_⟩
    · simp [txsOf_snoc, h.txs]
    · simp [txsOf_snoc, h.failed]
    · simpa [executedOf_snoc] using executeAll_snoc h.state hexec
    · simp [executedOf_snoc, gasSum_snoc, h.total]
    · simp [txsOf_snoc, executedOf_snoc, horder, hdropped]
    · intro hstopped
      cases hstopped

end Step

/-! ## The whole loop -/

section Drain

variable {C : Crypto} {P : Platform} {config : SequencerConfig} {l1Block : UInt64} {l : Loop}

/-- What every turn keeps, the loop keeps. -/
theorem drain_invariant {I : Loop → Prop} : ∀ {mempool : List PendingTransaction} {l : Loop},
    (∀ l p, p ∈ mempool → l.Running config → I l → I (l.step C P config l1Block p)) → I l →
      I (l.drain C P config l1Block mempool).1
  | [], _, _, h => h
  | p :: mempool, l, hstep, h => by
    rw [drain]
    split
    · next hrun =>
      exact drain_invariant (fun l p hp => hstep l p (List.mem_cons_of_mem _ hp))
        (hstep l p (List.mem_cons_self ..) hrun h)
    · exact h

theorem kept_drain (config : SequencerConfig) (l1Block : UInt64) {s₀ : L2State}
    {failed₀ : UInt64} {batch : Batch} (h : Kept C P s₀ failed₀ l batch)
    (mempool : List PendingTransaction) :
    ∃ batch', Kept C P s₀ failed₀ (l.drain C P config l1Block mempool).1 batch' := by
  refine drain_invariant (I := fun l => ∃ batch, Kept C P s₀ failed₀ l batch) ?_ ⟨batch, h⟩
  intro l p _ hrun h
  obtain ⟨batch, h⟩ := h
  exact kept_effect h hrun.1 (step_effect C P config l1Block l p)

theorem history_step (C : Crypto) (P : Platform) (config : SequencerConfig) (l1Block : UInt64)
    (l : Loop) (p : PendingTransaction) :
    ∃ o, (l.step C P config l1Block p).history = l.history ++ [(p.tx, o)] := by
  have heff := step_effect C P config l1Block l p
  generalize l.step C P config l1Block p = l' at heff
  cases heff with
  | skipped _ => exact ⟨_, rfl⟩
  | failed _ _ => exact ⟨_, rfl⟩
  | batched _ _ _ => exact ⟨_, rfl⟩
  | dropped _ _ _ => exact ⟨_, rfl⟩

/-- The history lists what was popped, the rest stays in the queue. -/
theorem history_drain (C : Crypto) (P : Platform) (config : SequencerConfig) (l1Block : UInt64) :
    ∀ (mempool : List PendingTransaction) (l : Loop), ∃ history,
    (l.drain C P config l1Block mempool).1.history = l.history ++ history ∧
      mempool.map PendingTransaction.tx = history.map Prod.fst ++
        (l.drain C P config l1Block mempool).2.map PendingTransaction.tx
  | [], l => ⟨[], (List.append_nil _).symm, rfl⟩
  | p :: mempool, l => by
    rw [drain]
    split
    · obtain ⟨o, ho⟩ := history_step C P config l1Block l p
      obtain ⟨history, hhist, hsplit⟩ :=
        history_drain C P config l1Block mempool (l.step C P config l1Block p)
      refine ⟨(p.tx, o) :: history, ?_, ?_⟩
      · rw [hhist, ho, List.append_assoc]
        rfl
      · rw [List.map_cons, hsplit]
        rfl
    · exact ⟨[], (List.append_nil _).symm, rfl⟩

/-- What is left was in the queue. -/
theorem mem_of_mem_rest {p : PendingTransaction} {l' : Loop} {rest : List PendingTransaction} :
    ∀ {mempool : List PendingTransaction} {l : Loop},
      l.drain C P config l1Block mempool = (l', rest) → p ∈ rest → p ∈ mempool
  | [], _, h, hp => by
    cases h
    exact hp
  | p' :: mempool, l, h, hp => by
    rw [drain] at h
    split at h
    · exact List.mem_cons_of_mem _ (mem_of_mem_rest h hp)
    · cases h
      exact hp

end Drain

end Loop

/-! ## Producing a batch -/

section Produce

variable {C : Crypto} {P : Platform} {q : Sequencer} {now : Sequencer.Readings}

theorem kept_start {stamp created : UInt64} {builder : BatchBuilder} {l1Block : UInt64}
    {root : H256} (h : q.batchBuilder.startBatch stamp created root l1Block = .ok builder) :
    ∃ batch, Loop.Kept C P q.state q.stats.txsFailed
      (Loop.start q.state builder q.stats.txsFailed) batch := by
  obtain ⟨batch, hholds, htxs, hcount, hgas⟩ := holds_start h
  refine ⟨batch, hholds, htxs, ?_, ?_, ?_, ?_, rfl, rfl, rfl, fun _ => rfl⟩
  · rw [hcount, htxs]
    rfl
  · rw [hgas, htxs]
    rfl
  · rw [htxs]
    exact Nat.zero_le _
  · exact (UInt64.add_zero _).symm

/-- A call that gets as far as the loop: the leader opened a batch and drained the
queue. -/
structure Drained (C : Crypto) (P : Platform) (now : Sequencer.Readings) (q : Sequencer)
    (builder : BatchBuilder) (l : Loop) (rest : List PendingTransaction) : Prop where
  leader : q.isLeader = true
  start : q.batchBuilder.startBatch now.stamp now.created q.state.stateRoot q.l1BlockNumber
    = .ok builder
  drain : (Loop.start q.state builder q.stats.txsFailed).drain C P q.config q.l1BlockNumber
    q.mempool = (l, rest)

theorem produceLoop_ok_iff {l : Loop} {rest : List PendingTransaction} :
    q.produceLoop C P now.stamp now.created = .ok (l, rest) ↔
      ∃ builder, Drained C P now q builder l rest := by
  rw [Sequencer.produceLoop]
  split
  · next hlead =>
    refine iff_of_false (fun h => by cases h) fun ⟨_, h⟩ => ?_
    exact Bool.false_ne_true (hlead.symm.trans h.leader)
  · next hlead =>
    have hlead' : q.isLeader = true := by simpa using hlead
    split
    · next e hstart =>
      refine iff_of_false (fun h => by cases h) fun ⟨_, h⟩ => ?_
      rw [h.start] at hstart
      cases hstart
    · next builder hstart =>
      constructor
      · intro h
        exact ⟨builder, hlead', hstart, Except.ok.inj h⟩
      · intro h
        obtain ⟨builder', h⟩ := h
        have heq := h.start
        rw [hstart] at heq
        cases heq
        rw [h.drain]

/-- What a call of `produce_batch` leaves behind: nothing new when it is refused,
else the end of its loop, sealed. -/
inductive Produced (C : Crypto) (P : Platform) (now : Sequencer.Readings) (q : Sequencer) :
    Sequencer × Except SequencerError Batch → Prop where
  | refused {e : SequencerError} (h : q.produceLoop C P now.stamp now.created = .error e) :
      Produced C P now q (q, .error e)
  | sealed {l : Loop} {rest : List PendingTransaction} {opened batch : Batch} {q' : Sequencer}
      (hloop : q.produceLoop C P now.stamp now.created = .ok (l, rest))
      (hkept : Loop.Kept C P q.state q.stats.txsFailed l opened)
      (htxs : batch.transactions = opened.transactions)
      (hcount : batch.header.txCount = opened.header.txCount)
      (hgas : batch.header.gasUsed = opened.header.gasUsed)
      (hmempool : q'.mempool = rest) (hstate : q'.state = l.state)
      (hfailed : q'.stats.txsFailed = l.txsFailed) :
      Produced C P now q (q', .ok batch)

theorem produced (now : Sequencer.Readings) (q : Sequencer) :
    Produced C P now q (q.produceBatch C P now) := by
  rw [Sequencer.produceBatch]
  split
  · next e h => exact .refused h
  · next l rest h =>
    obtain ⟨builder, hdrained⟩ := produceLoop_ok_iff.mp h
    obtain ⟨first, hstart⟩ := kept_start (C := C) (P := P) hdrained.start
    obtain ⟨batch, hkept⟩ := Loop.kept_drain q.config q.l1BlockNumber hstart q.mempool
    rw [hdrained.drain] at hkept
    obtain ⟨sealed, hsealed, _, htxs, hcount, hgas⟩ :=
      holds_seal (C := C) hkept.holds now.sealedAt l.state.stateRoot
    dsimp only
    rw [hsealed]
    exact .sealed h hkept htxs hcount hgas rfl rfl rfl

end Produce

/-! ## Calls -/

/-- Queue, state and failure counter are the same. -/
structure Sequencer.Same (q q' : Sequencer) : Prop where
  mempool : q'.mempool = q.mempool
  state : q'.state = q.state
  failed : q'.stats.txsFailed = q.stats.txsFailed

namespace SequencerOp

variable (C : Crypto) (P : Platform)

/-- The transaction a call returned `Ok` for. -/
def accepts (q : Sequencer) : SequencerOp → List L2Transaction
  | submitTransaction now tx => if (q.submitTransaction now tx).2.isOk then [tx] else []
  | forceInclude now tx l1Block => if (q.forceInclude now tx l1Block).2.isOk then [tx] else []
  | _ => []

/-- What became of the transactions a call popped. -/
def history (q : Sequencer) : SequencerOp → List (L2Transaction × Outcome)
  | produceBatch now =>
    match q.produceLoop C P now.stamp now.created with
    | .ok (l, _) => l.history
    | .error _ => []
  | _ => []

/-- The batch a call returned. -/
def seals (q : Sequencer) : SequencerOp → List Batch
  | produceBatch now =>
    match (q.produceBatch C P now).2 with
    | .ok batch => [batch]
    | .error _ => []
  | _ => []

/-- What a call can do to the queue, the state and the failure counter. -/
inductive Effect (q : Sequencer) (op : SequencerOp) (q' : Sequencer) : Prop where
  | idle (haccepts : op.accepts q = []) (hhistory : op.history C P q = [])
      (hseals : op.seals C P q = []) (hsame : q.Same q')
  | accepted {p : PendingTransaction} (hvalid : q.validateTransaction p.tx = .ok ())
      (haccepts : op.accepts q = [p.tx]) (hhistory : op.history C P q = [])
      (hseals : op.seals C P q = []) (hmempool : q'.mempool.Perm (p :: q.mempool))
      (hstate : q'.state = q.state) (hfailed : q'.stats.txsFailed = q.stats.txsFailed)
  | produced {now : Sequencer.Readings} {l : Loop} {rest : List PendingTransaction}
      {opened batch : Batch} (hop : op = produceBatch now) (haccepts : op.accepts q = [])
      (hhistory : op.history C P q = l.history) (hseals : op.seals C P q = [batch])
      (hloop : q.produceLoop C P now.stamp now.created = .ok (l, rest))
      (hkept : Loop.Kept C P q.state q.stats.txsFailed l opened)
      (htxs : batch.transactions = opened.transactions) (hmempool : q'.mempool = rest)
      (hstate : q'.state = l.state) (hfailed : q'.stats.txsFailed = l.txsFailed)

variable {C P}

theorem perm_insertByPriority (pending : PendingTransaction) :
    ∀ mempool : List PendingTransaction,
      (Sequencer.insertByPriority pending mempool).Perm (pending :: mempool)
  | [] => List.Perm.refl _
  | p :: mempool => by
    rw [Sequencer.insertByPriority]
    split
    · exact List.Perm.refl _
    · exact ((perm_insertByPriority pending mempool).cons p).trans (List.Perm.swap _ _ _)

theorem same_register (q : Sequencer) : q.Same q.register.1 := by
  rw [Sequencer.register]
  split
  · exact ⟨rfl, rfl, rfl⟩
  · exact ⟨rfl, rfl, rfl⟩

theorem same_rotateLeader (q : Sequencer) : q.Same (q.rotateLeader P) := by
  rw [Sequencer.rotateLeader]
  dsimp only
  split
  · exact ⟨rfl, rfl, rfl⟩
  · split
    · exact ⟨rfl, rfl, rfl⟩
    · exact ⟨rfl, rfl, rfl⟩

theorem same_updateL1Block (q : Sequencer) (block : UInt64) : q.Same (q.updateL1Block block) := by
  rw [Sequencer.updateL1Block, Sequencer.processForceInclusions]
  generalize (if block < q.config.forceInclusionDelay then (0 : UInt64) else _) = deadline
  dsimp only
  split
  · exact ⟨rfl, rfl, rfl⟩
  · exact ⟨rfl, rfl, rfl⟩

theorem effect_submit (q : Sequencer) (now : UInt64) (tx : L2Transaction) :
    (submitTransaction now tx).Effect C P q ((submitTransaction now tx).run C P q) := by
  cases hvalid : q.validateTransaction tx with
  | error e =>
    have hcall : q.submitTransaction now tx = (q, .error e) := by
      rw [Sequencer.submitTransaction, hvalid]
    refine .idle ?_ rfl rfl ?_
    · rw [accepts, hcall]
      rfl
    · rw [run, hcall]
      exact ⟨rfl, rfl, rfl⟩
  | ok _ =>
    have hok : (q.submitTransaction now tx).2 = .ok tx.hash := by
      rw [Sequencer.submitTransaction, hvalid]
    have hnext : (q.submitTransaction now tx).1.mempool
        = if q.config.priorityOrdering then
            Sequencer.insertByPriority (PendingTransaction.new now tx) q.mempool
          else q.mempool ++ [PendingTransaction.new now tx] := by
      rw [Sequencer.submitTransaction, hvalid]
    refine .accepted (p := PendingTransaction.new now tx) hvalid ?_ rfl rfl ?_ ?_ ?_
    · rw [accepts, hok]
      rfl
    · rw [run, hnext]
      split
      · exact perm_insertByPriority _ _
      · exact List.perm_append_singleton _ _
    · rw [run, Sequencer.submitTransaction, hvalid]
    · rw [run, Sequencer.submitTransaction, hvalid]

theorem effect_forceInclude (q : Sequencer) (now : UInt64) (tx : L2Transaction)
    (l1Block : UInt64) :
    (forceInclude now tx l1Block).Effect C P q ((forceInclude now tx l1Block).run C P q) := by
  cases hvalid : q.validateTransaction tx with
  | error e =>
    have hcall : q.forceInclude now tx l1Block = (q, .error e) := by
      rw [Sequencer.forceInclude, hvalid]
    refine .idle ?_ rfl rfl ?_
    · rw [accepts, hcall]
      rfl
    · rw [run, hcall]
      exact ⟨rfl, rfl, rfl⟩
  | ok _ =>
    have hok : (q.forceInclude now tx l1Block).2 = .ok tx.hash := by
      rw [Sequencer.forceInclude, hvalid]
    refine .accepted (p := PendingTransaction.withForceInclusion now tx l1Block) hvalid ?_ rfl rfl
      ?_ ?_ ?_
    · rw [accepts, hok]
      rfl
    · rw [run, Sequencer.forceInclude, hvalid]
    · rw [run, Sequencer.forceInclude, hvalid]
    · rw [run, Sequencer.forceInclude, hvalid]

theorem effect_produceBatch (q : Sequencer) (now : Sequencer.Readings) :
    (produceBatch now).Effect C P q ((produceBatch now).run C P q) := by
  have hproduced := produced (C := C) (P := P) now q
  generalize hr : q.produceBatch C P now = r at hproduced
  cases hproduced with
  | refused h =>
    refine .idle rfl ?_ ?_ ?_
    · rw [history, h]
    · rw [seals, hr]
    · rw [run, hr]
      exact ⟨rfl, rfl, rfl⟩
  | sealed hloop hkept htxs _ _ hmempool hstate hfailed =>
    refine .produced rfl rfl ?_ ?_ hloop hkept htxs ?_ ?_ ?_
    · rw [history, hloop]
    · rw [seals, hr]
    · rw [run, hr, hmempool]
    · rw [run, hr, hstate]
    · rw [run, hr, hfailed]

theorem effect_run (q : Sequencer) (op : SequencerOp) :
    op.Effect C P q (op.run C P q) := by
  cases op with
  | register => exact .idle rfl rfl rfl (same_register q)
  | rotateLeader => exact .idle rfl rfl rfl (same_rotateLeader q)
  | updateL1Block block => exact .idle rfl rfl rfl (same_updateL1Block q block)
  | submitTransaction now tx => exact effect_submit q now tx
  | forceInclude now tx l1Block => exact effect_forceInclude q now tx l1Block
  | produceBatch now => exact effect_produceBatch q now

end SequencerOp

/-- The sequencer after a list of calls. -/
def runSequencer (C : Crypto) (P : Platform) (q : Sequencer) (ops : List SequencerOp) :
    Sequencer :=
  ops.foldl (SequencerOp.run C P) q

theorem runSequencer_snoc {C : Crypto} {P : Platform} (q : Sequencer) (ops : List SequencerOp)
    (op : SequencerOp) :
    runSequencer C P q (ops ++ [op]) = op.run C P (runSequencer C P q ops) := by
  rw [runSequencer, runSequencer, List.foldl_append]
  rfl

theorem mem_accepts_submit {q : Sequencer} {now : UInt64} {tx tx' : L2Transaction}
    (h : tx' ∈ (SequencerOp.submitTransaction now tx).accepts q) : tx' = tx := by
  rw [SequencerOp.accepts] at h
  split at h
  · exact List.mem_singleton.mp h
  · cases h

/-- One transaction and a batch: nothing else comes in, and it comes to the
sequencer as it was. -/
theorem accepts_oneBatch {C : Crypto} {P : Platform} {q : Sequencer} {pre : List SequencerOp}
    {op : SequencerOp} {tx tx' : L2Transaction} (hpre : pre ++ [op] <+: oneBatch tx)
    (htx : tx' ∈ op.accepts (runSequencer C P q pre)) : pre = [] ∧ tx' = tx := by
  obtain ⟨post, hpost⟩ := hpre
  match pre, hpost with
  | [], hpost =>
    cases hpost
    exact ⟨rfl, mem_accepts_submit htx⟩
  | [_], hpost =>
    cases hpost
    cases htx
  | _ :: _ :: _, hpost => simp [oneBatch] at hpost

end Pyrax.Rollup
