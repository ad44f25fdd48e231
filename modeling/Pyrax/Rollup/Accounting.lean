import Pyrax.Rollup.Drain
import Pyrax.Base.Run
import Mathlib.Data.List.Infix
import Mathlib.Tactic.Abel

/-!
# Where the sequencer's transactions go

Every transaction the sequencer of `zkrollup/sequencer.rs` takes in should stay
in the queue until it is in a sealed batch or its execution has failed. An audit
keeps the transactions that were accepted, the batches that were returned and the
transactions that failed, and `Accounted` compares them as multisets, so that
nothing is lost and nothing is there twice.

The loop of `produce_batch` pops a transaction before it decides what to do with
it, and two of its branches forget it: a forced inclusion that is not due yet is
skipped, and a transaction that the batch has no room for was executed already.
`accounted_iff_lossless`: the accounts are right in every state of a run exactly
when no call takes one of these branches.
-/

namespace Pyrax.Rollup

open Base

/-! ## The two branches -/

/-- The loop pops no forced inclusion before its time, and what it executes when
the batch is full fails. -/
def Loop.Lossless (C : Crypto) (P : Platform) (config : SequencerConfig) (l1Block : UInt64)
    (l : Loop) : List PendingTransaction → Prop
  | [] => True
  | p :: mempool => l.Running config →
      (p.early config l1Block = false ∧
        (l.builder.Full → ∃ e, executeTransaction C P l.state p.tx = .error e)) ∧
      (l.step C P config l1Block p).Lossless C P config l1Block mempool

/-- The same of the loop that a call runs. -/
def SequencerOp.Lossless (C : Crypto) (P : Platform) (q : Sequencer) : SequencerOp → Prop
  | produceBatch now => q.isLeader = true → ∀ builder,
      q.batchBuilder.startBatch now.stamp now.created q.state.stateRoot q.l1BlockNumber
        = .ok builder →
      (Loop.start q.state builder q.stats.txsFailed).Lossless C P q.config q.l1BlockNumber
        q.mempool
  | _ => True

/-! ## The audit -/

structure SequencerAudit where
  sequencer : Sequencer
  accepted : Multiset L2Transaction
  batches : List Batch
  failed : Multiset L2Transaction

namespace SequencerAudit

variable (C : Crypto) (P : Platform)

def start (q : Sequencer) : SequencerAudit := ⟨q, 0, [], 0⟩

def step (a : SequencerAudit) (op : SequencerOp) : SequencerAudit where
  sequencer := op.run C P a.sequencer
  accepted := a.accepted + op.accepts a.sequencer
  batches := a.batches ++ op.seals C P a.sequencer
  failed := a.failed + txsOf .failed (op.history C P a.sequencer)

def run (a : SequencerAudit) (ops : List SequencerOp) : SequencerAudit := ops.foldl (step C P) a

/-- The transactions waiting. -/
def waiting (a : SequencerAudit) : Multiset L2Transaction :=
  a.sequencer.mempool.map PendingTransaction.tx

/-- The transactions of all batches. -/
def batched (a : SequencerAudit) : Multiset L2Transaction :=
  a.batches.flatMap Batch.transactions

end SequencerAudit

/-- Every accepted transaction is in one place: waiting, in one batch, or failed
and counted. With an empty queue it is in a batch or failed. -/
structure Accounted (C : Crypto) (P : Platform) (a : SequencerAudit) : Prop where
  placed : a.accepted = a.waiting + a.batched + a.failed
  counted : a.sequencer.stats.txsFailed = UInt64.ofNat a.failed.card
  errors : ∀ tx ∈ a.failed, ∃ s e, executeTransaction C P s tx = .error e
  drained : a.sequencer.mempool = [] → ∀ tx ∈ a.accepted, tx ∈ a.batched ∨ tx ∈ a.failed

/-! ## What the loop loses -/

section Loss

variable {C : Crypto} {P : Platform} {config : SequencerConfig} {l1Block : UInt64} {l l' : Loop}
  {p : PendingTransaction} {batch : Batch}

/-- How many transactions the loop has forgotten. -/
def Loop.lost (l : Loop) : Nat :=
  (txsOf .skipped l.history).length + (txsOf .dropped l.history).length

theorem txsOf_cons (o o' : Outcome) (tx : L2Transaction)
    (history : List (L2Transaction × Outcome)) :
    txsOf o ((tx, o') :: history) = if o' = o then tx :: txsOf o history else txsOf o history := by
  rw [txsOf, txsOf, List.filter_cons]
  by_cases h : o' = o <;> simp [h]

/-- Each outcome once: the history has no other transactions. -/
theorem sum_outcomes (history : List (L2Transaction × Outcome)) :
    ((history.map Prod.fst : List L2Transaction) : Multiset L2Transaction)
      = (txsOf .batched history + txsOf .failed history : Multiset L2Transaction) +
        (txsOf .skipped history + txsOf .dropped history : Multiset L2Transaction) := by
  induction history with
  | nil => rfl
  | cons e history ih =>
    obtain ⟨tx, o⟩ := e
    rw [List.map_cons, ← Multiset.cons_coe, ih]
    cases o with
    | batched => simp [txsOf_cons, ← Multiset.cons_coe]
    | failed => simp [txsOf_cons, ← Multiset.cons_coe]
    | skipped => simp [txsOf_cons, ← Multiset.cons_coe]
    | dropped => simp [txsOf_cons, ← Multiset.cons_coe]

/-- A turn loses its transaction in the two branches and nowhere else. -/
theorem lost_effect (hholds : l.builder.Holds batch)
    (heff : Loop.Effect C P config l1Block l p l') :
    l.lost ≤ l'.lost ∧ (l'.lost = l.lost ↔ p.early config l1Block = false ∧
      (l.builder.Full → ∃ e, executeTransaction C P l.state p.tx = .error e)) := by
  cases heff with
  | skipped hearly =>
    simp [Loop.lost, txsOf_snoc, hearly]
  | failed hdue hexec =>
    simp [Loop.lost, txsOf_snoc, hdue, hexec]
  | batched hdue hexec hadd =>
    simp [Loop.lost, txsOf_snoc, hdue, not_full_of_add hholds hadd]
  | dropped hdue hexec hadd =>
    simp [Loop.lost, txsOf_snoc, hdue, full_of_add hholds hadd, hexec]

/-- **The loop loses nothing** exactly when it takes neither branch. -/
theorem lost_drain_iff (config : SequencerConfig) (l1Block : UInt64) {s₀ : L2State}
    {failed₀ : UInt64} :
    ∀ (mempool : List PendingTransaction) {l : Loop} {batch : Batch},
      Loop.Kept C P s₀ failed₀ l batch →
      l.lost ≤ (l.drain C P config l1Block mempool).1.lost ∧
        ((l.drain C P config l1Block mempool).1.lost = l.lost ↔
          l.Lossless C P config l1Block mempool)
  | [], l, _, _ => ⟨le_refl _, iff_of_true rfl trivial⟩
  | p :: mempool, l, batch, hkept => by
    rw [Loop.drain, Loop.Lossless]
    split
    · next hrun =>
      have heff := Loop.step_effect C P config l1Block l p
      obtain ⟨hle, hstep⟩ := lost_effect hkept.holds heff
      obtain ⟨batch', hkept'⟩ := Loop.kept_effect hkept hrun.1 heff
      obtain ⟨hle', hrest⟩ := lost_drain_iff config l1Block mempool hkept'
      refine ⟨hle.trans hle', ?_⟩
      rw [← hstep, ← hrest]
      constructor
      · intro h _
        exact ⟨by omega, by omega⟩
      · intro h
        obtain ⟨h₁, h₂⟩ := h hrun
        omega
    · next hstop => exact ⟨le_refl _, iff_of_true rfl fun hrun => absurd hrun hstop⟩

/-- What is recorded as failed did fail. -/
theorem failed_drain (config : SequencerConfig) (l1Block : UInt64)
    (mempool : List PendingTransaction)
    (h : ∀ tx ∈ txsOf .failed l.history, ∃ s e, executeTransaction C P s tx = .error e) :
    ∀ tx ∈ txsOf .failed (l.drain C P config l1Block mempool).1.history,
      ∃ s e, executeTransaction C P s tx = .error e := by
  refine Loop.drain_invariant (I := fun l => ∀ tx ∈ txsOf .failed l.history,
    ∃ s e, executeTransaction C P s tx = .error e) ?_ h
  intro l p _ _ h
  have heff := Loop.step_effect C P config l1Block l p
  generalize l.step C P config l1Block p = l' at heff
  cases heff with
  | skipped _ => simpa [txsOf_snoc] using h
  | failed _ hexec =>
    intro tx htx
    rw [txsOf_snoc, if_pos rfl] at htx
    rcases List.mem_append.mp htx with htx | htx
    · exact h tx htx
    · rw [List.mem_singleton.mp htx]
      exact ⟨_, _, hexec⟩
  | batched _ _ _ => simpa [txsOf_snoc] using h
  | dropped _ _ _ => simpa [txsOf_snoc] using h

end Loss

/-! ## One call -/

section Call

variable {C : Crypto} {P : Platform} {a : SequencerAudit} {op : SequencerOp}

theorem SequencerAudit.run_snoc (a : SequencerAudit) (ops : List SequencerOp) (op : SequencerOp) :
    a.run C P (ops ++ [op]) = (a.run C P ops).step C P op := by
  rw [run, run, List.foldl_append]
  rfl

theorem SequencerAudit.sequencer_run (a : SequencerAudit) (ops : List SequencerOp) :
    (a.run C P ops).sequencer = runSequencer C P a.sequencer ops := by
  induction ops using List.reverseRecOn with
  | nil => rfl
  | append_singleton ops op ih =>
    rw [run_snoc, runSequencer_snoc, ← ih]
    rfl

theorem batched_step (a : SequencerAudit) (op : SequencerOp) :
    (a.step C P op).batched = a.batched +
      ((op.seals C P a.sequencer).flatMap Batch.transactions : List L2Transaction) := by
  rw [SequencerAudit.batched, SequencerAudit.step, List.flatMap_append, ← Multiset.coe_add]
  rfl

/-- With the queue empty, what is placed is in a batch or failed. -/
theorem drained_of_placed (h : a.accepted = a.waiting + a.batched + a.failed)
    (hempty : a.sequencer.mempool = []) : ∀ tx ∈ a.accepted, tx ∈ a.batched ∨ tx ∈ a.failed := by
  intro tx htx
  rw [h, SequencerAudit.waiting, hempty] at htx
  simpa using htx

/-- A call of `produce_batch` that runs its loop loses nothing exactly when its
history has no transaction that was skipped or dropped. -/
theorem lossless_iff_lost {now : Sequencer.Readings} {l : Loop} {rest : List PendingTransaction}
    {q : Sequencer} (hloop : q.produceLoop C P now.stamp now.created = .ok (l, rest)) :
    (SequencerOp.produceBatch now).Lossless C P q ↔
      txsOf .skipped l.history = [] ∧ txsOf .dropped l.history = [] := by
  obtain ⟨builder, hdrained⟩ := produceLoop_ok_iff.mp hloop
  obtain ⟨batch, hkept⟩ := kept_start (C := C) (P := P) hdrained.start
  have hlost := (lost_drain_iff q.config q.l1BlockNumber q.mempool hkept).2
  rw [hdrained.drain] at hlost
  have hzero : l.lost = 0 ↔ txsOf .skipped l.history = [] ∧ txsOf .dropped l.history = [] := by
    rw [Loop.lost, Nat.add_eq_zero_iff, List.length_eq_zero_iff, List.length_eq_zero_iff]
  rw [← hzero]
  constructor
  · intro h
    exact hlost.mpr (h hdrained.leader builder hdrained.start)
  · intro h _ builder' hstart
    rw [hdrained.start] at hstart
    cases hstart
    exact hlost.mp h

/-- A call that seals no batch ran no loop. -/
theorem lossless_of_seals {q : Sequencer} (h : op.seals C P q = []) : op.Lossless C P q := by
  cases op with
  | produceBatch now =>
    have hproduced := produced (C := C) (P := P) now q
    rw [SequencerOp.seals] at h
    generalize hr : q.produceBatch C P now = r at hproduced h
    cases hproduced with
    | refused hloop =>
      intro hlead builder hstart
      have hok := (produceLoop_ok_iff (C := C) (P := P)).mpr ⟨builder, hlead, hstart, rfl⟩
      rw [hloop] at hok
      cases hok
    | sealed _ _ _ _ _ _ _ _ => cases h
  | _ => trivial

theorem failed_of_loop {now : Sequencer.Readings} {l : Loop} {rest : List PendingTransaction}
    {q : Sequencer} (hloop : q.produceLoop C P now.stamp now.created = .ok (l, rest)) :
    ∀ tx ∈ txsOf .failed l.history, ∃ s e, executeTransaction C P s tx = .error e := by
  obtain ⟨builder, hdrained⟩ := produceLoop_ok_iff.mp hloop
  have hdrain := failed_drain (C := C) (P := P) (l := Loop.start q.state builder q.stats.txsFailed)
    q.config q.l1BlockNumber q.mempool fun tx h => absurd h (List.not_mem_nil)
  rw [hdrained.drain] at hdrain
  exact hdrain

/-- What a call that pops nothing leaves of the accounts. -/
theorem accounted_of_placed (h : Accounted C P a) (hhistory : op.history C P a.sequencer = [])
    (hfailed : (op.run C P a.sequencer).stats.txsFailed = a.sequencer.stats.txsFailed)
    (hplaced : (a.step C P op).accepted
      = (a.step C P op).waiting + (a.step C P op).batched + (a.step C P op).failed) :
    Accounted C P (a.step C P op) := by
  have hsame : (a.step C P op).failed = a.failed := by
    rw [SequencerAudit.step, hhistory]
    exact add_zero _
  refine ⟨hplaced, ?_, ?_, drained_of_placed hplaced⟩
  · rw [hsame, ← h.counted]
    exact hfailed
  · rw [hsame]
    exact h.errors

/-- The queue before a batch: what the batch holds, what failed, what was lost and
what is left. -/
theorem queue_split {now : Sequencer.Readings} {l : Loop} {rest : List PendingTransaction}
    {q : Sequencer} (hloop : q.produceLoop C P now.stamp now.created = .ok (l, rest)) :
    (q.mempool.map PendingTransaction.tx : Multiset L2Transaction)
      = (txsOf .batched l.history + txsOf .failed l.history : Multiset L2Transaction) +
        (txsOf .skipped l.history + txsOf .dropped l.history : Multiset L2Transaction) +
        (rest.map PendingTransaction.tx : Multiset L2Transaction) := by
  obtain ⟨builder, hdrained⟩ := produceLoop_ok_iff.mp hloop
  obtain ⟨history, hhistory, hsplit⟩ := Loop.history_drain C P q.config q.l1BlockNumber q.mempool
    (Loop.start q.state builder q.stats.txsFailed)
  rw [hdrained.drain] at hhistory hsplit
  have hl : l.history = history := hhistory
  rw [hsplit, ← Multiset.coe_add, sum_outcomes, hl]

/-- A batch on right accounts: what was accepted is placed, up to what the loop
lost. -/
theorem accepted_produced (h : Accounted C P a) {now : Sequencer.Readings} {l : Loop}
    {rest : List PendingTransaction} {batch : Batch}
    (hhistory : (SequencerOp.produceBatch now).history C P a.sequencer = l.history)
    (hseals : (SequencerOp.produceBatch now).seals C P a.sequencer = [batch])
    (hloop : a.sequencer.produceLoop C P now.stamp now.created = .ok (l, rest))
    (htxs : batch.transactions = txsOf .batched l.history)
    (hmempool : ((SequencerOp.produceBatch now).run C P a.sequencer).mempool = rest) :
    (a.step C P (.produceBatch now)).accepted
      = ((a.step C P (.produceBatch now)).waiting + (a.step C P (.produceBatch now)).batched
          + (a.step C P (.produceBatch now)).failed)
        + (txsOf .skipped l.history + txsOf .dropped l.history : Multiset L2Transaction) := by
  have hfail : (a.step C P (.produceBatch now)).failed = a.failed + txsOf .failed l.history := by
    rw [SequencerAudit.step, hhistory]
  have hwait : (a.step C P (.produceBatch now)).waiting
      = (rest.map PendingTransaction.tx : Multiset L2Transaction) := by
    rw [SequencerAudit.waiting, SequencerAudit.step, hmempool]
  have hbatch : (a.step C P (.produceBatch now)).batched
      = a.batched + txsOf .batched l.history := by
    rw [batched_step, hseals, List.flatMap_singleton, htxs]
  have haccept : (a.step C P (.produceBatch now)).accepted = a.accepted := add_zero _
  rw [haccept, hwait, hbatch, hfail, h.placed, SequencerAudit.waiting, queue_split hloop]
  abel

/-- A batch leaves right accounts exactly when its loop loses nothing. -/
theorem accounted_produced_iff (h : Accounted C P a) {now : Sequencer.Readings} {l : Loop}
    {rest : List PendingTransaction} {opened batch : Batch}
    (hhistory : (SequencerOp.produceBatch now).history C P a.sequencer = l.history)
    (hseals : (SequencerOp.produceBatch now).seals C P a.sequencer = [batch])
    (hloop : a.sequencer.produceLoop C P now.stamp now.created = .ok (l, rest))
    (hkept : Loop.Kept C P a.sequencer.state a.sequencer.stats.txsFailed l opened)
    (htxs : batch.transactions = opened.transactions)
    (hmempool : ((SequencerOp.produceBatch now).run C P a.sequencer).mempool = rest)
    (hfailed : ((SequencerOp.produceBatch now).run C P a.sequencer).stats.txsFailed
      = l.txsFailed) :
    Accounted C P (a.step C P (.produceBatch now)) ↔
      (SequencerOp.produceBatch now).Lossless C P a.sequencer := by
  have haccept := accepted_produced h hhistory hseals hloop (htxs.trans hkept.txs) hmempool
  rw [lossless_iff_lost hloop]
  constructor
  · intro h'
    have hzero := h'.placed
    rw [haccept, add_eq_left] at hzero
    simpa using hzero
  · intro hlost
    rw [hlost.1, hlost.2] at haccept
    have hplaced := haccept.trans (add_zero _)
    have hfail : (a.step C P (.produceBatch now)).failed = a.failed + txsOf .failed l.history := by
      rw [SequencerAudit.step, hhistory]
    refine ⟨hplaced, ?_, ?_, drained_of_placed hplaced⟩
    · rw [hfail, Multiset.card_add, Multiset.coe_card, UInt64.ofNat_add, ← h.counted,
        ← hkept.failed]
      exact hfailed
    · rw [hfail]
      intro tx htx
      rcases Multiset.mem_add.mp htx with htx | htx
      · exact h.errors tx htx
      · exact failed_of_loop hloop tx (Multiset.mem_coe.mp htx)

/-- **One call** on right accounts leaves right accounts exactly when it loses
nothing. -/
theorem accounted_call_iff (h : Accounted C P a) :
    Accounted C P (a.step C P op) ↔ op.Lossless C P a.sequencer := by
  have hbatched := batched_step (C := C) (P := P) a op
  have hplaced := h.placed
  rw [SequencerAudit.waiting] at hplaced
  cases SequencerOp.effect_run (C := C) (P := P) a.sequencer op with
  | idle haccepts hhistory hseals hsame =>
    refine iff_of_true (accounted_of_placed h hhistory hsame.failed ?_) (lossless_of_seals hseals)
    rw [hbatched, hseals, SequencerAudit.waiting]
    simp only [SequencerAudit.step, haccepts, hhistory, hsame.mempool]
    simpa [txsOf] using hplaced
  | accepted hvalid haccepts hhistory hseals hmempool hstate hfailed =>
    refine iff_of_true (accounted_of_placed h hhistory hfailed ?_) (lossless_of_seals hseals)
    have hwaiting : (a.step C P op).waiting = _ :=
      Multiset.coe_eq_coe.mpr (hmempool.map PendingTransaction.tx)
    rw [hbatched, hseals, hwaiting]
    simp only [SequencerAudit.step, haccepts, hhistory, hplaced]
    simp [txsOf, ← Multiset.cons_coe, add_comm, add_left_comm]
  | produced hop _ hhistory hseals hloop hkept htxs hmempool _ hfailed =>
    subst hop
    exact accounted_produced_iff h hhistory hseals hloop hkept htxs hmempool hfailed

end Call

/-! ## Every run -/

theorem accounted_start (C : Crypto) (P : Platform) {q : Sequencer} (hempty : q.mempool = [])
    (hfailed : q.stats.txsFailed = 0) : Accounted C P (SequencerAudit.start q) := by
  have hplaced : (SequencerAudit.start q).accepted = (SequencerAudit.start q).waiting +
      (SequencerAudit.start q).batched + (SequencerAudit.start q).failed := by
    rw [SequencerAudit.waiting, SequencerAudit.start, hempty]
    rfl
  refine ⟨hplaced, hfailed, ?_, drained_of_placed hplaced⟩
  intro tx htx
  exact absurd htx (Multiset.notMem_zero tx)

/-- **Nothing is lost** in a run exactly when no batch loop of it pops a forced
inclusion before its time, or executes a transaction for a batch that is full. -/
theorem accounted_iff_lossless (C : Crypto) (P : Platform) (registered active : UInt64)
    (config : SequencerConfig) (address : Address) (stake : UInt64) (endpoint : String)
    (s : L2State) (ops : List SequencerOp) :
    (∀ pre, pre <+: ops → Accounted C P ((SequencerAudit.start
        (Sequencer.new registered active config address stake endpoint s)).run C P pre)) ↔
      ∀ pre op, pre ++ [op] <+: ops → op.Lossless C P (runSequencer C P
        (Sequencer.new registered active config address stake endpoint s) pre) := by
  refine forall_prefixes_iff (accounted_start C P rfl rfl) ?_
  intro pre op _ h
  rw [SequencerAudit.run_snoc, accounted_call_iff h, SequencerAudit.sequencer_run]
  rfl

/-- A payment forced in at L1 block 0, and a batch at the same block: the payment
is due a hundred blocks later, and gone. -/
theorem forced_payment_lost :
    ¬ ∀ (C : Crypto) (P : Platform) (registered active : UInt64) (config : SequencerConfig)
      (address : Address) (stake : UInt64) (endpoint : String) (s : L2State)
      (ops : List SequencerOp) (pre : List SequencerOp), pre <+: ops →
      Accounted C P ((SequencerAudit.start
        (Sequencer.new registered active config address stake endpoint s)).run C P pre) := by
  intro hall
  have h := hall paymentCrypto Platform.exact 100 100 { mode := .single } alice
    MIN_SEQUENCER_STAKE "https://seq.example.com"
    ((L2State.new paymentCrypto).credit paymentCrypto Platform.exact alice 1000000000000)
    [.forceInclude 100 payment 0, .produceBatch ⟨101, 101, 101, 101⟩] _ (List.prefix_refl _)
  have hcard := congrArg Multiset.card h.placed
  exact absurd hcard (by decide +kernel)

end Pyrax.Rollup
