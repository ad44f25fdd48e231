import Pyrax.Base.Records
import Pyrax.Rollup.Drain

/-!
# The chain of sealed batches

`BatchBuilder` of `pyrax-node/src/zkrollup/batch.rs` keeps the sealed batches under their
hashes and the hashes under the numbers, beside a counter and the batch that is open.
`BatchBuilder.Intact` says how these hang together, and every call keeps it
(`Intact.apply`). `Kept` is what no call changes: the header and the transactions of a
batch that is sealed. The status methods write other fields, so a record stays under the
hash of its contents.

A batch that is sealed finds its key free because none of those before it has its number,
which is the first thing that is hashed.
-/

namespace Pyrax.Rollup

open Base Wire

/-! ## The status of a sealed batch -/

namespace Batch

def setProof (now : UInt64) (b : Batch) (proof : List UInt8) : Except BatchError Batch :=
  if b.status ≠ .sealed ∧ b.status ≠ .proving then .error (.invalidState b.status)
  else .ok { b with proof := some proof, status := .proven, provenAt := some now }

def markSubmitted (now : UInt64) (b : Batch) (l1TxHash : H256) : Except BatchError Batch :=
  if b.status ≠ .proven then .error (.invalidState b.status)
  else .ok { b with l1TxHash := some l1TxHash, status := .submitted, submittedAt := some now }

def markFinalized (now : UInt64) (b : Batch) : Except BatchError Batch :=
  if b.status ≠ .submitted then .error (.invalidState b.status)
  else .ok { b with status := .finalized, finalizedAt := some now }

end Batch

/-- A status method with its arguments. -/
inductive StatusMethod where
  | setProof (now : UInt64) (proof : List UInt8)
  | markSubmitted (now : UInt64) (l1TxHash : H256)
  | markFinalized (now : UInt64)

namespace StatusMethod

def call (b : Batch) : StatusMethod → Except BatchError Batch
  | setProof now proof => b.setProof now proof
  | markSubmitted now l1TxHash => b.markSubmitted now l1TxHash
  | markFinalized now => b.markFinalized now

/-- What the method leaves of the batch; a refused one leaves it alone. -/
def run (m : StatusMethod) (b : Batch) : Batch :=
  match m.call b with
  | .ok b' => b'
  | .error _ => b

theorem call_ok {m : StatusMethod} {b b' : Batch} (h : m.call b = .ok b') :
    b'.header = b.header ∧ b'.transactions = b.transactions := by
  cases m with
  | setProof now proof =>
    rw [call, Batch.setProof] at h
    split at h
    · cases h
    · cases h
      exact ⟨rfl, rfl⟩
  | markSubmitted now l1TxHash =>
    rw [call, Batch.markSubmitted] at h
    split at h
    · cases h
    · cases h
      exact ⟨rfl, rfl⟩
  | markFinalized now =>
    rw [call, Batch.markFinalized] at h
    split at h
    · cases h
    · cases h
      exact ⟨rfl, rfl⟩

/-- No status method touches what was sealed. -/
theorem run_spec (m : StatusMethod) (b : Batch) :
    (m.run b).header = b.header ∧ (m.run b).transactions = b.transactions := by
  rw [run]
  split
  · next b' hok => exact call_ok hok
  · exact ⟨rfl, rfl⟩

end StatusMethod

/-! ## The builder's other methods -/

namespace BatchBuilder

def getBatch (b : BatchBuilder) (hash : H256) : Option Batch := b.batches.lookup hash

def getBatchByNumber (b : BatchBuilder) (number : UInt64) : Option Batch :=
  (b.byNumber.lookup number).bind b.getBatch

def updateBatch (b : BatchBuilder) (hash : H256) (f : Batch → Batch) :
    Except BatchError BatchBuilder :=
  match b.batches.lookup hash with
  | none => .error (.batchNotFound hash)
  | some batch => .ok { b with batches := b.batches.insert hash (f batch) }

/-- A refused call leaves the builder as it was. -/
def after (b : BatchBuilder) : Except BatchError BatchBuilder → BatchBuilder
  | .ok b' => b'
  | .error _ => b

end BatchBuilder

/-- A call to the builder with its clock readings. -/
inductive BuilderOp where
  | startBatch (stamp created : UInt64) (preStateRoot : H256) (l1BlockNumber : UInt64)
  | addTransaction (tx : L2Transaction)
  | sealBatch (now : UInt64) (postStateRoot : H256)
  | updateBatch (hash : H256) (m : StatusMethod)

namespace BuilderOp

def apply (C : Crypto) (b : BatchBuilder) : BuilderOp → BatchBuilder
  | startBatch stamp created preStateRoot l1BlockNumber =>
    b.after (b.startBatch stamp created preStateRoot l1BlockNumber)
  | addTransaction tx => b.after (b.addTransaction tx)
  | sealBatch now postStateRoot => (b.sealBatch C now postStateRoot).1
  | updateBatch hash m => b.after (b.updateBatch hash m.run)

/-- The header that the call seals, if it does. -/
def sealedHeader (C : Crypto) (b : BatchBuilder) : BuilderOp → List BatchHeader
  | sealBatch now postStateRoot =>
    match (b.sealBatch C now postStateRoot).2 with
    | .ok batch => [batch.header]
    | .error _ => []
  | startBatch _ _ _ _ => []
  | addTransaction _ => []
  | updateBatch _ _ => []

end BuilderOp

def runBuilder (C : Crypto) (b : BatchBuilder) (ops : List BuilderOp) : BatchBuilder :=
  ops.foldl (BuilderOp.apply C) b

/-- All headers that the calls seal, in order. -/
def sealedHeaders (C : Crypto) : BatchBuilder → List BuilderOp → List BatchHeader
  | _, [] => []
  | b, op :: ops => op.sealedHeader C b ++ sealedHeaders C (op.apply C b) ops

theorem runBuilder_append (C : Crypto) (b : BatchBuilder) (ops later : List BuilderOp) :
    runBuilder C b (ops ++ later) = runBuilder C (runBuilder C b ops) later := by
  rw [runBuilder, List.foldl_append]
  rfl

theorem sealedHeaders_append (C : Crypto) (b : BatchBuilder) (ops later : List BuilderOp) :
    sealedHeaders C b (ops ++ later) =
      sealedHeaders C b ops ++ sealedHeaders C (runBuilder C b ops) later := by
  induction ops generalizing b with
  | nil => rfl
  | cons op ops ih =>
    show op.sealedHeader C b ++ sealedHeaders C (op.apply C b) (ops ++ later) = _
    rw [ih, ← List.append_assoc]
    rfl

/-! ## What is hashed -/

/-- The bytes that `BatchHeader::hash` feeds to the hasher. -/
def BatchHeader.preimage (h : BatchHeader) : List UInt8 :=
  encU64 h.batchNumber ++ h.parentHash.asBytes ++ h.preStateRoot.asBytes ++
    h.postStateRoot.asBytes ++ h.txRoot.asBytes ++ encU32 h.txCount ++ encU64 h.gasUsed ++
    encU64 h.timestamp ++ h.sequencer.asBytes

theorem BatchHeader.batchNumber_of_preimage {h h' : BatchHeader} (heq : h.preimage = h'.preimage) :
    h.batchNumber = h'.batchNumber := by
  simp only [preimage, List.append_assoc] at heq
  exact ((reads_u64 h.batchNumber).append_inj (reads_u64 h'.batchNumber) heq).1

/-- No two of the headers collide. -/
def NoCollision (C : Crypto) (log : List BatchHeader) : Prop :=
  ∀ h ∈ log, ∀ h' ∈ log, C.blake3 h.preimage = C.blake3 h'.preimage → h.preimage = h'.preimage

/-! ## The invariant -/

namespace BatchBuilder

/-- The builder once a batch is sealed. -/
def put (C : Crypto) (b : BatchBuilder) (sealed : Batch) : BatchBuilder :=
  { b with
    current := none
    batches := b.batches.insert (sealed.hash C) sealed
    byNumber := b.byNumber.insert sealed.header.batchNumber (sealed.hash C)
    lastBatchNumber := sealed.header.batchNumber }

/-- A sealed batch as it is found under its number. -/
structure Links (C : Crypto) (b : BatchBuilder) (n : UInt64) (batch : Batch) : Prop where
  number : batch.header.batchNumber = n
  parent : batch.header.parentHash = (b.byNumber.lookup (n - 1)).getD H256.zero
  root : batch.header.txRoot = batch.computeTxRoot C
  count : batch.header.txCount.toNat = batch.transactions.length

/-- The open batch is the next one. -/
structure Opened (b : BatchBuilder) (batch : Batch) : Prop where
  status : batch.status = .building
  number : batch.header.batchNumber = b.lastBatchNumber + 1
  parent : batch.header.parentHash = (b.byNumber.lookup b.lastBatchNumber).getD H256.zero
  count : batch.header.txCount.toNat = batch.transactions.length
  room : batch.transactions.length ≤ MAX_BATCH_SIZE

structure Intact (C : Crypto) (log : List BatchHeader) (b : BatchBuilder) : Prop where
  numbered : ∀ n, (b.byNumber.lookup n).isSome = true ↔ 1 ≤ n ∧ n ≤ b.lastBatchNumber
  stored : ∀ n key, b.byNumber.lookup n = some key →
    ∃ batch, b.batches.lookup key = some batch ∧ batch.hash C = key ∧ b.Links C n batch
  named : ∀ key batch, b.batches.lookup key = some batch →
    b.byNumber.lookup batch.header.batchNumber = some key
  logged : ∀ key batch, b.batches.lookup key = some batch → batch.header ∈ log
  counted : b.batches.keys.card = b.lastBatchNumber.toNat
  opened : ∀ batch, b.current = some batch → b.Opened batch

/-- What is sealed in the first is in the second, whatever its status. -/
def Kept (b b' : BatchBuilder) : Prop :=
  ∀ n batch, b.getBatchByNumber n = some batch →
    ∃ batch', b'.getBatchByNumber n = some batch' ∧ batch'.header = batch.header ∧
      batch'.transactions = batch.transactions

/-- The batches of these headers are found under their numbers. -/
def Finds (b : BatchBuilder) (log : List BatchHeader) : Prop :=
  ∀ header ∈ log, ∃ batch, b.getBatchByNumber header.batchNumber = some batch ∧
    batch.header = header

variable {C : Crypto} {b b' : BatchBuilder} {log log' : List BatchHeader} {batch : Batch}
  {n : UInt64} {key : H256}

theorem intact_new (C : Crypto) (sequencer : Address) : Intact C [] (new sequencer) where
  numbered n := by
    show (none : Option H256).isSome = true ↔ 1 ≤ n ∧ n ≤ 0
    rw [UInt64.le_iff_toNat_le, UInt64.le_iff_toNat_le]
    simp only [Option.isSome_none, Bool.false_eq_true, false_iff]
    show ¬ (1 ≤ n.toNat ∧ n.toNat ≤ 0)
    omega
  stored n key h := by cases h
  named key batch h := by cases h
  logged key batch h := by cases h
  counted := rfl
  opened batch h := by cases h

theorem Kept.refl (b : BatchBuilder) : Kept b b := fun _ batch h => ⟨batch, h, rfl, rfl⟩

theorem Kept.trans {b₁ b₂ b₃ : BatchBuilder} (h : Kept b₁ b₂) (h' : Kept b₂ b₃) : Kept b₁ b₃ := by
  intro n batch hbatch
  obtain ⟨batch₂, hget₂, hheader₂, htxs₂⟩ := h n batch hbatch
  obtain ⟨batch₃, hget₃, hheader₃, htxs₃⟩ := h' n batch₂ hget₂
  exact ⟨batch₃, hget₃, hheader₃.trans hheader₂, htxs₃.trans htxs₂⟩

theorem Finds.kept (h : b.Finds log) (hkept : Kept b b') : b'.Finds log := by
  intro header hmem
  obtain ⟨batch, hget, hheader⟩ := h header hmem
  obtain ⟨batch', hget', hheader', _⟩ := hkept _ batch hget
  exact ⟨batch', hget', hheader'.trans hheader⟩

theorem Finds.append (h : b.Finds log) (h' : b.Finds log') : b.Finds (log ++ log') := by
  intro header hmem
  rcases List.mem_append.mp hmem with hfirst | hlast
  · exact h header hfirst
  · exact h' header hlast

theorem finds_nil (b : BatchBuilder) : b.Finds [] :=
  fun _ hmem => absurd hmem List.not_mem_nil

theorem finds_put (C : Crypto) (b : BatchBuilder) (sealed : Batch) :
    (b.put C sealed).Finds [sealed.header] := by
  intro header hmem
  cases List.mem_singleton.mp hmem
  refine ⟨sealed, ?_, rfl⟩
  show ((b.put C sealed).byNumber.lookup _).bind _ = some sealed
  rw [BatchBuilder.put, Finmap.lookup_insert]
  exact Finmap.lookup_insert _

/-- A number and its key find the same batch. -/
theorem Intact.lookup_of_get (h : Intact C log b) (hget : b.getBatchByNumber n = some batch) :
    b.byNumber.lookup n = some (batch.hash C) ∧ b.batches.lookup (batch.hash C) = some batch ∧
      b.Links C n batch := by
  obtain ⟨key, hkey, hlookup⟩ := Option.bind_eq_some_iff.mp hget
  obtain ⟨stored, hstored, hhash, hlinks⟩ := h.stored n key hkey
  have heq : stored = batch := Option.some.inj (hstored.symm.trans hlookup)
  rw [heq] at hhash hlinks
  rw [hhash]
  exact ⟨hkey, hlookup, hlinks⟩

theorem Intact.get_of_lookup (h : Intact C log b) (hkey : b.byNumber.lookup n = some key) :
    ∃ batch, b.getBatchByNumber n = some batch ∧ batch.hash C = key := by
  obtain ⟨batch, hlookup, hhash, _⟩ := h.stored n key hkey
  refine ⟨batch, ?_, hhash⟩
  rw [getBatchByNumber, hkey]
  exact hlookup

/-! ## The calls -/

theorem Intact.mono (h : Intact C log b) : Intact C (log ++ log') b :=
  { h with logged := fun key batch hbatch => List.mem_append_left _ (h.logged key batch hbatch) }

/-- Only the open batch changes. -/
theorem Intact.open (h : Intact C log b) {current : Option Batch}
    (hcurrent : ∀ batch, current = some batch → b.Opened batch) :
    Intact C log { b with current := current } where
  numbered := h.numbered
  stored n key hkey := by
    obtain ⟨batch, hlookup, hhash, hlinks⟩ := h.stored n key hkey
    exact ⟨batch, hlookup, hhash, hlinks.number, hlinks.parent, hlinks.root, hlinks.count⟩
  named := h.named
  logged := h.logged
  counted := h.counted
  opened batch hbatch := by
    have hopened := hcurrent batch hbatch
    exact ⟨hopened.status, hopened.number, hopened.parent, hopened.count, hopened.room⟩

theorem startBatch_ok {stamp created l1BlockNumber : UInt64} {preStateRoot : H256}
    (h : b.startBatch stamp created preStateRoot l1BlockNumber = .ok b') :
    ∃ batch, b' = { b with current := some batch } ∧ b.Opened batch := by
  rw [startBatch] at h
  split at h
  · cases h
  · cases h
    refine ⟨_, rfl, rfl, rfl, ?_, rfl, Nat.zero_le _⟩
    show (b.byNumber.lookup (b.lastBatchNumber + 1 - 1)).getD H256.zero = _
    rw [UInt64.add_sub_cancel]

/-- The open batch takes a transaction. -/
theorem Opened.push {tx : L2Transaction} (h : b.Opened batch)
    (hlt : batch.transactions.length < MAX_BATCH_SIZE) : b.Opened (batch.push tx) where
  status := h.status
  number := h.number
  parent := h.parent
  count := by
    show (UInt32.ofNat (batch.transactions ++ [tx]).length).toNat =
      (batch.transactions ++ [tx]).length
    refine UInt32.toNat_ofNat_of_lt' ?_
    rw [List.length_append]
    exact Nat.lt_of_le_of_lt (Nat.succ_le_of_lt hlt) (by decide)
  room := by
    show (batch.transactions ++ [tx]).length ≤ MAX_BATCH_SIZE
    rw [List.length_append]
    exact Nat.succ_le_of_lt hlt

theorem addTransaction_ok {tx : L2Transaction}
    (hopened : ∀ batch, b.current = some batch → b.Opened batch)
    (h : b.addTransaction tx = .ok b') :
    ∃ batch, b' = { b with current := some batch } ∧ b.Opened batch := by
  cases hcurrent : b.current with
  | none =>
    rw [addTransaction, hcurrent] at h
    cases h
  | some batch =>
    have hbatch := hopened batch hcurrent
    obtain ⟨hlt, hholds⟩ := holds_add ⟨hcurrent, hbatch.status⟩ h
    refine ⟨batch.push tx, ?_, hbatch.push hlt⟩
    rw [addTransaction, hcurrent] at h
    dsimp only at h
    split at h
    · cases h
    · cases h
      rw [← hholds.1]

/-- The key of the next batch is free. -/
theorem Intact.fresh (h : Intact C log b) (hfree : NoCollision C (log ++ log'))
    (hmem : batch.header ∈ log') (hnumber : batch.header.batchNumber = b.lastBatchNumber + 1) :
    b.batches.lookup (batch.hash C) = none := by
  cases hlookup : b.batches.lookup (batch.hash C) with
  | none => rfl
  | some old =>
    have hname := h.named _ _ hlookup
    obtain ⟨found, hfound, hhash, hlinks⟩ := h.stored _ _ hname
    have heq : found = old := Option.some.inj (hfound.symm.trans hlookup)
    rw [heq] at hhash
    have hpre := hfree old.header (List.mem_append_left _ (h.logged _ _ hlookup)) batch.header
      (List.mem_append_right _ hmem) hhash
    have hrange := (h.numbered old.header.batchNumber).mp (by rw [hname]; rfl)
    rw [BatchHeader.batchNumber_of_preimage hpre, hnumber, UInt64.le_iff_toNat_le,
      UInt64.le_iff_toNat_le, UInt64.toNat_add] at hrange
    have hone : (1 : UInt64).toNat = 1 := rfl
    have hlast := b.lastBatchNumber.toNat_lt
    omega

/-- Sealing takes the open batch away, and puts it to the others when it succeeds. -/
theorem sealBatch_cases (C : Crypto) (b : BatchBuilder) (now : UInt64) (postStateRoot : H256) :
    (∃ e, b.sealBatch C now postStateRoot = ({ b with current := none }, .error e)) ∨
      ∃ batch sealed, b.current = some batch ∧ batch.seal C now postStateRoot = .ok sealed ∧
        b.sealBatch C now postStateRoot = (b.put C sealed, .ok sealed) := by
  cases hcurrent : b.current with
  | none =>
    refine .inl ⟨.noBatchInProgress, ?_⟩
    rw [sealBatch, hcurrent]
    dsimp only
    rw [← hcurrent]
  | some batch =>
    cases hseal : batch.seal C now postStateRoot with
    | error e =>
      refine .inl ⟨e, ?_⟩
      rw [sealBatch, hcurrent]
      dsimp only
      rw [hseal]
    | ok sealed =>
      refine .inr ⟨batch, sealed, rfl, hseal, ?_⟩
      rw [sealBatch, hcurrent]
      dsimp only
      rw [hseal]
      rfl

/-- What is sealed is linked to the batch before it. -/
theorem Opened.seal {now : UInt64} {postStateRoot : H256} {sealed : Batch} (h : b.Opened batch)
    (hseal : batch.seal C now postStateRoot = .ok sealed) :
    b.Links C (b.lastBatchNumber + 1) sealed := by
  rw [Batch.seal, if_neg (not_not.mpr h.status)] at hseal
  cases hseal
  refine ⟨h.number, ?_, rfl, h.count⟩
  rw [UInt64.add_sub_cancel]
  exact h.parent

/-- The next batch goes to the two indexes and the counter moves on. -/
theorem Intact.put {sealed : Batch} (h : Intact C log b)
    (hlinks : b.Links C (b.lastBatchNumber + 1) sealed)
    (hfree : b.batches.lookup (sealed.hash C) = none)
    (hsize : (b.put C sealed).batches.keys.card < 2 ^ 64) :
    Intact C (log ++ [sealed.header]) (b.put C sealed) ∧ Kept b (b.put C sealed) := by
  have hone : (1 : UInt64).toNat = 1 := rfl
  have hcard : (b.put C sealed).batches.keys.card = b.lastBatchNumber.toNat + 1 := by
    rw [BatchBuilder.put, Column.keys_insert, Finset.card_insert_of_notMem, h.counted]
    rw [Finmap.mem_keys, ← Finmap.lookup_isSome, hfree]
    exact Bool.false_ne_true
  -- the counter does not wrap
  have hnext : (b.lastBatchNumber + 1).toNat = b.lastBatchNumber.toNat + 1 := by
    rw [UInt64.toNat_add, hone]
    omega
  have hother : ∀ {n key}, b.byNumber.lookup n = some key →
      1 ≤ n.toNat ∧ n.toNat ≤ b.lastBatchNumber.toNat := by
    intro n key hkey
    have hrange := (h.numbered n).mp (by rw [hkey]; rfl)
    rw [UInt64.le_iff_toNat_le, UInt64.le_iff_toNat_le, hone] at hrange
    exact hrange
  have hnumber : ∀ {n}, n ≠ b.lastBatchNumber + 1 →
      (b.put C sealed).byNumber.lookup n = b.byNumber.lookup n := by
    intro n hn
    rw [BatchBuilder.put, hlinks.number]
    exact Finmap.lookup_insert_of_ne _ hn
  have hnew : (b.put C sealed).byNumber.lookup (b.lastBatchNumber + 1) = some (sealed.hash C) := by
    rw [BatchBuilder.put, hlinks.number]
    exact Finmap.lookup_insert _
  have hkeep : ∀ {key batch}, b.batches.lookup key = some batch →
      (b.put C sealed).batches.lookup key = some batch := by
    intro key batch hbatch
    rw [← hbatch]
    refine Finmap.lookup_insert_of_ne _ fun hkey => ?_
    rw [hkey, hfree] at hbatch
    cases hbatch
  have hcases : ∀ {key batch}, (b.put C sealed).batches.lookup key = some batch →
      (key = sealed.hash C ∧ batch = sealed) ∨ b.batches.lookup key = some batch := by
    intro key batch hbatch
    by_cases hkey : key = sealed.hash C
    · rw [hkey, show (b.put C sealed).batches.lookup (sealed.hash C) = some sealed from
        Finmap.lookup_insert _] at hbatch
      exact .inl ⟨hkey, (Option.some.inj hbatch).symm⟩
    · rw [show (b.put C sealed).batches.lookup key = b.batches.lookup key from
        Finmap.lookup_insert_of_ne _ hkey] at hbatch
      exact .inr hbatch
  have hne : ∀ {n : UInt64}, n.toNat ≤ b.lastBatchNumber.toNat → n ≠ b.lastBatchNumber + 1 := by
    intro n hn heq
    rw [heq, hnext] at hn
    omega
  -- a link looks one number back, where nothing has changed
  have hparent : ∀ {n : UInt64}, 1 ≤ n.toNat → n.toNat ≤ b.lastBatchNumber.toNat + 1 →
      (b.put C sealed).byNumber.lookup (n - 1) = b.byNumber.lookup (n - 1) := by
    intro n hlow hhigh
    refine hnumber (hne ?_)
    rw [UInt64.toNat_sub_of_le _ _ (UInt64.le_iff_toNat_le.mpr (by rw [hone]; exact hlow)), hone]
    omega
  have hlast : (b.put C sealed).lastBatchNumber = b.lastBatchNumber + 1 := hlinks.number
  constructor
  · constructor
    case numbered =>
      intro n
      rw [hlast, UInt64.le_iff_toNat_le, UInt64.le_iff_toNat_le, hone, hnext]
      by_cases hn : n = b.lastBatchNumber + 1
      · rw [hn, hnew, hnext]
        exact iff_of_true rfl (by omega)
      · have htoNat : n.toNat ≠ b.lastBatchNumber.toNat + 1 := fun heq =>
          hn (UInt64.toNat_inj.mp (heq.trans hnext.symm))
        rw [hnumber hn, h.numbered, UInt64.le_iff_toNat_le, UInt64.le_iff_toNat_le, hone]
        omega
    case stored =>
      intro n key hkey
      by_cases hn : n = b.lastBatchNumber + 1
      · subst hn
        rw [hnew] at hkey
        cases hkey
        refine ⟨sealed, Finmap.lookup_insert _, rfl, hlinks.number, ?_, hlinks.root, hlinks.count⟩
        rw [hparent (by omega) (by omega)]
        exact hlinks.parent
      · rw [hnumber hn] at hkey
        obtain ⟨hlow, hhigh⟩ := hother hkey
        obtain ⟨batch, hlookup, hhash, hold⟩ := h.stored n key hkey
        refine ⟨batch, hkeep hlookup, hhash, hold.number, ?_, hold.root, hold.count⟩
        rw [hparent hlow (by omega)]
        exact hold.parent
    case named =>
      intro key batch hbatch
      rcases hcases hbatch with ⟨rfl, rfl⟩ | hold
      · rw [hlinks.number]
        exact hnew
      · have hname := h.named key batch hold
        rw [hnumber (hne (hother hname).2)]
        exact hname
    case logged =>
      intro key batch hbatch
      rcases hcases hbatch with ⟨_, rfl⟩ | hold
      · exact List.mem_append_right _ (List.mem_singleton_self _)
      · exact List.mem_append_left _ (h.logged key batch hold)
    case counted => rw [hcard, hlast, hnext]
    case opened =>
      intro batch hbatch
      cases hbatch
  · intro n batch hget
    obtain ⟨hkey, hlookup, _⟩ := h.lookup_of_get hget
    refine ⟨batch, ?_, rfl, rfl⟩
    rw [getBatchByNumber, hnumber (hne (hother hkey).2), hkey]
    exact hkeep hlookup

theorem computeTxRoot_congr {batch batch' : Batch} (h : batch'.transactions = batch.transactions) :
    batch'.computeTxRoot C = batch.computeTxRoot C := by
  rw [Batch.computeTxRoot, Batch.computeTxRoot, h]

/-- A record is changed in place. -/
theorem Intact.update {hash : H256} {f : Batch → Batch} (h : Intact C log b)
    (hf : ∀ batch, (f batch).header = batch.header ∧ (f batch).transactions = batch.transactions)
    (hupdate : b.updateBatch hash f = .ok b') : Intact C log b' ∧ Kept b b' := by
  rw [updateBatch] at hupdate
  split at hupdate
  · cases hupdate
  · next record hrecord =>
    cases hupdate
    have hforth : ∀ {key old}, b.batches.lookup key = some old →
        ∃ new, (b.batches.insert hash (f record)).lookup key = some new ∧
          new.header = old.header ∧ new.transactions = old.transactions := by
      intro key old hold
      by_cases hkey : key = hash
      · rw [hkey, hrecord] at hold
        cases hold
        rw [hkey]
        exact ⟨f record, Finmap.lookup_insert _, hf record⟩
      · exact ⟨old, (Finmap.lookup_insert_of_ne _ hkey).trans hold, rfl, rfl⟩
    have hback : ∀ {key new}, (b.batches.insert hash (f record)).lookup key = some new →
        ∃ old, b.batches.lookup key = some old ∧ new.header = old.header := by
      intro key new hnew
      by_cases hkey : key = hash
      · rw [hkey, Finmap.lookup_insert] at hnew
        cases hnew
        rw [hkey]
        exact ⟨record, hrecord, (hf record).1⟩
      · rw [Finmap.lookup_insert_of_ne _ hkey] at hnew
        exact ⟨new, hnew, rfl⟩
    constructor
    · constructor
      case numbered => exact h.numbered
      case stored =>
        intro n key hkey
        obtain ⟨old, hold, hhash, hlinks⟩ := h.stored n key hkey
        obtain ⟨new, hnew, hheader, htxs⟩ := hforth hold
        refine ⟨new, hnew, ?_, ?_, ?_, ?_, ?_⟩
        · rw [Batch.hash, hheader]
          exact hhash
        · rw [hheader]
          exact hlinks.number
        · rw [hheader]
          exact hlinks.parent
        · rw [hheader, computeTxRoot_congr htxs]
          exact hlinks.root
        · rw [hheader, htxs]
          exact hlinks.count
      case named =>
        intro key new hnew
        obtain ⟨old, hold, hheader⟩ := hback hnew
        rw [hheader]
        exact h.named key old hold
      case logged =>
        intro key new hnew
        obtain ⟨old, hold, hheader⟩ := hback hnew
        rw [hheader]
        exact h.logged key old hold
      case counted =>
        have hmem : hash ∈ b.batches.keys := by
          rw [Finmap.mem_keys, ← Finmap.lookup_isSome, hrecord]
          rfl
        show (b.batches.insert hash (f record)).keys.card = _
        rw [Column.keys_insert, Finset.insert_eq_of_mem hmem]
        exact h.counted
      case opened =>
        intro batch hbatch
        have hopened := h.opened batch hbatch
        exact ⟨hopened.status, hopened.number, hopened.parent, hopened.count, hopened.room⟩
    · intro n batch hget
      obtain ⟨hkey, hlookup, _⟩ := h.lookup_of_get hget
      obtain ⟨new, hnew, hcontents⟩ := hforth hlookup
      refine ⟨new, ?_, hcontents⟩
      show (b.byNumber.lookup n).bind _ = some new
      rw [hkey]
      exact hnew

/-- **One call** keeps the indexes together and what is sealed. -/
theorem Intact.apply (h : Intact C log b) (op : BuilderOp)
    (hfree : NoCollision C (log ++ op.sealedHeader C b))
    (hsize : (op.apply C b).batches.keys.card < 2 ^ 64) :
    Intact C (log ++ op.sealedHeader C b) (op.apply C b) ∧ Kept b (op.apply C b) ∧
      (op.apply C b).Finds (op.sealedHeader C b) := by
  cases op with
  | startBatch stamp created preStateRoot l1BlockNumber =>
    rw [BuilderOp.sealedHeader, List.append_nil, BuilderOp.apply]
    cases hstart : b.startBatch stamp created preStateRoot l1BlockNumber with
    | error e => exact ⟨h, .refl b, finds_nil b⟩
    | ok b' =>
      obtain ⟨batch, rfl, hopened⟩ := startBatch_ok hstart
      refine ⟨h.open fun batch' hbatch' => ?_, .refl b, finds_nil _⟩
      cases hbatch'
      exact hopened
  | addTransaction tx =>
    rw [BuilderOp.sealedHeader, List.append_nil, BuilderOp.apply]
    cases hadd : b.addTransaction tx with
    | error e => exact ⟨h, .refl b, finds_nil b⟩
    | ok b' =>
      obtain ⟨batch, rfl, hopened⟩ := addTransaction_ok h.opened hadd
      refine ⟨h.open fun batch' hbatch' => ?_, .refl b, finds_nil _⟩
      cases hbatch'
      exact hopened
  | sealBatch now postStateRoot =>
    rw [BuilderOp.apply] at hsize ⊢
    rw [BuilderOp.sealedHeader] at hfree ⊢
    rcases sealBatch_cases C b now postStateRoot with ⟨e, heq⟩ | ⟨batch, sealed, hbatch, hseal, heq⟩
    · rw [heq]
      dsimp only
      rw [List.append_nil]
      refine ⟨h.open fun batch hbatch => ?_, .refl b, finds_nil _⟩
      cases hbatch
    · rw [heq] at hfree hsize ⊢
      have hlinks := (h.opened batch hbatch).seal hseal
      obtain ⟨hintact, hkept⟩ :=
        h.put hlinks (h.fresh hfree (List.mem_singleton_self _) hlinks.number) hsize
      exact ⟨hintact, hkept, finds_put C b sealed⟩
  | updateBatch hash m =>
    rw [BuilderOp.sealedHeader, List.append_nil, BuilderOp.apply]
    cases hupdate : b.updateBatch hash m.run with
    | error e => exact ⟨h, .refl b, finds_nil b⟩
    | ok b' =>
      obtain ⟨hintact, hkept⟩ := h.update m.run_spec hupdate
      exact ⟨hintact, hkept, finds_nil b'⟩

/-- No call takes a record away. -/
theorem card_le_apply (C : Crypto) (b : BatchBuilder) (op : BuilderOp) :
    b.batches.keys.card ≤ (op.apply C b).batches.keys.card := by
  have hinsert : ∀ key batch, b.batches.keys.card ≤ (b.batches.insert key batch).keys.card := by
    intro key batch
    rw [Column.keys_insert]
    exact Finset.card_le_card (Finset.subset_insert _ _)
  cases op with
  | startBatch stamp created preStateRoot l1BlockNumber =>
    rw [BuilderOp.apply]
    cases hstart : b.startBatch stamp created preStateRoot l1BlockNumber with
    | error e => exact Nat.le_refl _
    | ok b' =>
      obtain ⟨batch, rfl, _⟩ := startBatch_ok hstart
      exact Nat.le_refl _
  | addTransaction tx =>
    rw [BuilderOp.apply, addTransaction]
    split
    · exact Nat.le_refl _
    · split
      · exact Nat.le_refl _
      · exact Nat.le_refl _
  | sealBatch now postStateRoot =>
    rw [BuilderOp.apply]
    rcases sealBatch_cases C b now postStateRoot with ⟨e, heq⟩ | ⟨batch, sealed, _, _, heq⟩
    · rw [heq]
    · rw [heq]
      exact hinsert _ _
  | updateBatch hash m =>
    rw [BuilderOp.apply, updateBatch]
    split
    · exact Nat.le_refl _
    · exact hinsert _ _

end BatchBuilder

/-! ## Runs -/

section Runs

variable {C : Crypto} {sequencer : Address}

theorem NoCollision.of_append {log log' : List BatchHeader} (h : NoCollision C (log ++ log')) :
    NoCollision C log :=
  fun x hx y hy => h x (List.mem_append_left _ hx) y (List.mem_append_left _ hy)

theorem card_le_run (b : BatchBuilder) (ops : List BuilderOp) :
    b.batches.keys.card ≤ (runBuilder C b ops).batches.keys.card := by
  induction ops generalizing b with
  | nil => exact Nat.le_refl _
  | cons op ops ih => exact Nat.le_trans (BatchBuilder.card_le_apply C b op) (ih _)

/-- **A run** keeps the invariant and what is sealed, as long as its headers do not collide
and its records can be counted. -/
theorem BatchBuilder.Intact.run {log : List BatchHeader} {b : BatchBuilder} (h : b.Intact C log)
    (ops : List BuilderOp) (hfree : NoCollision C (log ++ sealedHeaders C b ops))
    (hsize : (runBuilder C b ops).batches.keys.card < 2 ^ 64) :
    (runBuilder C b ops).Intact C (log ++ sealedHeaders C b ops) ∧ b.Kept (runBuilder C b ops) ∧
      (runBuilder C b ops).Finds (sealedHeaders C b ops) := by
  induction ops generalizing log b with
  | nil =>
    rw [sealedHeaders, List.append_nil]
    exact ⟨h, .refl b, BatchBuilder.finds_nil b⟩
  | cons op ops ih =>
    rw [sealedHeaders, ← List.append_assoc] at hfree ⊢
    obtain ⟨hintact, hkept, hfinds⟩ :=
      h.apply op hfree.of_append (Nat.lt_of_le_of_lt (card_le_run _ ops) hsize)
    obtain ⟨hintact', hkept', hfinds'⟩ := ih hintact hfree hsize
    exact ⟨hintact', hkept.trans hkept', (hfinds.kept hkept').append hfinds'⟩

end Runs

/-- The sealed batches are numbered from one to the counter, each under its hash and linked
to the one before. -/
structure BatchBuilder.Chained (C : Crypto) (b : BatchBuilder) : Prop where
  numbers : ∀ n, (∃ batch, b.getBatchByNumber n = some batch) ↔ 1 ≤ n ∧ n ≤ b.lastBatchNumber
  stored : ∀ n batch, b.getBatchByNumber n = some batch → batch.header.batchNumber = n ∧
    b.byNumber.lookup n = some (batch.hash C) ∧ b.batches.lookup (batch.hash C) = some batch
  complete : ∀ key batch, b.batches.lookup key = some batch →
    b.getBatchByNumber batch.header.batchNumber = some batch
  first : ∀ batch, b.getBatchByNumber 1 = some batch → batch.header.parentHash = H256.zero
  parents : ∀ n batch, n ≠ 1 → b.getBatchByNumber n = some batch →
    ∃ parent, b.getBatchByNumber (n - 1) = some parent ∧
      batch.header.parentHash = parent.hash C
  contents : ∀ n batch, b.getBatchByNumber n = some batch →
    batch.header.txRoot = batch.computeTxRoot C ∧
      batch.header.txCount.toNat = batch.transactions.length

theorem BatchBuilder.Intact.chained {C : Crypto} {log : List BatchHeader} {b : BatchBuilder}
    (h : Intact C log b) : b.Chained C := by
  constructor
  case numbers =>
    intro n
    rw [← h.numbered n, Option.isSome_iff_exists]
    constructor
    · rintro ⟨batch, hget⟩
      exact ⟨_, (h.lookup_of_get hget).1⟩
    · rintro ⟨key, hkey⟩
      obtain ⟨batch, hget, _⟩ := h.get_of_lookup hkey
      exact ⟨batch, hget⟩
  case stored =>
    intro n batch hget
    obtain ⟨hkey, hlookup, hlinks⟩ := h.lookup_of_get hget
    exact ⟨hlinks.number, hkey, hlookup⟩
  case complete =>
    intro key batch hbatch
    rw [getBatchByNumber, h.named key batch hbatch]
    exact hbatch
  case first =>
    intro batch hget
    obtain ⟨_, _, hlinks⟩ := h.lookup_of_get hget
    have hzero : b.byNumber.lookup (1 - 1) = none := by
      cases hlookup : b.byNumber.lookup (1 - 1) with
      | none => rfl
      | some key =>
        have hrange := (h.numbered (1 - 1)).mp (by rw [hlookup]; rfl)
        exact absurd hrange.1 (by decide)
    rw [hlinks.parent, hzero]
    rfl
  case parents =>
    intro n batch hn hget
    obtain ⟨hkey, _, hlinks⟩ := h.lookup_of_get hget
    have hrange := (h.numbered n).mp (by rw [hkey]; rfl)
    have hone : (1 : UInt64).toNat = 1 := rfl
    have htoNat : n.toNat ≠ 1 := fun heq => hn (UInt64.toNat_inj.mp heq)
    rw [UInt64.le_iff_toNat_le, UInt64.le_iff_toNat_le, hone] at hrange
    have hbefore : (b.byNumber.lookup (n - 1)).isSome = true := by
      rw [h.numbered, UInt64.le_iff_toNat_le, UInt64.le_iff_toNat_le, hone,
        UInt64.toNat_sub_of_le _ _ (UInt64.le_iff_toNat_le.mpr (by rw [hone]; exact hrange.1)),
        hone]
      omega
    obtain ⟨key, hparent⟩ := Option.isSome_iff_exists.mp hbefore
    obtain ⟨parent, hget', hhash⟩ := h.get_of_lookup hparent
    refine ⟨parent, hget', ?_⟩
    rw [hlinks.parent, hparent, hhash]
    rfl
  case contents =>
    intro n batch hget
    obtain ⟨_, _, hlinks⟩ := h.lookup_of_get hget
    exact ⟨hlinks.root, hlinks.count⟩

/-- **Batch chain.** After any calls all that was sealed is one chain, and no later call
changes the header or the transactions of a sealed batch, if no two sealed headers collide. -/
theorem batchChain_intact (C : Crypto) (sequencer : Address) (ops later : List BuilderOp)
    (hfree : NoCollision C (sealedHeaders C (BatchBuilder.new sequencer) (ops ++ later)))
    (hsize : (runBuilder C (BatchBuilder.new sequencer) (ops ++ later)).batches.keys.card
      < 2 ^ 64) :
    (runBuilder C (BatchBuilder.new sequencer) ops).Chained C ∧
      (runBuilder C (BatchBuilder.new sequencer) ops).Finds
        (sealedHeaders C (BatchBuilder.new sequencer) ops) ∧
      (runBuilder C (BatchBuilder.new sequencer) ops).Kept
        (runBuilder C (BatchBuilder.new sequencer) (ops ++ later)) := by
  rw [sealedHeaders_append] at hfree
  rw [runBuilder_append] at hsize ⊢
  have hstart := BatchBuilder.intact_new C sequencer
  obtain ⟨hintact, _, hfinds⟩ :=
    hstart.run ops hfree.of_append (Nat.lt_of_le_of_lt (card_le_run _ later) hsize)
  obtain ⟨_, hkept, _⟩ := hintact.run later hfree hsize
  exact ⟨hintact.chained, hfinds, hkept⟩

/-! ## Two batches -/

/-- The header of a batch with one payment in it. -/
def paidHeader : BatchHeader where
  batchNumber := 1
  parentHash := H256.zero
  preStateRoot := ⟨Vector.replicate 32 1⟩
  postStateRoot := ⟨Vector.replicate 32 1⟩
  txRoot := payment.hash
  txCount := 1
  gasUsed := 21000
  timestamp := 0
  sequencer := alice
  l1BlockNumber := 100

/-- And of an empty one behind it. -/
def emptyHeader : BatchHeader :=
  { paidHeader with
    batchNumber := 2
    parentHash := H256.ofNatBE 0x69c7071225af93551cbbd5c2b84ff5eda46be1d96251db94e0f180e84c073ec3
    txRoot := H256.zero
    txCount := 0
    gasUsed := 0 }

/-- BLAKE3 of both. -/
def headerCrypto : Crypto := Crypto.ofTable
  [(paidHeader.preimage,
    H256.ofNatBE 0x69c7071225af93551cbbd5c2b84ff5eda46be1d96251db94e0f180e84c073ec3),
   (emptyHeader.preimage,
    H256.ofNatBE 0xb7036a2240115718e34d36493d17efec54bdc2b123ecd14a94adb2bbcdd153ac)]

def sealTwo : List BuilderOp :=
  [.startBatch 0 0 ⟨Vector.replicate 32 1⟩ 100, .addTransaction payment,
    .sealBatch 0 ⟨Vector.replicate 32 1⟩, .startBatch 0 0 ⟨Vector.replicate 32 1⟩ 100,
    .sealBatch 0 ⟨Vector.replicate 32 1⟩]

/-- The proof of the first. -/
def proveFirst : List BuilderOp := [.updateBatch emptyHeader.parentHash (.setProof 0 [1])]

theorem batchChain_two :
    (runBuilder headerCrypto (BatchBuilder.new alice) sealTwo).Chained headerCrypto ∧
      (runBuilder headerCrypto (BatchBuilder.new alice) sealTwo).Finds
        (sealedHeaders headerCrypto (BatchBuilder.new alice) sealTwo) ∧
      (runBuilder headerCrypto (BatchBuilder.new alice) sealTwo).Kept
        (runBuilder headerCrypto (BatchBuilder.new alice) (sealTwo ++ proveFirst)) := by
  have hsealed : sealedHeaders headerCrypto (BatchBuilder.new alice) (sealTwo ++ proveFirst) =
      [paidHeader, emptyHeader] := by decide +kernel
  refine batchChain_intact headerCrypto alice sealTwo proveFirst ?_ (by decide +kernel)
  rw [hsealed]
  show ∀ h ∈ [paidHeader, emptyHeader], ∀ h' ∈ [paidHeader, emptyHeader],
    headerCrypto.blake3 h.preimage = headerCrypto.blake3 h'.preimage → h.preimage = h'.preimage
  decide +kernel

end Pyrax.Rollup
