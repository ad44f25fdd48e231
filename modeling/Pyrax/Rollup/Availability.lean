import Pyrax.Rollup.Batch
import Pyrax.Base.RunLength
import Mathlib.Data.List.Defs

/-!
# The data of a batch, published and read back

`pyrax-node/src/zkrollup/da.rs`: a batch is serialized, compressed, committed to and kept
in a cache under the hash of what is kept. Reading it back goes the same way
(`published_readable`): the compression loses nothing, since an escape byte never stands
for itself, and nothing that is called later takes the data out of the cache, unless two
different data have one hash.

Availability proofs, which only hash the cached data, and the names of the other
providers' errors are left out.
-/

namespace Pyrax.Rollup

open Base Wire

inductive DaProvider where
  | l1Calldata
  | l1Blobs
  | celestia
  | eigenDA
  | avail
  | custom
  deriving DecidableEq

def DaProvider.costPerByte : DaProvider → UInt64
  | l1Calldata => 16
  | l1Blobs => 1
  | celestia => 1
  | eigenDA => 1
  | avail => 1
  | custom => 1

inductive CommitmentScheme where
  | kzg
  | merkle
  | reedSolomon
  deriving DecidableEq

/-- `DaConfig` with its defaults. -/
structure DaConfig where
  provider : DaProvider := .l1Calldata
  fallback : Option DaProvider := some .celestia
  maxDataSize : Nat := 128 * 1024
  blobSize : Nat := 128 * 1024
  retentionPeriod : UInt64 := 30 * 24 * 60 * 60
  compression : Bool := true
  commitmentScheme : CommitmentScheme := .kzg
  deriving DecidableEq

/-! ## Commitments -/

structure DaCommitment where
  commitment : H256
  dataRoot : H256
  provider : DaProvider
  dataSize : Nat
  blobIndex : Option UInt64
  externalRef : Option String
  timestamp : UInt64
  expiresAt : UInt64
  availabilityProof : Option (List UInt8)
  deriving DecidableEq

namespace DaCommitment

variable (C : Crypto)

def kzgCommitment (data : List UInt8) : H256 := C.blake3 ("KZG_COMMITMENT".toUTF8.toList ++ data)

/-- Over chunks of 256 bytes, a lone hash paired with zero. -/
def merkleCommitment (data : List UInt8) : H256 :=
  let chunks := data.toChunks 256
  if chunks.isEmpty then H256.zero else rootOf C (chunks.map C.blake3)

def rsCommitment (data : List UInt8) : H256 := C.blake3 ("RS_COMMITMENT".toUTF8.toList ++ data)

def computeCommitment (data : List UInt8) : CommitmentScheme → H256
  | .kzg => kzgCommitment C data
  | .merkle => merkleCommitment C data
  | .reedSolomon => rsCommitment C data

def computeDataRoot (data : List UInt8) : H256 := C.blake3 data

def new (now : UInt64) (data : List UInt8) (provider : DaProvider) (config : DaConfig) :
    DaCommitment where
  commitment := computeCommitment C data config.commitmentScheme
  dataRoot := computeDataRoot C data
  provider := provider
  dataSize := data.length
  blobIndex := none
  externalRef := none
  timestamp := now
  expiresAt := now + config.retentionPeriod
  availabilityProof := none

def isExpired (now : UInt64) (c : DaCommitment) : Bool := decide (c.expiresAt < now)

def verify (c : DaCommitment) (data : List UInt8) (scheme : CommitmentScheme) : Bool :=
  computeCommitment C data scheme == c.commitment

end DaCommitment

/-! ## The manager -/

structure DaSubmission where
  id : H256
  batchHash : H256
  commitment : DaCommitment
  l1TxHash : Option H256
  cost : UInt64
  submittedAt : UInt64
  confirmedAt : Option UInt64
  confirmed : Bool
  deriving DecidableEq

structure DaStats where
  submissions : UInt64 := 0
  confirmations : UInt64 := 0
  totalDataSize : UInt64 := 0
  totalCost : UInt64 := 0
  cleanups : UInt64 := 0
  deriving DecidableEq

inductive DaError where
  | dataTooLarge (size max : Nat)
  | submissionNotFound (id : H256)
  | dataExpired
  deriving DecidableEq

structure DataAvailability where
  config : DaConfig
  pending : Column H256 DaSubmission
  confirmed : Column H256 DaSubmission
  byBatch : Column H256 H256
  dataCache : Column H256 (List UInt8)
  stats : DaStats

/-- A transaction as it is published. Its hash, gas price, signature and type are not. -/
def serializeTransaction (tx : L2Transaction) : List UInt8 :=
  tx.sender.asBytes ++
    (match tx.recipient with
      | some recipient => 1 :: recipient.asBytes
      | none => [0]) ++
    encU64 tx.value ++ encU64 tx.gasLimit ++ encU64 tx.nonce ++
    encU32 (UInt32.ofNat tx.data.length) ++ tx.data

/-- `serialize_batch`, which never fails. -/
def serializeBatch (batch : Batch) : List UInt8 :=
  encU64 batch.header.batchNumber ++ batch.header.preStateRoot.asBytes ++
    batch.header.postStateRoot.asBytes ++ batch.header.txRoot.asBytes ++
    encU32 batch.header.txCount ++ batch.transactions.flatMap serializeTransaction

/-- Runs of more than three bytes and all escape bytes are written behind an escape. -/
def compress (data : List UInt8) : List UInt8 := encodeRuns 0xFF 3 255 data.length data

def decompress (data : List UInt8) : List UInt8 := decodeRuns 0xFF data

namespace DataAvailability

variable (C : Crypto)

def new (config : DaConfig) : DataAvailability := ⟨config, ∅, ∅, ∅, ∅, {}⟩

/-- What is committed to and kept. -/
def finalData (da : DataAvailability) (batch : Batch) : List UInt8 :=
  if da.config.compression then compress (serializeBatch batch) else serializeBatch batch

def calculateCost (da : DataAvailability) (size : Nat) : UInt64 :=
  UInt64.ofNat size * da.config.provider.costPerByte

/-- The submission of a batch; the clock is read for the commitment and again here. -/
def submission (now submitted : UInt64) (da : DataAvailability) (batch : Batch) : DaSubmission :=
  let finalData := da.finalData batch
  let commitment := DaCommitment.new C now finalData da.config.provider da.config
  { id := commitment.commitment
    batchHash := batch.hash C
    commitment := commitment
    l1TxHash := none
    cost := da.calculateCost finalData.length
    submittedAt := submitted
    confirmedAt := none
    confirmed := false }

/-- `submit_batch`; the size limit is on the data before compression. -/
def submitBatch (now submitted : UInt64) (da : DataAvailability) (batch : Batch) :
    DataAvailability × Except DaError DaSubmission :=
  let data := serializeBatch batch
  if da.config.maxDataSize < data.length then
    (da, .error (.dataTooLarge data.length da.config.maxDataSize))
  else
    let submission := da.submission C now submitted batch
    ({ da with
        pending := da.pending.insert submission.id submission
        byBatch := da.byBatch.insert (batch.hash C) submission.id
        dataCache := da.dataCache.insert submission.commitment.dataRoot (da.finalData batch)
        stats :=
          { da.stats with
            submissions := da.stats.submissions + 1
            totalDataSize := da.stats.totalDataSize + UInt64.ofNat data.length } },
      .ok submission)

def confirmSubmission (now : UInt64) (da : DataAvailability) (submissionId : H256)
    (l1TxHash : Option H256) : DataAvailability × Except DaError Unit :=
  match da.pending.lookup submissionId with
  | none => (da, .error (.submissionNotFound submissionId))
  | some submission =>
    ({ da with
        pending := da.pending.erase submissionId
        confirmed := da.confirmed.insert submissionId
          { submission with l1TxHash := l1TxHash, confirmedAt := some now, confirmed := true }
        stats := { da.stats with confirmations := da.stats.confirmations + 1 } },
      .ok ())

def getData (da : DataAvailability) (dataRoot : H256) : Option (List UInt8) :=
  (da.dataCache.lookup dataRoot).map fun data =>
    if da.config.compression then decompress data else data

def verifyAvailability (now : UInt64) (da : DataAvailability) (commitment : DaCommitment) :
    Except DaError Bool :=
  match da.dataCache.lookup commitment.dataRoot with
  | some data => .ok (commitment.verify C data da.config.commitmentScheme)
  | none => if commitment.isExpired now then .error .dataExpired else .ok false

def getByBatch (da : DataAvailability) (batchHash : H256) : Option DaSubmission :=
  (da.byBatch.lookup batchHash).bind fun id =>
    (da.confirmed.lookup id).or (da.pending.lookup id)

/-- `cleanup_expired`; nothing is taken out of the cache. -/
def cleanupExpired (da : DataAvailability) : DataAvailability :=
  { da with stats := { da.stats with cleanups := da.stats.cleanups + 1 } }

end DataAvailability

/-- A call to the manager with its clock readings. -/
inductive DaOp where
  | submitBatch (now submitted : UInt64) (batch : Batch)
  | confirmSubmission (now : UInt64) (submissionId : H256) (l1TxHash : Option H256)
  | cleanupExpired

namespace DaOp

def apply (C : Crypto) (da : DataAvailability) : DaOp → DataAvailability
  | submitBatch now submitted batch => (da.submitBatch C now submitted batch).1
  | confirmSubmission now submissionId l1TxHash => (da.confirmSubmission now submissionId l1TxHash).1
  | cleanupExpired => da.cleanupExpired

def run (C : Crypto) (da : DataAvailability) (ops : List DaOp) : DataAvailability :=
  ops.foldl (apply C) da

/-- The batch that a call submits. -/
def batch? : DaOp → Option Batch
  | submitBatch _ _ batch => some batch
  | _ => none

end DaOp

/-! ## Round trips -/

variable {C : Crypto} {da da' : DataAvailability} {batch : Batch} {submission : DaSubmission}
  {now submitted : UInt64}

theorem decompress_compress (data : List UInt8) : decompress (compress data) = data :=
  decodeRuns_encodeRuns data.length data (Nat.le_refl _)

namespace DataAvailability

/-- What is kept, read as it is read out. -/
theorem read_finalData (da : DataAvailability) (batch : Batch) :
    (if da.config.compression then decompress (da.finalData batch) else da.finalData batch)
      = serializeBatch batch := by
  rw [finalData]
  split
  · exact decompress_compress _
  · rfl

/-- The cache holds the data of the batch under its root. -/
structure Keeps (C : Crypto) (da₀ : DataAvailability) (batch : Batch) (da : DataAvailability) :
    Prop where
  config : da.config = da₀.config
  cached : da.dataCache.lookup (C.blake3 (da₀.finalData batch)) = some (da₀.finalData batch)

theorem finalData_congr (h : da'.config = da.config) (batch : Batch) :
    da'.finalData batch = da.finalData batch := by
  rw [finalData, finalData, h]

theorem submitBatch_ok (h : da.submitBatch C now submitted batch = (da', .ok submission)) :
    submission = da.submission C now submitted batch ∧ Keeps C da batch da' := by
  rw [submitBatch] at h
  dsimp only at h
  split at h
  · cases h
  · cases h
    exact ⟨rfl, rfl, Finmap.lookup_insert _⟩

/-- **One call** leaves the data where they are, unless it submits others of the same hash. -/
theorem Keeps.apply {op : DaOp} (h : Keeps C da batch da')
    (hfree : ∀ b, op.batch? = some b → C.blake3 (da.finalData b) = C.blake3 (da.finalData batch) →
      da.finalData b = da.finalData batch) :
    Keeps C da batch (op.apply C da') := by
  cases op with
  | submitBatch now submitted b =>
    rw [DaOp.apply, submitBatch]
    dsimp only
    split
    · exact h
    · refine ⟨h.config, ?_⟩
      show (da'.dataCache.insert (C.blake3 (da'.finalData b)) (da'.finalData b)).lookup _ = _
      rw [finalData_congr h.config]
      by_cases hroot : C.blake3 (da.finalData batch) = C.blake3 (da.finalData b)
      · rw [hroot, Finmap.lookup_insert, hfree b rfl hroot.symm]
      · rw [Finmap.lookup_insert_of_ne _ hroot, h.cached]
  | confirmSubmission now id l1TxHash =>
    rw [DaOp.apply, confirmSubmission]
    split
    · exact h
    · exact ⟨h.config, h.cached⟩
  | cleanupExpired => exact ⟨h.config, h.cached⟩

theorem Keeps.run {ops : List DaOp} (h : Keeps C da batch da')
    (hfree : ∀ op ∈ ops, ∀ b, op.batch? = some b →
      C.blake3 (da.finalData b) = C.blake3 (da.finalData batch) →
      da.finalData b = da.finalData batch) :
    Keeps C da batch (DaOp.run C da' ops) := by
  induction ops generalizing da' with
  | nil => exact h
  | cons op ops ih =>
    exact ih (h.apply (hfree op (List.mem_cons_self ..)))
      fun o ho => hfree o (List.mem_cons_of_mem _ ho)

end DataAvailability

open DataAvailability in
/-- **Availability.** Compressing loses nothing; and of a batch that was accepted the data are
read back as they were serialized and the commitment verifies, at once and after any
further calls, if none of them submits other data of the same hash. -/
theorem published_readable (C : Crypto) (da da' : DataAvailability) (batch : Batch)
    (now submitted : UInt64) (submission : DaSubmission) (ops : List DaOp) (data : List UInt8)
    (h : da.submitBatch C now submitted batch = (da', .ok submission))
    (hfree : ∀ op ∈ ops, ∀ b, op.batch? = some b →
      C.blake3 (da.finalData b) = C.blake3 (da.finalData batch) →
      da.finalData b = da.finalData batch) :
    decompress (compress data) = data ∧
      (DaOp.run C da' ops).getData submission.commitment.dataRoot = some (serializeBatch batch) ∧
      ∀ later, (DaOp.run C da' ops).verifyAvailability C later submission.commitment
        = .ok true := by
  obtain ⟨rfl, hkeeps⟩ := submitBatch_ok h
  have hrun := hkeeps.run hfree
  refine ⟨decompress_compress data, ?_, fun later => ?_⟩
  · show ((DaOp.run C da' ops).dataCache.lookup (C.blake3 (da.finalData batch))).map _ = _
    rw [hrun.cached, Option.map_some, hrun.config, read_finalData]
  · have hcached : (DaOp.run C da' ops).dataCache.lookup
        (da.submission C now submitted batch).commitment.dataRoot = some (da.finalData batch) :=
      hrun.cached
    rw [verifyAvailability, hcached, hrun.config]
    exact congrArg Except.ok (beq_self_eq_true _)

/-- The batch of the source's tests, sealed with one payment. -/
def publishedBatch : Batch :=
  let opened := Batch.new 0 0 1 H256.zero ⟨Vector.replicate 32 1⟩ alice 100
  { opened with
    header := { opened.header with txCount := 1, gasUsed := 21000 }
    transactions := [⟨H256.zero, alice, some bob, 1000, 21000, 1000000, 0, [], [], 0⟩]
    status := .sealed }

/-- What its 164 bytes are compressed to. -/
def publishedData : List UInt8 :=
  [1, 255, 7, 0, 255, 64, 1, 255, 32, 0, 1, 0, 0, 0, 255, 21, 1, 255, 20, 2, 232, 3, 255, 6, 0,
    8, 82, 255, 18, 0]

/-- BLAKE3 of these, of their commitment and of the header. -/
def publishedCrypto : Crypto := Crypto.ofTable
  [(publishedData,
    H256.ofNatBE 0xf6af7f8b7dfc67cfb2f72de4bfb95246c364c606f16d1f5cd332cb56acdf5d2f),
   ("KZG_COMMITMENT".toUTF8.toList ++ publishedData,
    H256.ofNatBE 0x202c1ab58c97ad9799e573758a4fb92e27c667f464760dae8e2b5f58f75cf859),
   ([1, 0, 0, 0, 0, 0, 0, 0] ++ List.replicate 32 0 ++ List.replicate 64 1 ++
      List.replicate 32 0 ++ [1, 0, 0, 0, 8, 82] ++ List.replicate 14 0 ++ List.replicate 20 1,
    H256.ofNatBE 0x9a6e29b3c8cc34179988e32a1c2ce07f8de38867be2e4741c639008955b1b9e2)]

open DataAvailability in
theorem published_readable_once :
    let da := DataAvailability.new {}
    let published := (da.submitBatch publishedCrypto 0 0 publishedBatch).1
    let commitment := (da.submission publishedCrypto 0 0 publishedBatch).commitment
    decompress (compress [255, 7, 7, 7, 7, 255]) = [255, 7, 7, 7, 7, 255] ∧
      (DaOp.run publishedCrypto published [.cleanupExpired]).getData commitment.dataRoot
        = some (serializeBatch publishedBatch) ∧
      ∀ later, (DaOp.run publishedCrypto published [.cleanupExpired]).verifyAvailability
        publishedCrypto later commitment = .ok true := by
  have hok : ((DataAvailability.new {}).submitBatch publishedCrypto 0 0 publishedBatch)
      = (((DataAvailability.new {}).submitBatch publishedCrypto 0 0 publishedBatch).1,
        .ok ((DataAvailability.new {}).submission publishedCrypto 0 0 publishedBatch)) := by
    rw [submitBatch]
    dsimp only
    rw [if_neg (by decide +kernel)]
  refine published_readable publishedCrypto _ _ publishedBatch 0 0 _ [.cleanupExpired]
    [255, 7, 7, 7, 7, 255] hok fun op hop b hb => ?_
  rw [List.mem_singleton.mp hop] at hb
  cases hb

end Pyrax.Rollup
