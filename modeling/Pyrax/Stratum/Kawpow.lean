import Pyrax.Base.Records
import Pyrax.Base.Run
import Pyrax.Node.Entry

/-!
# The KAWPOW stratum server

`pyrax-node/src/miner/stratum_server.rs`: jobs made from block templates, the light cache
of one epoch, workers and their shares. The public `create_job` brings the cache to the
epoch of the template, `create_job_internal`, which the update loop calls, does not; both
store the job under an id of its height and the millisecond. A submission names a job and
carries the nonce *and* the header hash that the proof of work is evaluated on, and the
block of a winning share pays the beneficiary of the worker.

Texts off the wire are taken as parsed. The cache generation and the ProgPoW loop of
`consensus/kawpow.rs` are parameters (`Kawpow`): nothing here depends on what they compute.
A share target comes from a floating-point difficulty and is an argument, as are the
clocks and the answer of the submit callback. Readings of the monotonic clock are
nanoseconds.
-/

namespace Pyrax.Stratum

open Base Node Hex

/-! ## Jobs -/

/-- `format!("{:08x}", n)`. -/
def hex08 (n : Nat) : String :=
  let digits := Nat.toDigits 16 n
  String.ofList (List.replicate (8 - digits.length) '0' ++ digits)

/-- `generate_job_id`: the height and the low half of the clock in milliseconds. -/
def generateJobId (height millis : UInt64) : String :=
  hex08 height.toNat ++ hex08 (millis &&& 0xFFFFFFFF).toNat

theorem ofDigits_hex08 (n : Nat) : ofDigits (hex08 n).toList = n := by
  rw [hex08, String.toList_ofList, ofDigits_replicate_append, ofDigits_toDigits]

theorem length_hex08 {n : Nat} (h : n < 2 ^ 32) : (hex08 n).toList.length = 8 := by
  have hlen : (Nat.toDigits 16 n).length ≤ 8 :=
    (Nat.length_toDigits_le_iff (by decide) (by decide)).mpr (by simpa using h)
  rw [hex08, String.toList_ofList, List.length_append, List.length_replicate]
  omega

theorem hex08_inj {m n : Nat} (h : hex08 m = hex08 n) : m = n := by
  rw [← ofDigits_hex08 m, h, ofDigits_hex08]

theorem millis_lt (millis : UInt64) : (millis &&& 0xFFFFFFFF).toNat < 2 ^ 32 := by
  rw [UInt64.toNat_and]
  exact Nat.lt_of_le_of_lt Nat.and_le_right (by decide)

/-- An id tells its height and its millisecond. -/
theorem generateJobId_eq_iff {height height' millis millis' : UInt64} :
    generateJobId height millis = generateJobId height' millis' ↔
      height = height' ∧ millis &&& 0xFFFFFFFF = millis' &&& 0xFFFFFFFF := by
  constructor
  · intro h
    have hlist := congrArg String.toList h
    rw [generateJobId, generateJobId, String.toList_append, String.toList_append] at hlist
    obtain ⟨hheight, hmillis⟩ := List.append_inj' hlist (by
      rw [length_hex08 (millis_lt _), length_hex08 (millis_lt _)])
    exact ⟨UInt64.toNat_inj.mp (hex08_inj (String.toList_inj.mp hheight)),
      UInt64.toNat_inj.mp (hex08_inj (String.toList_inj.mp hmillis))⟩
  · rintro ⟨rfl, h⟩
    rw [generateJobId, generateJobId, h]

def EPOCH_LENGTH : UInt64 := 7500

def getEpoch (height : UInt64) : UInt64 := height / EPOCH_LENGTH

/-- 16 MB, and 128 KB more each epoch. -/
def getCacheSize (epoch : UInt64) : UInt64 := 16 * 1024 * 1024 + 128 * 1024 * epoch

/-- `compute_seed`: Keccak-256 over and over, from zero. -/
def computeSeed (C : Crypto) (epoch : UInt64) : H256 :=
  (fun seed : H256 => C.keccak256 seed.asBytes)^[epoch.toNat] H256.zero

/-- The two large functions of `consensus/kawpow.rs`. -/
structure Kawpow where
  generateCache : H256 → UInt64 → List (Vector UInt8 64)
  kawpowHash : H256 → UInt64 → UInt64 → List (Vector UInt8 64) → H256

structure KawpowCache where
  epoch : UInt64
  seed : H256
  cache : List (Vector UInt8 64)
  deriving DecidableEq

/-- The cache of an epoch. -/
def KawpowCache.ofEpoch (C : Crypto) (K : Kawpow) (epoch : UInt64) : KawpowCache :=
  ⟨epoch, computeSeed C epoch, K.generateCache (computeSeed C epoch) (getCacheSize epoch)⟩

/-- `MiningJob` with what a share is checked against. -/
structure Job extends Node.MiningJob where
  jobId : String
  headerHash : H256
  seedHash : H256
  target : H256
  createdAt : Nat
  clean : Bool
  deriving DecidableEq

structure Config where
  coinbaseAddress : Address
  /-- In seconds. -/
  jobTimeout : UInt64
  deriving DecidableEq

/-- The job of `create_job` and of `create_job_internal`, which the source writes out
twice. Its header hash is that of a header that pays the server's own address. -/
def newJob (C : Crypto) (config : Config) (template : BlockTemplate) (clean : Bool)
    (millis : UInt64) (now : Nat) : Job :=
  let job := Node.createJob C config.coinbaseAddress template
  { job with
    jobId := generateJobId template.height millis
    headerHash := (job.block 0 config.coinbaseAddress).header.hash C
    seedHash := computeSeed C (getEpoch template.height)
    target := difficultyToTarget template.difficulty
    createdAt := now
    clean := clean }

/-! ## The server -/

/-- The share target follows from the worker's difficulty and is given with the share. -/
structure Worker where
  beneficiary : Option Address
  sharesAccepted : UInt64
  sharesRejected : UInt64
  sharesStale : UInt64
  deriving DecidableEq

def Worker.new : Worker := ⟨none, 0, 0, 0⟩

structure Share where
  workerId : UInt64
  jobId : String
  nonce : UInt64
  headerHash : H256
  deriving DecidableEq

inductive ShareResult where
  | accepted
  | acceptedBlock (hash : H256)
  | rejected (message : String)
  | stale
  deriving DecidableEq

/-- The worker's own counters. -/
def Worker.count (w : Worker) : ShareResult → Worker
  | .accepted => { w with sharesAccepted := w.sharesAccepted + 1 }
  | .acceptedBlock _ => { w with sharesAccepted := w.sharesAccepted + 1 }
  | .rejected _ => { w with sharesRejected := w.sharesRejected + 1 }
  | .stale => { w with sharesStale := w.sharesStale + 1 }

/-- Whether a share was accepted, as a block or as a share alone. -/
def ShareResult.isAccepted : ShareResult → Bool
  | .accepted => true
  | .acceptedBlock _ => true
  | .rejected _ => false
  | .stale => false

structure StratumServer where
  config : Config
  workers : Column UInt64 Worker
  jobs : Column String Job
  currentJob : Option Job
  kawpowCache : Option KawpowCache
  /-- Whether a submit callback is set. -/
  submits : Bool
  sharesAccepted : UInt64
  sharesRejected : UInt64
  blocksFound : UInt64

/-- What an accepted share was accepted for: the job, what the hash was evaluated on, and
the block handed to the callback. -/
structure Credit where
  job : Job
  nonce : UInt64
  headerHash : H256
  cache : KawpowCache
  block : Option Block
  deriving DecidableEq

namespace StratumServer

def new (config : Config) (submits : Bool) : StratumServer where
  config := config
  workers := ∅
  jobs := ∅
  currentJob := none
  kawpowCache := none
  submits := submits
  sharesAccepted := 0
  sharesRejected := 0
  blocksFound := 0

/-- The cache is made anew when there is none or its epoch is another. -/
def ensureKawpowCache (C : Crypto) (K : Kawpow) (s : StratumServer) (height : UInt64) :
    StratumServer :=
  if s.kawpowCache.map (·.epoch) = some (getEpoch height) then s
  else { s with kawpowCache := some (KawpowCache.ofEpoch C K (getEpoch height)) }

/-- The keys of the oldest jobs beyond ten, in a stable order by age. -/
def oldJobs (order : Column.KeyOrder String Job) (jobs : Column String Job) : List String :=
  let entries := order.entries jobs
  if 10 < entries.length then
    ((entries.mergeSort fun a b => a.2.createdAt ≤ b.2.createdAt).take (entries.length - 10)).map
      Prod.fst
  else []

/-- Put the job into the table and keep the last ten. -/
def storeJob (s : StratumServer) (order : Column.KeyOrder String Job) (job : Job) :
    StratumServer :=
  let jobs := s.jobs.insert job.jobId job
  { s with
    jobs := (oldJobs order jobs).foldl (fun m key => m.erase key) jobs
    currentJob := some job }

def createJob (C : Crypto) (K : Kawpow) (s : StratumServer) (order : Column.KeyOrder String Job)
    (template : BlockTemplate) (clean : Bool) (millis : UInt64) (now : Nat) : StratumServer :=
  (s.ensureKawpowCache C K template.height).storeJob order
    (newJob C s.config template clean millis now)

/-- What the update loop calls. -/
def createJobInternal (C : Crypto) (s : StratumServer) (order : Column.KeyOrder String Job)
    (template : BlockTemplate) (clean : Bool) (millis : UInt64) (now : Nat) : StratumServer :=
  s.storeJob order (newJob C s.config template clean millis now)

/-- `job.created_at.elapsed() > Duration::from_secs(job_timeout)`. -/
def expired (config : Config) (job : Job) (now : Nat) : Bool :=
  decide (config.jobTimeout.toNat * 1000000000 < now - job.createdAt)

/-- A job that is stored and not too old. -/
def liveJob (s : StratumServer) (jobId : String) (now : Nat) : Option Job :=
  (s.jobs.lookup jobId).filter fun job => !expired s.config job now

/-- The beneficiary of a worker's block. -/
def beneficiary (s : StratumServer) (worker : Worker) : Address :=
  worker.beneficiary.getD s.config.coinbaseAddress

/-- `validate_share_internal`, with the server's counters and, for an accepted share, what
it was accepted for. `answer` is what the callback says to a block. -/
def validateShareInternal (K : Kawpow) (s : StratumServer) (share : Share) (worker : Worker)
    (shareTarget : H256) (now : Nat) (answer : Except String H256) :
    ShareResult × StratumServer × Option Credit :=
  match s.liveJob share.jobId now with
  | none => (.stale, s, none)
  | some job =>
    match s.kawpowCache with
    | none => (.rejected "No KAWPOW cache", s, none)
    | some cache =>
      let powHash := K.kawpowHash share.headerHash share.nonce job.height cache.cache
      let credit : Credit := ⟨job, share.nonce, share.headerHash, cache, none⟩
      if shareTarget.lt powHash then
        (.rejected "Below share target", { s with sharesRejected := s.sharesRejected + 1 }, none)
      else if powHash.le job.target then
        let s' := { s with
          sharesAccepted := s.sharesAccepted + 1
          blocksFound := s.blocksFound + 1 }
        if s.submits then
          let block := job.block share.nonce (s.beneficiary worker)
          (.acceptedBlock (answer.toOption.getD powHash), s',
            some { credit with block := some block })
        else (.acceptedBlock powHash, s', some credit)
      else (.accepted, { s with sharesAccepted := s.sharesAccepted + 1 }, some credit)

/-- `handle_submit`; `none` for a worker the server does not know. -/
def handleSubmit (K : Kawpow) (s : StratumServer) (share : Share) (shareTarget : H256) (now : Nat)
    (answer : Except String H256) : Option (ShareResult × StratumServer × Option Credit) :=
  match s.workers.lookup share.workerId with
  | none => none
  | some worker =>
    let (result, s', credit) := s.validateShareInternal K share worker shareTarget now answer
    some (result, { s' with
      workers := s'.workers.insert share.workerId (Worker.count worker result) }, credit)

end StratumServer

end Pyrax.Stratum
