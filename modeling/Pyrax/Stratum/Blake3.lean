import Pyrax.Stratum.Kawpow
import Pyrax.Types.Utxo

/-!
# The BLAKE3 stratum server

`pyrax-node/src/miner/blake3_stratum.rs`, for Stream A. A job is made from a template and
carries the bytes of a header that pays the server's address; a share is hashed over these
bytes, with the worker's half of the extra nonce and its own. A share that meets the job's
target becomes a `StreamABlock` with the *worker's* beneficiary in its header, is checked
again, and goes to the closure of `main.rs`, which stores it as a `types::Block` without
transactions (`StreamAHeader.toBlock`).

As in the KAWPOW server, a share target is given with the share, readings of the clocks are
arguments, and a job lives in the table under its height and the millisecond; this one never
prunes the table.
-/

namespace Pyrax.Stratum

open Base Node Wire Hex

/-! ## Blocks of Stream A -/

/-- `Blake3Pow::hash`. -/
def blake3PowHash (C : Crypto) (headerBytes : List UInt8) (nonce extraNonce : UInt64) : H256 :=
  C.blake3 (headerBytes ++ encU64 nonce ++ encU64 extraNonce)

/-- `StreamAHeader::verify_pow`. -/
def streamAVerifyPow (C : Crypto) (h : StreamAHeader) : Bool :=
  (blake3PowHash C h.encodeForPow h.nonce h.extraNonce).le (difficultyToTarget h.difficulty)

structure StreamABlock where
  header : StreamAHeader
  transactions : List UtxoTransaction
  deriving DecidableEq

namespace StreamABlock

variable (C : Crypto) (b : StreamABlock)

def hash : H256 := b.header.hash C

def verifyPow : Bool := streamAVerifyPow C b.header

def verifyMerkle : Bool := b.header.merkleRoot == utxoMerkleRoot C b.transactions

end StreamABlock

/-! ## Jobs -/

structure Blake3BlockTemplate where
  height : UInt64
  parentHash : H256
  utxoRoot : H256
  timestamp : UInt64
  difficulty : UInt64
  transactions : List UtxoTransaction
  coinbaseValue : UInt64
  deriving DecidableEq

structure Blake3MiningJob where
  jobId : String
  height : UInt64
  parentHash : H256
  merkleRoot : H256
  utxoRoot : H256
  timestamp : UInt64
  difficulty : UInt64
  target : H256
  coinbaseTx : UtxoTransaction
  transactions : List UtxoTransaction
  createdAt : Nat
  clean : Bool
  headerBytes : List UInt8
  deriving DecidableEq

namespace Blake3MiningJob

def buildHeader (job : Blake3MiningJob) (nonce extraNonce : UInt64) (beneficiary : Address) :
    StreamAHeader where
  version := 1
  stream := 0
  parentHash := job.parentHash
  merkleRoot := job.merkleRoot
  utxoRoot := job.utxoRoot
  timestamp := job.timestamp
  difficulty := job.difficulty
  nonce := nonce
  extraNonce := extraNonce
  height := job.height
  beneficiary := beneficiary

def buildBlock (job : Blake3MiningJob) (nonce extraNonce : UInt64) (beneficiary : Address) :
    StreamABlock :=
  ⟨job.buildHeader nonce extraNonce beneficiary, job.coinbaseTx :: job.transactions⟩

end Blake3MiningJob

/-- `encode_header_for_mining`: version `1`, stream `0`, no nonces. -/
def encodeHeaderForMining (parentHash merkleRoot utxoRoot : H256)
    (timestamp difficulty height : UInt64) (beneficiary : Address) : List UInt8 :=
  encU32 1 ++ encU8 0 ++ parentHash.asBytes ++ merkleRoot.asBytes ++ utxoRoot.asBytes ++
    encU64 timestamp ++ encU64 difficulty ++ encU64 height ++ beneficiary.asBytes

/-- `combine_extranonces`: the worker's four bytes and up to four of the share's. -/
def combineExtranonces (extranonce1 : Vector UInt8 4) (extranonce2 : List UInt8) : UInt64 :=
  UInt64.ofNat (leNat (extranonce1.toList ++ (arrayFromSlice 4 extranonce2).toList))

/-- The job of `create_job_internal`. -/
def newBlake3Job (C : Crypto) (config : Config) (template : Blake3BlockTemplate) (clean : Bool)
    (millis : UInt64) (now : Nat) : Blake3MiningJob :=
  let coinbaseTx :=
    UtxoTransaction.coinbase template.height template.coinbaseValue config.coinbaseAddress
  let merkleRoot := utxoMerkleRoot C (coinbaseTx :: template.transactions)
  { jobId := generateJobId template.height millis
    height := template.height
    parentHash := template.parentHash
    merkleRoot := merkleRoot
    utxoRoot := template.utxoRoot
    timestamp := template.timestamp
    difficulty := template.difficulty
    target := difficultyToTarget template.difficulty
    coinbaseTx := coinbaseTx
    transactions := template.transactions
    createdAt := now
    clean := clean
    headerBytes := encodeHeaderForMining template.parentHash merkleRoot template.utxoRoot
      template.timestamp template.difficulty template.height config.coinbaseAddress }

/-! ## The server -/

structure Blake3Worker where
  extranonce1Bytes : Vector UInt8 4
  beneficiary : Option Address
  sharesAccepted : UInt64
  sharesRejected : UInt64
  sharesStale : UInt64
  deriving DecidableEq

structure Blake3Share where
  workerId : UInt64
  jobId : String
  extranonce2 : String
  nonce : UInt64
  deriving DecidableEq

structure Blake3Server where
  config : Config
  workers : Column UInt64 Blake3Worker
  jobs : Column String Blake3MiningJob
  currentJob : Option Blake3MiningJob
  sharesAccepted : UInt64
  sharesRejected : UInt64
  blocksFound : UInt64

/-- What raised `shares_accepted`, and the block it became. -/
structure Blake3Credit where
  job : Blake3MiningJob
  extraNonce : UInt64
  nonce : UInt64
  block : Option StreamABlock
  deriving DecidableEq

namespace Blake3Server

def new (config : Config) : Blake3Server where
  config := config
  workers := ∅
  jobs := ∅
  currentJob := none
  sharesAccepted := 0
  sharesRejected := 0
  blocksFound := 0

def createJobInternal (C : Crypto) (s : Blake3Server) (template : Blake3BlockTemplate)
    (clean : Bool) (millis : UInt64) (now : Nat) : Blake3Server :=
  let job := newBlake3Job C s.config template clean millis now
  { s with jobs := s.jobs.insert job.jobId job, currentJob := some job }

/-- A job that is stored and not too old. -/
def liveJob (s : Blake3Server) (jobId : String) (now : Nat) : Option Blake3MiningJob :=
  (s.jobs.lookup jobId).filter fun job =>
    decide (now - job.createdAt ≤ s.config.jobTimeout.toNat * 1000000000)

/-- The extra nonce of a share: `hex::decode(..).unwrap_or_default()` behind the worker's. -/
def extraNonce (worker : Blake3Worker) (share : Blake3Share) : UInt64 :=
  combineExtranonces worker.extranonce1Bytes ((decodeHex share.extranonce2).getD [])

/-- The block of a share that meets the job's target. -/
def foundBlock (s : Blake3Server) (job : Blake3MiningJob) (worker : Blake3Worker)
    (share : Blake3Share) : StreamABlock :=
  job.buildBlock share.nonce (extraNonce worker share)
    (worker.beneficiary.getD s.config.coinbaseAddress)

/-- `validate_share_internal`; `answer` is what the closure says to a block. -/
def validateShareInternal (C : Crypto) (s : Blake3Server) (share : Blake3Share)
    (worker : Blake3Worker) (shareTarget : H256) (now : Nat) (answer : Except String H256) :
    ShareResult × Blake3Server × Option Blake3Credit :=
  match s.liveJob share.jobId now with
  | none => (.stale, s, none)
  | some job =>
    let extra := extraNonce worker share
    let powHash := blake3PowHash C job.headerBytes share.nonce extra
    if powHash.le shareTarget = false then
      (.rejected "Below share target", { s with sharesRejected := s.sharesRejected + 1 }, none)
    else if powHash.le job.target then
      let s' := { s with
        sharesAccepted := s.sharesAccepted + 1
        blocksFound := s.blocksFound + 1 }
      let block := s.foundBlock job worker share
      let credit : Blake3Credit := ⟨job, extra, share.nonce, some block⟩
      if block.verifyPow C = false then
        (.rejected "PoW verification failed", s', some credit)
      else (.acceptedBlock (answer.toOption.getD powHash), s', some credit)
    else
      (.accepted, { s with sharesAccepted := s.sharesAccepted + 1 },
        some ⟨job, extra, share.nonce, none⟩)

/-- The worker's own counters. -/
def count (w : Blake3Worker) : ShareResult → Blake3Worker
  | .accepted => { w with sharesAccepted := w.sharesAccepted + 1 }
  | .acceptedBlock _ => { w with sharesAccepted := w.sharesAccepted + 1 }
  | .rejected _ => { w with sharesRejected := w.sharesRejected + 1 }
  | .stale => { w with sharesStale := w.sharesStale + 1 }

/-- `handle_submit`; `none` for a worker the server does not know. -/
def handleSubmit (C : Crypto) (s : Blake3Server) (share : Blake3Share) (shareTarget : H256)
    (now : Nat) (answer : Except String H256) :
    Option (ShareResult × Blake3Server × Option Blake3Credit) :=
  match s.workers.lookup share.workerId with
  | none => none
  | some worker =>
    let (result, s', credit) := s.validateShareInternal C share worker shareTarget now answer
    some (result, { s' with
      workers := s'.workers.insert share.workerId (count worker result) }, credit)

end Blake3Server

end Pyrax.Stratum
