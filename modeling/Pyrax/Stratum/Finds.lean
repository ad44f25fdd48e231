import Pyrax.Stratum.Blake3
import Pyrax.Stratum.Work

/-!
# Block finds of the BLAKE3 server

A share that meets the target of its job is meant to be a real block, stored as it was
found and counted once. `sound_iff` says exactly when that is so over a run. Three things
get in the way:

* the closure drops the transactions, and a block without transactions has the zero merkle
  root, which the header of a job with its coinbase does not carry;
* the proof of work was done on a header that pays the server, and a worker with another
  beneficiary gets a header that was never searched (`foundBlock_verifyPow` is the good
  case);
* an id is a height and a millisecond, and no share is remembered.

The three encodings of a header agree (`toBlock_hash`, `encodeHeaderForMining_eq`), and the
block handed to the closure always carries the merkle root of its own transactions.
-/

namespace Pyrax.Stratum

open Base Node Wire

variable (C : Crypto)

/-- The requests of a run. The first half of a worker's extra nonce is given to it when it
connects. -/
inductive Blake3Op where
  | connect (workerId : UInt64) (extranonce1 : Vector UInt8 4)
  | authorize (workerId : UInt64) (beneficiary : Option Address)
  | disconnect (workerId : UInt64)
  | createJobInternal (template : Blake3BlockTemplate) (clean : Bool) (millis : UInt64) (now : Nat)
  | submit (share : Blake3Share) (shareTarget : H256) (now : Nat) (answer : Except String H256)

/-- A server, the jobs it has made with the milliseconds of their ids, and the credits it
has given. -/
structure Blake3Traced where
  server : Blake3Server
  created : List (Blake3MiningJob × UInt64)
  credits : List Blake3Credit

namespace Blake3Traced

def start (config : Config) : Blake3Traced := ⟨Blake3Server.new config, [], []⟩

def step (t : Blake3Traced) : Blake3Op → Blake3Traced
  | .connect workerId extranonce1 =>
    let worker : Blake3Worker := ⟨extranonce1, none, 0, 0, 0⟩
    { t with server := { t.server with workers := t.server.workers.insert workerId worker } }
  | .authorize workerId beneficiary =>
    match t.server.workers.lookup workerId with
    | some w =>
      let w' := { w with beneficiary := beneficiary }
      { t with server := { t.server with workers := t.server.workers.insert workerId w' } }
    | none => t
  | .disconnect workerId =>
    { t with server := { t.server with workers := t.server.workers.erase workerId } }
  | .createJobInternal template clean millis now =>
    { t with
      server := t.server.createJobInternal C template clean millis now
      created := t.created ++ [(newBlake3Job C t.server.config template clean millis now, millis)] }
  | .submit share shareTarget now answer =>
    match t.server.handleSubmit C share shareTarget now answer with
    | some (_, server, credit) => { t with server := server, credits := t.credits ++ credit.toList }
    | none => t

def run (config : Config) (ops : List Blake3Op) : Blake3Traced := ops.foldl (step C) (start config)

theorem run_snoc (config : Config) (ops : List Blake3Op) (op : Blake3Op) :
    run C config (ops ++ [op]) = (run C config ops).step C op := by
  rw [run, List.foldl_append]
  rfl

end Blake3Traced

/-! ## The law and the condition -/

/-- A real block: it proves its work and carries its transactions, and so does what the
closure makes of it, under the same hash. -/
def StreamABlock.Real (b : StreamABlock) : Prop :=
  b.verifyPow C = true ∧ b.verifyMerkle C = true ∧ b.header.toBlock.hash C = b.hash C ∧
    b.header.toBlock.header.verifyPow C = true ∧ b.header.toBlock.verifyMerkle C = true

/-- What must come of a submission: a block that was found is real, and no work is counted
twice. -/
def SoundFind (t : Blake3Traced) :
    Option (ShareResult × Blake3Server × Option Blake3Credit) → Prop
  | some (_, _, credit) => ∀ c ∈ credit, (∀ b ∈ c.block, b.Real C) ∧
    ∀ c' ∈ t.credits, (c'.job, c'.extraNonce, c'.nonce) ≠ (c.job, c.extraNonce, c.nonce)
  | none => True

/-- What a request must do; an id is never given to another job. -/
def Blake3Op.Sound (t : Blake3Traced) : Blake3Op → Prop
  | .createJobInternal template clean millis now =>
    ∀ j ∈ t.created,
      j.1.jobId = (newBlake3Job C t.server.config template clean millis now).jobId →
        j.1 = newBlake3Job C t.server.config template clean millis now
  | .submit share shareTarget now answer =>
    SoundFind C t (t.server.handleSubmit C share shareTarget now answer)
  | _ => True

/-- The condition on a request. -/
def Blake3Op.Careful (t : Blake3Traced) : Blake3Op → Prop
  | .createJobInternal template clean millis now =>
    ∀ j ∈ t.created, j.1.height = template.height → j.2 &&& 0xFFFFFFFF = millis &&& 0xFFFFFFFF →
      j.1 = newBlake3Job C t.server.config template clean millis now
  | .submit share shareTarget now _ =>
    ∀ worker ∈ t.server.workers.lookup share.workerId,
      ∀ job ∈ t.server.liveJob share.jobId now,
        let extra := Blake3Server.extraNonce worker share
        let powHash := blake3PowHash C job.headerBytes share.nonce extra
        powHash.le shareTarget = true →
          (∀ c ∈ t.credits, (c.job, c.extraNonce, c.nonce) ≠ (job, extra, share.nonce)) ∧
            (powHash.le job.target = true → job.merkleRoot = H256.zero ∧
              streamAVerifyPow C (t.server.foundBlock job worker share).header = true)
  | _ => True

instance (b : StreamABlock) : Decidable (b.Real C) :=
  inferInstanceAs (Decidable (_ ∧ _ ∧ _ ∧ _ ∧ _))

instance (t : Blake3Traced) : (outcome : Option (ShareResult × Blake3Server × Option Blake3Credit)) →
    Decidable (SoundFind C t outcome)
  | some (_, _, credit) =>
    inferInstanceAs (Decidable (∀ c ∈ credit, (∀ b ∈ c.block, b.Real C) ∧ ∀ c' ∈ t.credits,
      (c'.job, c'.extraNonce, c'.nonce) ≠ (c.job, c.extraNonce, c.nonce)))
  | none => inferInstanceAs (Decidable True)

instance (t : Blake3Traced) : (op : Blake3Op) → Decidable (op.Sound C t)
  | .createJobInternal .. => inferInstanceAs (Decidable (∀ j ∈ t.created, _ → _))
  | .submit .. => inferInstanceAs (Decidable (SoundFind C t _))
  | .connect _ _ => inferInstanceAs (Decidable True)
  | .authorize _ _ => inferInstanceAs (Decidable True)
  | .disconnect _ => inferInstanceAs (Decidable True)

/-! ## One header, three encodings -/

variable {C}

/-- The closure keeps the hash. -/
theorem toBlock_hash {h : StreamAHeader} (hstream : h.stream = 0) :
    h.toBlock.hash C = h.hash C := by
  rw [Block.hash, BlockHeader.hash, BlockHeader.preimage, BlockHeader.powInput, StreamAHeader.hash,
    StreamAHeader.encodeForPow, hstream]
  rfl

theorem toBlock_verifyPow {h : StreamAHeader} (hstream : h.stream = 0) :
    h.toBlock.header.verifyPow C = streamAVerifyPow C h := by
  have hhash := toBlock_hash (C := C) hstream
  rw [BlockHeader.verifyPow, streamAVerifyPow]
  exact congrArg (fun x => H256.le x (difficultyToTarget h.difficulty)) hhash

/-- A block without transactions verifies against the zero root. -/
theorem toBlock_verifyMerkle_iff {h : StreamAHeader} :
    h.toBlock.verifyMerkle C = true ↔ h.merkleRoot = H256.zero := beq_iff_eq

/-- What a miner hashes is the header that pays the server. -/
theorem encodeHeaderForMining_eq (job : Blake3MiningJob) (nonce extraNonce : UInt64)
    (beneficiary : Address) :
    encodeHeaderForMining job.parentHash job.merkleRoot job.utxoRoot job.timestamp job.difficulty
      job.height beneficiary = (job.buildHeader nonce extraNonce beneficiary).encodeForPow := rfl

/-- A job as `create_job_internal` makes them. -/
structure Blake3MiningJob.Made (C : Crypto) (config : Config) (job : Blake3MiningJob) : Prop where
  merkleRoot : job.merkleRoot = utxoMerkleRoot C (job.coinbaseTx :: job.transactions)
  headerBytes : job.headerBytes = (job.buildHeader 0 0 config.coinbaseAddress).encodeForPow
  target : job.target = difficultyToTarget job.difficulty

theorem newBlake3Job_made (config : Config) (template : Blake3BlockTemplate) (clean : Bool)
    (millis : UInt64) (now : Nat) :
    (newBlake3Job C config template clean millis now).Made C config := ⟨rfl, rfl, rfl⟩

variable {config : Config} {job : Blake3MiningJob}

/-- A block that is found is real exactly when the job's root is zero and the header it got
proves its work. -/
theorem real_buildBlock_iff (hmade : job.Made C config) (nonce extraNonce : UInt64)
    (beneficiary : Address) :
    (job.buildBlock nonce extraNonce beneficiary).Real C ↔
      job.merkleRoot = H256.zero ∧
        streamAVerifyPow C (job.buildBlock nonce extraNonce beneficiary).header = true := by
  have hmerkle : (job.buildBlock nonce extraNonce beneficiary).verifyMerkle C = true :=
    beq_iff_eq.mpr hmade.merkleRoot
  unfold StreamABlock.Real
  rw [toBlock_hash rfl, toBlock_verifyPow rfl, toBlock_verifyMerkle_iff]
  constructor
  · rintro ⟨hpow, -, -, -, hroot⟩
    exact ⟨hroot, hpow⟩
  · rintro ⟨hroot, hpow⟩
    exact ⟨hpow, hmerkle, rfl, hpow, hroot⟩

/-- A worker paid at the server's address gets the header that was searched. -/
theorem foundBlock_verifyPow {s : Blake3Server} {worker : Blake3Worker} {share : Blake3Share}
    (hmade : job.Made C s.config)
    (hpaid : worker.beneficiary.getD s.config.coinbaseAddress = s.config.coinbaseAddress)
    (hmeets : (blake3PowHash C job.headerBytes share.nonce
      (Blake3Server.extraNonce worker share)).le job.target = true) :
    (s.foundBlock job worker share).verifyPow C = true := by
  rw [hmade.headerBytes, hmade.target] at hmeets
  rw [StreamABlock.verifyPow, Blake3Server.foundBlock, hpaid]
  exact hmeets

/-! ## What the server keeps -/

/-- Every stored job was made by the server, and every id tells what it was made from. -/
structure Blake3Traced.Consistent (C : Crypto) (config : Config) (t : Blake3Traced) : Prop where
  config_eq : t.server.config = config
  jobs : ∀ id job, t.server.jobs.lookup id = some job → job.Made C config
  ids : ∀ j ∈ t.created, j.1.jobId = generateJobId j.1.height j.2

theorem Blake3Server.validateShareInternal_frame (s : Blake3Server) (share : Blake3Share)
    (worker : Blake3Worker) (shareTarget : H256) (now : Nat) (answer : Except String H256) :
    (s.validateShareInternal C share worker shareTarget now answer).2.1.jobs = s.jobs ∧
      (s.validateShareInternal C share worker shareTarget now answer).2.1.config = s.config := by
  unfold Blake3Server.validateShareInternal
  dsimp only
  split
  · exact ⟨rfl, rfl⟩
  · split
    · exact ⟨rfl, rfl⟩
    · split
      · split <;> exact ⟨rfl, rfl⟩
      · exact ⟨rfl, rfl⟩

theorem Blake3Traced.Consistent.step {t : Blake3Traced} (h : t.Consistent C config)
    (op : Blake3Op) : (t.step C op).Consistent C config := by
  cases op with
  | connect workerId extranonce1 => exact ⟨h.config_eq, h.jobs, h.ids⟩
  | authorize workerId beneficiary =>
    unfold Blake3Traced.step
    dsimp only
    split
    · exact ⟨h.config_eq, h.jobs, h.ids⟩
    · exact h
  | disconnect workerId => exact ⟨h.config_eq, h.jobs, h.ids⟩
  | createJobInternal template clean millis now =>
    refine ⟨h.config_eq, ?_, ?_⟩
    · refine Column.forall_lookup_insert h.jobs ?_
      rw [h.config_eq]
      exact newBlake3Job_made config template clean millis now
    · intro j hj
      rcases List.mem_append.mp hj with hj | hj
      · exact h.ids j hj
      · cases List.mem_singleton.mp hj
        rfl
  | submit share shareTarget now answer =>
    unfold Blake3Traced.step Blake3Server.handleSubmit
    dsimp only
    split
    · next hsubmit =>
      split at hsubmit
      · cases hsubmit
      · next worker hworker =>
        obtain ⟨hjobs, hconfig⟩ := Blake3Server.validateShareInternal_frame (C := C) t.server share
          worker shareTarget now answer
        cases hsubmit
        refine ⟨hconfig.trans h.config_eq, ?_, h.ids⟩
        show ∀ id job, Finmap.lookup id (Blake3Server.jobs _) = some job → _
        rw [hjobs]
        exact h.jobs
    · exact h

theorem consistent_blake3_run (config : Config) (ops : List Blake3Op) :
    (Blake3Traced.run C config ops).Consistent C config := by
  induction ops using List.reverseRecOn with
  | nil =>
    refine ⟨rfl, ?_, ?_⟩
    · intro id job hjob
      cases (Finmap.lookup_empty id).symm.trans hjob
    · intro j hj
      exact absurd hj List.not_mem_nil
  | append_singleton ops op ih =>
    rw [Blake3Traced.run_snoc]
    exact ih.step op

/-! ## One request and a whole run -/

theorem sound_createJobInternal_iff {t : Blake3Traced} (h : t.Consistent C config)
    (template : Blake3BlockTemplate) (clean : Bool) (millis : UInt64) (now : Nat) :
    (Blake3Op.createJobInternal template clean millis now).Sound C t ↔
      (Blake3Op.createJobInternal template clean millis now).Careful C t := by
  refine forall₂_congr fun j hj => ?_
  have hid : (newBlake3Job C t.server.config template clean millis now).jobId
      = generateJobId template.height millis := rfl
  rw [hid, h.ids j hj, generateJobId_eq_iff, and_imp]

theorem sound_submit_iff {t : Blake3Traced} (h : t.Consistent C config) (share : Blake3Share)
    (shareTarget : H256) (now : Nat) (answer : Except String H256) :
    (Blake3Op.submit share shareTarget now answer).Sound C t ↔
      (Blake3Op.submit share shareTarget now answer).Careful C t := by
  unfold Blake3Op.Sound Blake3Op.Careful SoundFind Blake3Server.handleSubmit
  dsimp only
  cases hworker : t.server.workers.lookup share.workerId with
  | none => simp
  | some worker =>
    unfold Blake3Server.validateShareInternal
    dsimp only
    cases hlive : t.server.liveJob share.jobId now with
    | none => simp
    | some job =>
      have hmade : job.Made C config := h.jobs _ job (Option.filter_eq_some_iff.mp hlive).1
      have hreal := real_buildBlock_iff hmade share.nonce (Blake3Server.extraNonce worker share)
        (worker.beneficiary.getD t.server.config.coinbaseAddress)
      cases hshare : (blake3PowHash C job.headerBytes share.nonce
          (Blake3Server.extraNonce worker share)).le shareTarget with
      | false => simp [hshare]
      | true =>
        cases hblock : (blake3PowHash C job.headerBytes share.nonce
            (Blake3Server.extraNonce worker share)).le job.target with
        | false => simp [hshare, hblock]
        | true =>
          -- the credit is the same whether or not the block passes its check
          have hfound : (t.server.foundBlock job worker share).Real C ↔
              job.merkleRoot = H256.zero ∧
                streamAVerifyPow C (t.server.foundBlock job worker share).header = true := hreal
          cases hpow : (t.server.foundBlock job worker share).verifyPow C with
          | false =>
            simp only [Bool.true_eq_false, hshare, hblock, hpow, if_true, if_false, Option.mem_def,
              Option.some.injEq, forall_eq', hfound, forall_const]
            exact and_comm
          | true =>
            simp only [Bool.true_eq_false, hshare, hblock, hpow, if_true, if_false, Option.mem_def,
              Option.some.injEq, forall_eq', hfound, forall_const]
            exact and_comm

/-- **Block finds.** Over every run: every id stands for one job, every block that is found
is real, as built and as stored, and no work is counted twice, exactly when every request
is careful. -/
theorem finds_sound_iff (config : Config) (ops : List Blake3Op) :
    (∀ pre op, pre ++ [op] <+: ops → op.Sound C (Blake3Traced.run C config pre)) ↔
      ∀ pre op, pre ++ [op] <+: ops → op.Careful C (Blake3Traced.run C config pre) := by
  refine forall₃_congr fun pre op _ => ?_
  have hcons := consistent_blake3_run (C := C) config pre
  cases op with
  | createJobInternal template clean millis now =>
    exact sound_createJobInternal_iff hcons template clean millis now
  | submit share shareTarget now answer =>
    exact sound_submit_iff hcons share shareTarget now answer
  | connect workerId extranonce1 => exact Iff.rfl
  | authorize workerId beneficiary => exact Iff.rfl
  | disconnect workerId => exact Iff.rfl

/-! ## One template and its shares -/

/-- Keccak-256 of the reward of block `1` at the zero address. -/
def streamATxid : H256 :=
  H256.ofNatBE 0x6146e5d59446c2a38684d57e613dafcc82c0771b2515c2205b51b5ef1177f5a5

/-- A template of difficulty `16`. -/
def streamATemplate (timestamp : UInt64) : Blake3BlockTemplate :=
  ⟨1, H256.zero, H256.zero, timestamp, 16, [], 5000000000⟩

/-- What is hashed for the nonce, with the extra nonce of the worker and its share. -/
def streamAPreimage (beneficiary : Address) (nonce : UInt64) : List UInt8 :=
  encodeHeaderForMining H256.zero streamATxid H256.zero 1700000000 16 1 beneficiary ++
    encU64 nonce ++ encU64 0x200000001000000

/-- The nonce `29` is a find for the header that pays the server and none for the other;
`0` is none. -/
def streamACrypto : Crypto := Crypto.ofKey {
  blake3 := [
    (streamAPreimage Address.ZERO 29,
      H256.ofNatBE 0x09674a7c7b0736c26ac647ef9c20c4daaee7b50c1af9e3a7f0d3780529c2f4ed),
    (streamAPreimage otherBeneficiary 29,
      H256.ofNatBE 0x37143877252c91da128cd752849ecb4b8bfb11dfbbc4da88484d9bdc7f6ae600),
    (streamAPreimage Address.ZERO 0,
      H256.ofNatBE 0xcc9a0e1c812a0e64f7a8335505d50265a4f8c4e433d3da53643e8fd951abcf73)]
  keccak256 := [((UtxoTransaction.coinbase 1 5000000000 Address.ZERO).encode, streamATxid)]
  sha256 := []
  ripemd160 := []
  compressed := Vector.replicate 33 0
  uncompressed := Vector.replicate 65 0
  verified := []
  signed := [] }

def streamAJob (timestamp : UInt64) : Blake3Op :=
  .createJobInternal (streamATemplate timestamp) true 0 0

def streamAShare (nonce : UInt64) : Blake3Op :=
  .submit ⟨1, generateJobId 1 0, "00000002", nonce⟩ ⟨Vector.replicate 32 0xff⟩ 5 (.error "no node")

def streamARun (ops : List Blake3Op) : Blake3Traced :=
  Blake3Traced.run streamACrypto rewardConfig (.connect 1 #v[0, 0, 0, 1] :: ops)

/-- The block of the nonce `29`. -/
def streamAFind (beneficiary : Address) : StreamABlock where
  header := ⟨1, 0, H256.zero, streamATxid, H256.zero, 1700000000, 16, 29, 0x200000001000000, 1,
    beneficiary⟩
  transactions := [UtxoTransaction.coinbase 1 5000000000 Address.ZERO]

/-- A find at the server's own address proves its work and is not stored with its
transactions; one for another beneficiary proves nothing; an id is given to two jobs in one
millisecond; and a share counts twice. -/
theorem finds_not_sound :
    (streamARun [streamAJob 1700000000, streamAShare 29]).credits.map (·.block)
        = [some (streamAFind Address.ZERO)] ∧
      (streamAFind Address.ZERO).verifyPow streamACrypto = true ∧
      (streamAFind Address.ZERO).header.toBlock.verifyMerkle streamACrypto = false ∧
      (streamARun [.authorize 1 (some otherBeneficiary), streamAJob 1700000000,
        streamAShare 29]).credits.map (·.block) = [some (streamAFind otherBeneficiary)] ∧
      (streamAFind otherBeneficiary).verifyPow streamACrypto = false ∧
      ¬ (streamAJob 1700000001).Sound streamACrypto (streamARun [streamAJob 1700000000]) ∧
      ¬ (streamAShare 0).Sound streamACrypto
        (streamARun [streamAJob 1700000000, streamAShare 0]) := by
  decide +kernel

end Pyrax.Stratum
