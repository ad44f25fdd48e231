import Pyrax.Stratum.Kawpow
import Mathlib.Data.String.Basic

/-!
# Work and the block it pays for

A share of the KAWPOW server is meant to be work on one job: the proof of work evaluated
on the header hash of the job it names, with the cache of that job's epoch, credited once,
and turned into a block whose header is the one the hash was taken of. The server takes
the header hash from the submission, keeps one cache that only the public `create_job`
renews, puts the worker's beneficiary into a header whose hash was made with its own
address, and remembers no share it has seen.

`sound_of_careful` says when the law holds all the same: over every run in which a
submission to a live job finds a cache and, if it meets the share target, carries the
header hash of the job, finds the cache of the job's epoch, repeats no credited nonce and,
if it is a block, comes from a worker that is paid at the server's address.
-/

namespace Pyrax.Stratum

open Base Node

variable (C : Crypto) (K : Kawpow)

/-- The requests of a run; a connection that ends takes its worker along. -/
inductive Op where
  | connect (workerId : UInt64)
  | authorize (workerId : UInt64) (beneficiary : Option Address)
  | disconnect (workerId : UInt64)
  | createJob (order : Column.KeyOrder String Job) (template : BlockTemplate) (clean : Bool)
      (millis : UInt64) (now : Nat)
  | createJobInternal (order : Column.KeyOrder String Job) (template : BlockTemplate)
      (clean : Bool) (millis : UInt64) (now : Nat)
  | submit (share : Share) (shareTarget : H256) (now : Nat) (answer : Except String H256)

/-- A server and the credits it has given. -/
structure Traced where
  server : StratumServer
  credits : List Credit

namespace Traced

def step (t : Traced) : Op → Traced
  | .connect workerId =>
    { t with server := { t.server with workers := t.server.workers.insert workerId Worker.new } }
  | .authorize workerId beneficiary =>
    match t.server.workers.lookup workerId with
    | some w =>
      let w' := { w with beneficiary := beneficiary }
      { t with server := { t.server with workers := t.server.workers.insert workerId w' } }
    | none => t
  | .disconnect workerId =>
    { t with server := { t.server with workers := t.server.workers.erase workerId } }
  | .createJob order template clean millis now =>
    { t with server := t.server.createJob C K order template clean millis now }
  | .createJobInternal order template clean millis now =>
    { t with server := t.server.createJobInternal C order template clean millis now }
  | .submit share shareTarget now answer =>
    match t.server.handleSubmit K share shareTarget now answer with
    | some (_, server, credit) => ⟨server, t.credits ++ credit.toList⟩
    | none => t

def start (config : Config) (submits : Bool) : Traced := ⟨StratumServer.new config submits, []⟩

def run (config : Config) (submits : Bool) (ops : List Op) : Traced :=
  ops.foldl (step C K) (start config submits)

theorem run_snoc (config : Config) (submits : Bool) (ops : List Op) (op : Op) :
    run C K config submits (ops ++ [op]) = (run C K config submits ops).step C K op := by
  rw [run, List.foldl_append]
  rfl

end Traced

/-! ## The law and the condition -/

/-- The header as it stands before a nonce is searched. -/
def unmined (header : BlockHeader) : BlockHeader := { header with nonce := 0, extraNonce := 0 }

/-- The share was work on the job it names, of that job's epoch, for that job's header, and
is new. -/
def Credit.Bound (t : Traced) (share : Share) (c : Credit) : Prop :=
  t.server.jobs.lookup share.jobId = some c.job ∧ c.nonce = share.nonce ∧
    c.headerHash = c.job.headerHash ∧
    c.cache = KawpowCache.ofEpoch C K (getEpoch c.job.height) ∧
    (∀ block ∈ c.block, (unmined block.header).hash C = c.job.headerHash) ∧
    ∀ c' ∈ t.credits, (c'.job, c'.nonce) ≠ (c.job, c.nonce)

/-- What must come of a submission: no job lacks its cache, and an accepted share is bound. -/
def SoundOutcome (t : Traced) (share : Share) :
    Option (ShareResult × StratumServer × Option Credit) → Prop
  | some (result, _, credit) =>
    result ≠ .rejected "No KAWPOW cache" ∧ result.isAccepted = credit.isSome ∧
      ∀ c ∈ credit, c.Bound C K t share
  | none => True

def Op.Sound (t : Traced) : Op → Prop
  | .submit share shareTarget now answer =>
    SoundOutcome C K t share (t.server.handleSubmit K share shareTarget now answer)
  | _ => True

/-- What a submission to a live job has to be like. -/
def Op.Careful (t : Traced) : Op → Prop
  | .submit share shareTarget now _ =>
    ∀ worker ∈ t.server.workers.lookup share.workerId,
      ∀ job ∈ t.server.liveJob share.jobId now,
        ∃ cache ∈ t.server.kawpowCache,
          let powHash := K.kawpowHash share.headerHash share.nonce job.height cache.cache
          shareTarget.lt powHash = false →
            share.headerHash = job.headerHash ∧ cache.epoch = getEpoch job.height ∧
              (∀ c ∈ t.credits, (c.job, c.nonce) ≠ (job, share.nonce)) ∧
              (t.server.submits = true → powHash.le job.target = true →
                t.server.beneficiary worker = t.server.config.coinbaseAddress)
  | _ => True

instance (t : Traced) (share : Share) (c : Credit) : Decidable (c.Bound C K t share) :=
  inferInstanceAs (Decidable (_ ∧ _ ∧ _ ∧ _ ∧ (∀ block ∈ c.block, _) ∧ ∀ c' ∈ t.credits, _))

instance (t : Traced) (share : Share) :
    (outcome : Option (ShareResult × StratumServer × Option Credit)) →
      Decidable (SoundOutcome C K t share outcome)
  | some (result, _, credit) =>
    inferInstanceAs (Decidable (result ≠ .rejected "No KAWPOW cache" ∧
      result.isAccepted = credit.isSome ∧ ∀ c ∈ credit, c.Bound C K t share))
  | none => inferInstanceAs (Decidable True)

instance (t : Traced) : (op : Op) → Decidable (op.Sound C K t)
  | .submit .. => inferInstanceAs (Decidable (SoundOutcome C K t _ _))
  | .connect _ => inferInstanceAs (Decidable True)
  | .authorize _ _ => inferInstanceAs (Decidable True)
  | .disconnect _ => inferInstanceAs (Decidable True)
  | .createJob .. => inferInstanceAs (Decidable True)
  | .createJobInternal .. => inferInstanceAs (Decidable True)

instance (t : Traced) : (op : Op) → Decidable (op.Careful K t)
  | .submit share _ now _ =>
    inferInstanceAs (Decidable (∀ worker ∈ t.server.workers.lookup share.workerId,
      ∀ job ∈ t.server.liveJob share.jobId now, ∃ cache ∈ t.server.kawpowCache, _ → _))
  | .connect _ => inferInstanceAs (Decidable True)
  | .authorize _ _ => inferInstanceAs (Decidable True)
  | .disconnect _ => inferInstanceAs (Decidable True)
  | .createJob .. => inferInstanceAs (Decidable True)
  | .createJobInternal .. => inferInstanceAs (Decidable True)

/-! ## What the server keeps -/

/-- Every stored job has the header hash of its own header, and a cache is the one of its
epoch. -/
structure Consistent (s : StratumServer) : Prop where
  jobs : ∀ id job, s.jobs.lookup id = some job →
    job.headerHash = (job.block 0 s.config.coinbaseAddress).header.hash C
  cache : ∀ cache, s.kawpowCache = some cache → cache = KawpowCache.ofEpoch C K cache.epoch

variable {C K} {s : StratumServer} {t : Traced}

theorem lookup_of_lookup_foldl_erase {k : String} {job : Job} : ∀ {keys : List String}
    {m : Column String Job}, (keys.foldl (fun m key => m.erase key) m).lookup k = some job →
      m.lookup k = some job
  | [], _, h => h
  | key :: keys, m, h => by
    have herase := @lookup_of_lookup_foldl_erase k job keys _ h
    by_cases hk : k = key
    · rw [hk, Finmap.lookup_erase] at herase
      cases herase
    · rwa [Finmap.lookup_erase_ne hk] at herase

theorem Consistent.storeJob (h : Consistent C K s) (order : Column.KeyOrder String Job)
    (template : BlockTemplate) (clean : Bool) (millis : UInt64) (now : Nat) :
    Consistent C K (s.storeJob order (newJob C s.config template clean millis now)) where
  jobs id job hjob := by
    have hput := lookup_of_lookup_foldl_erase hjob
    exact Column.forall_lookup_insert
      (p := fun job => job.headerHash = (job.block 0 s.config.coinbaseAddress).header.hash C)
      h.jobs rfl id job hput
  cache := h.cache

theorem Consistent.ensureKawpowCache (h : Consistent C K s) (height : UInt64) :
    Consistent C K (s.ensureKawpowCache C K height) := by
  unfold StratumServer.ensureKawpowCache
  split
  · exact h
  · refine ⟨h.jobs, ?_⟩
    intro cache hcache
    cases hcache
    rfl

@[simp] theorem ensureKawpowCache_config (s : StratumServer) (height : UInt64) :
    (s.ensureKawpowCache C K height).config = s.config := by
  unfold StratumServer.ensureKawpowCache
  split <;> rfl

/-- A submission changes counters alone. -/
theorem validateShareInternal_frame (s : StratumServer) (share : Share) (worker : Worker)
    (shareTarget : H256) (now : Nat) (answer : Except String H256) :
    (s.validateShareInternal K share worker shareTarget now answer).2.1.jobs = s.jobs ∧
      (s.validateShareInternal K share worker shareTarget now answer).2.1.kawpowCache
        = s.kawpowCache ∧
      (s.validateShareInternal K share worker shareTarget now answer).2.1.config = s.config := by
  unfold StratumServer.validateShareInternal
  dsimp only
  split
  · exact ⟨rfl, rfl, rfl⟩
  · split
    · exact ⟨rfl, rfl, rfl⟩
    · split
      · exact ⟨rfl, rfl, rfl⟩
      · split
        · split <;> exact ⟨rfl, rfl, rfl⟩
        · exact ⟨rfl, rfl, rfl⟩

theorem Consistent.step (h : Consistent C K t.server) (op : Op) :
    Consistent C K (t.step C K op).server := by
  cases op with
  | connect workerId => exact ⟨h.jobs, h.cache⟩
  | authorize workerId beneficiary =>
    unfold Traced.step
    dsimp only
    split
    · exact ⟨h.jobs, h.cache⟩
    · exact h
  | disconnect workerId => exact ⟨h.jobs, h.cache⟩
  | createJob order template clean millis now =>
    have hstored := (h.ensureKawpowCache template.height).storeJob order template clean millis now
    rw [ensureKawpowCache_config] at hstored
    exact hstored
  | createJobInternal order template clean millis now =>
    exact h.storeJob order template clean millis now
  | submit share shareTarget now answer =>
    unfold Traced.step StratumServer.handleSubmit
    dsimp only
    split
    · next hsubmit =>
      split at hsubmit
      · cases hsubmit
      · next worker hworker =>
        obtain ⟨hjobs, hcache, hconfig⟩ :=
          validateShareInternal_frame (K := K) t.server share worker shareTarget now answer
        cases hsubmit
        refine ⟨?_, ?_⟩
        · show ∀ id job, Finmap.lookup id (StratumServer.jobs _) = some job → _
          rw [hjobs, hconfig]
          exact h.jobs
        · show ∀ cache, StratumServer.kawpowCache _ = some cache → _
          rw [hcache]
          exact h.cache
    · exact h

theorem consistent_run (config : Config) (submits : Bool) (ops : List Op) :
    Consistent C K (Traced.run C K config submits ops).server := by
  induction ops using List.reverseRecOn with
  | nil =>
    refine ⟨?_, ?_⟩
    · intro id job hjob
      cases (Finmap.lookup_empty id).symm.trans hjob
    · intro cache hcache
      cases hcache
  | append_singleton ops op ih =>
    rw [Traced.run_snoc]
    exact ih.step op

/-! ## One submission and a whole run -/

/-- A live job is the stored one. -/
theorem lookup_of_liveJob {jobId : String} {now : Nat} {job : Job}
    (h : s.liveJob jobId now = some job) : s.jobs.lookup jobId = some job :=
  (Option.filter_eq_some_iff.mp h).1

theorem sound_of_careful_step (h : Consistent C K t.server) {op : Op} (hc : op.Careful K t) :
    op.Sound C K t := by
  cases op with
  | submit share shareTarget now answer =>
    unfold Op.Sound SoundOutcome StratumServer.handleSubmit
    dsimp only
    cases hworker : t.server.workers.lookup share.workerId with
    | none => trivial
    | some worker =>
      unfold StratumServer.validateShareInternal
      dsimp only
      cases hlive : t.server.liveJob share.jobId now with
      | none => exact ⟨by simp, rfl, by simp⟩
      | some job =>
        obtain ⟨cache, hcache, hmeets⟩ := hc worker hworker job hlive
        rw [Option.mem_def.mp hcache]
        dsimp only
        cases htarget : shareTarget.lt
            (K.kawpowHash share.headerHash share.nonce job.height cache.cache) with
        | true => exact ⟨by simp, rfl, by simp⟩
        | false =>
          obtain ⟨hhash, hepoch, hfresh, hpaid⟩ := hmeets htarget
          have hofEpoch : cache = KawpowCache.ofEpoch C K (getEpoch job.height) := by
            rw [← hepoch]
            exact h.cache cache hcache
          have hjob := lookup_of_liveJob hlive
          -- whatever the block is, the rest of the credit is bound
          have hbound : ∀ block : Option Block,
              (∀ b ∈ block, (unmined b.header).hash C = job.headerHash) →
              Credit.Bound C K t share ⟨job, share.nonce, share.headerHash, cache, block⟩ :=
            fun block hblock => ⟨hjob, rfl, hhash, hofEpoch, hblock, hfresh⟩
          cases hblock : (K.kawpowHash share.headerHash share.nonce job.height cache.cache).le
              job.target with
          | false =>
            refine ⟨by simp, rfl, ?_⟩
            rintro c ⟨⟩
            exact hbound none (by simp)
          | true =>
            cases hsubmits : t.server.submits with
            | false =>
              refine ⟨by simp, rfl, ?_⟩
              rintro c ⟨⟩
              exact hbound none (by simp)
            | true =>
              refine ⟨by simp, rfl, ?_⟩
              rintro c ⟨⟩
              refine hbound _ ?_
              rintro b ⟨⟩
              show ((job.block 0 (t.server.beneficiary worker)).header).hash C = _
              rw [hpaid hsubmits hblock, h.jobs _ job hjob]
  | connect workerId => trivial
  | authorize workerId beneficiary => trivial
  | disconnect workerId => trivial
  | createJob order template clean millis now => trivial
  | createJobInternal order template clean millis now => trivial

/-- **Work is bound to its block.** Along every run of careful requests, every request is
sound: no share of a stored job is refused for lack of a cache, and every accepted one was
evaluated on the header hash of the job it names with the cache of its epoch, makes a block
with that header, and was never credited before. -/
theorem sound_of_careful {config : Config} {submits : Bool} {ops : List Op}
    (hc : ∀ pre op, pre ++ [op] <+: ops → op.Careful K (Traced.run C K config submits pre)) :
    ∀ pre op, pre ++ [op] <+: ops → op.Sound C K (Traced.run C K config submits pre) :=
  fun pre op hpre => sound_of_careful_step (consistent_run config submits pre) (hc pre op hpre)

/-! ## One template and its shares -/

/-- BLAKE3 of the reward of block `1` at the zero address. -/
def rewardTxid : H256 :=
  H256.ofNatBE 0x5bf506fefb08836645f6566b13943fa5a602b051e0ac6654055a329a43bb14e4

/-- The header over that reward. -/
def rewardHeader (beneficiary : Address) : BlockHeader :=
  ⟨1, 1, H256.zero, rewardTxid, H256.zero, 1700000000, 1, 0, 0, 1, beneficiary⟩

/-- BLAKE3 of that header, paying the zero address. -/
def rewardHeaderHash : H256 :=
  H256.ofNatBE 0x9630905c56a8a468b466440906732e9481be5fe50f34b3f691258f3594051368

def otherBeneficiary : Address := ⟨Vector.replicate 20 9⟩

def rewardCrypto : Crypto := Crypto.ofTable
  [((Transaction.coinbase 1 5000000000 Address.ZERO).serialize, rewardTxid),
    ((rewardHeader Address.ZERO).preimage, rewardHeaderHash),
    ((rewardHeader otherBeneficiary).preimage,
      H256.ofNatBE 0x3e3fd709ae1cbb15a9d367d6a26251576d5a089a4d06ae081f8fa06304113b1b)]

/-- What `kawpow_hash` gives with the cache of epoch `0` for the nonce `7`, on the header
hash and on zero. -/
def rewardKawpow : Kawpow where
  generateCache _ _ := []
  kawpowHash headerHash nonce _ _ :=
    if nonce = 7 ∧ headerHash = rewardHeaderHash then
      H256.ofNatBE 0xf768790897490c86f3461851c2c7169c013261daad284073c2b7ef101c3e8c97
    else if nonce = 7 ∧ headerHash = H256.zero then
      H256.ofNatBE 0xbf8e67d5d7f267ad1704fa1d93d6828640017987e2042db3a138c00b71d6c5d6
    else H256.zero

def rewardConfig : Config := ⟨Address.ZERO, 300⟩

/-- A template of difficulty `1`, as the node's provider makes them. -/
def rewardTemplate : BlockTemplate := ⟨1, H256.zero, 1700000000, 1, [], 5000000000⟩

def keyOrder : Column.KeyOrder String Job := Column.KeyOrder.sorted fun a b => a ≤ b

def publicJob : Op := .createJob keyOrder rewardTemplate true 0 0

def loopJob : Op := .createJobInternal keyOrder rewardTemplate true 0 0

/-- The nonce `7` for the job, on some header hash. -/
def rewardShare (headerHash : H256) : Op :=
  .submit ⟨1, generateJobId 1 0, 7, headerHash⟩ ⟨Vector.replicate 32 0xff⟩ 5 (.error "no node")

def rewardRun (ops : List Op) : Traced := Traced.run rewardCrypto rewardKawpow rewardConfig true ops

/-- One share of a worker without a beneficiary, on the hash it was sent. -/
theorem sound_reward_share :
    (rewardShare rewardHeaderHash).Sound rewardCrypto rewardKawpow
        (rewardRun [.connect 1, publicJob]) ∧
      (rewardRun [.connect 1, publicJob, rewardShare rewardHeaderHash]).credits.length = 1 := by
  have hsound := @sound_of_careful rewardCrypto rewardKawpow rewardConfig true
    [.connect 1, publicJob, rewardShare rewardHeaderHash] ?_
  · exact ⟨hsound [.connect 1, publicJob] _ (List.prefix_refl _), by decide +kernel⟩
  · exact forall_prefixes_snoc (by decide +kernel)

/-- Work on no header of the server, a block that pays someone else, one share twice, and a
job of the update loop without a cache. -/
theorem shares_not_sound :
    ¬ (rewardShare H256.zero).Sound rewardCrypto rewardKawpow (rewardRun [.connect 1, publicJob]) ∧
      ¬ (rewardShare rewardHeaderHash).Sound rewardCrypto rewardKawpow
        (rewardRun [.connect 1, .authorize 1 (some otherBeneficiary), publicJob]) ∧
      ¬ (rewardShare rewardHeaderHash).Sound rewardCrypto rewardKawpow
        (rewardRun [.connect 1, publicJob, rewardShare rewardHeaderHash]) ∧
      ¬ (rewardShare rewardHeaderHash).Sound rewardCrypto rewardKawpow
        (rewardRun [.connect 1, loopJob]) := by
  decide +kernel

end Pyrax.Stratum
