import Pyrax.Base.Records
import Pyrax.Base.Word
import Pyrax.Types.Primitives

/-!
# AI jobs

`pyrax-node/src/ai/jobs.rs`: the map of all jobs and three counters beside it. A job is
submitted as it comes, its status included. `fail_job` looks at no status and no caller;
the other calls do.

Every call is one step, its reading of the clock an argument, and so is the order in
which `check_expired_jobs` meets the jobs. The priority queue, the indices by requester
and by provider, and what else a job carries are left out; none of these calls reads them.
-/

namespace Pyrax.Ai

open Base Word

inductive JobStatus where
  | pending
  | assigned
  | running
  | completed
  | failed
  | cancelled
  | expired
  deriving DecidableEq

/-- `{:?}`. -/
def JobStatus.debug : JobStatus → String
  | pending => "Pending"
  | assigned => "Assigned"
  | running => "Running"
  | completed => "Completed"
  | failed => "Failed"
  | cancelled => "Cancelled"
  | expired => "Expired"

/-- `[u8; 20]`. -/
abbrev RawAddress := Vector UInt8 20

structure AIJob where
  id : H256
  requester : RawAddress
  provider : Option RawAddress
  status : JobStatus
  input : String
  output : Option String
  maxPrice : UInt64
  actualPrice : Option UInt64
  collateral : UInt64
  submittedAt : UInt64
  assignedAt : Option UInt64
  completedAt : Option UInt64
  error : Option String
  proof : Option String
  timeoutSecs : UInt32
  deriving DecidableEq

inductive JobError where
  | jobAlreadyExists (id : H256)
  | jobNotFound (id : H256)
  | invalidJobData (msg : String)
  | invalidState (msg : String)
  | notAuthorized
  | priceExceeded (maxPrice actualPrice : UInt64)
  deriving DecidableEq

structure JobManager where
  jobs : Column H256 AIJob
  activeJobs : UInt32
  completedJobs : UInt64
  totalPaid : UInt64

abbrev JobOrder := Column.KeyOrder H256 AIJob

namespace AIJob

def validate (job : AIJob) : Except JobError Unit :=
  if job.input = "" then .error (.invalidJobData "input cannot be empty")
  else if job.maxPrice = 0 then .error (.invalidJobData "max_price must be > 0")
  else if job.collateral = 0 then .error (.invalidJobData "collateral required")
  else if job.timeoutSecs = 0 ∨ 86400 < job.timeoutSecs then
    .error (.invalidJobData "timeout must be 1-86400 seconds")
  else .ok ()

/-- The job runs, and has for longer than its time limit. -/
def overdue (job : AIJob) (now : UInt64) : Bool :=
  (job.status = .running ∨ job.status = .assigned) ∧
    job.assignedAt.getD job.submittedAt + job.timeoutSecs.toUInt64 < now

/-- One turn of the loop of `check_expired_jobs`. -/
def expire (now : UInt64) (job : AIJob) : AIJob :=
  if job.overdue now then
    { job with status := .expired, error := some "Job timed out", completedAt := some now }
  else job

end AIJob

namespace JobManager

def new : JobManager := ⟨∅, 0, 0, 0⟩

def submitJob (m : JobManager) (job : AIJob) : Except JobError (H256 × JobManager) :=
  match job.validate with
  | .error e => .error e
  | .ok () =>
    if job.id ∈ m.jobs then .error (.jobAlreadyExists job.id)
    else .ok (job.id, { m with jobs := m.jobs.insert job.id job })

def assignJob (m : JobManager) (jobId : H256) (provider : RawAddress) (now : UInt64) :
    Except JobError JobManager :=
  match m.jobs.lookup jobId with
  | none => .error (.jobNotFound jobId)
  | some job =>
    if job.status ≠ .pending then
      .error (.invalidState ("Job is " ++ job.status.debug ++ ", expected Pending"))
    else
      let job' := { job with status := .assigned, provider := some provider, assignedAt := some now }
      .ok { m with jobs := m.jobs.insert jobId job', activeJobs := m.activeJobs + 1 }

def startJob (m : JobManager) (jobId : H256) (provider : RawAddress) :
    Except JobError JobManager :=
  match m.jobs.lookup jobId with
  | none => .error (.jobNotFound jobId)
  | some job =>
    if job.provider ≠ some provider then .error .notAuthorized
    else if job.status ≠ .assigned then
      .error (.invalidState ("Job is " ++ job.status.debug ++ ", expected Assigned"))
    else .ok { m with jobs := m.jobs.insert jobId { job with status := .running } }

def completeJob (m : JobManager) (jobId : H256) (provider : RawAddress) (output : String)
    (proof : Option String) (actualPrice now : UInt64) : Except JobError JobManager :=
  match m.jobs.lookup jobId with
  | none => .error (.jobNotFound jobId)
  | some job =>
    if job.provider ≠ some provider then .error .notAuthorized
    else if job.status ≠ .running ∧ job.status ≠ .assigned then
      .error (.invalidState ("Job is " ++ job.status.debug ++ ", expected Running or Assigned"))
    else if job.maxPrice < actualPrice then .error (.priceExceeded job.maxPrice actualPrice)
    else
      let job' := { job with
        status := .completed
        output := some output
        proof := proof
        actualPrice := some actualPrice
        completedAt := some now }
      .ok { m with
        jobs := m.jobs.insert jobId job'
        activeJobs := saturatingSub32 m.activeJobs 1
        completedJobs := m.completedJobs + 1
        totalPaid := m.totalPaid + actualPrice }

/-- Whatever the status, whoever calls. -/
def failJob (m : JobManager) (jobId : H256) (error : String) (now : UInt64) :
    Except JobError JobManager :=
  match m.jobs.lookup jobId with
  | none => .error (.jobNotFound jobId)
  | some job =>
    let job' := { job with status := .failed, error := some error, completedAt := some now }
    .ok { m with
      jobs := m.jobs.insert jobId job'
      activeJobs := saturatingSub32 m.activeJobs 1 }

/-- The collateral to give back. -/
def cancelJob (m : JobManager) (jobId : H256) (requester : RawAddress) (now : UInt64) :
    Except JobError (UInt64 × JobManager) :=
  match m.jobs.lookup jobId with
  | none => .error (.jobNotFound jobId)
  | some job =>
    if job.requester ≠ requester then .error .notAuthorized
    else if job.status ≠ .pending then
      .error (.invalidState ("Cannot cancel job in " ++ job.status.debug ++ " state"))
    else
      let job' := { job with status := .cancelled, completedAt := some now }
      .ok (job.collateral, { m with jobs := m.jobs.insert jobId job' })

def checkExpiredJobs (m : JobManager) (order : JobOrder) (now : UInt64) :
    List H256 × JobManager :=
  let expired := ((order.entries m.jobs).filter fun e => e.2.overdue now).map Prod.fst
  (expired, { m with
    jobs := m.jobs.mapValues fun _ => AIJob.expire now
    activeJobs := if expired.isEmpty then m.activeJobs
      else saturatingSub32 m.activeJobs expired.length.toUInt32 })

end JobManager

end Pyrax.Ai
