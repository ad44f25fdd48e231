import Pyrax.Base.Run
import Pyrax.Ai.Jobs

/-!
# The counters of the job manager

Over every run of calls the three counters are the sums over the jobs that they stand
for, no price is above its maximum, and what is over stays so, exactly when every call
meets its condition (`JobCall.Careful`, `booked_iff`). Two calls have one: a job is
submitted neither under way nor completed, and `fail_job` comes to a job that is under
way, or to one that is pending or failed while nothing is. Then no job is both paid and
failed, or refunded after it was assigned.
-/

namespace Pyrax.Ai

open Base Word

inductive JobCall where
  | submitJob (job : AIJob)
  | assignJob (jobId : H256) (provider : RawAddress) (now : UInt64)
  | startJob (jobId : H256) (provider : RawAddress)
  | completeJob (jobId : H256) (provider : RawAddress) (output : String) (proof : Option String)
      (actualPrice now : UInt64)
  | failJob (jobId : H256) (error : String) (now : UInt64)
  | cancelJob (jobId : H256) (requester : RawAddress) (now : UInt64)
  | checkExpiredJobs (order : JobOrder) (now : UInt64)

/-- What a call that succeeds tells its caller. -/
inductive JobEvent where
  | assigned (id : H256)
  | paid (id : H256)
  | failed (id : H256)
  | refunded (id : H256)
  deriving DecidableEq

structure JobRun where
  manager : JobManager
  events : List JobEvent

namespace JobRun

def start : JobRun := ⟨.new, []⟩

/-- A call that fails changes nothing. -/
def step (t : JobRun) : JobCall → JobRun
  | .submitJob job =>
    match t.manager.submitJob job with
    | .ok (_, m) => { t with manager := m }
    | .error _ => t
  | .assignJob jobId provider now =>
    match t.manager.assignJob jobId provider now with
    | .ok m => ⟨m, t.events ++ [.assigned jobId]⟩
    | .error _ => t
  | .startJob jobId provider =>
    match t.manager.startJob jobId provider with
    | .ok m => { t with manager := m }
    | .error _ => t
  | .completeJob jobId provider output proof actualPrice now =>
    match t.manager.completeJob jobId provider output proof actualPrice now with
    | .ok m => ⟨m, t.events ++ [.paid jobId]⟩
    | .error _ => t
  | .failJob jobId error now =>
    match t.manager.failJob jobId error now with
    | .ok m => ⟨m, t.events ++ [.failed jobId]⟩
    | .error _ => t
  | .cancelJob jobId requester now =>
    match t.manager.cancelJob jobId requester now with
    | .ok (_, m) => ⟨m, t.events ++ [.refunded jobId]⟩
    | .error _ => t
  | .checkExpiredJobs order now =>
    { t with manager := (t.manager.checkExpiredJobs order now).2 }

def run (calls : List JobCall) : JobRun := calls.foldl step start

theorem run_snoc (calls : List JobCall) (call : JobCall) :
    run (calls ++ [call]) = (run calls).step call := by
  rw [run, List.foldl_append]
  rfl

end JobRun

/-! ## The law and the condition -/

namespace AIJob

/-- Under way. -/
def Active (job : AIJob) : Prop := job.status = .assigned ∨ job.status = .running

instance (job : AIJob) : Decidable job.Active := instDecidableOr

/-- Over. -/
def Final (job : AIJob) : Prop :=
  job.status = .completed ∨ job.status = .failed ∨ job.status = .cancelled ∨ job.status = .expired

/-! What a job counts for. -/

def active (job : AIJob) : Nat := if job.Active then 1 else 0

def completed (job : AIJob) : Nat := if job.status = .completed then 1 else 0

def paid (job : AIJob) : Nat :=
  if job.status = .completed then (job.actualPrice.getD 0).toNat else 0

def Priced (job : AIJob) : Prop := ∀ price ∈ job.actualPrice, price ≤ job.maxPrice

-- there are too many prices to go through them all
instance (job : AIJob) : Decidable job.Priced := Option.decidableForallMem job.actualPrice

end AIJob

/-- The counters are sums over the jobs. -/
structure Booked (m : JobManager) : Prop where
  active : m.activeJobs.toNat = Column.total AIJob.active m.jobs
  completed : m.completedJobs.toNat = Column.total AIJob.completed m.jobs
  paid : m.totalPaid.toNat = Column.total AIJob.paid m.jobs
  priced : ∀ id job, m.jobs.lookup id = some job → job.Priced

/-- What is over keeps its status. -/
def StaysFinal (m m' : JobManager) : Prop :=
  ∀ id job, m.jobs.lookup id = some job → job.Final →
    ∃ job', m'.jobs.lookup id = some job' ∧ job'.status = job.status

/-- No job is paid and failed, paid and refunded, or refunded once it was assigned. -/
structure Exclusive (events : List JobEvent) : Prop where
  paidFailed : ∀ id, ¬ (.paid id ∈ events ∧ .failed id ∈ events)
  paidRefunded : ∀ id, ¬ (.paid id ∈ events ∧ .refunded id ∈ events)
  assignedRefunded : ∀ id, ¬ (.assigned id ∈ events ∧ .refunded id ∈ events)

/-- The condition on a call, of the manager before it. -/
def JobCall.Careful (m : JobManager) : JobCall → Prop
  | .submitJob job => job.validate = .ok () → job.id ∉ m.jobs →
    (¬ job.Active ∧ job.status ≠ .completed) ∧ job.Priced
  | .failJob jobId _ _ => ∀ job ∈ m.jobs.lookup jobId,
    job.Active ∨ (m.activeJobs = 0 ∧ (job.status = .pending ∨ job.status = .failed))
  | _ => True

instance JobCall.decidableCareful (m : JobManager) : (call : JobCall) → Decidable (call.Careful m)
  | .submitJob job => inferInstanceAs (Decidable (job.validate = .ok () → job.id ∉ m.jobs →
      (¬ job.Active ∧ job.status ≠ .completed) ∧ job.Priced))
  | .failJob jobId _ _ => inferInstanceAs (Decidable (∀ job ∈ m.jobs.lookup jobId,
      job.Active ∨ (m.activeJobs = 0 ∧ (job.status = .pending ∨ job.status = .failed))))
  | .assignJob .. => inferInstanceAs (Decidable True)
  | .startJob .. => inferInstanceAs (Decidable True)
  | .completeJob .. => inferInstanceAs (Decidable True)
  | .cancelJob .. => inferInstanceAs (Decidable True)
  | .checkExpiredJobs .. => inferInstanceAs (Decidable True)

/-- Fewer than `2 ^ 32` jobs, with prices that add up below `2 ^ 64`. -/
structure JobManager.Small (m : JobManager) : Prop where
  jobs : m.jobs.keys.card < 2 ^ 32
  paid : Column.total AIJob.paid m.jobs < 2 ^ 64

instance (m : JobManager) : Decidable m.Small :=
  decidable_of_iff (m.jobs.keys.card < 2 ^ 32 ∧ Column.total AIJob.paid m.jobs < 2 ^ 64)
    ⟨fun h => ⟨h.1, h.2⟩, fun h => ⟨h.jobs, h.paid⟩⟩

/-! ## What one call does -/

namespace AIJob

/-! A job after each kind of call. -/

def assignTo (job : AIJob) (provider : RawAddress) (now : UInt64) : AIJob :=
  { job with status := .assigned, provider := some provider, assignedAt := some now }

def finish (job : AIJob) (output : String) (proof : Option String) (actualPrice now : UInt64) :
    AIJob :=
  { job with
    status := .completed
    output := some output
    proof := proof
    actualPrice := some actualPrice
    completedAt := some now }

def fail (job : AIJob) (error : String) (now : UInt64) : AIJob :=
  { job with status := .failed, error := some error, completedAt := some now }

end AIJob

/-- All a call can do. One that changes nothing meets its condition. -/
inductive JobOutcome (t : JobRun) : JobCall → JobRun → Prop
  | nothing {call : JobCall} (hcareful : call.Careful t.manager) : JobOutcome t call t
  | submitted {job : AIJob} (hvalid : job.validate = .ok ()) (hnew : job.id ∉ t.manager.jobs) :
      JobOutcome t (.submitJob job)
        { t with manager := { t.manager with jobs := t.manager.jobs.insert job.id job } }
  | assigned {id : H256} {provider : RawAddress} {now : UInt64} {job : AIJob}
      (hp : t.manager.jobs.lookup id = some job) (hstatus : job.status = .pending) :
      JobOutcome t (.assignJob id provider now)
        ⟨{ t.manager with
            jobs := t.manager.jobs.insert id (job.assignTo provider now)
            activeJobs := t.manager.activeJobs + 1 }, t.events ++ [.assigned id]⟩
  | started {id : H256} {provider : RawAddress} {job : AIJob}
      (hp : t.manager.jobs.lookup id = some job) (hstatus : job.status = .assigned) :
      JobOutcome t (.startJob id provider)
        { t with manager := { t.manager with
            jobs := t.manager.jobs.insert id { job with status := .running } } }
  | completed {id : H256} {provider : RawAddress} {output : String} {proof : Option String}
      {actualPrice now : UInt64} {job : AIJob} (hp : t.manager.jobs.lookup id = some job)
      (hstatus : job.Active) (hprice : actualPrice ≤ job.maxPrice) :
      JobOutcome t (.completeJob id provider output proof actualPrice now)
        ⟨{ jobs := t.manager.jobs.insert id (job.finish output proof actualPrice now)
           activeJobs := saturatingSub32 t.manager.activeJobs 1
           completedJobs := t.manager.completedJobs + 1
           totalPaid := t.manager.totalPaid + actualPrice }, t.events ++ [.paid id]⟩
  | failed {id : H256} {error : String} {now : UInt64} {job : AIJob}
      (hp : t.manager.jobs.lookup id = some job) :
      JobOutcome t (.failJob id error now)
        ⟨{ t.manager with
            jobs := t.manager.jobs.insert id (job.fail error now)
            activeJobs := saturatingSub32 t.manager.activeJobs 1 }, t.events ++ [.failed id]⟩
  | cancelled {id : H256} {requester : RawAddress} {now : UInt64} {job : AIJob}
      (hp : t.manager.jobs.lookup id = some job) (hstatus : job.status = .pending) :
      JobOutcome t (.cancelJob id requester now)
        ⟨{ t.manager with
            jobs := t.manager.jobs.insert id
              { job with status := .cancelled, completedAt := some now } },
          t.events ++ [.refunded id]⟩
  | expired {order : JobOrder} {now : UInt64} :
      JobOutcome t (.checkExpiredJobs order now)
        { t with manager := (t.manager.checkExpiredJobs order now).2 }

theorem job_outcome (t : JobRun) (call : JobCall) : JobOutcome t call (t.step call) := by
  cases call with
  | submitJob job =>
    rw [JobRun.step, JobManager.submitJob]
    cases hvalid : job.validate with
    | error e => exact .nothing fun h => by rw [hvalid] at h; cases h
    | ok u =>
      dsimp only
      by_cases hmem : job.id ∈ t.manager.jobs
      · rw [if_pos hmem]
        exact .nothing fun _ hnew => absurd hmem hnew
      · rw [if_neg hmem]
        exact .submitted hvalid hmem
  | assignJob id provider now =>
    rw [JobRun.step, JobManager.assignJob]
    cases hp : t.manager.jobs.lookup id with
    | none => exact .nothing trivial
    | some job =>
      dsimp only
      by_cases hstatus : job.status = .pending
      · rw [if_neg (not_not.mpr hstatus)]
        exact .assigned hp hstatus
      · rw [if_pos hstatus]
        exact .nothing trivial
  | startJob id provider =>
    rw [JobRun.step, JobManager.startJob]
    cases hp : t.manager.jobs.lookup id with
    | none => exact .nothing trivial
    | some job =>
      dsimp only
      by_cases hprovider : job.provider = some provider
      · rw [if_neg (not_not.mpr hprovider)]
        by_cases hstatus : job.status = .assigned
        · rw [if_neg (not_not.mpr hstatus)]
          exact .started hp hstatus
        · rw [if_pos hstatus]
          exact .nothing trivial
      · rw [if_pos hprovider]
        exact .nothing trivial
  | completeJob id provider output proof actualPrice now =>
    rw [JobRun.step, JobManager.completeJob]
    cases hp : t.manager.jobs.lookup id with
    | none => exact .nothing trivial
    | some job =>
      dsimp only
      by_cases hprovider : job.provider = some provider
      · rw [if_neg (not_not.mpr hprovider)]
        by_cases hstatus : job.Active
        · rw [if_neg (by rintro ⟨hrunning, hassigned⟩; exact hstatus.elim hassigned hrunning)]
          by_cases hprice : job.maxPrice < actualPrice
          · rw [if_pos hprice]
            exact .nothing trivial
          · rw [if_neg hprice]
            exact .completed hp hstatus (UInt64.not_lt.mp hprice)
        · rw [if_pos ⟨fun h => hstatus (Or.inr h), fun h => hstatus (Or.inl h)⟩]
          exact .nothing trivial
      · rw [if_pos hprovider]
        exact .nothing trivial
  | failJob id error now =>
    rw [JobRun.step, JobManager.failJob]
    cases hp : t.manager.jobs.lookup id with
    | none =>
      refine .nothing fun job hjob => ?_
      rw [hp] at hjob
      cases hjob
    | some job => exact .failed hp
  | cancelJob id requester now =>
    rw [JobRun.step, JobManager.cancelJob]
    cases hp : t.manager.jobs.lookup id with
    | none => exact .nothing trivial
    | some job =>
      dsimp only
      by_cases hrequester : job.requester = requester
      · rw [if_neg (not_not.mpr hrequester)]
        by_cases hstatus : job.status = .pending
        · rw [if_neg (not_not.mpr hstatus)]
          exact .cancelled hp hstatus
        · rw [if_pos hstatus]
          exact .nothing trivial
      · rw [if_pos hrequester]
        exact .nothing trivial
  | checkExpiredJobs order now => exact .expired

/-! ## The counters, one call at a time -/

variable {m m' : JobManager} {t t' : JobRun} {id : H256} {job job' : AIJob} {call : JobCall}

theorem AIJob.active_le (job : AIJob) : job.active ≤ 1 := by
  unfold AIJob.active
  split <;> omega

theorem AIJob.completed_le (job : AIJob) : job.completed ≤ 1 := by
  unfold AIJob.completed
  split <;> omega

theorem AIJob.active_of (h : job.Active) : job.active = 1 := if_pos h

theorem AIJob.active_of_not (h : ¬ job.Active) : job.active = 0 := if_neg h

/-- A job under way is not over. -/
theorem AIJob.Active.not_final (h : job.Active) : ¬ job.Final := by
  rintro (hs | hs | hs | hs) <;> rcases h with ha | ha <;> rw [ha] at hs <;> cases hs

theorem AIJob.Active.not_completed (h : job.Active) : job.status ≠ .completed :=
  fun hs => h.not_final (Or.inl hs)

/-- What counts neither as completed nor as paid. -/
theorem AIJob.uncounted (h : job.status ≠ .completed) : job.completed = 0 ∧ job.paid = 0 :=
  ⟨if_neg h, if_neg h⟩

/-- Where the counters follow a job that is replaced, they are sums again. -/
theorem Booked.replace (h : Booked m) (hp : m.jobs.lookup id = some job)
    (hjobs : m'.jobs = m.jobs.insert id job')
    (hactive : m'.activeJobs.toNat + job.active = m.activeJobs.toNat + job'.active)
    (hcompleted : m'.completedJobs.toNat + job.completed
      = m.completedJobs.toNat + job'.completed)
    (hpaid : m'.totalPaid.toNat + job.paid = m.totalPaid.toNat + job'.paid)
    (hpriced : job'.Priced) : Booked m' where
  active := by
    have htotal := Column.total_replace AIJob.active hp job'
    rw [← hjobs, ← h.active] at htotal
    omega
  completed := by
    have htotal := Column.total_replace AIJob.completed hp job'
    rw [← hjobs, ← h.completed] at htotal
    omega
  paid := by
    have htotal := Column.total_replace AIJob.paid hp job'
    rw [← hjobs, ← h.paid] at htotal
    omega
  priced := by
    rw [hjobs]
    exact Column.forall_lookup_insert h.priced hpriced

/-- A replaced job stays over if it was, and the others do. -/
theorem staysFinal_insert_iff (hp : m.jobs.lookup id = some job)
    (hjobs : m'.jobs = m.jobs.insert id job') :
    StaysFinal m m' ↔ (job.Final → job'.status = job.status) := by
  constructor
  · intro h hfinal
    obtain ⟨q', hq', hs⟩ := h id job hp hfinal
    rw [hjobs, Finmap.lookup_insert] at hq'
    rw [Option.some.inj hq', hs]
  · intro h other q hq hfinal
    rw [hjobs]
    by_cases hother : other = id
    · subst hother
      rw [hp] at hq
      obtain rfl := Option.some.inj hq
      exact ⟨job', Finmap.lookup_insert _, h hfinal⟩
    · exact ⟨q, by rw [Finmap.lookup_insert_of_ne _ hother, hq], rfl⟩

/-- A job under way is counted. -/
theorem Booked.active_pos (h : Booked m) (hp : m.jobs.lookup id = some job)
    (hactive : job.Active) : 0 < m.activeJobs.toNat := by
  have hle := Column.le_total AIJob.active hp
  rw [AIJob.active_of hactive, ← h.active] at hle
  exact hle

theorem booked_assigned (h : Booked m) (hp : m.jobs.lookup id = some job)
    (hstatus : job.status = .pending) (provider : RawAddress) (now : UInt64)
    (hjobs : m'.jobs = m.jobs.insert id (job.assignTo provider now))
    (hcounters : m'.activeJobs = m.activeJobs + 1 ∧ m'.completedJobs = m.completedJobs ∧
      m'.totalPaid = m.totalPaid) (hsmall : m'.Small) : Booked m' ∧ StaysFinal m m' := by
  obtain ⟨hactive, hcompleted, hpaid⟩ := hcounters
  have hpending : job.active = 0 := AIJob.active_of_not (by
    rintro (hs | hs) <;> rw [hstatus] at hs <;> cases hs)
  have hassigned : (job.assignTo provider now).active = 1 := AIJob.active_of (Or.inl rfl)
  -- one more job under way is still one of fewer than a word
  have hroom : m.activeJobs.toNat + 1 < 2 ^ 32 := by
    have htotal := Column.total_replace AIJob.active hp (job.assignTo provider now)
    have hcard := Column.total_le_card AIJob.active_le m'.jobs
    have hjobs32 := hsmall.jobs
    rw [← hjobs, ← h.active] at htotal
    omega
  have hcounted := @AIJob.uncounted job (by rw [hstatus]; decide)
  refine ⟨h.replace hp hjobs ?_ ?_ ?_ (h.priced id job hp),
    (staysFinal_insert_iff hp hjobs).mpr ?_⟩
  · rw [hactive, hpending, hassigned, UInt32.toNat_add]
    have hone : (1 : UInt32).toNat = 1 := rfl
    omega
  · rw [hcompleted, hcounted.1]
    rfl
  · rw [hpaid, hcounted.2]
    rfl
  · rintro (hs | hs | hs | hs) <;> rw [hstatus] at hs <;> cases hs

/-- A move between two statuses that count alike. -/
theorem booked_moved (h : Booked m) (hp : m.jobs.lookup id = some job)
    (hjobs : m'.jobs = m.jobs.insert id job')
    (hcounters : m'.activeJobs = m.activeJobs ∧ m'.completedJobs = m.completedJobs ∧
      m'.totalPaid = m.totalPaid) (hfinal : ¬ job.Final) (hsame : job'.Active ↔ job.Active)
    (hcompleted : job'.status ≠ .completed) (hpriced : job'.Priced) :
    Booked m' ∧ StaysFinal m m' := by
  obtain ⟨hactive, hcount, hpaid⟩ := hcounters
  have hold := @AIJob.uncounted job fun hs => hfinal (Or.inl hs)
  have hnew := AIJob.uncounted hcompleted
  refine ⟨h.replace hp hjobs ?_ ?_ ?_ hpriced,
    (staysFinal_insert_iff hp hjobs).mpr fun hf => absurd hf hfinal⟩
  · rw [hactive, AIJob.active, AIJob.active, if_congr hsame rfl rfl]
  · rw [hcount, hold.1, hnew.1]
  · rw [hpaid, hold.2, hnew.2]

theorem booked_completed (h : Booked m) (hp : m.jobs.lookup id = some job)
    (hstatus : job.Active) {output : String} {proof : Option String} {actualPrice now : UInt64}
    (hprice : actualPrice ≤ job.maxPrice)
    (hjobs : m'.jobs = m.jobs.insert id (job.finish output proof actualPrice now))
    (hcounters : m'.activeJobs = saturatingSub32 m.activeJobs 1 ∧
      m'.completedJobs = m.completedJobs + 1 ∧ m'.totalPaid = m.totalPaid + actualPrice)
    (hsmall : m'.Small) : Booked m' ∧ StaysFinal m m' := by
  obtain ⟨hactive, hcompleted, hpaid⟩ := hcounters
  have hold := AIJob.uncounted hstatus.not_completed
  have hnew : (job.finish output proof actualPrice now).completed = 1 ∧
      (job.finish output proof actualPrice now).paid = actualPrice.toNat := ⟨rfl, rfl⟩
  have hpos := h.active_pos hp hstatus
  have hroom : m.completedJobs.toNat + 1 < 2 ^ 64 := by
    have htotal := Column.total_replace AIJob.completed hp (job.finish output proof actualPrice now)
    have hcard := Column.total_le_card AIJob.completed_le m'.jobs
    have hjobs32 := hsmall.jobs
    rw [← hjobs, ← h.completed] at htotal
    omega
  have hfits : m.totalPaid.toNat + actualPrice.toNat < 2 ^ 64 := by
    have htotal := Column.total_replace AIJob.paid hp (job.finish output proof actualPrice now)
    have hsum := hsmall.paid
    rw [← hjobs, ← h.paid] at htotal
    omega
  refine ⟨h.replace hp hjobs ?_ ?_ ?_ ?_,
    (staysFinal_insert_iff hp hjobs).mpr fun hf => absurd hf hstatus.not_final⟩
  · have hover : (job.finish output proof actualPrice now).active = 0 := AIJob.active_of_not (by
      rintro (hs | hs) <;> cases hs)
    have hone : (1 : UInt32).toNat = 1 := rfl
    rw [hactive, toNat_saturatingSub32, AIJob.active_of hstatus, hover]
    omega
  · have hone : (1 : UInt64).toNat = 1 := rfl
    rw [hcompleted, hold.1, hnew.1, UInt64.toNat_add]
    omega
  · rw [hpaid, hold.2, hnew.2, toNat_add_of_lt hfits]
    rfl
  · intro price hmem
    cases Option.some.inj hmem
    exact hprice

/-- `fail_job` is right of a job under way, and of one that counts for nothing while
nothing is counted. -/
theorem booked_failed_iff (h : Booked m) (hp : m.jobs.lookup id = some job) (error : String)
    (now : UInt64) (hjobs : m'.jobs = m.jobs.insert id (job.fail error now))
    (hcounters : m'.activeJobs = saturatingSub32 m.activeJobs 1 ∧
      m'.completedJobs = m.completedJobs ∧ m'.totalPaid = m.totalPaid) :
    Booked m' ∧ StaysFinal m m' ↔ (JobCall.failJob id error now).Careful m := by
  obtain ⟨hactive, hcompleted, hpaid⟩ := hcounters
  have hone : (1 : UInt32).toNat = 1 := rfl
  have hover : (job.fail error now).active = 0 := AIJob.active_of_not (by
    rintro (hs | hs) <;> cases hs)
  have hnew := @AIJob.uncounted (job.fail error now) (by
    intro hs
    cases hs)
  have hsub : m'.activeJobs.toNat = m.activeJobs.toNat - 1 := by
    rw [hactive, toNat_saturatingSub32, hone]
  constructor
  · rintro ⟨hbooked, hstays⟩ q hq
    rw [hp] at hq
    cases hq
    by_cases hway : job.Active
    · exact Or.inl hway
    -- it counted for nothing, so the counter has not moved
    have hkeeps := (staysFinal_insert_iff hp hjobs).mp hstays
    have htotal := Column.total_replace AIJob.active hp (job.fail error now)
    rw [← hjobs, ← h.active, ← hbooked.active, AIJob.active_of_not hway, hover] at htotal
    refine Or.inr ⟨UInt32.toNat_inj.mp (show m.activeJobs.toNat = 0 by omega), ?_⟩
    cases hs : job.status with
    | pending => exact Or.inl rfl
    | assigned => exact absurd (Or.inl hs) hway
    | running => exact absurd (Or.inr hs) hway
    | completed =>
      have hsame := hkeeps (Or.inl hs)
      rw [hs] at hsame
      cases hsame
    | failed => exact Or.inr rfl
    | cancelled =>
      have hsame := hkeeps (Or.inr (Or.inr (Or.inl hs)))
      rw [hs] at hsame
      cases hsame
    | expired =>
      have hsame := hkeeps (Or.inr (Or.inr (Or.inr hs)))
      rw [hs] at hsame
      cases hsame
  · intro hcareful
    have hcase := hcareful job hp
    have hopen : job.status ≠ .completed := by
      intro hs
      rcases hcase with hway | ⟨-, ho | ho⟩
      · exact hway.not_completed hs
      · rw [ho] at hs
        cases hs
      · rw [ho] at hs
        cases hs
    have hold := AIJob.uncounted hopen
    refine ⟨h.replace hp hjobs ?_ ?_ ?_ (h.priced id job hp),
      (staysFinal_insert_iff hp hjobs).mpr fun hf => ?_⟩
    · rcases hcase with hway | ⟨hzero, ho⟩
      · have hpos := h.active_pos hp hway
        rw [AIJob.active_of hway, hover]
        omega
      · have hnone : ¬ job.Active := by
          rintro (hs | hs) <;> rcases ho with ho | ho <;> rw [ho] at hs <;> cases hs
        have hz : m.activeJobs.toNat = 0 := by
          rw [hzero]
          rfl
        rw [AIJob.active_of_not hnone, hover]
        omega
    · rw [hcompleted, hold.1, hnew.1]
    · rw [hpaid, hold.2, hnew.2]
    · rcases hcase with hway | ⟨-, ho | ho⟩
      · exact absurd hf hway.not_final
      · rcases hf with hs | hs | hs | hs <;> rw [ho] at hs <;> cases hs
      · exact ho.symm

/-- Submitting is right of a job that counts for nothing yet. -/
theorem booked_submitted_iff (h : Booked m) (hvalid : job.validate = .ok ())
    (hnew : job.id ∉ m.jobs) :
    Booked { m with jobs := m.jobs.insert job.id job } ∧
        StaysFinal m { m with jobs := m.jobs.insert job.id job } ↔
      (JobCall.submitJob job).Careful m := by
  have hinsert : ∀ f : AIJob → Nat,
      Column.total f (m.jobs.insert job.id job) = f job + Column.total f m.jobs := by
    intro f
    exact Column.total_insert_of_notMem f job hnew
  constructor
  · rintro ⟨hbooked, -⟩ _ _
    have hactive := hbooked.active
    have hcompleted := hbooked.completed
    dsimp only at hactive hcompleted
    rw [hinsert, h.active] at hactive
    rw [hinsert, h.completed] at hcompleted
    refine ⟨⟨fun hway => ?_, fun hs => ?_⟩,
      hbooked.priced job.id job (Finmap.lookup_insert _)⟩
    · rw [AIJob.active_of hway] at hactive
      omega
    · rw [AIJob.completed, if_pos hs] at hcompleted
      omega
  · intro hcareful
    obtain ⟨⟨hway, hopen⟩, hpriced⟩ := hcareful hvalid hnew
    have hcounted := AIJob.uncounted hopen
    refine ⟨⟨?_, ?_, ?_, Column.forall_lookup_insert h.priced hpriced⟩, fun id q hq _ => ?_⟩
    · show m.activeJobs.toNat = Column.total AIJob.active (m.jobs.insert job.id job)
      rw [hinsert, AIJob.active_of_not hway, Nat.zero_add]
      exact h.active
    · show m.completedJobs.toNat = Column.total AIJob.completed (m.jobs.insert job.id job)
      rw [hinsert, hcounted.1, Nat.zero_add]
      exact h.completed
    · show m.totalPaid.toNat = Column.total AIJob.paid (m.jobs.insert job.id job)
      rw [hinsert, hcounted.2, Nat.zero_add]
      exact h.paid
    · refine ⟨q, ?_, rfl⟩
      rw [← hq]
      refine Finmap.lookup_insert_of_ne _ fun heq => hnew ?_
      rw [← heq]
      exact Finmap.mem_of_lookup_eq_some hq

/-! ### Expiry -/

theorem AIJob.overdue_active {now : UInt64} (h : job.overdue now = true) : job.Active := by
  have hstatus := (of_decide_eq_true h).1
  exact hstatus.symm

/-- What expires is taken off those under way, and nothing else. -/
theorem AIJob.expire_active (now : UInt64) (job : AIJob) :
    (job.expire now).active + (if job.overdue now then 1 else 0) = job.active := by
  unfold AIJob.expire
  cases h : job.overdue now with
  | true =>
    rw [if_pos rfl, if_pos rfl, AIJob.active_of (AIJob.overdue_active h), AIJob.active_of_not]
    rintro (hs | hs) <;> cases hs
  | false => rw [if_neg Bool.false_ne_true, if_neg Bool.false_ne_true, Nat.add_zero]

/-- A job that is not under way does not expire. -/
theorem AIJob.expire_of_not (now : UInt64) (h : ¬ job.Active) : job.expire now = job := by
  unfold AIJob.expire
  rw [if_neg fun hover => h (AIJob.overdue_active hover)]

theorem AIJob.expire_uncounted (now : UInt64) (job : AIJob) :
    (job.expire now).completed = job.completed ∧ (job.expire now).paid = job.paid := by
  by_cases hway : job.Active
  · have hold := AIJob.uncounted hway.not_completed
    have hnew : (job.expire now).status ≠ .completed := by
      unfold AIJob.expire
      split
      · intro hs
        cases hs
      · exact hway.not_completed
    rw [hold.1, hold.2]
    exact AIJob.uncounted hnew
  · rw [AIJob.expire_of_not now hway]
    exact ⟨rfl, rfl⟩

theorem AIJob.expire_priced (now : UInt64) (h : job.Priced) : (job.expire now).Priced := by
  unfold AIJob.expire
  split
  · exact h
  · exact h

/-- The jobs that `check_expired_jobs` returns are counted one by one. -/
theorem length_expired (m : JobManager) (order : JobOrder) (now : UInt64) :
    (m.checkExpiredJobs order now).1.length
      = Column.total (fun job => if job.overdue now then 1 else 0) m.jobs := by
  rw [JobManager.checkExpiredJobs, List.length_map, ← order.sum_entries]
  induction order.entries m.jobs with
  | nil => rfl
  | cons e entries ih =>
    rw [List.map_cons, List.sum_cons, ← ih, List.filter_cons]
    cases e.2.overdue now with
    | true =>
      rw [if_pos rfl, if_pos rfl, List.length_cons]
      omega
    | false =>
      rw [if_neg Bool.false_ne_true, if_neg Bool.false_ne_true]
      omega

/-- The expiry task keeps the counters. -/
theorem booked_expired (h : Booked m) (order : JobOrder) (now : UInt64) :
    Booked (m.checkExpiredJobs order now).2 ∧ StaysFinal m (m.checkExpiredJobs order now).2 := by
  have hlookup : ∀ id, (m.checkExpiredJobs order now).2.jobs.lookup id
      = (m.jobs.lookup id).map (AIJob.expire now) := fun id => Column.lookup_mapValues ..
  have htotal : ∀ f : AIJob → Nat, Column.total f (m.checkExpiredJobs order now).2.jobs
      = Column.total (fun job => f (job.expire now)) m.jobs := by
    intro f
    exact Column.total_mapValues f (AIJob.expire now) m.jobs
  have hlength := length_expired m order now
  have hsplit := Column.total_add (fun job => (AIJob.expire now job).active)
    (fun job => if job.overdue now then 1 else 0) m.jobs
  rw [funext (AIJob.expire_active now), ← h.active, ← hlength, ← htotal] at hsplit
  refine ⟨⟨?_, ?_, ?_, fun id q hq => ?_⟩, fun id q hq hfinal => ?_⟩
  · -- what is returned is no more than what is counted
    have hcounter : (m.checkExpiredJobs order now).2.activeJobs.toNat
        = m.activeJobs.toNat - (m.checkExpiredJobs order now).1.length := by
      have hword : m.activeJobs.toNat < 2 ^ 32 := m.activeJobs.toNat_lt
      show UInt32.toNat (if (m.checkExpiredJobs order now).1.isEmpty then m.activeJobs
        else saturatingSub32 m.activeJobs (m.checkExpiredJobs order now).1.length.toUInt32) = _
      split
      · next hempty => rw [List.isEmpty_iff.mp hempty, List.length_nil, Nat.sub_zero]
      · have hlen : (m.checkExpiredJobs order now).1.length.toUInt32.toNat
            = (m.checkExpiredJobs order now).1.length :=
          UInt32.toNat_ofNat_of_lt' (by show _ < 2 ^ 32; omega)
        rw [toNat_saturatingSub32, hlen]
    rw [hcounter]
    omega
  · rw [htotal, funext fun job => (AIJob.expire_uncounted now job).1]
    exact h.completed
  · rw [htotal, funext fun job => (AIJob.expire_uncounted now job).2]
    exact h.paid
  · rw [hlookup] at hq
    obtain ⟨job, hp, rfl⟩ := Option.map_eq_some_iff.mp hq
    exact AIJob.expire_priced now (h.priced id job hp)
  · refine ⟨q.expire now, by rw [hlookup, hq]; rfl, ?_⟩
    rw [AIJob.expire_of_not now fun hway => hway.not_final hfinal]

/-! ## Any call -/

/-- **One call.** The counters stay sums and what is over stays so exactly when the call
meets its condition. -/
theorem JobOutcome.booked_step_iff (ho : JobOutcome t call t') (h : Booked t.manager)
    (hsmall : t'.manager.Small) :
    Booked t'.manager ∧ StaysFinal t.manager t'.manager ↔ call.Careful t.manager := by
  cases ho with
  | nothing hcareful => exact iff_of_true ⟨h, fun id q hq _ => ⟨q, hq, rfl⟩⟩ hcareful
  | submitted hvalid hnew => exact booked_submitted_iff h hvalid hnew
  | assigned hp hstatus =>
    exact iff_of_true (booked_assigned h hp hstatus _ _ rfl ⟨rfl, rfl, rfl⟩ hsmall) trivial
  | @started id provider job hp hstatus =>
    have hway : job.Active := Or.inl hstatus
    refine iff_of_true (booked_moved h hp rfl ⟨rfl, rfl, rfl⟩ hway.not_final
      (iff_of_true (Or.inr rfl) hway) ?_ (h.priced id job hp)) trivial
    intro hs
    cases hs
  | completed hp hstatus hprice =>
    exact iff_of_true (booked_completed h hp hstatus hprice rfl ⟨rfl, rfl, rfl⟩ hsmall) trivial
  | failed hp => exact booked_failed_iff h hp _ _ rfl ⟨rfl, rfl, rfl⟩
  | @cancelled id requester now job hp hstatus =>
    refine iff_of_true (booked_moved h hp rfl ⟨rfl, rfl, rfl⟩ ?_ ?_ ?_ (h.priced id job hp)) trivial
    · rintro (hs | hs | hs | hs) <;> rw [hstatus] at hs <;> cases hs
    · refine iff_of_false ?_ ?_
      · rintro (hs | hs) <;> cases hs
      · rintro (hs | hs) <;> rw [hstatus] at hs <;> cases hs
    · intro hs
      cases hs
  | expired => exact iff_of_true (booked_expired h _ _) trivial

/-! ## What the callers were told -/

namespace JobEvent

def jobId : JobEvent → H256
  | assigned id => id
  | paid id => id
  | failed id => id
  | refunded id => id

/-- What was told of a job still holds of it. -/
def Holds (job : AIJob) : JobEvent → Prop
  | assigned _ => job.status ≠ .pending ∧ job.status ≠ .cancelled
  | paid _ => job.status = .completed
  | failed _ => job.status = .failed
  | refunded _ => job.status = .cancelled

end JobEvent

def Told (t : JobRun) : Prop :=
  ∀ e ∈ t.events, ∃ job, t.manager.jobs.lookup e.jobId = some job ∧ e.Holds job

theorem Told.exclusive (h : Told t) : Exclusive t.events where
  paidFailed := by
    rintro id ⟨hpaid, hfailed⟩
    obtain ⟨job, hp, hs⟩ := h _ hpaid
    obtain ⟨job', hp', hs'⟩ := h _ hfailed
    cases hp.symm.trans hp'
    cases (show job.status = .completed from hs).symm.trans hs'
  paidRefunded := by
    rintro id ⟨hpaid, hrefunded⟩
    obtain ⟨job, hp, hs⟩ := h _ hpaid
    obtain ⟨job', hp', hs'⟩ := h _ hrefunded
    cases hp.symm.trans hp'
    cases (show job.status = .completed from hs).symm.trans hs'
  assignedRefunded := by
    rintro id ⟨hassigned, hrefunded⟩
    obtain ⟨job, hp, hs⟩ := h _ hassigned
    obtain ⟨job', hp', hs'⟩ := h _ hrefunded
    cases hp.symm.trans hp'
    exact hs.2 hs'

/-- A job stays over, and once it is past pending it is neither pending nor cancelled. -/
structure Onward (job job' : AIJob) : Prop where
  final : job.Final → job'.status = job.status
  past : job.status ≠ .pending → job.status ≠ .cancelled →
    job'.status ≠ .pending ∧ job'.status ≠ .cancelled

theorem JobEvent.Holds.onward {e : JobEvent} (h : e.Holds job) (ho : Onward job job') :
    e.Holds job' := by
  cases e with
  | assigned id => exact ho.past h.1 h.2
  | paid id => exact (ho.final (Or.inl h)).trans h
  | failed id => exact (ho.final (Or.inr (Or.inl h))).trans h
  | refunded id => exact (ho.final (Or.inr (Or.inr (Or.inl h)))).trans h

/-- What was told keeps holding of a job that moves onward, and what is new holds of it. -/
theorem Told.replace (h : Told t) (job' : AIJob) (hp : t.manager.jobs.lookup id = some job)
    (hjobs : t'.manager.jobs = t.manager.jobs.insert id job') (ho : Onward job job')
    (hevents : ∀ e ∈ t'.events, e ∈ t.events ∨ (e.jobId = id ∧ e.Holds job')) : Told t' := by
  intro e he
  rw [hjobs]
  rcases hevents e he with hold | ⟨heid, hnew⟩
  · obtain ⟨q, hq, hholds⟩ := h e hold
    by_cases hid : e.jobId = id
    · rw [hid, hp] at hq
      obtain rfl := Option.some.inj hq
      exact ⟨job', by rw [hid, Finmap.lookup_insert], hholds.onward ho⟩
    · exact ⟨q, by rw [Finmap.lookup_insert_of_ne _ hid, hq], hholds⟩
  · exact ⟨job', by rw [heid, Finmap.lookup_insert], hnew⟩

/-- A job that is not over may become anything but pending, and cancelled from pending only. -/
theorem Onward.of_not_final (h : ¬ job.Final) (hp : job'.status ≠ .pending)
    (hc : job'.status = .cancelled → job.status = .pending) : Onward job job' :=
  ⟨fun hf => absurd hf h, fun hnot _ => ⟨hp, fun hs => hnot (hc hs)⟩⟩

theorem AIJob.not_final_of_pending (h : job.status = .pending) : ¬ job.Final := by
  rintro (hs | hs | hs | hs) <;> rw [h] at hs <;> cases hs

/-- One more event, about the job that moved. -/
theorem mem_snoc_event {events : List JobEvent} {e₁ : JobEvent} (hid : e₁.jobId = id)
    (hholds : e₁.Holds job') :
    ∀ e ∈ events ++ [e₁], e ∈ events ∨ (e.jobId = id ∧ e.Holds job') := by
  intro e he
  rcases List.mem_append.mp he with hold | hnew
  · exact Or.inl hold
  · rw [List.mem_singleton.mp hnew]
    exact Or.inr ⟨hid, hholds⟩

theorem JobOutcome.told (ho : JobOutcome t call t') (h : Told t)
    (hstays : StaysFinal t.manager t'.manager) : Told t' := by
  cases ho with
  | nothing => exact h
  | @submitted job hvalid hnew =>
    intro e he
    obtain ⟨q, hq, hholds⟩ := h e he
    refine ⟨q, ?_, hholds⟩
    rw [← hq]
    refine Finmap.lookup_insert_of_ne _ fun heq => hnew ?_
    rw [← heq]
    exact Finmap.mem_of_lookup_eq_some hq
  | @assigned id provider now job hp hstatus =>
    refine h.replace (job.assignTo provider now) hp rfl
      (.of_not_final (AIJob.not_final_of_pending hstatus) ?_ ?_) (mem_snoc_event rfl ⟨?_, ?_⟩)
    all_goals
      intro hs
      cases hs
  | @started id provider job hp hstatus =>
    have hway : job.Active := Or.inl hstatus
    refine h.replace { job with status := .running } hp rfl
      (.of_not_final hway.not_final ?_ ?_) fun e he => Or.inl he
    all_goals
      intro hs
      cases hs
  | @completed id provider output proof actualPrice now job hp hstatus =>
    refine h.replace (job.finish output proof actualPrice now) hp rfl
      (.of_not_final hstatus.not_final ?_ ?_) (mem_snoc_event rfl rfl)
    all_goals
      intro hs
      cases hs
  | @failed id error now job hp =>
    refine h.replace (job.fail error now) hp rfl
      ⟨(staysFinal_insert_iff hp rfl).mp hstays, fun _ _ => ⟨?_, ?_⟩⟩ (mem_snoc_event rfl rfl)
    all_goals
      intro hs
      cases hs
  | @cancelled id requester now job hp hstatus =>
    refine h.replace { job with status := .cancelled, completedAt := some now } hp rfl
      (.of_not_final (AIJob.not_final_of_pending hstatus) ?_ fun _ => hstatus)
      (mem_snoc_event rfl rfl)
    intro hs
    cases hs
  | @expired order now =>
    intro e he
    obtain ⟨q, hq, hholds⟩ := h e he
    have hlookup : (t.manager.checkExpiredJobs order now).2.jobs.lookup e.jobId
        = some (q.expire now) := by
      show (t.manager.jobs.mapValues fun _ => AIJob.expire now).lookup e.jobId = _
      rw [Column.lookup_mapValues, hq]
      rfl
    refine ⟨q.expire now, hlookup, hholds.onward ?_⟩
    by_cases hway : q.Active
    · refine .of_not_final hway.not_final ?_ ?_
      all_goals
        unfold AIJob.expire
        split
        · intro hs
          cases hs
        · rcases hway with ha | ha <;> rw [ha] <;> intro hs <;> cases hs
    · rw [AIJob.expire_of_not now hway]
      exact ⟨fun _ => rfl, fun hp hc => ⟨hp, hc⟩⟩

/-! ## Runs -/

/-- **The job ledger.** In every run the counters are sums over the jobs, no job is paid
and failed or refunded, and what is over stays so, exactly when every call meets its
condition. -/
theorem booked_iff {calls : List JobCall}
    (hsmall : ∀ pre, pre <+: calls → (JobRun.run pre).manager.Small) :
    ((∀ pre, pre <+: calls →
        Booked (JobRun.run pre).manager ∧ Exclusive (JobRun.run pre).events) ∧
      ∀ pre call, pre ++ [call] <+: calls →
        StaysFinal (JobRun.run pre).manager (JobRun.run (pre ++ [call])).manager) ↔
      ∀ pre call, pre ++ [call] <+: calls → call.Careful (JobRun.run pre).manager := by
  have hstep : ∀ pre call, pre ++ [call] <+: calls → Booked (JobRun.run pre).manager →
      (Booked (JobRun.run (pre ++ [call])).manager ∧
        StaysFinal (JobRun.run pre).manager (JobRun.run (pre ++ [call])).manager ↔
      call.Careful (JobRun.run pre).manager) := by
    intro pre call hpre h
    have ho := job_outcome (JobRun.run pre) call
    rw [← JobRun.run_snoc] at ho
    exact ho.booked_step_iff h (hsmall _ hpre)
  constructor
  · rintro ⟨hbooked, hstays⟩ pre call hpre
    have hbefore := hbooked pre ((List.prefix_append pre [call]).trans hpre)
    exact (hstep pre call hpre hbefore.1).mp ⟨(hbooked _ hpre).1, hstays pre call hpre⟩
  · intro hcareful
    have hkept : ∀ pre, pre <+: calls → Booked (JobRun.run pre).manager ∧ Told (JobRun.run pre) := by
      refine forall_prefixes ⟨⟨rfl, rfl, rfl, fun id job hp => ?_⟩, fun e he => ?_⟩ ?_
      · cases hp
      · exact absurd he List.not_mem_nil
      · rintro pre call hpre ⟨hbooked, htold⟩
        obtain ⟨hbooked', hstays⟩ := (hstep pre call hpre hbooked).mpr (hcareful pre call hpre)
        have ho := job_outcome (JobRun.run pre) call
        rw [← JobRun.run_snoc] at ho
        exact ⟨hbooked', ho.told htold hstays⟩
    refine ⟨fun pre hpre => ⟨(hkept pre hpre).1, (hkept pre hpre).2.exclusive⟩,
      fun pre call hpre => ?_⟩
    have hbefore := hkept pre ((List.prefix_append pre [call]).trans hpre)
    exact ((hstep pre call hpre hbefore.1).mpr (hcareful pre call hpre)).2

/-- A job as it is handed in. -/
def sampleJob : AIJob where
  id := .zero
  requester := Vector.replicate 20 1
  provider := none
  status := .pending
  input := "1"
  output := none
  maxPrice := 100
  actualPrice := none
  collateral := 10
  submittedAt := 0
  assignedAt := none
  completedAt := none
  error := none
  proof := none
  timeoutSecs := 300

/-- Two jobs: one is paid, the other fails while it runs. -/
def paidAndFailed : List JobCall :=
  [.submitJob sampleJob, .submitJob { sampleJob with id := ⟨Vector.replicate 32 1⟩ },
    .assignJob .zero (Vector.replicate 20 2) 1,
    .assignJob ⟨Vector.replicate 32 1⟩ (Vector.replicate 20 2) 2,
    .completeJob .zero (Vector.replicate 20 2) "2" none 60 3,
    .failJob ⟨Vector.replicate 32 1⟩ "out of memory" 4]

theorem booked_paid_and_failed :
    (∀ pre, pre <+: paidAndFailed →
        Booked (JobRun.run pre).manager ∧ Exclusive (JobRun.run pre).events) ∧
      ∀ pre call, pre ++ [call] <+: paidAndFailed →
        StaysFinal (JobRun.run pre).manager (JobRun.run (pre ++ [call])).manager := by
  have hsmall : ∀ k ≤ 6, (JobRun.run (paidAndFailed.take k)).manager.Small := by decide
  refine (booked_iff fun pre hpre => ?_).mpr (forall_prefixes_snoc (by decide +kernel))
  rw [List.prefix_iff_eq_take.mp hpre]
  exact hsmall _ hpre.length_le

/-- A failure that is reported after the job was paid, with another job under way. -/
def lateFailure : List JobCall :=
  [.submitJob sampleJob, .submitJob { sampleJob with id := ⟨Vector.replicate 32 1⟩ },
    .assignJob .zero (Vector.replicate 20 2) 1,
    .assignJob ⟨Vector.replicate 32 1⟩ (Vector.replicate 20 2) 2,
    .completeJob .zero (Vector.replicate 20 2) "2" none 60 3, .failJob .zero "timed out" 4]

theorem late_failure_not_booked :
    (∀ k ≤ 6, (JobRun.run (lateFailure.take k)).manager.Small) ∧
      ¬ Booked (JobRun.run lateFailure).manager ∧ ¬ Exclusive (JobRun.run lateFailure).events ∧
      ¬ StaysFinal (JobRun.run (lateFailure.take 5)).manager (JobRun.run lateFailure).manager := by
  refine ⟨by decide, fun h => ?_, fun h => ?_, fun h => ?_⟩
  · exact absurd h.active (by decide)
  · exact h.paidFailed .zero (by decide)
  · have hjob : ∃ job, (JobRun.run (lateFailure.take 5)).manager.jobs.lookup .zero = some job ∧
        job.status = .completed := ⟨_, rfl, rfl⟩
    obtain ⟨job, hp, hs⟩ := hjob
    obtain ⟨job', hp', hs'⟩ := h .zero job hp (Or.inl hs)
    have hfailed : ∀ job' ∈ (JobRun.run lateFailure).manager.jobs.lookup .zero,
        job'.status = .failed := by decide
    rw [hs, hfailed job' hp'] at hs'
    cases hs'

end Pyrax.Ai
