import Pyrax.Ai.JobLedger
import Pyrax.Base.ArrayHeap

/-!
# The queue of pending jobs

`pending_queue` of `JobManager` (`pyrax-node/src/ai/jobs.rs`): a binary heap into which every
submission is pushed and out of which nothing is taken. `get_next_pending_job` walks its array
and returns the first job that is pending and of the model. A heap is all that is known of the
array (`ArrayHeap`).

So it finds a job exactly where there is one, but not the best: a heap has its greatest entry
in front, and `cmp` makes the lowest price the greatest, and of equal prices the latest
submission. Whatever the array is, the best job comes first only where all pending jobs of the
model have one price and one time (`bestFirst_iff`).

The jobs of `JobManager` carry no model here; it is kept beside them.
-/

namespace Pyrax.Ai

open Base

/-! ## The source -/

structure PendingJob where
  id : H256
  maxPrice : UInt64
  submittedAt : UInt64
  deriving DecidableEq

namespace PendingJob

/-- `Ord::cmp`. -/
def cmp (a b : PendingJob) : Ordering :=
  (compare b.maxPrice a.maxPrice).then (compare a.submittedAt b.submittedAt)

def le (a b : PendingJob) : Prop := a.cmp b ≠ .gt

instance : DecidableRel le := fun a b => inferInstanceAs (Decidable (a.cmp b ≠ .gt))

def ofJob (job : AIJob) : PendingJob := ⟨job.id, job.maxPrice, job.submittedAt⟩

end PendingJob

abbrev PendingHeap := ArrayHeap PendingJob PendingJob.le

/-- The manager with its calls so far, the models of its jobs, and the array of the heap. -/
structure QueuedJobs where
  run : JobRun
  modelIds : Column H256 H256
  pendingQueue : List PendingJob

/-- A submission with the model of its job, or any other call. -/
inductive QueueCall where
  | submitJob (job : AIJob) (modelId : H256)
  | other (call : JobCall) (h : ∀ job, call ≠ .submitJob job)

namespace QueuedJobs

def start : QueuedJobs := ⟨.start, ∅, []⟩

def submitJob (heap : PendingHeap) (q : QueuedJobs) (job : AIJob) (modelId : H256) :
    Except JobError (H256 × QueuedJobs) :=
  match q.run.manager.submitJob job with
  | .error e => .error e
  | .ok (id, manager) => .ok (id, {
      run := { q.run with manager := manager }
      modelIds := q.modelIds.insert id modelId
      pendingQueue := heap.push q.pendingQueue (.ofJob job) })

/-- `job.status == JobStatus::Pending && &job.model_id == model_id`. -/
def serves (q : QueuedJobs) (modelId : H256) (id : H256) (job : AIJob) : Bool :=
  job.status = .pending ∧ q.modelIds.lookup id = some modelId

def getNextPendingJob (q : QueuedJobs) (modelId : H256) : Option AIJob :=
  q.pendingQueue.findSome? fun pending =>
    (q.run.manager.jobs.lookup pending.id).filter (q.serves modelId pending.id)

/-- A call that fails changes nothing. -/
def step (heap : PendingHeap) (q : QueuedJobs) : QueueCall → QueuedJobs
  | .submitJob job modelId =>
    match q.submitJob heap job modelId with
    | .ok (_, q) => q
    | .error _ => q
  | .other call _ => { q with run := q.run.step call }

def after (heap : PendingHeap) (calls : List QueueCall) : QueuedJobs :=
  calls.foldl (step heap) start

end QueuedJobs

/-! ## The order -/

namespace PendingJob

variable {a b c : PendingJob}

/-- The greater one has the lower price, or comes later at the same price. -/
theorem le_iff : a.le b ↔
    b.maxPrice < a.maxPrice ∨ b.maxPrice = a.maxPrice ∧ a.submittedAt ≤ b.submittedAt := by
  have hcompare : ∀ x y : UInt64, compare x y = if x < y then .lt else if x = y then .eq else .gt :=
    fun _ _ => rfl
  rw [le, cmp, hcompare, hcompare]
  simp only [UInt64.lt_iff_toNat_lt, UInt64.le_iff_toNat_le, ← UInt64.toNat_inj]
  split
  · simp only [Ordering.then, ne_eq, reduceCtorEq, not_false_eq_true, true_iff]
    omega
  · split
    · split
      · simp only [Ordering.then, ne_eq, reduceCtorEq, not_false_eq_true, true_iff]
        omega
      · split <;> simp only [Ordering.then, ne_eq, reduceCtorEq, not_false_eq_true, not_true,
          true_iff, false_iff] <;> omega
    · simp only [Ordering.then, ne_eq, not_true, false_iff]
      omega

theorem le_total (a b : PendingJob) : a.le b ∨ b.le a := by
  rw [le_iff, le_iff]
  simp only [UInt64.lt_iff_toNat_lt, UInt64.le_iff_toNat_le, ← UInt64.toNat_inj]
  omega

theorem le_trans (a b c : PendingJob) (hab : a.le b) (hbc : b.le c) : a.le c := by
  rw [le_iff] at *
  simp only [UInt64.lt_iff_toNat_lt, UInt64.le_iff_toNat_le, ← UInt64.toNat_inj] at *
  omega

end PendingJob

/-! ## What the queue holds -/

namespace AIJob

/-- What an entry of the queue is ordered by. -/
def bid (job : AIJob) : UInt64 × UInt64 := (job.maxPrice, job.submittedAt)

end AIJob

theorem lookup_insert_bid {jobs : Column H256 AIJob} {id : H256} {job job' : AIJob}
    (h : jobs.lookup id = some job) (hbid : job'.bid = job.bid) (k : H256) :
    ((jobs.insert id job').lookup k).map AIJob.bid = (jobs.lookup k).map AIJob.bid := by
  by_cases hk : k = id
  · rw [hk, Finmap.lookup_insert, h, Option.map_some, Option.map_some, hbid]
  · rw [Finmap.lookup_insert_of_ne _ hk]

/-- No call but a submission changes what a job is ordered by. -/
theorem lookup_step_bid (t : JobRun) {call : JobCall} (h : ∀ job, call ≠ .submitJob job)
    (k : H256) : ((t.step call).manager.jobs.lookup k).map AIJob.bid =
      (t.manager.jobs.lookup k).map AIJob.bid := by
  have houtcome := job_outcome t call
  generalize t.step call = t' at houtcome ⊢
  cases houtcome with
  | nothing _ => rfl
  | @submitted job _ _ => exact absurd rfl (h job)
  | assigned hp _ => exact lookup_insert_bid hp (by rfl) k
  | started hp _ => exact lookup_insert_bid hp (by rfl) k
  | completed hp _ _ => exact lookup_insert_bid hp (by rfl) k
  | failed hp => exact lookup_insert_bid hp (by rfl) k
  | cancelled hp _ => exact lookup_insert_bid hp (by rfl) k
  | @expired order now =>
    have hexpire : ∀ job : AIJob, (job.expire now).bid = job.bid := by
      intro job
      unfold AIJob.expire
      split <;> rfl
    show ((Column.mapValues (fun _ => AIJob.expire now) t.manager.jobs).lookup k).map AIJob.bid = _
    rw [Column.lookup_mapValues, Option.map_map]
    exact congrFun (congrArg Option.map (funext hexpire)) _

namespace QueuedJobs

variable {heap : PendingHeap} {q : QueuedJobs} {modelId id : H256} {job : AIJob}

/-- Every job has its entries, and every entry is that of a job. -/
structure Inv (q : QueuedJobs) : Prop where
  entry : ∀ e ∈ q.pendingQueue,
    (q.run.manager.jobs.lookup e.id).map AIJob.bid = some (e.maxPrice, e.submittedAt)
  queued : ∀ id ∈ q.run.manager.jobs, ∃ e ∈ q.pendingQueue, e.id = id

theorem inv_start : Inv start where
  entry _ he := absurd he List.not_mem_nil
  queued _ hid := absurd hid Finmap.notMem_empty

/-- What a submission does where it succeeds. -/
theorem submitJob_eq_ok {r : H256 × QueuedJobs} (h : q.submitJob heap job modelId = .ok r) :
    job.id ∉ q.run.manager.jobs ∧ r.2 = {
      run := { q.run with manager :=
        { q.run.manager with jobs := q.run.manager.jobs.insert job.id job } }
      modelIds := q.modelIds.insert job.id modelId
      pendingQueue := heap.push q.pendingQueue (.ofJob job) } := by
  unfold submitJob JobManager.submitJob at h
  cases hvalid : job.validate with
  | error e =>
    rw [hvalid] at h
    cases h
  | ok u =>
    rw [hvalid] at h
    dsimp only at h
    by_cases hmem : job.id ∈ q.run.manager.jobs
    · rw [if_pos hmem] at h
      cases h
    · rw [if_neg hmem] at h
      cases h
      exact ⟨hmem, rfl⟩

theorem Inv.submitJob (h : Inv q) (hnew : job.id ∉ q.run.manager.jobs) :
    Inv {
      run := { q.run with manager :=
        { q.run.manager with jobs := q.run.manager.jobs.insert job.id job } }
      modelIds := q.modelIds.insert job.id modelId
      pendingQueue := heap.push q.pendingQueue (.ofJob job) } where
  entry e he := by
    rcases List.mem_cons.mp ((heap.perm _ _).mem_iff.mp he) with rfl | he
    · show ((q.run.manager.jobs.insert job.id job).lookup job.id).map AIJob.bid = _
      rw [Finmap.lookup_insert]
      rfl
    · have hentry := h.entry e he
      have hne : e.id ≠ job.id := by
        intro heq
        rw [heq, Finmap.lookup_eq_none.mpr hnew] at hentry
        cases hentry
      rw [← hentry]
      exact congrArg _ (Finmap.lookup_insert_of_ne _ hne)
  queued id hid := by
    have hpush : ∀ e, e = PendingJob.ofJob job ∨ e ∈ q.pendingQueue →
        e ∈ heap.push q.pendingQueue (.ofJob job) := fun e he =>
      (heap.perm _ _).mem_iff.mpr (List.mem_cons.mpr he)
    rcases Finmap.mem_insert.mp hid with rfl | hid
    · exact ⟨_, hpush _ (.inl rfl), rfl⟩
    · obtain ⟨e, he, heq⟩ := h.queued id hid
      exact ⟨e, hpush e (.inr he), heq⟩

theorem Inv.step (h : Inv q) (call : QueueCall) : Inv (q.step heap call) := by
  cases call with
  | submitJob job modelId =>
    cases hsubmit : q.submitJob heap job modelId with
    | error e =>
      rw [QueuedJobs.step, hsubmit]
      exact h
    | ok r =>
      obtain ⟨hnew, hq⟩ := submitJob_eq_ok hsubmit
      rw [QueuedJobs.step, hsubmit]
      show Inv r.2
      rw [hq]
      exact h.submitJob hnew
  | other call hother =>
    have hbid := lookup_step_bid q.run hother
    refine ⟨fun e he => (hbid e.id).trans (h.entry e he), fun id hid => h.queued id ?_⟩
    obtain ⟨job, hjob⟩ := Finmap.mem_iff.mp hid
    have hsome := hbid id
    rw [show (q.run.step call).manager.jobs.lookup id = some job from hjob] at hsome
    obtain ⟨job', hjob', -⟩ := Option.map_eq_some_iff.mp hsome.symm
    exact Finmap.mem_of_lookup_eq_some hjob'

theorem after_snoc (heap : PendingHeap) (calls : List QueueCall) (call : QueueCall) :
    after heap (calls ++ [call]) = (after heap calls).step heap call := List.foldl_concat ..

theorem inv_after (heap : PendingHeap) (calls : List QueueCall) : Inv (after heap calls) := by
  induction calls using List.reverseRecOn with
  | nil => exact inv_start
  | append_singleton calls call ih =>
    rw [after_snoc]
    exact ih.step call

/-- The jobs and their models do not depend on the heap. -/
theorem after_jobs (heap heap' : PendingHeap) (calls : List QueueCall) :
    (after heap calls).run = (after heap' calls).run ∧
      (after heap calls).modelIds = (after heap' calls).modelIds := by
  induction calls using List.reverseRecOn with
  | nil => exact ⟨rfl, rfl⟩
  | append_singleton calls call ih =>
    rw [after_snoc, after_snoc]
    cases call with
    | submitJob job modelId =>
      unfold step QueuedJobs.submitJob
      dsimp only
      rw [ih.1, ih.2]
      cases (after heap' calls).run.manager.submitJob job with
      | error e => exact ih
      | ok r => exact ⟨rfl, rfl⟩
    | other call hother =>
      unfold step
      dsimp only
      rw [ih.1]
      exact ⟨rfl, ih.2⟩

/-! ## Who is served -/

/-- A pending job of the model. -/
def Waits (q : QueuedJobs) (modelId id : H256) (job : AIJob) : Prop :=
  q.run.manager.jobs.lookup id = some job ∧ q.serves modelId id job

/-- There is a next job exactly where one waits, and it is one of those that wait, with the
highest price and, of those, the earliest time. -/
structure BestFirst (q : QueuedJobs) (modelId : H256) : Prop where
  none_iff : q.getNextPendingJob modelId = none ↔ ∀ id job, ¬ q.Waits modelId id job
  best : ∀ job, q.getNextPendingJob modelId = some job → (∃ id, q.Waits modelId id job) ∧
    ∀ id' job', q.Waits modelId id' job' → job'.maxPrice ≤ job.maxPrice ∧
      (job'.maxPrice = job.maxPrice → job.submittedAt ≤ job'.submittedAt)

/-- All pending jobs of the model have one price and one time. -/
def Tied (q : QueuedJobs) (modelId : H256) : Prop :=
  ∀ id job id' job', q.Waits modelId id job → q.Waits modelId id' job' → job.bid = job'.bid

theorem filter_serves_eq_some_iff :
    (q.run.manager.jobs.lookup id).filter (q.serves modelId id) = some job ↔
      q.Waits modelId id job := Option.filter_eq_some_iff

theorem Inv.getNext_eq_none_iff (h : Inv q) :
    q.getNextPendingJob modelId = none ↔ ∀ id job, ¬ q.Waits modelId id job := by
  rw [getNextPendingJob, List.findSome?_eq_none_iff]
  constructor
  · intro hnone id job hwaits
    obtain ⟨e, he, rfl⟩ := h.queued id (Finmap.mem_of_lookup_eq_some hwaits.1)
    have hsome := filter_serves_eq_some_iff.mpr hwaits
    rw [hnone e he] at hsome
    cases hsome
  · intro hnone e _
    refine Option.eq_none_iff_forall_not_mem.mpr fun job hjob => ?_
    exact hnone e.id job (filter_serves_eq_some_iff.mp hjob)

/-- The next job is that of the first entry in the array whose job waits. -/
theorem getNext_eq_some (h : q.getNextPendingJob modelId = some job) :
    ∃ front e rest, q.pendingQueue = front ++ e :: rest ∧ q.Waits modelId e.id job ∧
      ∀ e' ∈ front, ∀ job', ¬ q.Waits modelId e'.id job' := by
  obtain ⟨front, e, rest, hqueue, he, hfront⟩ := List.findSome?_eq_some_iff.mp h
  refine ⟨front, e, rest, hqueue, filter_serves_eq_some_iff.mp he, fun e' he' job' hwaits => ?_⟩
  have hsome := filter_serves_eq_some_iff.mpr hwaits
  rw [hfront e' he'] at hsome
  cases hsome

theorem Inv.bestFirst_of_tied (h : Inv q) (htied : q.Tied modelId) : q.BestFirst modelId := by
  refine ⟨h.getNext_eq_none_iff, fun job hjob => ?_⟩
  obtain ⟨front, e, rest, -, hwaits, -⟩ := getNext_eq_some hjob
  refine ⟨⟨e.id, hwaits⟩, fun id' job' hwaits' => ?_⟩
  have hbid := Prod.mk.inj (htied _ _ _ _ hwaits hwaits')
  exact ⟨UInt64.le_of_eq hbid.1.symm, fun _ => UInt64.le_of_eq hbid.2⟩

/-- Where the whole array is in descending order, the next job is the worst. -/
theorem Inv.tied_of_descending (h : Inv q)
    (hsorted : q.pendingQueue.Pairwise fun a b => b.le a) (hbest : q.BestFirst modelId) :
    q.Tied modelId := by
  cases hnext : q.getNextPendingJob modelId with
  | none =>
    intro id job _ _ hwaits
    exact absurd hwaits (hbest.none_iff.mp hnext id job)
  | some first =>
    obtain ⟨front, e, rest, hqueue, hwaits, hfront⟩ := getNext_eq_some hnext
    have hentry : ∀ {e' : PendingJob} {job' : AIJob}, e' ∈ q.pendingQueue →
        q.Waits modelId e'.id job' → job'.bid = (e'.maxPrice, e'.submittedAt) := by
      intro e' job' he' hwaits'
      have heq := h.entry e' he'
      rw [hwaits'.1] at heq
      exact Option.some.inj heq
    have hall : ∀ id job, q.Waits modelId id job → job.bid = first.bid := by
      intro id job hjob
      obtain ⟨e', he', rfl⟩ := h.queued id (Finmap.mem_of_lookup_eq_some hjob.1)
      have hle : e'.le e := by
        rw [hqueue] at he' hsorted
        rcases List.mem_append.mp he' with he' | he'
        · exact absurd hjob (hfront e' he' job)
        · rcases List.mem_cons.mp he' with rfl | he'
          · exact (PendingJob.le_total e' e').elim id id
          · exact (List.pairwise_cons.mp (List.pairwise_append.mp hsorted).2.1).1 e' he'
      have hbid := Prod.mk.inj (hentry he' hjob)
      have hbid' := Prod.mk.inj (hentry (hqueue ▸ List.mem_append_right _
        (List.mem_cons_self ..)) hwaits)
      obtain ⟨hprice, htime⟩ := (hbest.best first hnext).2 _ _ hjob
      rw [PendingJob.le_iff, ← hbid.1, ← hbid.2, ← hbid'.1, ← hbid'.2] at hle
      rcases hle with hlt | ⟨heq, hle⟩
      · exact absurd hprice (UInt64.not_le.mpr hlt)
      · exact Prod.ext heq.symm (UInt64.le_antisymm hle (htime heq.symm))
    intro id job id' job' hjob hjob'
    exact (hall id job hjob).trans (hall id' job' hjob').symm

/-- The heap that keeps its array in descending order. -/
def descending : PendingHeap :=
  ArrayHeap.descending PendingJob.le PendingJob.le_total PendingJob.le_trans

theorem pairwise_descending (calls : List QueueCall) :
    (after descending calls).pendingQueue.Pairwise fun a b => b.le a := by
  induction calls using List.reverseRecOn with
  | nil => exact List.Pairwise.nil
  | append_singleton calls call ih =>
    rw [after_snoc]
    cases call with
    | submitJob job modelId =>
      cases hsubmit : (after descending calls).submitJob descending job modelId with
      | error e =>
        rw [step, hsubmit]
        exact ih
      | ok r =>
        obtain ⟨-, hq⟩ := submitJob_eq_ok hsubmit
        rw [step, hsubmit]
        show r.2.pendingQueue.Pairwise _
        rw [hq]
        exact pairwise_sortDescending PendingJob.le PendingJob.le_total PendingJob.le_trans _
    | other call hother => exact ih

/-- **After any calls the best job is served first, whatever the array of the heap, exactly
where all pending jobs of the model have one price and one time.** -/
theorem bestFirst_iff (heap : PendingHeap) (calls : List QueueCall) (modelId : H256) :
    (∀ heap', (after heap' calls).BestFirst modelId) ↔ (after heap calls).Tied modelId := by
  have htied : ∀ heap', (after heap' calls).Tied modelId ↔ (after heap calls).Tied modelId := by
    intro heap'
    obtain ⟨hrun, hmodels⟩ := after_jobs heap' heap calls
    simp only [Tied, Waits, serves, hrun, hmodels]
  constructor
  · intro h
    exact (htied descending).mp
      ((inv_after descending calls).tied_of_descending (pairwise_descending calls) (h descending))
  · intro h heap'
    exact (inv_after heap' calls).bestFirst_of_tied ((htied heap').mpr h)

/-! ## Two jobs -/

def bidding (id : UInt8) (maxPrice : UInt64) : AIJob where
  id := ⟨Vector.replicate 32 id⟩
  requester := Vector.replicate 20 0
  provider := none
  status := .pending
  input := "prompt"
  output := none
  maxPrice := maxPrice
  actualPrice := none
  collateral := 1
  submittedAt := 0
  assignedAt := none
  completedAt := none
  error := none
  proof := none
  timeoutSecs := 300

def biddenModel : H256 := ⟨Vector.replicate 32 0⟩

def twoBids : List QueueCall :=
  [.submitJob (bidding 1 10) biddenModel, .submitJob (bidding 2 5) biddenModel]

/-- Of two jobs the cheaper one is served, whatever the heap. -/
theorem next_of_twoBids (heap : PendingHeap) :
    (after heap twoBids).getNextPendingJob biddenModel = some (bidding 2 5) := by
  have hone : heap.push [] (.ofJob (bidding 1 10)) = [.ofJob (bidding 1 10)] :=
    List.perm_singleton.mp (heap.perm _ _)
  have hqueue : (after heap twoBids).pendingQueue =
      heap.push [.ofJob (bidding 1 10)] (.ofJob (bidding 2 5)) := by
    rw [← hone]
    rfl
  have hheap := heap.isMaxHeap _ (.ofJob (bidding 2 5))
    (heap.isMaxHeap _ (.ofJob (bidding 1 10)) isMaxHeap_nil)
  rw [hone, ← hqueue] at hheap
  have hperm := heap.perm [.ofJob (bidding 1 10)] (.ofJob (bidding 2 5))
  rw [← hqueue] at hperm
  have hcheap : .ofJob (bidding 2 5) ∈ (after heap twoBids).pendingQueue :=
    hperm.mem_iff.mpr (List.mem_cons_self ..)
  obtain ⟨front, rest, hcons⟩ := List.exists_cons_of_ne_nil (List.ne_nil_of_mem hcheap)
  -- the entry in front is above that of the cheaper job, so it is that one
  have hfront : front = .ofJob (bidding 2 5) := by
    have hmem : front ∈ (after heap twoBids).pendingQueue := hcons ▸ List.mem_cons_self ..
    rcases List.mem_cons.mp (hperm.mem_iff.mp hmem) with hfront | hfront
    · exact hfront
    · obtain ⟨i, hi⟩ := List.mem_iff_getElem?.mp hcheap
      have hle := hheap.head (fun a => (PendingJob.le_total a a).elim id id) PendingJob.le_trans
        (by rw [hcons]; rfl : (after heap twoBids).pendingQueue[0]? = some front) hi
      rw [List.mem_singleton.mp hfront] at hle
      exact absurd hle (by decide)
  rw [getNextPendingJob, hcons, List.findSome?_cons, hfront]
  rfl

/-- **The job with the lowest price is served first.** -/
theorem cheaper_served : ¬ ∀ (heap : PendingHeap) (calls : List QueueCall) (modelId : H256),
    (after heap calls).BestFirst modelId := by
  intro h
  have hbest := (h descending twoBids biddenModel).best _ (next_of_twoBids descending)
  have hprice := (hbest.2 ⟨Vector.replicate 32 1⟩ (bidding 1 10) ⟨rfl, rfl⟩).1
  exact absurd hprice (by decide)

end QueuedJobs

end Pyrax.Ai
