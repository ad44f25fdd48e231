import Pyrax.Base.Run
import Pyrax.Ai.Scheduler

/-!
# Where the scheduler's jobs are

Beside the scheduler stands what was enqueued, what was released, and what every
allocation was granted on: the specification of the job, the list of nodes and the best
one of them. Over every run with distinct job ids no job is in two places, the jobs of a
node are those of its allocations, and every allocation is on an eligible node of its
list within the budget, as the words multiply (`Kept`).

That no job is in *no* place, and that the price is the exact product, holds exactly when
every `schedule_next` finds an eligible node for the job it takes off the heap and does
not accept a product that has wrapped (`SchedulerOp.Careful`, `scheduled_iff`).
-/

namespace Pyrax.Ai

open Base

variable (successScore : UInt64 → UInt64 → UInt64)

inductive SchedulerOp where
  | setPolicy (policy : SchedulingPolicy)
  | enqueue (job : ComputeJob) (now : UInt64)
  | scheduleNext (order : QueueOrder) (nodes : List (ComputeNode × UInt64)) (now : UInt64)
  | releaseAllocation (jobId : H256)
  | cleanup (order : AllocationOrder) (maxAgeSecs now : UInt64)

/-- The id of a job that is enqueued. -/
def SchedulerOp.jobId : SchedulerOp → Option H256
  | enqueue job _ => some job.id
  | _ => none

def SchedulerOp.apply (s : JobScheduler) : SchedulerOp → JobScheduler
  | setPolicy policy => { s with policy := policy }
  | enqueue job now => s.enqueue job now
  | scheduleNext order nodes now => (s.scheduleNext successScore order nodes now).2
  | releaseAllocation jobId => s.releaseAllocation jobId
  | cleanup order maxAgeSecs now => s.cleanup order maxAgeSecs now

/-- What an allocation was granted on. -/
structure Grant where
  spec : JobSpec
  nodes : List (ComputeNode × UInt64)
  node : ComputeNode

structure SchedulerRun where
  scheduler : JobScheduler
  enqueued : List H256
  released : List H256
  grants : Column H256 Grant

namespace SchedulerRun

def start (policy : SchedulingPolicy) : SchedulerRun := ⟨.new policy, [], [], ∅⟩

/-- One allocation given back. -/
def release (t : SchedulerRun) (id : H256) : SchedulerRun :=
  { t with
    scheduler := t.scheduler.releaseAllocation id
    released := if id ∈ t.scheduler.allocations then t.released ++ [id] else t.released }

/-- The job and the node that `schedule_next` brings together, if it does. -/
def granted (t : SchedulerRun) (order : QueueOrder) (nodes : List (ComputeNode × UInt64)) :
    Option (H256 × Grant) :=
  match order.pop t.scheduler.queue with
  | none => none
  | some (q, _) =>
    match t.scheduler.findBestNode successScore q.job.spec nodes with
    | none => none
    | some node =>
      if q.job.spec.maxPrice < calculatePrice q.job.spec node then none
      else some (q.job.id, ⟨q.job.spec, nodes, node⟩)

def step (t : SchedulerRun) (op : SchedulerOp) : SchedulerRun :=
  match op with
  | .setPolicy _ => { t with scheduler := op.apply successScore t.scheduler }
  | .enqueue job _ =>
    { t with
      scheduler := op.apply successScore t.scheduler
      enqueued := t.enqueued ++ [job.id] }
  | .scheduleNext order nodes _ =>
    { t with
      scheduler := op.apply successScore t.scheduler
      grants := match t.granted successScore order nodes with
        | none => t.grants
        | some (id, grant) => t.grants.insert id grant }
  | .releaseAllocation jobId => t.release jobId
  | .cleanup order maxAgeSecs now =>
    (t.scheduler.outdated order maxAgeSecs now).foldl release t

def run (policy : SchedulingPolicy) (ops : List SchedulerOp) : SchedulerRun :=
  ops.foldl (step successScore) (start policy)

theorem run_snoc (policy : SchedulingPolicy) (ops : List SchedulerOp) (op : SchedulerOp) :
    run successScore policy (ops ++ [op])
      = (run successScore policy ops).step successScore op := by
  rw [run, List.foldl_append]
  rfl

/-- The scheduler of a run is what the operations make of it. -/
theorem step_scheduler (t : SchedulerRun) (op : SchedulerOp) :
    (t.step successScore op).scheduler = op.apply successScore t.scheduler := by
  have hfold : ∀ (ids : List H256) (t : SchedulerRun), (ids.foldl release t).scheduler
      = ids.foldl JobScheduler.releaseAllocation t.scheduler := by
    intro ids
    induction ids with
    | nil => exact fun _ => rfl
    | cons id ids ih => exact fun t => ih (t.release id)
  cases op with
  | cleanup order maxAgeSecs now => exact hfold _ t
  | _ => rfl

theorem run_scheduler (policy : SchedulingPolicy) (ops : List SchedulerOp) :
    (run successScore policy ops).scheduler
      = ops.foldl (SchedulerOp.apply successScore) (.new policy) := by
  induction ops using List.reverseRecOn with
  | nil => rfl
  | append_singleton ops op ih =>
    rw [run_snoc, step_scheduler, ih, List.foldl_append]
    rfl

end SchedulerRun

/-! ## The law and the condition -/

/-- The ids on the heap. -/
def JobScheduler.queued (s : JobScheduler) : List H256 := s.queue.map fun q => q.job.id

/-- The price as a number. -/
def exactPrice (spec : JobSpec) (node : ComputeNode) : Nat :=
  (node.calculatePrice spec.resources.maxDurationSecs).toNat *
    max 1 spec.resources.gpuComputeUnits.toNat

/-- Every job that was not released is in one place. -/
def Placed (t : SchedulerRun) : Prop :=
  ∀ id ∈ t.enqueued, id ∉ t.released →
    t.scheduler.queued.count id + (if id ∈ t.scheduler.allocations then 1 else 0) = 1

/-- The jobs of a node are those allocated to it. -/
def NodesListed (t : SchedulerRun) : Prop :=
  ∀ n, (t.scheduler.getNodeJobs n).Nodup ∧ ∀ id, id ∈ t.scheduler.getNodeJobs n ↔
    ∃ a, t.scheduler.allocations.lookup id = some a ∧ a.node = n

/-- An allocation is on an eligible node of the list, within the budget. -/
structure Grant.Allows (grant : Grant) (a : ResourceAllocation) : Prop where
  node : ∃ now, (grant.node, now) ∈ grant.nodes ∧ grant.node.eligible grant.spec now = true
  address : a.node = grant.node.address
  budget : a.price ≤ grant.spec.maxPrice

/-- Every allocation is allowed, at the exact price. -/
def Priced (t : SchedulerRun) : Prop :=
  ∀ id a, t.scheduler.allocations.lookup id = some a →
    ∃ grant, t.grants.lookup id = some grant ∧ grant.Allows a ∧
      a.price.toNat = exactPrice grant.spec grant.node

/-- The job that comes off the heap has an eligible node, and the price that is accepted is
the product. -/
def SchedulerOp.Careful (s : JobScheduler) : SchedulerOp → Prop
  | .scheduleNext order nodes _ => ∀ p ∈ order.pop s.queue,
    (∃ e ∈ nodes, e.1.eligible p.1.job.spec e.2 = true) ∧
      ∀ node ∈ s.findBestNode successScore p.1.job.spec nodes,
        calculatePrice p.1.job.spec node ≤ p.1.job.spec.maxPrice →
          exactPrice p.1.job.spec node < 2 ^ 64
  | _ => True

instance SchedulerOp.decidableCareful (s : JobScheduler) :
    (op : SchedulerOp) → Decidable (op.Careful successScore s)
  | .scheduleNext order nodes _ => inferInstanceAs (Decidable (∀ p ∈ order.pop s.queue,
      (∃ e ∈ nodes, e.1.eligible p.1.job.spec e.2 = true) ∧
        ∀ node ∈ s.findBestNode successScore p.1.job.spec nodes,
          calculatePrice p.1.job.spec node ≤ p.1.job.spec.maxPrice →
            exactPrice p.1.job.spec node < 2 ^ 64))
  | .setPolicy .. => inferInstanceAs (Decidable True)
  | .enqueue .. => inferInstanceAs (Decidable True)
  | .releaseAllocation .. => inferInstanceAs (Decidable True)
  | .cleanup .. => inferInstanceAs (Decidable True)

/-! ## The best node and its price -/

variable {successScore} {s : JobScheduler} {t t' : SchedulerRun} {spec : JobSpec}
  {nodes : List (ComputeNode × UInt64)} {node : ComputeNode} {id : H256}

/-- The best node is an eligible one of the list. -/
theorem findBestNode_eligible (h : s.findBestNode successScore spec nodes = some node) :
    ∃ now, (node, now) ∈ nodes ∧ node.eligible spec now = true := by
  rw [JobScheduler.findBestNode] at h
  obtain ⟨best, hbest, rfl⟩ := Option.map_eq_some_iff.mp h
  have hmem := List.mem_of_head? hbest
  rw [List.mem_insertionSort, List.mem_map] at hmem
  obtain ⟨n, hn, rfl⟩ := hmem
  obtain ⟨e, he, rfl⟩ := List.mem_map.mp hn
  exact ⟨e.2, (List.mem_filter.mp he).1, (List.mem_filter.mp he).2⟩

/-- There is none exactly when no node is eligible. -/
theorem findBestNode_eq_none_iff : s.findBestNode successScore spec nodes = none ↔
    ¬ ∃ e ∈ nodes, e.1.eligible spec e.2 = true := by
  rw [JobScheduler.findBestNode, Option.map_eq_none_iff, List.head?_eq_none_iff]
  constructor
  · rintro hempty ⟨e, he, heligible⟩
    have hmem : e.1 ∈ (nodes.filter fun e => e.1.eligible spec e.2).map Prod.fst :=
      List.mem_map_of_mem (List.mem_filter.mpr ⟨he, heligible⟩)
    have hsorted := List.mem_map_of_mem (f := fun n =>
      (⟨n, s.scoreNode successScore n spec, calculatePrice spec n⟩ : NodeScore)) hmem
    rw [← List.mem_insertionSort (fun a b : NodeScore => b.score ≤ a.score), hempty] at hsorted
    exact List.not_mem_nil hsorted
  · intro hnone
    have hfilter : (nodes.filter fun e => e.1.eligible spec e.2) = [] := by
      rw [List.filter_eq_nil_iff]
      exact fun e he heligible => hnone ⟨e, he, heligible⟩
    rw [hfilter]
    rfl

/-- The words multiply to the price modulo their range. -/
theorem toNat_calculatePrice (spec : JobSpec) (node : ComputeNode) :
    (calculatePrice spec node).toNat = exactPrice spec node % 2 ^ 64 := by
  have hfactor : (max spec.resources.gpuComputeUnits.toUInt64 1).toNat
      = max 1 spec.resources.gpuComputeUnits.toNat := by
    have hunits := UInt32.toNat_toUInt64 spec.resources.gpuComputeUnits
    have hone : (1 : UInt64).toNat = 1 := rfl
    show (if spec.resources.gpuComputeUnits.toUInt64 ≤ 1 then 1
      else spec.resources.gpuComputeUnits.toUInt64).toNat = _
    split
    · next h =>
      rw [UInt64.le_iff_toNat_le] at h
      omega
    · next h =>
      rw [UInt64.le_iff_toNat_le] at h
      omega
  rw [calculatePrice, UInt64.toNat_mul, hfactor, exactPrice]

theorem calculatePrice_exact_iff (spec : JobSpec) (node : ComputeNode) :
    (calculatePrice spec node).toNat = exactPrice spec node ↔ exactPrice spec node < 2 ^ 64 := by
  rw [toNat_calculatePrice]
  exact Nat.mod_eq_iff_lt (by decide)

/-! ## What every run keeps -/

/-- No job is in two places, and what is granted is allowed as the words multiply. -/
structure Kept (t : SchedulerRun) : Prop where
  once : t.scheduler.queued.Nodup
  waiting : ∀ id ∈ t.scheduler.queued, id ∈ t.enqueued ∧ id ∉ t.released ∧
    id ∉ t.scheduler.allocations
  allocated : ∀ id a, t.scheduler.allocations.lookup id = some a →
    id ∈ t.enqueued ∧ id ∉ t.released ∧ ∃ grant, t.grants.lookup id = some grant ∧
      grant.Allows a ∧ a.price = calculatePrice grant.spec grant.node
  known : ∀ {id}, id ∈ t.released → id ∈ t.enqueued
  listed : NodesListed t

/-- Every job that was not released is somewhere. -/
def Present (t : SchedulerRun) : Prop :=
  ∀ id ∈ t.enqueued, id ∉ t.released →
    id ∈ t.scheduler.queued ∨ id ∈ t.scheduler.allocations

/-- What is somewhere is in one place only. -/
theorem Kept.placed_iff (h : Kept t) : Placed t ↔ Present t := by
  refine forall_congr' fun id => forall_congr' fun _ => forall_congr' fun _ => ?_
  by_cases hqueued : id ∈ t.scheduler.queued
  · rw [if_neg (h.waiting id hqueued).2.2, List.count_eq_one_of_mem h.once hqueued]
    exact iff_of_true rfl (Or.inl hqueued)
  · rw [List.count_eq_zero_of_not_mem hqueued, Nat.zero_add, or_iff_right hqueued]
    by_cases hallocated : id ∈ t.scheduler.allocations
    · rw [if_pos hallocated]
      exact iff_of_true rfl hallocated
    · rw [if_neg hallocated]
      exact iff_of_false (by decide) hallocated

/-! ### The jobs of a node -/

theorem getNodeJobs_record (s : JobScheduler) (a : ResourceAllocation) (n : Address) :
    (s.record a).getNodeJobs n
      = if n = a.node then s.getNodeJobs n ++ [a.jobId] else s.getNodeJobs n := by
  show ((s.nodeJobs.insert a.node ((s.nodeJobs.lookup a.node).getD [] ++ [a.jobId])).lookup n).getD
    [] = _
  by_cases hn : n = a.node
  · rw [if_pos hn, hn, Finmap.lookup_insert]
    rfl
  · rw [if_neg hn, Finmap.lookup_insert_of_ne _ hn]
    rfl

/-- Giving an allocation back takes its job off every list. -/
theorem getNodeJobs_release (h : NodesListed t) (id : H256) (n : Address) :
    (t.scheduler.releaseAllocation id).getNodeJobs n
      = (t.scheduler.getNodeJobs n).filter fun other => other ≠ id := by
  have hself : id ∉ t.scheduler.getNodeJobs n → t.scheduler.getNodeJobs n
      = (t.scheduler.getNodeJobs n).filter fun other => other ≠ id := by
    intro hnot
    refine (List.filter_eq_self.mpr fun other hother => ?_).symm
    refine decide_eq_true ?_
    rintro rfl
    exact hnot hother
  cases hp : t.scheduler.allocations.lookup id with
  | none =>
    rw [JobScheduler.releaseAllocation, hp]
    refine hself fun hmem => ?_
    obtain ⟨a, ha, -⟩ := ((h n).2 id).mp hmem
    rw [hp] at ha
    cases ha
  | some a =>
    rw [JobScheduler.releaseAllocation, hp, JobScheduler.getNodeJobs]
    dsimp only
    by_cases hn : n = a.node
    · subst hn
      rw [JobScheduler.getNodeJobs]
      cases hjobs : t.scheduler.nodeJobs.lookup a.node with
      | none =>
        dsimp only
        rw [hjobs]
        rfl
      | some jobs =>
        dsimp only
        rw [Finmap.lookup_insert]
        rfl
    -- the job is on the list of its own node only
    · have hsame := hself fun hmem => by
        obtain ⟨a', ha', hnode⟩ := ((h n).2 id).mp hmem
        rw [hp] at ha'
        cases ha'
        exact hn hnode.symm
      rw [← hsame, JobScheduler.getNodeJobs]
      cases hjobs : t.scheduler.nodeJobs.lookup a.node with
      | none => rfl
      | some jobs =>
        dsimp only
        rw [Finmap.lookup_insert_of_ne _ hn]

/-! ### Giving back -/

theorem lookup_release (s : JobScheduler) (id other : H256) :
    (s.releaseAllocation id).allocations.lookup other
      = if other = id then none else s.allocations.lookup other := by
  rw [JobScheduler.releaseAllocation]
  cases hp : s.allocations.lookup id with
  | none =>
    by_cases hid : other = id
    · rw [if_pos hid, hid, hp]
    · rw [if_neg hid]
  | some a =>
    by_cases hid : other = id
    · rw [if_pos hid, hid, Finmap.lookup_erase]
    · rw [if_neg hid, Finmap.lookup_erase_ne hid]

theorem mem_release (s : JobScheduler) (id other : H256) :
    other ∈ (s.releaseAllocation id).allocations ↔ other ≠ id ∧ other ∈ s.allocations := by
  rw [Finmap.mem_iff, Finmap.mem_iff, lookup_release]
  by_cases hid : other = id
  · simp [hid]
  · simp [hid]

theorem queued_release (s : JobScheduler) (id : H256) :
    (s.releaseAllocation id).queued = s.queued := by
  rw [JobScheduler.releaseAllocation]
  cases s.allocations.lookup id with
  | none => rfl
  | some a => rfl

/-- What was released before, and the job itself if it had an allocation. -/
theorem mem_released (t : SchedulerRun) (id other : H256) : other ∈ (t.release id).released ↔
    other ∈ t.released ∨ (other = id ∧ id ∈ t.scheduler.allocations) := by
  show other ∈ (if id ∈ t.scheduler.allocations then t.released ++ [id] else t.released) ↔ _
  by_cases hmem : id ∈ t.scheduler.allocations
  · rw [if_pos hmem, List.mem_append, List.mem_singleton, and_iff_left hmem]
  · rw [if_neg hmem, or_iff_left fun h => hmem h.2]

theorem Kept.release (h : Kept t) (id : H256) : Kept (t.release id) where
  once := by
    show (t.scheduler.releaseAllocation id).queued.Nodup
    rw [queued_release]
    exact h.once
  waiting := by
    intro other hother
    have hqueued : other ∈ t.scheduler.queued := by
      rw [← queued_release t.scheduler id]
      exact hother
    obtain ⟨henqueued, hreleased, hnot⟩ := h.waiting other hqueued
    refine ⟨henqueued, ?_, fun hmem => hnot ((mem_release _ _ _).mp hmem).2⟩
    rw [mem_released]
    rintro (hmem | ⟨rfl, hmem⟩)
    · exact hreleased hmem
    · exact hnot hmem
  allocated := by
    intro other a ha
    have hold := lookup_release t.scheduler id other
    rw [show (t.scheduler.releaseAllocation id).allocations.lookup other = some a from ha] at hold
    by_cases hid : other = id
    · rw [if_pos hid] at hold
      cases hold
    rw [if_neg hid] at hold
    obtain ⟨henqueued, hreleased, hgrant⟩ := h.allocated other a hold.symm
    refine ⟨henqueued, ?_, hgrant⟩
    rw [mem_released]
    rintro (hmem | ⟨heq, -⟩)
    · exact hreleased hmem
    · exact hid heq
  known := by
    intro other hother
    rcases (mem_released t id other).mp hother with hold | ⟨rfl, hmem⟩
    · exact h.known hold
    · obtain ⟨a, ha⟩ := Finmap.mem_iff.mp hmem
      exact (h.allocated other a ha).1
  listed := by
    intro n
    have hjobs := getNodeJobs_release h.listed id n
    have hlookup := lookup_release t.scheduler id
    show ((t.scheduler.releaseAllocation id).getNodeJobs n).Nodup ∧ ∀ other,
      other ∈ (t.scheduler.releaseAllocation id).getNodeJobs n ↔
        ∃ a, (t.scheduler.releaseAllocation id).allocations.lookup other = some a ∧ a.node = n
    refine ⟨hjobs ▸ (h.listed n).1.filter _, fun other => ?_⟩
    rw [hjobs, List.mem_filter, (h.listed n).2 other, hlookup]
    by_cases hid : other = id
    · simp [hid]
    · simp [hid]

theorem Present.release (h : Present t) (id : H256) : Present (t.release id) := by
  intro other henqueued hreleased
  rw [mem_released, not_or] at hreleased
  show other ∈ (t.scheduler.releaseAllocation id).queued ∨
    other ∈ (t.scheduler.releaseAllocation id).allocations
  rw [queued_release, mem_release]
  rcases h other henqueued hreleased.1 with hqueued | hallocated
  · exact Or.inl hqueued
  · refine Or.inr ⟨fun heq => hreleased.2 ⟨heq, heq ▸ hallocated⟩, hallocated⟩

theorem Priced.release (h : Priced t) (id : H256) : Priced (t.release id) := by
  intro other a ha
  have hold := lookup_release t.scheduler id other
  rw [show (t.scheduler.releaseAllocation id).allocations.lookup other = some a from ha] at hold
  by_cases hid : other = id
  · rw [if_pos hid] at hold
    cases hold
  · rw [if_neg hid] at hold
    exact h other a hold.symm

/-- What one release keeps, all of them do. -/
theorem foldl_release {P : SchedulerRun → Prop} (hone : ∀ t id, P t → P (t.release id))
    (ids : List H256) : ∀ t, P t → P (ids.foldl SchedulerRun.release t) := by
  induction ids with
  | nil => exact fun _ h => h
  | cons id ids ih => exact fun t h => ih _ (hone t id h)

/-! ### Enqueueing -/

theorem queued_enqueue (s : JobScheduler) (job : ComputeJob) (now : UInt64) :
    (s.enqueue job now).queued = s.queued ++ [job.id] := List.map_append

theorem Kept.enqueue (h : Kept t) {job : ComputeJob} (now : UInt64) (hfresh : job.id ∉ t.enqueued) :
    Kept (t.step successScore (.enqueue job now)) where
  once := by
    show (t.scheduler.enqueue job now).queued.Nodup
    rw [queued_enqueue]
    refine List.nodup_append.mpr ⟨h.once, List.nodup_singleton _, ?_⟩
    rintro id hid other hother rfl
    exact hfresh (List.mem_singleton.mp hother ▸ (h.waiting id hid).1)
  waiting := by
    intro id hid
    rw [show (t.step successScore (.enqueue job now)).scheduler.queued
      = t.scheduler.queued ++ [job.id] from queued_enqueue ..] at hid
    rcases List.mem_append.mp hid with hold | hnew
    · obtain ⟨henqueued, hrest⟩ := h.waiting id hold
      exact ⟨List.mem_append_left _ henqueued, hrest⟩
    -- a job that was never enqueued was never released nor allocated
    · rw [List.mem_singleton.mp hnew]
      refine ⟨List.mem_append_right _ (List.mem_singleton_self _), fun hmem => ?_, fun hmem => ?_⟩
      · exact hfresh (h.known hmem)
      · obtain ⟨a, ha⟩ := Finmap.mem_iff.mp hmem
        exact hfresh (h.allocated job.id a ha).1
  allocated := by
    intro id a ha
    obtain ⟨henqueued, hrest⟩ := h.allocated id a ha
    exact ⟨List.mem_append_left _ henqueued, hrest⟩
  known := by
    intro id hid
    exact List.mem_append_left _ (h.known hid)
  listed := h.listed

theorem Present.enqueue (h : Present t) (job : ComputeJob) (now : UInt64) :
    Present (t.step successScore (.enqueue job now)) := by
  intro id henqueued hreleased
  show id ∈ (t.scheduler.enqueue job now).queued ∨ id ∈ t.scheduler.allocations
  rw [queued_enqueue]
  rcases List.mem_append.mp henqueued with hold | hnew
  · rcases h id hold hreleased with hqueued | hallocated
    · exact Or.inl (List.mem_append_left _ hqueued)
    · exact Or.inr hallocated
  · exact Or.inl (List.mem_append_right _ hnew)

/-! ### Scheduling -/

variable {order : QueueOrder} {now : UInt64} {q : QueuedJob} {rest : List QueuedJob}

/-- The run with the heap `rest`. -/
def SchedulerRun.popped (t : SchedulerRun) (rest : List QueuedJob) : SchedulerRun :=
  { t with scheduler := { t.scheduler with queue := rest } }

/-- The run with the job back on the heap. -/
def SchedulerRun.requeued (t : SchedulerRun) (rest : List QueuedJob) (job : ComputeJob)
    (now : UInt64) : SchedulerRun :=
  { t with scheduler := { t.scheduler with queue := rest }.enqueue job now }

/-- The run with the job allocated. -/
def SchedulerRun.allocated (t : SchedulerRun) (rest : List QueuedJob) (job : ComputeJob)
    (nodes : List (ComputeNode × UInt64)) (node : ComputeNode) (now : UInt64) : SchedulerRun :=
  { t with
    scheduler := { t.scheduler with queue := rest }.record (JobScheduler.allocate job node now)
    grants := t.grants.insert job.id ⟨job.spec, nodes, node⟩ }

variable (successScore) in
/-- The four ways out of `schedule_next`. -/
inductive NextOutcome (t : SchedulerRun) (order : QueueOrder) (nodes : List (ComputeNode × UInt64))
    (now : UInt64) : SchedulerRun → Prop
  | empty (hpop : order.pop t.scheduler.queue = none) : NextOutcome t order nodes now t
  | lost {q : QueuedJob} {rest : List QueuedJob}
      (hpop : order.pop t.scheduler.queue = some (q, rest))
      (hbest : t.scheduler.findBestNode successScore q.job.spec nodes = none) :
      NextOutcome t order nodes now (t.popped rest)
  | requeued {q : QueuedJob} {rest : List QueuedJob} {node : ComputeNode}
      (hpop : order.pop t.scheduler.queue = some (q, rest))
      (hbest : t.scheduler.findBestNode successScore q.job.spec nodes = some node)
      (hprice : q.job.spec.maxPrice < calculatePrice q.job.spec node) :
      NextOutcome t order nodes now (t.requeued rest q.job now)
  | allocated {q : QueuedJob} {rest : List QueuedJob} {node : ComputeNode}
      (hpop : order.pop t.scheduler.queue = some (q, rest))
      (hbest : t.scheduler.findBestNode successScore q.job.spec nodes = some node)
      (hprice : calculatePrice q.job.spec node ≤ q.job.spec.maxPrice) :
      NextOutcome t order nodes now (t.allocated rest q.job nodes node now)

variable (successScore) in
theorem next_outcome (t : SchedulerRun) (order : QueueOrder) (nodes : List (ComputeNode × UInt64))
    (now : UInt64) : NextOutcome successScore t order nodes now
      (t.step successScore (.scheduleNext order nodes now)) := by
  rw [SchedulerRun.step, SchedulerOp.apply, JobScheduler.scheduleNext, SchedulerRun.granted]
  cases hpop : order.pop t.scheduler.queue with
  | none => exact .empty hpop
  | some p =>
    obtain ⟨q, rest⟩ := p
    dsimp only
    rw [show JobScheduler.findBestNode successScore { t.scheduler with queue := rest }
      q.job.spec nodes = t.scheduler.findBestNode successScore q.job.spec nodes from rfl]
    cases hbest : t.scheduler.findBestNode successScore q.job.spec nodes with
    | none => exact .lost hpop hbest
    | some node =>
      dsimp only
      by_cases hprice : q.job.spec.maxPrice < calculatePrice q.job.spec node
      · rw [if_pos hprice, if_pos hprice]
        exact .requeued hpop hbest hprice
      · rw [if_neg hprice, if_neg hprice]
        exact .allocated hpop hbest (UInt64.not_lt.mp hprice)

/-- The ids on the heap are those that stay and the one that comes off. -/
theorem queued_perm (hpop : order.pop t.scheduler.queue = some (q, rest)) :
    t.scheduler.queued.Perm (q.job.id :: rest.map fun q => q.job.id) :=
  (HeapOrder.perm_of_pop hpop).map _

theorem Kept.popped (h : Kept t) (hpop : order.pop t.scheduler.queue = some (q, rest)) :
    Kept (t.popped rest) := by
  have hperm := queued_perm hpop
  refine ⟨(List.nodup_cons.mp (hperm.nodup_iff.mp h.once)).2, fun id hid => ?_, h.allocated,
    h.known, h.listed⟩
  exact h.waiting id (hperm.mem_iff.mpr (List.mem_cons_of_mem _ hid))

theorem Kept.requeued (h : Kept t) (hpop : order.pop t.scheduler.queue = some (q, rest)) :
    Kept (t.requeued rest q.job now) := by
  have hperm := queued_perm hpop
  have hsame : (t.requeued rest q.job now).scheduler.queued.Perm t.scheduler.queued := by
    rw [show (t.requeued rest q.job now).scheduler.queued
      = (rest.map fun q => q.job.id) ++ [q.job.id] from queued_enqueue ..]
    exact (List.perm_append_singleton _ _).trans hperm.symm
  refine ⟨hsame.nodup_iff.mpr h.once, fun id hid => ?_, h.allocated, h.known, h.listed⟩
  exact h.waiting id (hsame.mem_iff.mp hid)

theorem Kept.allocate (h : Kept t) (hpop : order.pop t.scheduler.queue = some (q, rest))
    (hbest : t.scheduler.findBestNode successScore q.job.spec nodes = some node)
    (hprice : calculatePrice q.job.spec node ≤ q.job.spec.maxPrice) :
    Kept (t.allocated rest q.job nodes node now) := by
  have hperm := queued_perm hpop
  have hnodup := List.nodup_cons.mp (hperm.nodup_iff.mp h.once)
  obtain ⟨henqueued, hreleased, hnew⟩ := h.waiting q.job.id (hperm.mem_iff.mpr List.mem_cons_self)
  have hlookup : ∀ id, (t.allocated rest q.job nodes node now).scheduler.allocations.lookup id
      = if id = q.job.id then some (JobScheduler.allocate q.job node now)
        else t.scheduler.allocations.lookup id := by
    intro id
    show (t.scheduler.allocations.insert q.job.id _).lookup id = _
    by_cases hid : id = q.job.id
    · rw [if_pos hid, hid, Finmap.lookup_insert]
    · rw [if_neg hid, Finmap.lookup_insert_of_ne _ hid]
  refine ⟨hnodup.2, fun id hid => ?_, fun id a ha => ?_, h.known, fun n => ?_⟩
  · have hold := h.waiting id (hperm.mem_iff.mpr (List.mem_cons_of_mem _ hid))
    refine ⟨hold.1, hold.2.1, fun hmem => ?_⟩
    rcases Finmap.mem_insert.mp hmem with heq | hmem
    · rw [show id = q.job.id from heq] at hid
      exact hnodup.1 hid
    · exact hold.2.2 hmem
  · rw [hlookup] at ha
    by_cases hid : id = q.job.id
    · rw [if_pos hid] at ha
      obtain rfl := Option.some.inj ha
      subst hid
      exact ⟨henqueued, hreleased, _, Finmap.lookup_insert _,
        ⟨findBestNode_eligible hbest, rfl, hprice⟩, rfl⟩
    · rw [if_neg hid] at ha
      obtain ⟨hold, hnot, grant, hgrant, hallows⟩ := h.allocated id a ha
      exact ⟨hold, hnot, grant, by rw [← hgrant]; exact Finmap.lookup_insert_of_ne _ hid, hallows⟩
  · have hjobs := getNodeJobs_record { t.scheduler with queue := rest }
      (JobScheduler.allocate q.job node now) n
    have hnotlisted : q.job.id ∉ t.scheduler.getNodeJobs n := by
      intro hmem
      obtain ⟨a, ha, -⟩ := ((h.listed n).2 _).mp hmem
      exact hnew (Finmap.mem_of_lookup_eq_some ha)
    rw [show (t.allocated rest q.job nodes node now).scheduler.getNodeJobs n
      = if n = node.address then t.scheduler.getNodeJobs n ++ [q.job.id]
        else t.scheduler.getNodeJobs n from hjobs]
    by_cases hn : n = node.address
    · rw [if_pos hn]
      refine ⟨List.nodup_append.mpr ⟨(h.listed n).1, List.nodup_singleton _, ?_⟩, fun id => ?_⟩
      · rintro id hid other hother rfl
        exact hnotlisted (List.mem_singleton.mp hother ▸ hid)
      · rw [List.mem_append, List.mem_singleton, (h.listed n).2 id, hlookup]
        by_cases hid : id = q.job.id
        · rw [if_pos hid]
          exact iff_of_true (Or.inr hid) ⟨_, rfl, hn.symm⟩
        · rw [if_neg hid, or_iff_left hid]
    · rw [if_neg hn]
      refine ⟨(h.listed n).1, fun id => ?_⟩
      rw [(h.listed n).2 id, hlookup]
      by_cases hid : id = q.job.id
      · rw [if_pos hid, hid, Finmap.lookup_eq_none.mpr hnew]
        refine iff_of_false ?_ ?_
        · rintro ⟨a, ha, -⟩
          cases ha
        · rintro ⟨a, ha, hnode⟩
          cases ha
          exact hn hnode.symm
      · rw [if_neg hid]

/-! ## One call at a time -/

theorem step_kept (h : Kept t) {op : SchedulerOp}
    (hfresh : ∀ id, op.jobId = some id → id ∉ t.enqueued) : Kept (t.step successScore op) := by
  cases op with
  | setPolicy policy => exact ⟨h.once, h.waiting, h.allocated, h.known, h.listed⟩
  | enqueue job now => exact h.enqueue now (hfresh job.id rfl)
  | scheduleNext order nodes now =>
    have ho := next_outcome successScore t order nodes now
    generalize t.step successScore (.scheduleNext order nodes now) = t' at ho
    cases ho with
    | empty => exact h
    | lost hpop => exact h.popped hpop
    | requeued hpop => exact h.requeued hpop
    | allocated hpop hbest hprice => exact h.allocate hpop hbest hprice
  | releaseAllocation jobId => exact h.release jobId
  | cleanup order maxAgeSecs now => exact foldl_release (P := Kept) (fun _ id h => h.release id) _ t h

/-- The job that comes off the heap is somewhere again if it is not lost. -/
theorem Present.of_perm (h : Present t) (hkept : Kept t)
    (hpop : order.pop t.scheduler.queue = some (q, rest)) (henqueued : t'.enqueued = t.enqueued)
    (hreleased : t'.released = t.released)
    (hrest : ∀ id ∈ rest.map fun q => q.job.id, id ∈ t'.scheduler.queued)
    (hallocations : ∀ id, id ∈ t.scheduler.allocations → id ∈ t'.scheduler.allocations) :
    Present t' ↔ q.job.id ∈ t'.scheduler.queued ∨ q.job.id ∈ t'.scheduler.allocations := by
  have hperm := queued_perm hpop
  obtain ⟨hin, hout, -⟩ := hkept.waiting q.job.id (hperm.mem_iff.mpr List.mem_cons_self)
  constructor
  · intro hpresent
    exact hpresent q.job.id (henqueued ▸ hin) (hreleased ▸ hout)
  · intro hjob id hid hnot
    rw [henqueued] at hid
    rw [hreleased] at hnot
    rcases h id hid hnot with hqueued | hallocated
    · rcases List.mem_cons.mp (hperm.mem_iff.mp hqueued) with heq | hmem
      · rw [heq]
        exact hjob
      · exact Or.inl (hrest id hmem)
    · exact Or.inr (hallocations id hallocated)

/-- `schedule_next` is right exactly when it loses no job and accepts no wrapped price. -/
theorem next_iff (hkept : Kept t) (h : Present t) (hpriced : Priced t) (order : QueueOrder)
    (nodes : List (ComputeNode × UInt64)) (now : UInt64) :
    Present (t.step successScore (.scheduleNext order nodes now)) ∧
        Priced (t.step successScore (.scheduleNext order nodes now)) ↔
      (SchedulerOp.scheduleNext order nodes now).Careful successScore t.scheduler := by
  have ho := next_outcome successScore t order nodes now
  generalize t.step successScore (.scheduleNext order nodes now) = t' at ho
  -- the condition, for the job that comes off the heap
  have hcareful : ∀ {q rest}, order.pop t.scheduler.queue = some (q, rest) →
      ((SchedulerOp.scheduleNext order nodes now).Careful successScore t.scheduler ↔
        (∃ e ∈ nodes, e.1.eligible q.job.spec e.2 = true) ∧
          ∀ node ∈ t.scheduler.findBestNode successScore q.job.spec nodes,
            calculatePrice q.job.spec node ≤ q.job.spec.maxPrice →
              exactPrice q.job.spec node < 2 ^ 64) := by
    intro q rest hpop
    constructor
    · intro hall
      exact hall (q, rest) hpop
    · rintro hone ⟨q', rest'⟩ hpop'
      cases hpop.symm.trans hpop'
      exact hone
  have heligible : ∀ {spec node}, t.scheduler.findBestNode successScore spec nodes = some node →
      ∃ e ∈ nodes, e.1.eligible spec e.2 = true := by
    intro spec node hbest
    obtain ⟨reading, hmem, helig⟩ := findBestNode_eligible hbest
    exact ⟨(node, reading), hmem, helig⟩
  cases ho with
  | empty hpop =>
    refine iff_of_true ⟨h, hpriced⟩ fun p hp => ?_
    rw [hpop] at hp
    cases hp
  | @lost q rest hpop hbest =>
    have hperm := queued_perm hpop
    have hnodup := List.nodup_cons.mp (hperm.nodup_iff.mp hkept.once)
    have hnew := (hkept.waiting q.job.id (hperm.mem_iff.mpr List.mem_cons_self)).2.2
    rw [hcareful hpop]
    refine iff_of_false ?_ fun hc => findBestNode_eq_none_iff.mp hbest hc.1
    rintro ⟨hpresent, -⟩
    have hiff : Present (t.popped rest) ↔ _ :=
      h.of_perm hkept hpop rfl rfl (fun _ hid => hid) fun _ hid => hid
    exact (hiff.mp hpresent).elim hnodup.1 hnew
  | @requeued q rest node hpop hbest hprice =>
    rw [hcareful hpop]
    refine iff_of_true ⟨?_, hpriced⟩ ⟨heligible hbest, fun n hn hle => ?_⟩
    · have hqueued : (t.requeued rest q.job now).scheduler.queued
          = (rest.map fun q => q.job.id) ++ [q.job.id] := queued_enqueue ..
      have hiff : Present (t.requeued rest q.job now) ↔ _ :=
        h.of_perm hkept hpop rfl rfl
          (fun id hid => hqueued ▸ List.mem_append_left _ hid) fun _ hid => hid
      exact hiff.mpr (Or.inl (hqueued ▸ List.mem_append_right _ (List.mem_singleton_self _)))
    · cases hbest.symm.trans hn
      exact absurd hprice (UInt64.not_lt.mpr hle)
  | @allocated q rest node hpop hbest hprice =>
    have hpresent : Present (t.allocated rest q.job nodes node now) := by
      have hiff : Present (t.allocated rest q.job nodes node now) ↔ _ :=
        h.of_perm hkept hpop rfl rfl (fun _ hid => hid)
          fun id hid => Finmap.mem_insert.mpr (Or.inr hid)
      exact hiff.mpr (Or.inr (Finmap.mem_insert.mpr (Or.inl rfl)))
    rw [hcareful hpop, and_iff_right hpresent, and_iff_right (heligible hbest)]
    constructor
    · intro hp n hn _
      cases hbest.symm.trans hn
      obtain ⟨grant, hgrant, -, hexact⟩ := hp q.job.id (JobScheduler.allocate q.job node now)
        (Finmap.lookup_insert _)
      cases Option.some.inj ((Finmap.lookup_insert _).symm.trans hgrant)
      exact (calculatePrice_exact_iff q.job.spec node).mp hexact
    · intro hexact id a ha
      by_cases hid : id = q.job.id
      · subst hid
        cases Option.some.inj ((Finmap.lookup_insert _).symm.trans ha)
        exact ⟨_, Finmap.lookup_insert _, ⟨findBestNode_eligible hbest, rfl, hprice⟩,
          (calculatePrice_exact_iff q.job.spec node).mpr (hexact node hbest hprice)⟩
      · have hold : t.scheduler.allocations.lookup id = some a :=
          (Finmap.lookup_insert_of_ne _ hid).symm.trans ha
        obtain ⟨grant, hgrant, hrest⟩ := hpriced id a hold
        exact ⟨grant, (Finmap.lookup_insert_of_ne _ hid).trans hgrant, hrest⟩

/-- **One call.** -/
theorem step_scheduled_iff (hkept : Kept t) (h : Present t) (hpriced : Priced t)
    (op : SchedulerOp) : Present (t.step successScore op) ∧ Priced (t.step successScore op) ↔
      op.Careful successScore t.scheduler := by
  cases op with
  | setPolicy policy => exact iff_of_true ⟨h, hpriced⟩ trivial
  | enqueue job now => exact iff_of_true ⟨h.enqueue job now, hpriced⟩ trivial
  | scheduleNext order nodes now => exact next_iff hkept h hpriced order nodes now
  | releaseAllocation jobId => exact iff_of_true ⟨h.release jobId, hpriced.release jobId⟩ trivial
  | cleanup order maxAgeSecs now =>
    exact iff_of_true ⟨foldl_release (P := Present) (fun _ id h => h.release id) _ t h,
      foldl_release (P := Priced) (fun _ id h => h.release id) _ t hpriced⟩ trivial

/-! ## Runs -/

section Runs

variable {policy : SchedulingPolicy} {ops : List SchedulerOp}

theorem enqueued_run (successScore : UInt64 → UInt64 → UInt64) (policy : SchedulingPolicy)
    (ops : List SchedulerOp) :
    (SchedulerRun.run successScore policy ops).enqueued = ops.filterMap SchedulerOp.jobId := by
  have hfold : ∀ (ids : List H256) (t : SchedulerRun),
      (ids.foldl SchedulerRun.release t).enqueued = t.enqueued := by
    intro ids
    induction ids with
    | nil => exact fun _ => rfl
    | cons id ids ih => exact fun t => ih (t.release id)
  induction ops using List.reverseRecOn with
  | nil => rfl
  | append_singleton ops op ih =>
    rw [SchedulerRun.run_snoc, List.filterMap_append, ← ih]
    cases op with
    | enqueue job now => rfl
    | cleanup order maxAgeSecs now => exact (hfold _ _).trans (List.append_nil _).symm
    | _ => exact (List.append_nil _).symm

theorem kept_run (hids : (ops.filterMap SchedulerOp.jobId).Nodup) :
    ∀ pre, pre <+: ops → Kept (SchedulerRun.run successScore policy pre) := by
  refine forall_prefixes ?_ fun pre op hpre h => ?_
  · refine ⟨List.nodup_nil, fun id hid => absurd hid List.not_mem_nil, fun id a ha => ?_,
      fun hid => absurd hid List.not_mem_nil, fun n => ⟨List.nodup_nil, fun id => ?_⟩⟩
    · cases ha
    · refine iff_of_false List.not_mem_nil ?_
      rintro ⟨a, ha, -⟩
      cases ha
  · rw [SchedulerRun.run_snoc]
    refine step_kept h fun id hop hmem => ?_
    have hnodup : ((pre ++ [op]).filterMap SchedulerOp.jobId).Nodup :=
      hids.sublist (hpre.sublist.filterMap _)
    rw [List.filterMap_append, List.nodup_append] at hnodup
    rw [enqueued_run] at hmem
    exact hnodup.2.2 id hmem id (by simp [hop]) rfl

/-- **The scheduler.** In every run with distinct job ids every job that was not released is
in one place, the jobs of a node are those allocated to it, and every allocation is on an
eligible node at the exact price within the budget, exactly when every call meets its
condition. -/
theorem scheduled_iff (hids : (ops.filterMap SchedulerOp.jobId).Nodup) :
    (∀ pre, pre <+: ops → Placed (SchedulerRun.run successScore policy pre) ∧
        NodesListed (SchedulerRun.run successScore policy pre) ∧
        Priced (SchedulerRun.run successScore policy pre)) ↔
      ∀ pre op, pre ++ [op] <+: ops →
        op.Careful successScore (SchedulerRun.run successScore policy pre).scheduler := by
  have hkept : ∀ pre, pre <+: ops → Kept (SchedulerRun.run successScore policy pre) :=
    kept_run hids
  have hlaw : ∀ pre, pre <+: ops → (Placed (SchedulerRun.run successScore policy pre) ∧
      NodesListed (SchedulerRun.run successScore policy pre) ∧
      Priced (SchedulerRun.run successScore policy pre) ↔
        Present (SchedulerRun.run successScore policy pre) ∧
          Priced (SchedulerRun.run successScore policy pre)) := by
    intro pre hpre
    rw [(hkept pre hpre).placed_iff, and_iff_right (hkept pre hpre).listed]
  rw [forall₂_congr hlaw]
  refine forall_prefixes_iff ⟨fun id hid => absurd hid List.not_mem_nil, fun id a ha => ?_⟩ ?_
  · cases ha
  · rintro pre op hpre ⟨hpresent, hpriced⟩
    rw [SchedulerRun.run_snoc]
    exact step_scheduled_iff (hkept pre ((List.prefix_append pre [op]).trans hpre)) hpresent
      hpriced op

end Runs

/-- Whole percents of the jobs completed. -/
def successPercent (completed failed : UInt64) : UInt64 :=
  if completed + failed = 0 then 100 else completed * 100 / (completed + failed)

/-- A node of one processor that asks for 3600 an hour, online at time 0. -/
def sampleNode : ComputeNode :=
  ⟨⟨Vector.replicate 20 1⟩, ⟨8, 16384, 100000, [], 8192⟩, .active, 50, 0, 0, 3600, 0, 0⟩

/-- A job for an hour and so many compute units. -/
def sampleSpec (units : UInt32) : JobSpec :=
  ⟨⟨4096, units, 4, 8192, 10240, none, 3600⟩, 10000, 5, 30⟩

/-- A job is queued and is given to a node, with a clock second between. -/
def sampleCalls (units : UInt32) (nodes : List (ComputeNode × UInt64)) : List SchedulerOp :=
  [.enqueue ⟨.zero, sampleSpec units⟩ 0, .scheduleNext .first nodes 1]

/-- Two jobs are queued and given to one node, and the first is given back. -/
def twoJobs : List SchedulerOp :=
  [.enqueue ⟨.zero, sampleSpec 2⟩ 0, .enqueue ⟨.ofNatBE 1, sampleSpec 1⟩ 0,
    .scheduleNext .first [(sampleNode, 1)] 1, .scheduleNext .first [(sampleNode, 2)] 2,
    .releaseAllocation .zero]

theorem scheduled_two_jobs :
    (∀ pre, pre <+: twoJobs → Placed (SchedulerRun.run successPercent .balanced pre) ∧
      NodesListed (SchedulerRun.run successPercent .balanced pre) ∧
      Priced (SchedulerRun.run successPercent .balanced pre)) ∧
    ((twoJobs.take 4).foldl (SchedulerOp.apply successPercent) (.new .balanced)).getNodeJobs
      sampleNode.address = [.zero, .ofNatBE 1] ∧
    (twoJobs.foldl (SchedulerOp.apply successPercent) (.new .balanced)).getNodeJobs
      sampleNode.address = [.ofNatBE 1] := by
  refine ⟨(scheduled_iff (by decide)).mpr (forall_prefixes_snoc (by decide)), ?_, ?_⟩
  · rw [← SchedulerRun.run_scheduler]
    decide
  · rw [← SchedulerRun.run_scheduler]
    decide

/-- With no node at hand the job is gone, and a price of `2 ^ 64` is accepted as none. -/
theorem unscheduled_is_lost :
    ¬ Placed (SchedulerRun.run successPercent .balanced (sampleCalls 2 [])) ∧
      ¬ Priced (SchedulerRun.run successPercent .balanced (sampleCalls 4096
        [({ sampleNode with pricePerHour := 4503599627370496 }, 1)])) := by
  refine ⟨fun h => ?_, fun h => ?_⟩
  · exact absurd (h .zero (by decide) (by decide)) (by decide)
  · generalize hcalls : sampleCalls 4096
      [({ sampleNode with pricePerHour := 4503599627370496 }, 1)] = calls at h
    have hprice : ∀ a ∈ (SchedulerRun.run successPercent .balanced calls).grants.lookup .zero,
        exactPrice a.spec a.node = 2 ^ 64 := by
      subst hcalls
      decide
    have hallocated : ((SchedulerRun.run successPercent .balanced
        calls).scheduler.allocations.lookup .zero).isSome := by
      subst hcalls
      decide
    obtain ⟨a, ha⟩ := Option.isSome_iff_exists.mp hallocated
    obtain ⟨grant, hgrant, -, hexact⟩ := h .zero a ha
    rw [hprice grant hgrant] at hexact
    exact absurd a.price.toNat_lt (hexact ▸ lt_irrefl _)

end Pyrax.Ai
