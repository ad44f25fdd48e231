import Mathlib.Data.List.Infix
import Mathlib.Data.List.Sort
import Pyrax.Base.Heap
import Pyrax.Base.Records
import Pyrax.Base.Word
import Pyrax.Types.Primitives

/-!
# The compute scheduler

`pyrax-node/src/ai/compute/scheduler.rs`, with what it reads of a node and of a job
(`node.rs`, `job.rs`): a heap of queued jobs, the allocations and the jobs of each node.
`schedule_next` takes a job off the heap, looks for the best of the eligible nodes and
multiplies two words for the price. It puts the job back when the price is too high; when
no node is eligible it just returns.

Clock readings are arguments, one for each node that is asked whether it is online. The
success rate is a quotient in floating point and is a parameter, as a function of two
counts. What a node or a job carries besides is left out; the scheduler does not read it.
-/

namespace Pyrax.Ai

open Base Word

inductive SchedulingPolicy where
  | fcfs
  | shortestFirst
  | priorityBased
  | lowestPrice
  | bestReputation
  | locality
  | balanced
  deriving DecidableEq

inductive NodeStatus where
  | registering
  | active
  | busy
  | paused
  | offline
  | slashed
  | unbonding
  deriving DecidableEq

structure ResourceRequirements where
  gpuMemoryMb : UInt64
  gpuComputeUnits : UInt32
  cpuCores : UInt32
  ramMb : UInt64
  storageMb : UInt64
  gpuType : Option String
  maxDurationSecs : UInt64
  deriving DecidableEq

structure JobSpec where
  resources : ResourceRequirements
  maxPrice : UInt64
  priority : UInt8
  minReputation : UInt32
  deriving DecidableEq

structure ComputeJob where
  id : H256
  spec : JobSpec
  deriving DecidableEq

/-- `gpus` is the list of their models. -/
structure NodeSpec where
  cpuCores : UInt32
  ramMb : UInt64
  storageMb : UInt64
  gpus : List String
  totalGpuMemoryMb : UInt64
  deriving DecidableEq

structure ComputeNode where
  address : Address
  spec : NodeSpec
  status : NodeStatus
  reputation : UInt32
  jobsCompleted : UInt64
  jobsFailed : UInt64
  pricePerHour : UInt64
  lastHeartbeat : UInt64
  avgCompletionTime : UInt64
  deriving DecidableEq

def NodeSpec.meetsRequirements (spec : NodeSpec) (req : ResourceRequirements) : Bool :=
  if spec.totalGpuMemoryMb < req.gpuMemoryMb then false
  else if spec.cpuCores < req.cpuCores then false
  else if spec.ramMb < req.ramMb then false
  else if spec.storageMb < req.storageMb then false
  else
    match req.gpuType with
    | none => true
    | some gpuType => spec.gpus.any fun model => gpuType.toList <:+: model.toList

namespace ComputeNode

def isOnline (node : ComputeNode) (now : UInt64) : Bool := decide (now - node.lastHeartbeat < 300)

def calculatePrice (node : ComputeNode) (durationSecs : UInt64) : UInt64 :=
  node.pricePerHour * durationSecs / 3600

end ComputeNode

structure ResourceAllocation where
  jobId : H256
  node : Address
  gpuMemoryMb : UInt64
  gpuComputeUnits : UInt32
  cpuCores : UInt32
  ramMb : UInt64
  storageMb : UInt64
  price : UInt64
  allocatedAt : UInt64
  expectedDuration : UInt64
  deriving DecidableEq

structure QueuedJob where
  job : ComputeJob
  priorityScore : UInt64
  queuedAt : UInt64
  deriving DecidableEq

/-- `cmp` says `Less` or `Equal`: a lower priority, or the same and not queued earlier. -/
def QueuedJob.Le (a b : QueuedJob) : Prop :=
  a.priorityScore < b.priorityScore ∨
    (a.priorityScore = b.priorityScore ∧ b.queuedAt ≤ a.queuedAt)

instance : DecidableRel QueuedJob.Le := fun _ _ => instDecidableOr

theorem QueuedJob.le_total (a b : QueuedJob) : a.Le b ∨ b.Le a := by
  unfold QueuedJob.Le
  rcases Nat.lt_trichotomy a.priorityScore.toNat b.priorityScore.toNat with h | h | h
  · exact Or.inl (Or.inl (UInt64.lt_iff_toNat_lt.mpr h))
  · have heq : a.priorityScore = b.priorityScore := UInt64.toNat_inj.mp h
    rcases UInt64.le_total a.queuedAt b.queuedAt with hle | hle
    · exact Or.inr (Or.inr ⟨heq.symm, hle⟩)
    · exact Or.inl (Or.inr ⟨heq, hle⟩)
  · exact Or.inr (Or.inl (UInt64.lt_iff_toNat_lt.mpr h))

theorem QueuedJob.le_trans (a b c : QueuedJob) (hab : a.Le b) (hbc : b.Le c) : a.Le c := by
  rcases hab with hab | ⟨hab, hleab⟩ <;> rcases hbc with hbc | ⟨hbc, hlebc⟩
  · exact Or.inl (UInt64.lt_trans hab hbc)
  · exact Or.inl (hbc ▸ hab)
  · exact Or.inl (hab ▸ hbc)
  · exact Or.inr ⟨hab.trans hbc, UInt64.le_trans hlebc hleab⟩

/-- Which of the jobs of one priority and one time the heap gives first. -/
abbrev QueueOrder := HeapOrder QueuedJob QueuedJob.Le

/-- The one that is first in the list. -/
def QueueOrder.first : QueueOrder := HeapOrder.first QueuedJob.le_total QueuedJob.le_trans

structure NodeScore where
  node : ComputeNode
  score : UInt64
  price : UInt64

structure SchedulerStats where
  jobsQueued : UInt64
  jobsScheduled : UInt64
  totalAllocatedValue : UInt64

structure JobScheduler where
  policy : SchedulingPolicy
  queue : List QueuedJob
  allocations : Column H256 ResourceAllocation
  nodeJobs : Column Address (List H256)
  stats : SchedulerStats
  priceWeight : UInt32
  reputationWeight : UInt32

/-- The order in which `cleanup` meets the allocations. -/
abbrev AllocationOrder := Column.KeyOrder H256 ResourceAllocation

def calculatePriority (job : ComputeJob) : UInt64 :=
  let basePriority := job.spec.priority.toUInt64 * 1000
  let priceBonus := job.spec.maxPrice / 1000000
  let waitPenalty := 0
  basePriority + priceBonus - waitPenalty

def calculatePrice (spec : JobSpec) (node : ComputeNode) : UInt64 :=
  let basePrice := node.calculatePrice spec.resources.maxDurationSecs
  let gpuFactor := spec.resources.gpuComputeUnits.toUInt64
  basePrice * max gpuFactor 1

/-- The filter of `find_best_node`, at a reading of the clock. -/
def ComputeNode.eligible (spec : JobSpec) (node : ComputeNode) (now : UInt64) : Bool :=
  node.status = .active && node.isOnline now && spec.minReputation ≤ node.reputation &&
    node.spec.meetsRequirements spec.resources

namespace JobScheduler

-- `(success_rate() * 100.0) as u64`, of the jobs completed and failed
variable (successScore : UInt64 → UInt64 → UInt64)

def new (policy : SchedulingPolicy) : JobScheduler where
  policy := policy
  queue := []
  allocations := ∅
  nodeJobs := ∅
  stats := ⟨0, 0, 0⟩
  priceWeight := 30
  reputationWeight := 40

def balancedScore (s : JobScheduler) (node : ComputeNode) (spec : JobSpec) : UInt64 :=
  let repScore := node.reputation.toUInt64
  let price := calculatePrice spec node
  let priceScore :=
    if price = 0 then 100
    else if spec.maxPrice < price then 0
    else (spec.maxPrice - price) * 100 / spec.maxPrice
  let success := successScore node.jobsCompleted node.jobsFailed
  let gpuRatio := node.spec.totalGpuMemoryMb * 100 / max spec.resources.gpuMemoryMb 1
  let computeScore := min gpuRatio 100
  (repScore * s.reputationWeight.toUInt64 + priceScore * s.priceWeight.toUInt64 + success * 20 +
    computeScore * 10) / 100

def scoreNode (s : JobScheduler) (node : ComputeNode) (spec : JobSpec) : UInt64 :=
  match s.policy with
  | .fcfs => 100
  | .shortestFirst => 1000 / max node.avgCompletionTime 1
  | .priorityBased => node.reputation.toUInt64 * 10
  | .lowestPrice =>
    let price := calculatePrice spec node
    if price = 0 then 1000 else 1000000000 / price
  | .bestReputation => node.reputation.toUInt64 * 10
  | .locality => 100
  | .balanced => s.balancedScore successScore node spec

/-- The highest score, the first one in the list among equals. -/
def findBestNode (s : JobScheduler) (spec : JobSpec) (nodes : List (ComputeNode × UInt64)) :
    Option ComputeNode :=
  let eligible := (nodes.filter fun e => e.1.eligible spec e.2).map Prod.fst
  let scored := eligible.map fun n =>
    (⟨n, s.scoreNode successScore n spec, calculatePrice spec n⟩ : NodeScore)
  ((scored.insertionSort fun a b => b.score ≤ a.score).head?).map NodeScore.node

def enqueue (s : JobScheduler) (job : ComputeJob) (now : UInt64) : JobScheduler :=
  { s with
    queue := s.queue ++ [⟨job, calculatePriority job, now⟩]
    stats := { s.stats with jobsQueued := s.stats.jobsQueued + 1 } }

/-- The allocation of a job to a node. -/
def allocate (job : ComputeJob) (node : ComputeNode) (now : UInt64) : ResourceAllocation where
  jobId := job.id
  node := node.address
  gpuMemoryMb := job.spec.resources.gpuMemoryMb
  gpuComputeUnits := job.spec.resources.gpuComputeUnits
  cpuCores := job.spec.resources.cpuCores
  ramMb := job.spec.resources.ramMb
  storageMb := job.spec.resources.storageMb
  price := calculatePrice job.spec node
  allocatedAt := now
  expectedDuration := job.spec.resources.maxDurationSecs

/-- Record an allocation. -/
def record (s : JobScheduler) (a : ResourceAllocation) : JobScheduler :=
  { s with
    allocations := s.allocations.insert a.jobId a
    nodeJobs := s.nodeJobs.insert a.node ((s.nodeJobs.lookup a.node).getD [] ++ [a.jobId])
    stats := { s.stats with
      jobsScheduled := s.stats.jobsScheduled + 1
      totalAllocatedValue := s.stats.totalAllocatedValue + a.price } }

def scheduleNext (s : JobScheduler) (order : QueueOrder) (nodes : List (ComputeNode × UInt64))
    (now : UInt64) : Option ResourceAllocation × JobScheduler :=
  match order.pop s.queue with
  | none => (none, s)
  | some (queued, rest) =>
    let s' := { s with queue := rest }
    let job := queued.job
    match s'.findBestNode successScore job.spec nodes with
    -- the job is not on the heap any more
    | none => (none, s')
    | some bestNode =>
      if job.spec.maxPrice < calculatePrice job.spec bestNode then (none, s'.enqueue job now)
      else (some (allocate job bestNode now), s'.record (allocate job bestNode now))

def releaseAllocation (s : JobScheduler) (jobId : H256) : JobScheduler :=
  match s.allocations.lookup jobId with
  | none => s
  | some allocation =>
    { s with
      allocations := s.allocations.erase jobId
      nodeJobs := match s.nodeJobs.lookup allocation.node with
        | none => s.nodeJobs
        | some jobs => s.nodeJobs.insert allocation.node (jobs.filter fun id => id ≠ jobId) }

def getNodeJobs (s : JobScheduler) (node : Address) : List H256 :=
  (s.nodeJobs.lookup node).getD []

/-- The allocations from before the threshold. -/
def outdated (s : JobScheduler) (order : AllocationOrder) (maxAgeSecs now : UInt64) : List H256 :=
  ((order.entries s.allocations).filter fun e =>
    e.2.allocatedAt < saturatingSub now maxAgeSecs).map Prod.fst

def cleanup (s : JobScheduler) (order : AllocationOrder) (maxAgeSecs now : UInt64) :
    JobScheduler :=
  (s.outdated order maxAgeSecs now).foldl releaseAllocation s

end JobScheduler

end Pyrax.Ai
