import Pyrax.Base.Locks
import Pyrax.Base.Records
import Pyrax.Types.Primitives

/-!
# Result verification

`pyrax-node/src/ai/compute/verification.rs`: a pool of verifiers, the requests that are
pending with the verifiers assigned to each, and the completed results. A request is
decided once it has as many results as its quorum: by the `matches` flag that every
verifier sends along, at two thirds rounded down.

The operations come twice. First as functions of the data, with every clock reading an
argument and a map walked in an order that is an argument. Then as programs over the
locks, one a field: a guard bound to a name is held to the end of its scope, a temporary
to the end of its statement. Averages in floating point, durations, timestamps and what
else a result carries besides its hash and flag are left out; no operation reads them.
-/

namespace Pyrax.Ai

open Base

inductive VerificationMethod where
  | none
  | single
  | consensus
  | zkProof
  | tee
  | replay
  | sampling
  deriving DecidableEq

inductive VerificationStatus where
  | pending
  | inProgress
  | verified
  | failed
  | disputed
  | timedOut
  deriving DecidableEq

def VERIFICATION_QUORUM : UInt32 := 3

def VerificationMethod.quorum : VerificationMethod → UInt32
  | none => 0
  | single => 1
  | consensus => VERIFICATION_QUORUM
  | zkProof => 1
  | tee => 1
  | replay => 2
  | sampling => 3

/-- What a verifier sends. `isMatch` is the field `matches`, which it fills in itself. -/
structure VerifierResult where
  verifier : Address
  resultHash : H256
  isMatch : Bool
  deriving DecidableEq

structure VerificationRequest where
  jobId : H256
  primaryHash : H256
  primaryNode : Address
  method : VerificationMethod
  quorum : UInt32
  deadline : UInt64
  status : VerificationStatus
  results : List VerifierResult
  verdict : Option Bool
  disputeReason : Option String
  deriving DecidableEq

namespace VerificationRequest

def new (jobId primaryHash : H256) (primaryNode : Address) (method : VerificationMethod)
    (deadlineSecs now : UInt64) : VerificationRequest where
  jobId := jobId
  primaryHash := primaryHash
  primaryNode := primaryNode
  method := method
  quorum := method.quorum
  deadline := now + deadlineSecs
  status := .pending
  results := []
  verdict := none
  disputeReason := none

/-- The results that say they match. -/
def matching (request : VerificationRequest) : Nat :=
  (request.results.filter fun r => r.isMatch).length

def finalize (request : VerificationRequest) : VerificationRequest :=
  let total := request.results.length
  let threshold := total * 2 / 3
  if threshold ≤ request.matching then
    { request with verdict := some true, status := .verified }
  else
    { request with verdict := some false, status := .failed }

/-- Whether the result was taken, and the request after it. -/
def addResult (request : VerificationRequest) (result : VerifierResult) (now : UInt64) :
    Bool × VerificationRequest :=
  if request.deadline < now then (false, { request with status := .timedOut })
  else if request.results.any fun r => r.verifier = result.verifier then (false, request)
  else
    let request' :=
      { request with results := request.results ++ [result], status := .inProgress }
    if request.quorum.toNat ≤ request'.results.length then (true, request'.finalize)
    else (true, request')

def isComplete (request : VerificationRequest) : Bool :=
  match request.status with
  | .verified => true
  | .failed => true
  | .timedOut => true
  | .disputed => true
  | _ => false

def checkTimeout (request : VerificationRequest) (now : UInt64) : Bool × VerificationRequest :=
  if request.isComplete = false ∧ request.deadline < now then
    (true, { request with status := .timedOut })
  else (false, request)

def dispute (request : VerificationRequest) (reason : String) : VerificationRequest :=
  if request.status = .verified ∨ request.status = .failed then
    { request with status := .disputed, disputeReason := some reason }
  else request

end VerificationRequest

structure VerificationResult where
  jobId : H256
  verified : Bool
  verifierCount : UInt32
  method : VerificationMethod
  deriving DecidableEq

structure VerifierStats where
  requestsCreated : UInt64
  requestsCompleted : UInt64
  verifiedCount : UInt64
  failedCount : UInt64
  disputesFiled : UInt64
  timeouts : UInt64
  deriving DecidableEq

structure ResultVerifier where
  pending : Column H256 VerificationRequest
  completed : Column H256 VerificationResult
  verifierPool : List Address
  assignments : Column H256 (List Address)
  stats : VerifierStats
  defaultTimeout : UInt64

/-- The errors of the modelled operations. -/
inductive VerificationError where
  | notFound (jobId : H256)
  | alreadyPending (jobId : H256)
  | alreadyCompleted (jobId : H256)
  | notAssigned (verifier : Address)
  | insufficientVerifiers (required available : Nat)
  deriving DecidableEq

/-- The order in which `check_timeouts` meets the pending requests. -/
abbrev RequestOrder := Column.KeyOrder H256 VerificationRequest

/-- `pool.iter().filter(|a| **a != request.primary_node)`, the first `quorum` of them. -/
def selectVerifiers (pool : List Address) (request : VerificationRequest) :
    Except VerificationError (List Address) :=
  if pool.length < request.quorum.toNat then
    .error (.insufficientVerifiers request.quorum.toNat pool.length)
  else
    let eligible := pool.filter fun a => a ≠ request.primaryNode
    if eligible.length < request.quorum.toNat then
      .error (.insufficientVerifiers request.quorum.toNat eligible.length)
    else .ok (eligible.take request.quorum.toNat)

namespace ResultVerifier

def new : ResultVerifier where
  pending := ∅
  completed := ∅
  verifierPool := []
  assignments := ∅
  stats := ⟨0, 0, 0, 0, 0, 0⟩
  defaultTimeout := 300

/-! ## The operations on the data -/

/-! The single writes, each under one lock. -/

def setPending (jobId : H256) (request : VerificationRequest) (s : ResultVerifier) :
    ResultVerifier :=
  { s with pending := s.pending.insert jobId request }

def erasePending (jobId : H256) (s : ResultVerifier) : ResultVerifier :=
  { s with pending := s.pending.erase jobId }

def setCompleted (jobId : H256) (result : VerificationResult) (s : ResultVerifier) :
    ResultVerifier :=
  { s with completed := s.completed.insert jobId result }

def setAssigned (jobId : H256) (verifiers : List Address) (s : ResultVerifier) :
    ResultVerifier :=
  { s with assignments := s.assignments.insert jobId verifiers }

def eraseAssigned (jobId : H256) (s : ResultVerifier) : ResultVerifier :=
  { s with assignments := s.assignments.erase jobId }

def countCreated (s : ResultVerifier) : ResultVerifier :=
  { s with stats := { s.stats with requestsCreated := s.stats.requestsCreated + 1 } }

def countCompleted (verified : Bool) (s : ResultVerifier) : ResultVerifier :=
  { s with stats := { s.stats with
      requestsCompleted := s.stats.requestsCompleted + 1
      verifiedCount := if verified then s.stats.verifiedCount + 1 else s.stats.verifiedCount
      failedCount := if verified then s.stats.failedCount else s.stats.failedCount + 1 } }

def countDispute (s : ResultVerifier) : ResultVerifier :=
  { s with stats := { s.stats with disputesFiled := s.stats.disputesFiled + 1 } }

def countTimeouts (n : Nat) (s : ResultVerifier) : ResultVerifier :=
  { s with stats := { s.stats with timeouts := s.stats.timeouts + n.toUInt64 } }

def registerVerifier (address : Address) (s : ResultVerifier) : ResultVerifier :=
  if address ∈ s.verifierPool then s else { s with verifierPool := s.verifierPool ++ [address] }

def unregisterVerifier (address : Address) (s : ResultVerifier) : ResultVerifier :=
  { s with verifierPool := s.verifierPool.filter fun a => a ≠ address }

/-- What is recorded of a request without verification. -/
def trusted (jobId : H256) : VerificationResult := ⟨jobId, true, 0, .none⟩

def requestVerification (jobId primaryHash : H256) (primaryNode : Address)
    (method : VerificationMethod) (now : UInt64) (s : ResultVerifier) :
    Except VerificationError (List Address × ResultVerifier) :=
  if jobId ∈ s.pending then .error (.alreadyPending jobId)
  else if method = .none then .ok ([], s.setCompleted jobId (trusted jobId))
  else
    let request := VerificationRequest.new jobId primaryHash primaryNode method
      s.defaultTimeout now
    match selectVerifiers s.verifierPool request with
    | .error e => .error e
    | .ok verifiers =>
      .ok (verifiers, ((s.setPending jobId request).setAssigned jobId verifiers).countCreated)

/-- The result of a request that is complete. -/
def finalResult (jobId : H256) (request : VerificationRequest) : VerificationResult :=
  ⟨jobId, request.verdict.getD false, request.results.length.toUInt32, request.method⟩

/-- A verifier that is not assigned, where the job has an assignment. -/
def Unassigned (s : ResultVerifier) (jobId : H256) (verifier : Address) : Prop :=
  ∃ assigned ∈ s.assignments.lookup jobId, verifier ∉ assigned

instance (s : ResultVerifier) (jobId : H256) (verifier : Address) :
    Decidable (s.Unassigned jobId verifier) :=
  inferInstanceAs (Decidable (∃ assigned ∈ s.assignments.lookup jobId, verifier ∉ assigned))

/-- `submit_result` as it reads without its locks. -/
def submitResult (jobId : H256) (result : VerifierResult) (now : UInt64) (s : ResultVerifier) :
    Except VerificationError (Bool × ResultVerifier) :=
  match s.pending.lookup jobId with
  | none => .error (.notFound jobId)
  | some request =>
    if s.Unassigned jobId result.verifier then .error (.notAssigned result.verifier)
    else
      let (taken, request') := request.addResult result now
      let s' := s.setPending jobId request'
      if taken = false then .ok (false, s')
      else if request'.isComplete then
        let final := finalResult jobId request'
        .ok (true, (((s'.erasePending jobId).setCompleted jobId final).eraseAssigned jobId).countCompleted
          final.verified)
      else .ok (true, s')

def fileDispute (jobId : H256) (reason : String) (s : ResultVerifier) :
    Except VerificationError ResultVerifier :=
  if jobId ∈ s.completed then .error (.alreadyCompleted jobId)
  else
    match s.pending.lookup jobId with
    | none => .error (.notFound jobId)
    | some request => .ok (s.setPending jobId (request.dispute reason)).countDispute

/-- The first loop of `check_timeouts`: what has expired, each by a reading of its own. -/
def expired (order : RequestOrder) (clock : H256 → UInt64) (s : ResultVerifier) : List H256 :=
  ((order.entries s.pending).filter fun e => (e.2.checkTimeout (clock e.1)).1).map Prod.fst

def markTimeouts (clock : H256 → UInt64) (s : ResultVerifier) : ResultVerifier :=
  { s with pending := s.pending.mapValues fun id r => (r.checkTimeout (clock id)).2 }

/-- What is recorded of a request that has expired. -/
def timeoutResult (id : H256) (request : VerificationRequest) : VerificationResult :=
  ⟨id, false, request.results.length.toUInt32, request.method⟩

/-- One turn of the second loop. -/
def moveTimedOut (s : ResultVerifier) (id : H256) : ResultVerifier :=
  match s.pending.lookup id with
  | none => s
  | some request => (s.erasePending id).setCompleted id (timeoutResult id request)

def checkTimeouts (order : RequestOrder) (clock : H256 → UInt64) (s : ResultVerifier) :
    List H256 × ResultVerifier :=
  let timedOut := s.expired order clock
  (timedOut, (timedOut.foldl moveTimedOut (s.markTimeouts clock)).countTimeouts timedOut.length)

end ResultVerifier

/-! ## The operations on the locks -/

inductive VerifierLock where
  | pending
  | completed
  | verifierPool
  | assignments
  | stats
  deriving DecidableEq

abbrev VerifierProgram := Locks.Program VerifierLock ResultVerifier

namespace ResultVerifier

open Locks Locks.Program

def registerProgram (address : Address) : VerifierProgram :=
  poke .verifierPool (registerVerifier address) .done

def unregisterProgram (address : Address) : VerifierProgram :=
  poke .verifierPool (unregisterVerifier address) .done

def requestProgram (jobId primaryHash : H256) (primaryNode : Address)
    (method : VerificationMethod) (now : UInt64) : VerifierProgram :=
  peek .pending fun s =>
  if jobId ∈ s.pending then .done
  else if method = .none then poke .completed (setCompleted jobId (trusted jobId)) .done
  else
    let request := VerificationRequest.new jobId primaryHash primaryNode method
      s.defaultTimeout now
    peek .verifierPool fun s =>
    match selectVerifiers s.verifierPool request with
    | .error _ => .done
    | .ok verifiers =>
      poke .pending (setPending jobId request) <|
      poke .assignments (setAssigned jobId verifiers) <|
      poke .stats countCreated .done

/-- The guards of `submit_result` as they go out of scope, the last one first. -/
def releaseBoth : VerifierProgram := .release .assignments .read <| .release .pending .write .done

/-- `drop(pending)` and what comes after it: the guard on `assignments` is still there. -/
def moveToCompleted (jobId : H256) (request : VerificationRequest) : VerifierProgram :=
  let final := finalResult jobId request
  .release .pending .write <|
  poke .pending (erasePending jobId) <|
  poke .completed (setCompleted jobId final) <|
  poke .assignments (eraseAssigned jobId) <|
  .acquire .stats .write <| .update (countCompleted final.verified) <|
  .release .stats .write <| .release .assignments .read .done

def submitProgram (jobId : H256) (result : VerifierResult) (now : UInt64) : VerifierProgram :=
  .acquire .pending .write <| .look fun s =>
  match s.pending.lookup jobId with
  | none => .release .pending .write .done
  | some request =>
    .acquire .assignments .read <| .look fun s =>
    if s.Unassigned jobId result.verifier then releaseBoth
    else
      let (taken, request') := request.addResult result now
      .update (setPending jobId request') <|
      if taken = false then releaseBoth
      else if request'.isComplete then moveToCompleted jobId request'
      else releaseBoth

def disputeProgram (jobId : H256) (reason : String) : VerifierProgram :=
  peek .completed fun s =>
  if jobId ∈ s.completed then .done
  else
    .acquire .pending .write <| .look fun s =>
    match s.pending.lookup jobId with
    | none => .release .pending .write .done
    | some request =>
      .update (setPending jobId (request.dispute reason)) <|
      poke .stats countDispute <|
      .release .pending .write .done

/-- The second loop of `check_timeouts`, under the guard on `pending`. -/
def moveAll (next : VerifierProgram) : List H256 → VerifierProgram
  | [] => next
  | id :: ids =>
    .look fun s =>
    match s.pending.lookup id with
    | none => moveAll next ids
    | some request =>
      .update (erasePending id) <|
      poke .completed (setCompleted id (timeoutResult id request)) <|
      moveAll next ids

def timeoutsProgram (order : RequestOrder) (clock : H256 → UInt64) : VerifierProgram :=
  .acquire .pending .write <| .look fun s =>
  let timedOut := s.expired order clock
  .update (markTimeouts clock) <|
  moveAll (poke .stats (countTimeouts timedOut.length) <| .release .pending .write .done) timedOut

end ResultVerifier

end Pyrax.Ai
