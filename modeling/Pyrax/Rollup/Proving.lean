import Pyrax.Base.Records
import Pyrax.Base.Wire
import Pyrax.Types.Primitives

/-!
# Proofs of batches, made and checked

`pyrax-node/src/zkrollup/prover.rs` and `zkrollup/verifier.rs`. Requests wait in a queue, are
taken up by a prover in turn, and are proved or time out; a proof is kept under the hash of its
batch. The proof systems are placeholders on both sides: the prover writes a hash and zeros of
the right size, the verifier looks at the size and, for a STARK, at the public inputs. What is
left to say of the pipeline is that it loses and mixes up nothing: requests are taken up in the
order they came (`taken_in_order`), each is reported late at most once each time it is taken up and
not after its proof was made (`timed_out_once`), and whatever is kept for a batch is about a
transition that was submitted for it and is accepted by every verifier of its kind
(`kept_accepted`).

A call is one step: the locks between its parts are not modelled. Left out are the settings and
counters that nothing reads, the verification keys among them.
-/

namespace Pyrax.Proving

open Base

inductive ProofType where
  | stark
  | snark
  | plonk
  | groth16
  deriving DecidableEq

namespace ProofType

/-- `proof_type as u8`. -/
def discriminant : ProofType → UInt8
  | stark => 0
  | snark => 1
  | plonk => 2
  | groth16 => 3

def expectedSize : ProofType → Nat
  | stark => 200000
  | snark => 500
  | plonk => 1000
  | groth16 => 200

end ProofType

/-- What the prover reads of it. -/
structure StateTransition where
  preStateRoot : H256
  postStateRoot : H256
  txHashes : List H256
  transitionHash : H256
  deriving DecidableEq

structure Proof where
  proofType : ProofType
  data : List UInt8
  publicInputs : List H256
  batchHash : H256
  preStateRoot : H256
  postStateRoot : H256
  prover : Address
  generatedAt : UInt64
  generationTimeMs : UInt64
  proofHash : H256
  deriving DecidableEq

namespace Proof

def computeHash (C : Crypto) (p : Proof) : H256 :=
  C.blake3 ([p.proofType.discriminant] ++ p.data ++ p.publicInputs.flatMap H256.asBytes ++
    p.batchHash.asBytes ++ p.preStateRoot.asBytes ++ p.postStateRoot.asBytes)

def verifySize (p : Proof) : Bool := p.data.length ≤ p.proofType.expectedSize * 2

end Proof

/-! ## The prover -/

structure ProverConfig where
  proofType : ProofType
  timeoutSecs : UInt64

inductive ProofRequestStatus where
  | queued
  | proving
  | completed
  | failed
  | timedOut
  deriving DecidableEq

structure ProofRequest where
  id : H256
  batchHash : H256
  transition : StateTransition
  status : ProofRequestStatus
  proof : Option Proof
  error : Option String
  createdAt : UInt64
  startedAt : Option UInt64
  completedAt : Option UInt64
  assignedProver : Option UInt32
  deriving DecidableEq

namespace ProofRequest

def generateId (C : Crypto) (batchHash : H256) (now : UInt64) : H256 :=
  C.blake3 (batchHash.asBytes ++ Wire.encU64 now)

/-- The clock is read for the id, and again for `created_at`. -/
def new (C : Crypto) (batchHash : H256) (transition : StateTransition) (now createdAt : UInt64) :
    ProofRequest where
  id := generateId C batchHash now
  batchHash := batchHash
  transition := transition
  status := .queued
  proof := none
  error := none
  createdAt := createdAt
  startedAt := none
  completedAt := none
  assignedProver := none

def start (r : ProofRequest) (proverId : UInt32) (now : UInt64) : ProofRequest :=
  { r with status := .proving, startedAt := some now, assignedProver := some proverId }

def complete (r : ProofRequest) (proof : Proof) (now : UInt64) : ProofRequest :=
  { r with status := .completed, completedAt := some now, proof := some proof }

/-- The request timed out, if it did. -/
def checkTimeout (r : ProofRequest) (timeoutSecs now completedAt : UInt64) :
    Option ProofRequest :=
  if r.status ≠ .proving then none
  else match r.startedAt with
    | some started =>
      if timeoutSecs < now - started then
        some { r with
          status := .timedOut
          completedAt := some completedAt
          error := some "Proof generation timed out" }
      else none
    | none => none

end ProofRequest

structure CircuitParams where
  proofType : ProofType
  constraintCount : Nat
  friLayers : Nat
  numQueries : Nat
  deriving DecidableEq

def CircuitParams.generate (proofType : ProofType) : CircuitParams :=
  match proofType with
  | .stark => ⟨proofType, 2 ^ 20, 10, 40⟩
  | .snark => ⟨proofType, 2 ^ 18, 0, 0⟩
  | .plonk => ⟨proofType, 2 ^ 18, 0, 0⟩
  | .groth16 => ⟨proofType, 2 ^ 16, 0, 0⟩

inductive ProverError where
  | notInitialized
  | requestNotFound (id : H256)
  deriving DecidableEq

/-! ### The proof systems -/

def zeros (n : Nat) : List UInt8 := List.replicate n 0

def encodeExecutionTrace (r : ProofRequest) : List UInt8 :=
  r.transition.preStateRoot.asBytes ++ r.transition.postStateRoot.asBytes ++
    r.transition.txHashes.flatMap H256.asBytes

def commitPolynomials (C : Crypto) (data : List UInt8) : List UInt8 := (C.blake3 data).asBytes

def generateFriProof (params : CircuitParams) : List UInt8 := zeros (params.friLayers * 64)

def generateQueries (params : CircuitParams) : List UInt8 := zeros (params.numQueries * 32)

def generateStarkProof (C : Crypto) (r : ProofRequest) (params : CircuitParams) : List UInt8 :=
  commitPolynomials C (encodeExecutionTrace r) ++ generateFriProof params ++ generateQueries params

/-- The points A, B and C. -/
def generateSnarkProof : List UInt8 := zeros 64 ++ zeros 128 ++ zeros 64

/-- The wires a, b and c. -/
def generateWirePolynomials (params : CircuitParams) : List (List UInt8) :=
  List.replicate 3 (zeros (params.constraintCount * 32))

def kzgCommit (_poly : List UInt8) : List UInt8 := zeros 48

def generatePlonkProof (params : CircuitParams) : List UInt8 :=
  (generateWirePolynomials params).flatMap kzgCommit ++ zeros 96 ++ zeros 48

/-- The points π_A, π_B and π_C. -/
def generateGroth16Proof : List UInt8 := zeros 64 ++ zeros 128 ++ zeros 64

def proofData (C : Crypto) (config : ProverConfig) (r : ProofRequest) (params : CircuitParams) :
    List UInt8 :=
  match config.proofType with
  | .stark => generateStarkProof C r params
  | .snark => generateSnarkProof
  | .plonk => generatePlonkProof params
  | .groth16 => generateGroth16Proof

/-! ### The state -/

structure ProverStats where
  requestsQueued : UInt64
  proofsGenerated : UInt64
  totalProvingTimeMs : UInt64
  timeouts : UInt64
  deriving DecidableEq

structure ZkProver where
  queue : List ProofRequest
  active : Column H256 ProofRequest
  proofs : Column H256 Proof
  stats : ProverStats
  circuitParams : Option CircuitParams

namespace ZkProver

def new : ZkProver := ⟨[], ∅, ∅, ⟨0, 0, 0, 0⟩, none⟩

/-- `initialize`. -/
def initializeCircuit (config : ProverConfig) (s : ZkProver) : ZkProver :=
  { s with circuitParams := some (CircuitParams.generate config.proofType) }

def submitRequest (C : Crypto) (s : ZkProver) (batchHash : H256) (transition : StateTransition)
    (now createdAt : UInt64) : ZkProver × H256 :=
  let request := ProofRequest.new C batchHash transition now createdAt
  ({ s with
    queue := s.queue ++ [request]
    stats := { s.stats with requestsQueued := s.stats.requestsQueued + 1 } }, request.id)

def processNext (s : ZkProver) (proverId : UInt32) (now : UInt64) : ZkProver × Option H256 :=
  match s.queue with
  | [] => (s, none)
  | request :: queue =>
    ({ s with queue, active := s.active.insert request.id (request.start proverId now) },
      some request.id)

/-- The readings of a call: how long the proof took, and the clock at its end and when the
request is completed. -/
structure Readings where
  generationTimeMs : UInt64
  generatedAt : UInt64
  completedAt : UInt64
  deriving DecidableEq

/-- The proof of a request, with its hash. -/
def prove (C : Crypto) (config : ProverConfig) (address : Address) (request : ProofRequest)
    (params : CircuitParams) (t : Readings) : Proof :=
  let proof : Proof :=
    { proofType := config.proofType
      data := proofData C config request params
      publicInputs := [request.transition.preStateRoot, request.transition.postStateRoot,
        request.transition.transitionHash]
      batchHash := request.batchHash
      preStateRoot := request.transition.preStateRoot
      postStateRoot := request.transition.postStateRoot
      prover := address
      generatedAt := t.generatedAt
      generationTimeMs := t.generationTimeMs
      proofHash := H256.zero }
  { proof with proofHash := proof.computeHash C }

def generateProof (C : Crypto) (config : ProverConfig) (address : Address) (s : ZkProver)
    (requestId : H256) (t : Readings) : ZkProver × Except ProverError Proof :=
  match s.active.lookup requestId with
  | none => (s, .error (.requestNotFound requestId))
  | some request =>
    match s.circuitParams with
    | none => (s, .error .notInitialized)
    | some params =>
      let proof := prove C config address request params t
      ({ s with
        active := s.active.insert requestId (request.complete proof t.completedAt)
        proofs := s.proofs.insert request.batchHash proof
        stats := { s.stats with
          proofsGenerated := s.stats.proofsGenerated + 1
          totalProvingTimeMs := s.stats.totalProvingTimeMs + t.generationTimeMs } }, .ok proof)

/-- The requests are walked in the order given, each with its own readings of the clock. -/
def checkTimeouts (config : ProverConfig) (s : ZkProver)
    (order : Column.KeyOrder H256 ProofRequest) (clock : H256 → UInt64 × UInt64) :
    ZkProver × List H256 :=
  let check := fun id (r : ProofRequest) =>
    r.checkTimeout config.timeoutSecs (clock id).1 (clock id).2
  let timedOut := (order.entries s.active).filterMap fun e => (check e.1 e.2).map fun _ => e.1
  ({ s with
    active := Column.mapValues (fun id r => (check id r).getD r) s.active
    stats := { s.stats with timeouts := s.stats.timeouts + UInt64.ofNat timedOut.length } },
    timedOut)

def getProof (s : ZkProver) (batchHash : H256) : Option Proof := s.proofs.lookup batchHash

end ZkProver

/-! ### Runs -/

inductive ProverCall where
  | initializeCircuit
  | submit (batchHash : H256) (transition : StateTransition) (now createdAt : UInt64)
  | processNext (proverId : UInt32) (now : UInt64)
  | generate (requestId : H256) (t : ZkProver.Readings)
  | checkTimeouts (order : Column.KeyOrder H256 ProofRequest) (clock : H256 → UInt64 × UInt64)

/-- What a call tells its caller of the requests. -/
inductive Told where
  | submitted (id batchHash : H256) (transition : StateTransition)
  | taken (id : H256)
  | timedOut (id : H256)
  deriving DecidableEq

/-- A call, with what it tells. -/
def ProverCall.step (C : Crypto) (config : ProverConfig) (address : Address) (s : ZkProver) :
    ProverCall → ZkProver × List Told
  | initializeCircuit => (s.initializeCircuit config, [])
  | submit batchHash transition now createdAt =>
    let r := s.submitRequest C batchHash transition now createdAt
    (r.1, [.submitted r.2 batchHash transition])
  | processNext proverId now =>
    let r := s.processNext proverId now
    (r.1, (r.2.map Told.taken).toList)
  | generate requestId t => ((s.generateProof C config address requestId t).1, [])
  | checkTimeouts order clock =>
    let r := s.checkTimeouts config order clock
    (r.1, r.2.map Told.timedOut)

/-- The prover after some calls, and all that they told. -/
def run (C : Crypto) (config : ProverConfig) (address : Address) (calls : List ProverCall) :
    ZkProver × List Told :=
  calls.foldl (fun s call =>
    let r := call.step C config address s.1
    (r.1, s.2 ++ r.2)) (.new, [])

/-! ## The verifier -/

inductive VerifierError where
  | unsupportedProofType (proofType : ProofType)
  | invalidProofSize
  deriving DecidableEq

structure VerificationResult where
  proofHash : H256
  valid : Bool
  verifiedAt : UInt64
  gasUsed : UInt64
  verifier : Address
  error : Option String
  deriving DecidableEq

structure VerifierConfig where
  supportedTypes : List ProofType

structure VerifierStats where
  totalVerifications : UInt64
  validProofs : UInt64
  invalidProofs : UInt64
  totalGasUsed : UInt64
  totalVerificationTimeMs : UInt64
  deriving DecidableEq

structure ZkVerifier where
  results : Column H256 VerificationResult
  stats : VerifierStats

namespace ZkVerifier

/-- `data[0..64]` and so on are points of a curve, which nothing checks. -/
def isValidG1Point (_data : List UInt8) : Bool := true

def isValidG2Point (_data : List UInt8) : Bool := true

def verifyFriProof (_data : List UInt8) : Bool := true

def verifyPairing (_a _b _c : List UInt8) (_inputs : List H256) : Bool := true

def verifyGroth16Pairing (_a _b _c _vkX : List UInt8) : Bool := true

def computePublicInputAccumulator (C : Crypto) (inputs : List H256) : List UInt8 :=
  (C.blake3 (inputs.flatMap H256.asBytes)).asBytes

def verifyCommitments (_data : List UInt8) : Bool := true

def verifyPermutationArgument (_data : List UInt8) : Bool := true

def verifyOpening (_data : List UInt8) : Bool := true

def verifyStark (proof : Proof) : Bool :=
  if proof.data.length < 100 then false
  else match proof.publicInputs with
    | pre :: post :: _ :: _ =>
      pre = proof.preStateRoot && post = proof.postStateRoot && verifyFriProof proof.data
    | _ => false

def verifySnark (proof : Proof) : Bool :=
  if proof.data.length < 256 then false
  else verifyPairing (proof.data.take 64) ((proof.data.drop 64).take 128)
    ((proof.data.drop 192).take 64) proof.publicInputs

def verifyPlonk (proof : Proof) : Bool :=
  if proof.data.length < 200 then false
  else verifyCommitments proof.data && verifyPermutationArgument proof.data &&
    verifyOpening proof.data

def verifyGroth16 (C : Crypto) (proof : Proof) : Bool :=
  if proof.data.length < 192 then false
  else
    let piA := proof.data.take 64
    let piB := (proof.data.drop 64).take 128
    let piC := proof.data.drop 192
    isValidG1Point piA && isValidG2Point piB &&
      (piC.length < 64 || isValidG1Point (piC.take 64)) &&
      verifyGroth16Pairing piA piB piC (computePublicInputAccumulator C proof.publicInputs)

def estimateGas : ProofType → UInt64
  | .stark => 300000
  | .snark => 200000
  | .plonk => 250000
  | .groth16 => 150000

/-- The check of the proof's own kind. -/
def verifyKind (C : Crypto) (proof : Proof) : Bool :=
  match proof.proofType with
  | .stark => verifyStark proof
  | .snark => verifySnark proof
  | .plonk => verifyPlonk proof
  | .groth16 => verifyGroth16 C proof

/-- The result, kept under the proof's hash and counted. -/
def record (s : ZkVerifier) (proof : Proof) (valid : Bool) (verifier : Address)
    (elapsed now : UInt64) : ZkVerifier × VerificationResult :=
  let gasUsed := estimateGas proof.proofType
  let result : VerificationResult :=
    { proofHash := proof.proofHash
      valid
      verifiedAt := now
      gasUsed
      verifier
      error := if valid then none else some "Proof verification failed" }
  ({ results := s.results.insert proof.proofHash result
     stats :=
      { totalVerifications := s.stats.totalVerifications + 1
        validProofs := if valid then s.stats.validProofs + 1 else s.stats.validProofs
        invalidProofs := if valid then s.stats.invalidProofs else s.stats.invalidProofs + 1
        totalGasUsed := s.stats.totalGasUsed + gasUsed
        totalVerificationTimeMs := s.stats.totalVerificationTimeMs + elapsed } }, result)

def verify (C : Crypto) (config : VerifierConfig) (s : ZkVerifier) (proof : Proof)
    (verifier : Address) (elapsed now : UInt64) :
    ZkVerifier × Except VerifierError VerificationResult :=
  if !config.supportedTypes.contains proof.proofType then
    (s, .error (.unsupportedProofType proof.proofType))
  else if !proof.verifySize then (s, .error .invalidProofSize)
  else
    let recorded := s.record proof (verifyKind C proof) verifier elapsed now
    (recorded.1, .ok recorded.2)

def getResult (s : ZkVerifier) (proofHash : H256) : Option VerificationResult :=
  s.results.lookup proofHash

end ZkVerifier

/-! ## Results -/

variable {C : Crypto} {config : ProverConfig} {address : Address} {s : ZkProver}

theorem run_snoc (C : Crypto) (config : ProverConfig) (address : Address)
    (calls : List ProverCall) (call : ProverCall) : run C config address (calls ++ [call]) =
      ((call.step C config address (run C config address calls).1).1,
        (run C config address calls).2 ++
          (call.step C config address (run C config address calls).1).2) := by
  rw [run, List.foldl_append]
  rfl

/-! ### Requests in turn -/

/-- The ids given out, in order. -/
def submittedIds (told : List Told) : List H256 :=
  told.filterMap fun
    | .submitted id _ _ => some id
    | _ => none

/-- The ids taken up, in order. -/
def takenIds (told : List Told) : List H256 :=
  told.filterMap fun
    | .taken id => some id
    | _ => none

/-- The ids reported late, in order. -/
def timedOutIds (told : List Told) : List H256 :=
  told.filterMap fun
    | .timedOut id => some id
    | _ => none

theorem takenIds_append (a b : List Told) : takenIds (a ++ b) = takenIds a ++ takenIds b :=
  List.filterMap_append

theorem submittedIds_append (a b : List Told) :
    submittedIds (a ++ b) = submittedIds a ++ submittedIds b :=
  List.filterMap_append

theorem timedOutIds_append (a b : List Told) :
    timedOutIds (a ++ b) = timedOutIds a ++ timedOutIds b :=
  List.filterMap_append

/-- A batch of late reports names nobody taken up or submitted. -/
theorem ids_timedOut (ids : List H256) : takenIds (ids.map Told.timedOut) = [] ∧
    submittedIds (ids.map Told.timedOut) = [] ∧ timedOutIds (ids.map Told.timedOut) = ids := by
  induction ids with
  | nil => exact ⟨rfl, rfl, rfl⟩
  | cons id ids ih => exact ⟨ih.1, ih.2.1, congrArg (id :: ·) ih.2.2⟩

theorem generateProof_queue (requestId : H256) (t : ZkProver.Readings) :
    (s.generateProof C config address requestId t).1.queue = s.queue := by
  rw [ZkProver.generateProof]
  split
  · rfl
  · split <;> rfl

/-- Requests are taken up in the order in which they were submitted, none twice and none passed
over: what was taken up and what waits are together what was submitted. -/
theorem taken_in_order (C : Crypto) (config : ProverConfig) (address : Address)
    (calls : List ProverCall) :
    takenIds (run C config address calls).2 ++
        (run C config address calls).1.queue.map ProofRequest.id
      = submittedIds (run C config address calls).2 := by
  induction calls using List.reverseRecOn with
  | nil => rfl
  | append_singleton calls call ih =>
    rw [run_snoc]
    generalize run C config address calls = before at ih ⊢
    obtain ⟨s, told⟩ := before
    dsimp only at ih ⊢
    rw [takenIds_append, submittedIds_append, ← ih]
    cases call with
    | initializeCircuit =>
      simp [ProverCall.step, ZkProver.initializeCircuit, takenIds, submittedIds]
    | submit batchHash transition now createdAt =>
      simp [ProverCall.step, ZkProver.submitRequest, takenIds, submittedIds]
    | processNext proverId now =>
      rw [ProverCall.step, ZkProver.processNext]
      cases hqueue : s.queue with
      | nil => simp [hqueue, takenIds, submittedIds]
      | cons request queue => simp [takenIds, submittedIds]
    | generate requestId t =>
      simp [ProverCall.step, generateProof_queue, takenIds, submittedIds]
    | checkTimeouts order clock =>
      have hids := ids_timedOut (s.checkTimeouts config order clock).2
      rw [ProverCall.step, hids.1, hids.2.1, List.append_nil, List.append_nil]
      rfl

/-! ### Timeouts -/

/-- A request under that id is being proved. -/
def ZkProver.isProving (s : ZkProver) (id : H256) : Bool :=
  (s.active.lookup id).any fun r => r.status = .proving

theorem ProofRequest.checkTimeout_some {r r' : ProofRequest} {timeoutSecs now completedAt : UInt64}
    (h : r.checkTimeout timeoutSecs now completedAt = some r') :
    r.status = .proving ∧ r'.status = .timedOut := by
  rw [checkTimeout] at h
  split_ifs at h with hstatus
  split at h
  · split_ifs at h
    rw [← Option.some.inj h]
    exact ⟨Decidable.not_not.mp hstatus, rfl⟩
  · cases h

/-- A round of `check_timeouts` reports each request once, which was being proved and is not any
more; the others stay as they were. -/
theorem checkTimeouts_spec (config : ProverConfig) (s : ZkProver)
    (order : Column.KeyOrder H256 ProofRequest) (clock : H256 → UInt64 × UInt64) :
    (s.checkTimeouts config order clock).2.Nodup ∧ ∀ id,
      (id ∈ (s.checkTimeouts config order clock).2 → s.isProving id = true ∧
        (s.checkTimeouts config order clock).1.isProving id = false) ∧
      (id ∉ (s.checkTimeouts config order clock).2 →
        (s.checkTimeouts config order clock).1.isProving id = s.isProving id) := by
  have hlookup : ∀ id, (s.checkTimeouts config order clock).1.active.lookup id
      = (s.active.lookup id).map fun r =>
        (r.checkTimeout config.timeoutSecs (clock id).1 (clock id).2).getD r :=
    fun id => Column.lookup_mapValues _ _ _
  have hmem : ∀ id, id ∈ (s.checkTimeouts config order clock).2 ↔ ∃ r, s.active.lookup id = some r ∧
      (r.checkTimeout config.timeoutSecs (clock id).1 (clock id).2).isSome = true := by
    intro id
    rw [ZkProver.checkTimeouts, List.mem_filterMap]
    constructor
    · rintro ⟨⟨id', r⟩, he, hid⟩
      obtain ⟨r', hr', rfl⟩ := Option.map_eq_some_iff.mp hid
      dsimp only at hr' ⊢
      exact ⟨r, Column.KeyOrder.mem_entries.mp he, by rw [hr']; rfl⟩
    · rintro ⟨r, hr, hsome⟩
      obtain ⟨r', hr'⟩ := Option.isSome_iff_exists.mp hsome
      exact ⟨(id, r), Column.KeyOrder.mem_entries.mpr hr, by dsimp only; rw [hr']; rfl⟩
  refine ⟨?_, fun id => ⟨fun h => ?_, fun h => ?_⟩⟩
  · have hkeys : ((order.entries s.active).map Prod.fst).Nodup := by
      rw [Column.KeyOrder.map_fst_entries]
      exact order.nodup _
    refine hkeys.sublist ?_
    rw [ZkProver.checkTimeouts]
    dsimp only
    generalize order.entries s.active = entries
    induction entries with
    | nil => exact List.Sublist.refl _
    | cons e entries ih =>
      rw [List.filterMap_cons, List.map_cons]
      cases e.2.checkTimeout config.timeoutSecs (clock e.1).1 (clock e.1).2 with
      | none => exact ih.cons _
      | some _ => exact ih.cons_cons _
  · obtain ⟨r, hr, hsome⟩ := (hmem id).mp h
    obtain ⟨r', hr'⟩ := Option.isSome_iff_exists.mp hsome
    obtain ⟨hbefore, hafter⟩ := ProofRequest.checkTimeout_some hr'
    rw [ZkProver.isProving, ZkProver.isProving, hlookup, hr, Option.map_some, hr']
    exact ⟨decide_eq_true hbefore, decide_eq_false (by simp [hafter])⟩
  · rw [ZkProver.isProving, ZkProver.isProving, hlookup]
    cases hr : s.active.lookup id with
    | none => rfl
    | some r =>
      have hnone : r.checkTimeout config.timeoutSecs (clock id).1 (clock id).2 = none := by
        rw [← Option.not_isSome_iff_eq_none]
        exact fun hsome => h ((hmem id).mpr ⟨r, hr, hsome⟩)
      rw [Option.map_some, hnone]
      rfl

/-- A request taken up is the only one whose state changes. -/
theorem processNext_spec (s : ZkProver) (proverId : UInt32) (now : UInt64) :
    s.processNext proverId now = (s, none) ∨ ∃ (request : ProofRequest) (s' : ZkProver),
      s.processNext proverId now = (s', some request.id) ∧
      ∀ id ≠ request.id, s'.isProving id = s.isProving id := by
  rw [ZkProver.processNext]
  cases s.queue with
  | nil => exact .inl rfl
  | cons request queue =>
    refine .inr ⟨request, _, rfl, fun id hid => ?_⟩
    rw [ZkProver.isProving, ZkProver.isProving, Finmap.lookup_insert_of_ne _ hid]

theorem isProving_generateProof (requestId id : H256) (t : ZkProver.Readings) :
    (s.generateProof C config address requestId t).1.isProving id = true →
      s.isProving id = true := by
  rw [ZkProver.generateProof]
  split
  · exact fun h => h
  · split
    · exact fun h => h
    · by_cases hid : id = requestId
      · rw [ZkProver.isProving, hid, Finmap.lookup_insert]
        exact fun h => nomatch h
      · rw [ZkProver.isProving, ZkProver.isProving, Finmap.lookup_insert_of_ne _ hid]
        exact fun h => h

/-- What was proved is not being proved any more. -/
theorem isProving_of_generated {requestId : H256} {t : ZkProver.Readings} {proof : Proof}
    (h : (s.generateProof C config address requestId t).2 = .ok proof) :
    (s.generateProof C config address requestId t).1.isProving requestId = false := by
  rw [ZkProver.generateProof] at h ⊢
  cases hr : s.active.lookup requestId with
  | none =>
    rw [hr] at h
    cases h
  | some request =>
    rw [hr] at h
    cases hparams : s.circuitParams with
    | none =>
      rw [hparams] at h
      cases h
    | some params =>
      rw [ZkProver.isProving, Finmap.lookup_insert]
      rfl

/-- **One call.** What it reports late, and what it leaves being proved, was being proved before
or is taken up by it. -/
theorem late_step (C : Crypto) (config : ProverConfig) (address : Address) (s : ZkProver)
    (call : ProverCall) (id : H256) :
    (timedOutIds (call.step C config address s).2).count id
        + (if (call.step C config address s).1.isProving id then 1 else 0)
      ≤ (takenIds (call.step C config address s).2).count id
        + (if s.isProving id then 1 else 0) := by
  cases call with
  | initializeCircuit => exact Nat.le_refl _
  | submit batchHash transition now createdAt => exact Nat.le_refl _
  | processNext proverId now =>
    rw [ProverCall.step]
    rcases processNext_spec s proverId now with h | ⟨request, s', h, hother⟩
    · rw [h]
      exact Nat.le_refl _
    · rw [h]
      have hlate : (timedOutIds [Told.taken request.id]).count id = 0 := rfl
      by_cases hid : id = request.id
      · have htaken : (takenIds [Told.taken request.id]).count id = 1 := by
          rw [hid]
          exact List.count_singleton_self
        dsimp only [Option.map_some, Option.toList_some]
        split <;> omega
      · dsimp only [Option.map_some, Option.toList_some]
        rw [hother id hid]
        omega
  | generate requestId t =>
    rw [ProverCall.step]
    refine Nat.add_le_add_left ?_ _
    split
    · next hproving => rw [if_pos (isProving_generateProof requestId id t hproving)]
    · exact Nat.zero_le _
  | checkTimeouts order clock =>
    obtain ⟨hnodup, hspec⟩ := checkTimeouts_spec config s order clock
    have hids := ids_timedOut (s.checkTimeouts config order clock).2
    rw [ProverCall.step, hids.1, hids.2.2, List.count_nil]
    dsimp only
    by_cases hid : id ∈ (s.checkTimeouts config order clock).2
    · obtain ⟨hbefore, hafter⟩ := (hspec id).1 hid
      rw [hbefore, hafter, List.count_eq_one_of_mem hnodup hid]
      exact Nat.le_refl _
    · rw [(hspec id).2 hid, List.count_eq_zero_of_not_mem hid]

/-- **A run.** The same of all calls from some moment on. -/
theorem late_run (C : Crypto) (config : ProverConfig) (address : Address)
    (before after : List ProverCall) (id : H256) :
    let p := run C config address before
    let q := run C config address (before ++ after)
    (timedOutIds q.2).count id + (takenIds p.2).count id + (if q.1.isProving id then 1 else 0)
      ≤ (timedOutIds p.2).count id + (takenIds q.2).count id
        + (if p.1.isProving id then 1 else 0) := by
  intro p
  induction after using List.reverseRecOn with
  | nil => rw [List.append_nil]
  | append_singleton after call ih =>
    have hstep := late_step C config address (run C config address (before ++ after)).1 call id
    rw [← List.append_assoc, run_snoc]
    dsimp only at ih ⊢
    rw [timedOutIds_append, takenIds_append, List.count_append, List.count_append]
    omega

/-- A request is reported late at most as often as it was taken up, and while it is being proved
once less. After its proof was made it is reported no more often than it is taken up anew. -/
theorem timed_out_once (C : Crypto) (config : ProverConfig) (address : Address)
    (before after : List ProverCall) (id : H256) :
    (timedOutIds (run C config address before).2).count id
        + (if (run C config address before).1.isProving id then 1 else 0)
      ≤ (takenIds (run C config address before).2).count id ∧
    ∀ t proof, ((run C config address before).1.generateProof C config address id t).2 = .ok proof →
      let p := run C config address (before ++ [.generate id t])
      let q := run C config address (before ++ [.generate id t] ++ after)
      (timedOutIds q.2).count id - (timedOutIds p.2).count id
        ≤ (takenIds q.2).count id - (takenIds p.2).count id := by
  refine ⟨?_, fun t proof hproof => ?_⟩
  · have hrun := late_run C config address [] before id
    change _ + 0 + _ ≤ 0 + _ + 0 at hrun
    rw [List.nil_append] at hrun
    omega
  · have hrun := late_run C config address (before ++ [.generate id t]) after id
    have hdone : (run C config address (before ++ [.generate id t])).1.isProving id = false := by
      rw [run_snoc]
      exact isProving_of_generated hproof
    dsimp only at hrun ⊢
    rw [hdone] at hrun
    simp only [Bool.false_eq_true, if_false] at hrun
    omega

/-! ### What is kept -/

/-- The request is one that was submitted. -/
def ProofRequest.Submitted (told : List Told) (r : ProofRequest) : Prop :=
  Told.submitted r.id r.batchHash r.transition ∈ told

/-- What holds between the prover and what it told. -/
structure Sound (C : Crypto) (config : ProverConfig) (address : Address) (s : ZkProver)
    (told : List Told) : Prop where
  params : ∀ params ∈ s.circuitParams, params = CircuitParams.generate config.proofType
  waiting : ∀ r ∈ s.queue, r.Submitted told
  active : ∀ id, ∀ r ∈ s.active.lookup id, r.Submitted told
  kept : ∀ batchHash, ∀ p ∈ s.proofs.lookup batchHash, ∃ r t, r.Submitted told ∧
    r.batchHash = batchHash ∧
    p = ZkProver.prove C config address r (CircuitParams.generate config.proofType) t

theorem ProofRequest.Submitted.append {told : List Told} {r : ProofRequest}
    (h : r.Submitted told) (more : List Told) : r.Submitted (told ++ more) :=
  List.mem_append_left more h

theorem Sound.append {told : List Told} (h : Sound C config address s told) (more : List Told) :
    Sound C config address s (told ++ more) where
  params := h.params
  waiting := fun r hr => (h.waiting r hr).append more
  active := fun id r hr => (h.active id r hr).append more
  kept := fun batchHash p hp => by
    obtain ⟨r, t, hr, hbatch, hproof⟩ := h.kept batchHash p hp
    exact ⟨r, t, hr.append more, hbatch, hproof⟩

/-- Entering a request that was submitted. -/
theorem Sound.enter {told : List Told} (h : Sound C config address s told) {r : ProofRequest}
    (hr : r.Submitted told) (key id : H256) :
    ∀ r' ∈ (s.active.insert key r).lookup id, r'.Submitted told := by
  intro r' hr'
  by_cases hid : id = key
  · rw [hid, Finmap.lookup_insert] at hr'
    rw [← Option.some.inj hr']
    exact hr
  · rw [Finmap.lookup_insert_of_ne _ hid] at hr'
    exact h.active id r' hr'

theorem ProofRequest.checkTimeout_submitted {told : List Told} {r : ProofRequest}
    (h : r.Submitted told) (timeoutSecs now completedAt : UInt64) :
    ((r.checkTimeout timeoutSecs now completedAt).getD r).Submitted told := by
  rw [checkTimeout]
  split_ifs
  · exact h
  · split
    · split_ifs <;> exact h
    · exact h

theorem Sound.generateProof {told : List Told} (h : Sound C config address s told)
    (requestId : H256) (t : ZkProver.Readings) :
    Sound C config address (s.generateProof C config address requestId t).1 told := by
  rw [ZkProver.generateProof]
  cases hr : s.active.lookup requestId with
  | none => exact h
  | some r =>
    cases hparams : s.circuitParams with
    | none => exact h
    | some params =>
      have hsubmitted := h.active requestId r hr
      refine ⟨fun q hq => h.params q (hparams ▸ hq), h.waiting,
        fun id => h.enter (r := r.complete _ _) hsubmitted requestId id, fun batchHash p hp => ?_⟩
      by_cases hbatch : batchHash = r.batchHash
      · dsimp only at hp
        rw [hbatch, Finmap.lookup_insert] at hp
        rw [← Option.some.inj hp, h.params params hparams]
        exact ⟨r, t, hsubmitted, hbatch.symm, rfl⟩
      · dsimp only at hp
        rw [Finmap.lookup_insert_of_ne _ hbatch] at hp
        exact h.kept batchHash p hp

theorem sound_run (C : Crypto) (config : ProverConfig) (address : Address)
    (calls : List ProverCall) :
    Sound C config address (run C config address calls).1 (run C config address calls).2 := by
  induction calls using List.reverseRecOn with
  | nil =>
    refine ⟨fun _ h => ?_, fun _ h => ?_, fun _ _ h => ?_, fun _ _ h => ?_⟩ <;> cases h
  | append_singleton calls call ih =>
    rw [run_snoc]
    generalize run C config address calls = before at ih ⊢
    obtain ⟨s, told⟩ := before
    dsimp only at ih ⊢
    have hs := ih.append (call.step C config address s).2
    cases call with
    | initializeCircuit =>
      exact { hs with params := fun q hq => (Option.some.inj hq).symm }
    | submit batchHash transition now createdAt =>
      refine { hs with waiting := fun r hr => ?_ }
      rcases List.mem_append.mp hr with hr | hr
      · exact hs.waiting r hr
      · rw [List.mem_singleton.mp hr]
        exact List.mem_append_right _ (List.mem_singleton.mpr rfl)
    | processNext proverId now =>
      rw [ProverCall.step, ZkProver.processNext] at hs ⊢
      cases hqueue : s.queue with
      | nil =>
        rw [hqueue] at hs
        exact hs
      | cons request queue =>
        rw [hqueue] at hs
        have hrequest : request.Submitted _ := hs.waiting request (hqueue ▸ List.mem_cons_self)
        exact { hs with
          waiting := fun r hr => hs.waiting r (hqueue ▸ List.mem_cons_of_mem _ hr)
          active := fun id => hs.enter (r := request.start proverId now) hrequest request.id id }
    | generate requestId t => exact hs.generateProof requestId t
    | checkTimeouts order clock =>
      refine { hs with active := fun id r hr => ?_ }
      have hlookup := Column.lookup_mapValues
        (fun id (r : ProofRequest) => (r.checkTimeout config.timeoutSecs (clock id).1
          (clock id).2).getD r) s.active id
      obtain ⟨r₀, hr₀, rfl⟩ := Option.map_eq_some_iff.mp (hlookup.symm.trans hr)
      exact ProofRequest.checkTimeout_submitted (hs.active id r₀ hr₀) _ _ _

theorem length_zeros (n : Nat) : (zeros n).length = n := List.length_replicate

/-- The lengths of the placeholders. -/
theorem length_proofData (C : Crypto) (config : ProverConfig) (r : ProofRequest) :
    (proofData C config r (CircuitParams.generate config.proofType)).length =
      match config.proofType with
      | .stark => 1952
      | .snark => 256
      | .plonk => 288
      | .groth16 => 256 := by
  rw [proofData]
  cases config.proofType with
  | stark =>
    simp only [generateStarkProof, commitPolynomials, generateFriProof, generateQueries,
      CircuitParams.generate, List.length_append, H256.asBytes_length, length_zeros]
  | snark => simp only [generateSnarkProof, List.length_append, length_zeros]
  | plonk =>
    have hwires (poly : List UInt8) : ((List.replicate 3 poly).flatMap kzgCommit).length = 144 := by
      simp only [List.length_flatMap, List.map_replicate, List.sum_replicate, kzgCommit,
        length_zeros]
      rfl
    simp only [generatePlonkProof, generateWirePolynomials, List.length_append, hwires,
      length_zeros]
  | groth16 => simp only [generateGroth16Proof, List.length_append, length_zeros]

/-- A verifier of the kind takes what the prover makes, whatever the transition says. -/
theorem verify_prove {verifierConfig : VerifierConfig}
    (hsupported : config.proofType ∈ verifierConfig.supportedTypes) (v : ZkVerifier)
    (r : ProofRequest) (t : ZkProver.Readings) (verifier : Address) (elapsed now : UInt64)
    (p : Proof) (hp : p = ZkProver.prove C config address r
      (CircuitParams.generate config.proofType) t) :
    ∃ v' result, v.verify C verifierConfig p verifier elapsed now = (v', .ok result) ∧
      result.valid = true ∧ result.proofHash = p.proofHash ∧
      v'.getResult p.proofHash = some result := by
  have htype : p.proofType = config.proofType := by rw [hp]; rfl
  have hinputs : p.publicInputs =
      [p.preStateRoot, p.postStateRoot, r.transition.transitionHash] := by
    rw [hp]; rfl
  have hlength : p.data.length = _ :=
    (congrArg (·.data.length) hp).trans (length_proofData C config r)
  have hsize : p.verifySize = true := by
    rw [Proof.verifySize, hlength, htype]
    cases config.proofType <;> rfl
  have hvalid : ZkVerifier.verifyKind C p = true := by
    rw [ZkVerifier.verifyKind, htype]
    cases htype' : config.proofType with
    | stark =>
      rw [htype'] at hlength
      simp [ZkVerifier.verifyStark, hlength, hinputs, ZkVerifier.verifyFriProof]
    | snark =>
      rw [htype'] at hlength
      simp [ZkVerifier.verifySnark, hlength, ZkVerifier.verifyPairing]
    | plonk =>
      rw [htype'] at hlength
      simp [ZkVerifier.verifyPlonk, hlength, ZkVerifier.verifyCommitments,
        ZkVerifier.verifyPermutationArgument, ZkVerifier.verifyOpening]
    | groth16 =>
      rw [htype'] at hlength
      simp [ZkVerifier.verifyGroth16, hlength, ZkVerifier.isValidG1Point,
        ZkVerifier.isValidG2Point, ZkVerifier.verifyGroth16Pairing]
  rw [ZkVerifier.verify, if_neg (by simp [htype, hsupported]), hsize, hvalid]
  exact ⟨_, _, rfl, rfl, rfl, Finmap.lookup_insert _⟩

/-- Whatever is kept for a batch carries its own hash and speaks of a transition that was
submitted for that batch, and every verifier of its kind accepts it and remembers so: no proof
is kept for another batch than its own, however the calls came. -/
theorem kept_accepted (C : Crypto) (config : ProverConfig) (address : Address)
    (calls : List ProverCall) (batchHash : H256) (p : Proof)
    (h : (run C config address calls).1.getProof batchHash = some p) :
    p.batchHash = batchHash ∧ p.prover = address ∧ p.proofHash = p.computeHash C ∧
    (∃ id transition,
      Told.submitted id batchHash transition ∈ (run C config address calls).2 ∧
      p.preStateRoot = transition.preStateRoot ∧ p.postStateRoot = transition.postStateRoot ∧
      p.publicInputs =
        [transition.preStateRoot, transition.postStateRoot, transition.transitionHash]) ∧
    ∀ (verifierConfig : VerifierConfig) (v : ZkVerifier) (verifier : Address)
      (elapsed now : UInt64), config.proofType ∈ verifierConfig.supportedTypes →
      ∃ v' result, v.verify C verifierConfig p verifier elapsed now = (v', .ok result) ∧
        result.valid = true ∧ result.proofHash = p.proofHash ∧
        v'.getResult p.proofHash = some result := by
  obtain ⟨r, t, hr, rfl, hp⟩ := (sound_run C config address calls).kept batchHash p h
  refine ⟨by rw [hp]; rfl, by rw [hp]; rfl, by rw [hp]; rfl, ⟨r.id, r.transition, hr, ?_⟩, ?_⟩
  · rw [hp]
    exact ⟨rfl, rfl, rfl⟩
  · intro verifierConfig v verifier elapsed now hsupported
    exact verify_prove hsupported v r t verifier elapsed now p hp

/-- A transition of an empty batch. -/
def sampleTransition : StateTransition := ⟨H256.zero, H256.ofNatBE 1, [], H256.ofNatBE 2⟩

def sampleId : H256 :=
  H256.ofNatBE 0x544ce417b026c17f224c7536deb3c020f57b23956d351f2671c282d5be20159f

/-- Of the batch `1`. -/
def otherId : H256 :=
  H256.ofNatBE 0x8f4b6a0fe99778c1bf52439af16bab83aeb39011aee14e1d230ca9e2b1ba11b0

def sampleProof : Proof where
  proofType := .groth16
  data := zeros 256
  publicInputs := [H256.zero, H256.ofNatBE 1, H256.ofNatBE 2]
  batchHash := H256.zero
  preStateRoot := H256.zero
  postStateRoot := H256.ofNatBE 1
  prover := .ZERO
  generatedAt := 103
  generationTimeMs := 7
  proofHash := H256.ofNatBE 0x60f2c77bc9162c3bf9562717dc76447f642168335cc462e7c2ce2f82c7de5cc4

/-- The digests of two requests and of the proof of the first. -/
def proofCrypto : Crypto := Crypto.ofTable
  [(H256.zero.asBytes ++ Wire.encU64 100, sampleId),
    ((H256.ofNatBE 1).asBytes ++ Wire.encU64 100, otherId),
    ([3] ++ zeros 256 ++ H256.zero.asBytes ++ (H256.ofNatBE 1).asBytes ++
      (H256.ofNatBE 2).asBytes ++ H256.zero.asBytes ++ H256.zero.asBytes ++
      (H256.ofNatBE 1).asBytes, sampleProof.proofHash)]

theorem kept_accepted_sample :
    sampleProof.proofHash = sampleProof.computeHash proofCrypto ∧
    ∃ v' result, ZkVerifier.verify proofCrypto ⟨[.plonk, .groth16, .stark]⟩ ⟨∅, ⟨0, 0, 0, 0, 0⟩⟩
        sampleProof .ZERO 1 104 = (v', .ok result) ∧
      result.valid = true ∧ result.proofHash = sampleProof.proofHash ∧
      v'.getResult sampleProof.proofHash = some result := by
  obtain ⟨_, _, hhash, _, haccepted⟩ := kept_accepted proofCrypto ⟨.groth16, 3600⟩ .ZERO
    [.initializeCircuit, .submit H256.zero sampleTransition 100 100, .processNext 0 101,
      .generate sampleId ⟨7, 103, 103⟩] H256.zero sampleProof (by decide +kernel)
  exact ⟨hhash, haccepted _ _ _ _ _ (by decide)⟩

/-- Two requests are taken up, one is proved, and an hour later the other is reported. -/
theorem timed_out_once_sample :
    let proved : List ProverCall := [.initializeCircuit, .submit H256.zero sampleTransition 100 100,
      .submit (H256.ofNatBE 1) sampleTransition 100 100, .processNext 0 101, .processNext 1 101] ++
        [.generate sampleId ⟨7, 103, 103⟩]
    let late : List ProverCall :=
      [.checkTimeouts (.ofList [otherId, sampleId]) fun _ => (3702, 3702)]
    timedOutIds (run proofCrypto ⟨.groth16, 3600⟩ .ZERO (proved ++ late)).2 = [otherId] ∧
    (timedOutIds (run proofCrypto ⟨.groth16, 3600⟩ .ZERO (proved ++ late)).2).count sampleId
        - (timedOutIds (run proofCrypto ⟨.groth16, 3600⟩ .ZERO proved).2).count sampleId
      ≤ (takenIds (run proofCrypto ⟨.groth16, 3600⟩ .ZERO (proved ++ late)).2).count sampleId
        - (takenIds (run proofCrypto ⟨.groth16, 3600⟩ .ZERO proved).2).count sampleId := by
  intro proved late
  refine ⟨by decide +kernel, ?_⟩
  exact (timed_out_once proofCrypto ⟨.groth16, 3600⟩ .ZERO _ late sampleId).2 ⟨7, 103, 103⟩ _ rfl

end Pyrax.Proving
