import Mathlib.Data.List.Sort
import Pyrax.Base.Records
import Pyrax.Base.Word
import Pyrax.Types.Primitives

/-!
# The staking service

`pyrax-node/src/services/staking.rs`: validators with their stakes, the active
set, and checkpoints that active validators attest to. Membership is stored twice,
as `is_active` of each validator and as the list `active_set`. `update_active_set`
computes both from the effective stakes; the rotation task clears `is_active`
alone.

A call is taken at one time, `now`, and a walk over the hash map of validators
follows an order the call is given. What the ZK verifier says of a proof is given
with the call too, whatever the verifier is; the proof itself, which a checkpoint
only carries along, is left out, and so are events, logs and the RPC fields of the
configuration. Sums are in `u64` and wrap where the source uses the plain
operators.
-/

namespace Pyrax

open Base Word

namespace StakingService

def MIN_VALIDATOR_STAKE : UInt64 := 10000 * 100000000
def MAX_VALIDATORS : Nat := 100
def UNBONDING_PERIOD : UInt64 := 7 * 24 * 60 * 60
def SLASH_PERCENT : UInt64 := 10
def CHECKPOINT_REWARD : UInt64 := 10 * 100000000

structure StakingConfig where
  minStake : UInt64
  maxValidators : Nat
  deriving DecidableEq

/-- `Default`. -/
def StakingConfig.default : StakingConfig := ⟨MIN_VALIDATOR_STAKE, MAX_VALIDATORS⟩

structure Validator where
  address : Address
  stake : UInt64
  commissionBps : UInt16
  totalRewards : UInt64
  totalSlashed : UInt64
  checkpointsValidated : UInt64
  invalidProofs : UInt64
  registeredAt : UInt64
  lastActiveAt : UInt64
  isActive : Bool
  unbondingAt : UInt64
  unbondingAmount : UInt64
  deriving DecidableEq

namespace Validator

def new (now : UInt64) (address : Address) (stake : UInt64) : Validator where
  address := address
  stake := stake
  commissionBps := 500
  totalRewards := 0
  totalSlashed := 0
  checkpointsValidated := 0
  invalidProofs := 0
  registeredAt := now
  lastActiveAt := now
  isActive := false
  unbondingAt := 0
  unbondingAmount := 0

def effectiveStake (v : Validator) : UInt64 := saturatingSub v.stake v.unbondingAmount

/-- `slash`, with the amount. -/
def slash (v : Validator) (percent : UInt64) : Validator × UInt64 :=
  let slashAmount := v.effectiveStake * percent / 100
  ({ v with
      stake := saturatingSub v.stake slashAmount
      totalSlashed := v.totalSlashed + slashAmount }, slashAmount)

def addReward (v : Validator) (now amount : UInt64) : Validator :=
  { v with totalRewards := v.totalRewards + amount, lastActiveAt := now }

/-- One more checkpoint validated, and its reward. -/
def credit (v : Validator) (now : UInt64) : Validator :=
  { v with checkpointsValidated := v.checkpointsValidated + 1 }.addReward now CHECKPOINT_REWARD

def startUnbonding (v : Validator) (now amount : UInt64) : Except String Validator :=
  if v.effectiveStake < amount then .error "Insufficient stake"
  else if 0 < v.unbondingAt then .error "Already unbonding"
  else .ok { v with unbondingAt := now, unbondingAmount := amount }

/-- `complete_unbonding`, with the amount withdrawn. -/
def completeUnbonding (v : Validator) (now : UInt64) : Except String (Validator × UInt64) :=
  if v.unbondingAt = 0 then .error "Not unbonding"
  else
    let elapsed := now - v.unbondingAt
    if elapsed < UNBONDING_PERIOD then
      .error ("Unbonding period not complete (" ++ toString (UNBONDING_PERIOD - elapsed) ++
        " seconds remaining)")
    else
      .ok ({ v with
          stake := saturatingSub v.stake v.unbondingAmount
          unbondingAt := 0
          unbondingAmount := 0 }, v.unbondingAmount)

-- the fields are named first, or `rfl` compares the two validators field by field
theorem credit_isActive (v : Validator) (now : UInt64) : (v.credit now).isActive = v.isActive := by
  obtain ⟨_, _, _, _, _, _, _, _, _, isActive, _, _⟩ := v
  show (credit _ now).isActive = isActive
  rfl

theorem credit_stake (v : Validator) (now : UInt64) : (v.credit now).stake = v.stake := by
  obtain ⟨_, stake, _, _, _, _, _, _, _, _, _, _⟩ := v
  show (credit _ now).stake = stake
  rfl

theorem credit_unbondingAmount (v : Validator) (now : UInt64) :
    (v.credit now).unbondingAmount = v.unbondingAmount := by
  obtain ⟨_, _, _, _, _, _, _, _, _, _, _, unbondingAmount⟩ := v
  show (credit _ now).unbondingAmount = unbondingAmount
  rfl

theorem credit_effectiveStake (v : Validator) (now : UInt64) :
    (v.credit now).effectiveStake = v.effectiveStake := by
  rw [effectiveStake, credit_stake, credit_unbondingAmount]
  rfl

/-- What is withdrawn was not effective any more. -/
theorem effectiveStake_completeUnbonding {v v' : Validator} {now amount : UInt64}
    (h : v.completeUnbonding now = .ok (v', amount)) :
    v'.effectiveStake = v.effectiveStake ∧ v'.isActive = v.isActive := by
  unfold completeUnbonding at h
  split at h
  · cases h
  simp only at h
  split at h
  · cases h
  cases h
  refine ⟨?_, rfl⟩
  show saturatingSub v.effectiveStake 0 = v.effectiveStake
  refine UInt64.toNat_inj.mp ?_
  rw [toNat_saturatingSub]
  rfl

end Validator

structure Attestation where
  validator : Address
  checkpointHash : H256
  signature : H256
  timestamp : UInt64
  deriving DecidableEq

/-- `Attestation::new`: the signature is a hash anyone can compute. -/
def Attestation.new (C : Crypto) (now : UInt64) (validator : Address) (checkpointHash : H256) :
    Attestation where
  validator := validator
  checkpointHash := checkpointHash
  signature := C.blake3 (validator.asBytes ++ checkpointHash.asBytes ++ Wire.encU64 now)
  timestamp := now

structure Checkpoint where
  id : UInt64
  streamAHeight : UInt64
  streamBHeight : UInt64
  stateRoot : H256
  utxoCommitment : H256
  validator : Address
  timestamp : UInt64
  finalized : Bool
  attestations : List Attestation
  deriving DecidableEq

namespace Checkpoint

def hash (C : Crypto) (c : Checkpoint) : H256 :=
  C.blake3 (Wire.encU64 c.id ++ Wire.encU64 c.streamAHeight ++ Wire.encU64 c.streamBHeight ++
    c.stateRoot.asBytes ++ c.utxoCommitment.asBytes ++ c.validator.asBytes)

/-- `total_validators * 2 / 3 + 1`. -/
def required (totalValidators : Nat) : Nat := totalValidators * 2 / 3 + 1

def hasQuorum (c : Checkpoint) (totalValidators : Nat) : Bool :=
  required totalValidators ≤ c.attestations.length

/-- Those who attested, in order. -/
def attestors (c : Checkpoint) : List Address := c.attestations.map Attestation.validator

/-- The checkpoint with one more attestation, final if that makes the quorum. -/
def attest (C : Crypto) (c : Checkpoint) (now : UInt64) (validator : Address)
    (activeValidators : Nat) : Checkpoint :=
  let attested := { c with
    attestations := c.attestations ++ [Attestation.new C now validator (c.hash C)] }
  { attested with finalized := attested.hasQuorum activeValidators || c.finalized }

end Checkpoint

end StakingService

open StakingService in
structure StakingService where
  config : StakingConfig
  validators : Column Address Validator
  activeSet : List Address
  checkpoints : List Checkpoint
  lastCheckpointId : UInt64

namespace StakingService

abbrev ValidatorOrder := Column.KeyOrder Address Validator

def new (config : StakingConfig) : StakingService := ⟨config, ∅, [], [], 0⟩

/-- The addresses `update_active_set` chooses: enough effective stake, the highest
first with `sort_by`'s stability, cut off at the maximal size. -/
def chooseActive (s : StakingService) (order : ValidatorOrder) : List Address :=
  let eligible := (order.entries s.validators).filter fun e =>
    s.config.minStake ≤ e.2.effectiveStake
  let sorted := eligible.insertionSort fun a b => b.2.effectiveStake ≤ a.2.effectiveStake
  (sorted.take s.config.maxValidators).map Prod.fst

/-- Both records of who is active, set to `chosen`. -/
def setActive (s : StakingService) (chosen : List Address) : StakingService :=
  { s with
    validators := s.validators.mapValues fun a v => { v with isActive := chosen.contains a }
    activeSet := chosen }

def updateActiveSet (s : StakingService) (order : ValidatorOrder) : StakingService :=
  s.setActive (s.chooseActive order)

/-- `register_validator`; `none` if it does not come back. At capacity it asks for the lowest
active stake, and so for the lock that it holds for writing. -/
def registerValidator (s : StakingService) (now : UInt64) (order : ValidatorOrder)
    (address : Address) (stake : UInt64) : Option (Except String StakingService) :=
  if stake < s.config.minStake then
    some (.error ("Insufficient stake: " ++ toString (s.config.minStake / 100000000) ++
      " PYRAX required, " ++ toString (stake / 100000000) ++ " provided"))
  else if address ∈ s.validators then some (.error "Validator already registered")
  else if s.config.maxValidators ≤ s.validators.keys.card then none
  else
    some (.ok
      ({ s with validators := s.validators.insert address (Validator.new now address stake) }
        |>.updateActiveSet order))

/-- `deposit_stake`, with the new stake. -/
def depositStake (s : StakingService) (order : ValidatorOrder) (address : Address)
    (amount : UInt64) : Except String (StakingService × UInt64) :=
  match s.validators.lookup address with
  | none => .error "Validator not found"
  | some v =>
    .ok ({ s with validators := s.validators.insert address { v with stake := v.stake + amount } }
      |>.updateActiveSet order, v.stake + amount)

def startUnbonding (s : StakingService) (now : UInt64) (order : ValidatorOrder)
    (address : Address) (amount : UInt64) : Except String StakingService :=
  match s.validators.lookup address with
  | none => .error "Validator not found"
  | some v =>
    match v.startUnbonding now amount with
    | .error e => .error e
    | .ok v' =>
      .ok ({ s with validators := s.validators.insert address v' } |>.updateActiveSet order)

/-- `complete_unbonding`: the active set is not looked at. -/
def completeUnbonding (s : StakingService) (now : UInt64) (address : Address) :
    Except String (StakingService × UInt64) :=
  match s.validators.lookup address with
  | none => .error "Validator not found"
  | some v =>
    match v.completeUnbonding now with
    | .error e => .error e
    | .ok (v', amount) => .ok ({ s with validators := s.validators.insert address v' }, amount)

/-- `slash_validator`. -/
def slashValidator (s : StakingService) (order : ValidatorOrder) (address : Address) :
    StakingService :=
  match s.validators.lookup address with
  | some v =>
    let slashed := { (v.slash SLASH_PERCENT).1 with invalidProofs := v.invalidProofs + 1 }
    { s with validators := s.validators.insert address slashed } |>.updateActiveSet order
  | none => s.updateActiveSet order

/-- What the verifier says: it fails, or it has a verdict. -/
inductive Verdict where
  | failed (error : String)
  | invalid
  | valid
  deriving DecidableEq

/-- The heights and roots a checkpoint is about. -/
structure CheckpointData where
  streamAHeight : UInt64
  streamBHeight : UInt64
  stateRoot : H256
  utxoCommitment : H256
  deriving DecidableEq

def newCheckpoint (now id : UInt64) (data : CheckpointData) (validator : Address) :
    Checkpoint where
  id := id
  streamAHeight := data.streamAHeight
  streamBHeight := data.streamBHeight
  stateRoot := data.stateRoot
  utxoCommitment := data.utxoCommitment
  validator := validator
  timestamp := now
  finalized := false
  attestations := []

/-- `submit_checkpoint`: the service afterwards, and the checkpoint's number or the
error. An invalid proof is an error that changes the service. -/
def submitCheckpoint (s : StakingService) (now : UInt64) (order : ValidatorOrder)
    (validator : Address) (data : CheckpointData) (verdict : Verdict) :
    StakingService × Except String UInt64 :=
  match s.validators.lookup validator with
  | none => (s, .error "Validator not found")
  | some v =>
    if v.isActive = false then (s, .error "Validator not in active set")
    else
      match verdict with
      | .failed e => (s, .error ("Proof verification error: " ++ e))
      | .invalid =>
        (s.slashValidator order validator, .error "Invalid ZK proof - validator slashed")
      | .valid =>
        let id := s.lastCheckpointId + 1
        ({ s with
            lastCheckpointId := id
            checkpoints := s.checkpoints ++ [newCheckpoint now id data validator]
            validators := s.validators.insert validator (v.credit now) }, .ok id)

/-- `attest_checkpoint`, on the first checkpoint with that number. -/
def attestCheckpoint (C : Crypto) (s : StakingService) (now : UInt64) (validator : Address)
    (checkpointId : UInt64) : Except String StakingService :=
  match s.validators.lookup validator with
  | none => .error "Validator not found"
  | some v =>
    if v.isActive = false then .error "Validator not in active set"
    else
      match s.checkpoints.find? fun c => c.id = checkpointId with
      | none => .error "Checkpoint not found"
      | some c =>
        if validator ∈ c.attestors then .error "Already attested"
        else
          .ok { s with checkpoints := s.checkpoints.replaceF fun c' =>
            if c'.id = checkpointId then some (c.attest C now validator s.activeSet.length)
            else none }

/-- Active, and not seen for more than an hour; the difference wraps. -/
def Validator.idle (v : Validator) (now : UInt64) : Bool :=
  v.isActive = true ∧ 3600 < now - v.lastActiveAt

/-- One pass of `start_validator_rotation`: `active_set` is not looked at. -/
def rotate (s : StakingService) (now : UInt64) : StakingService :=
  { s with validators := s.validators.mapValues fun _ v =>
      if v.idle now then { v with isActive := false } else v }

/-! ## Runs -/

/-- A call on the service, or one pass of the rotation. -/
inductive StakingOp where
  | register (now : UInt64) (order : ValidatorOrder) (address : Address) (stake : UInt64)
  | deposit (order : ValidatorOrder) (address : Address) (amount : UInt64)
  | startUnbonding (now : UInt64) (order : ValidatorOrder) (address : Address) (amount : UInt64)
  | completeUnbonding (now : UInt64) (address : Address)
  | submit (now : UInt64) (order : ValidatorOrder) (validator : Address) (data : CheckpointData)
      (verdict : Verdict)
  | attest (now : UInt64) (validator : Address) (checkpointId : UInt64)
  | rotate (now : UInt64)

namespace StakingOp

def apply (C : Crypto) (s : StakingService) : StakingOp → StakingService
  | register now order address stake =>
    match s.registerValidator now order address stake with
    | some (.ok s') => s'
    | some (.error _) => s
    -- nothing is written, and the lock comes back with a caller that gives up
    | none => s
  | deposit order address amount =>
    match s.depositStake order address amount with
    | .ok (s', _) => s'
    | .error _ => s
  | startUnbonding now order address amount =>
    match s.startUnbonding now order address amount with
    | .ok s' => s'
    | .error _ => s
  | completeUnbonding now address =>
    match s.completeUnbonding now address with
    | .ok (s', _) => s'
    | .error _ => s
  | submit now order validator data verdict =>
    (s.submitCheckpoint now order validator data verdict).1
  | attest now validator checkpointId =>
    match s.attestCheckpoint C now validator checkpointId with
    | .ok s' => s'
    | .error _ => s
  | rotate now => s.rotate now

def run (C : Crypto) (s : StakingService) (ops : List StakingOp) : StakingService :=
  ops.foldl (apply C) s

theorem run_snoc {C : Crypto} {s : StakingService} {ops : List StakingOp} {op : StakingOp} :
    run C s (ops ++ [op]) = apply C (run C s ops) op := by
  rw [run, List.foldl_append]
  rfl

end StakingOp

/-! ## Replacing the first match -/

section Replace

variable {α : Type} {p : α → Bool} {a b : α}

theorem find?_replaceF {l : List α} (h : l.find? p = some a) (hb : p b = true) :
    (l.replaceF fun x => if p x then some b else none).find? p = some b := by
  induction l with
  | nil => cases h
  | cons x l ih =>
    by_cases hx : p x = true
    · rw [List.replaceF, if_pos hx]
      exact List.find?_cons_of_pos hb
    · rw [List.find?_cons_of_neg hx] at h
      rw [List.replaceF, if_neg hx, List.find?_cons_of_neg hx]
      exact ih h

theorem mem_replaceF : ∀ {l : List α} {x : α},
    x ∈ l.replaceF (fun x => if p x then some b else none) → x ∈ l ∨ x = b
  | [], _, h => .inl h
  | y :: l, x, h => by
    by_cases hy : p y = true
    · rw [List.replaceF, if_pos hy] at h
      rcases List.mem_cons.mp h with rfl | h
      · exact .inr rfl
      · exact .inl (List.mem_cons_of_mem _ h)
    · rw [List.replaceF, if_neg hy] at h
      rcases List.mem_cons.mp h with rfl | h
      · exact .inl (List.mem_cons_self ..)
      · rcases mem_replaceF h with h | rfl
        · exact .inl (List.mem_cons_of_mem _ h)
        · exact .inr rfl

end Replace

/-! ## What a call does -/

section Calls

variable {C : Crypto} {s s' : StakingService} {order : ValidatorOrder} {a validator : Address}
  {v v' : Validator} {now checkpointId : UInt64} {c : Checkpoint}

theorem attest_ok (h : s.attestCheckpoint C now validator checkpointId = .ok s') :
    ∃ v c, s.validators.lookup validator = some v ∧ v.isActive = true ∧
      s.checkpoints.find? (fun c => c.id = checkpointId) = some c ∧ validator ∉ c.attestors ∧
      s'.activeSet = s.activeSet ∧ s'.validators = s.validators ∧ s'.config = s.config ∧
      s'.checkpoints = s.checkpoints.replaceF fun c' =>
        if decide (c'.id = checkpointId) then
          some (c.attest C now validator s.activeSet.length) else none := by
  unfold attestCheckpoint at h
  split at h
  · cases h
  next v hv =>
  split at h
  · cases h
  next hactive =>
  split at h
  · cases h
  next c hc =>
  split at h
  · cases h
  next hnew =>
  cases h
  refine ⟨v, c, hv, Bool.not_eq_false _ ▸ hactive, hc, hnew, rfl, rfl, rfl, ?_⟩
  simp only [decide_eq_true_eq]

theorem attestors_attest (c : Checkpoint) (now : UInt64) (validator : Address) (n : Nat) :
    (c.attest C now validator n).attestors = c.attestors ++ [validator] :=
  List.map_append

/-- What membership depends on: the flag and the effective stake. -/
def standing (s : StakingService) (a : Address) : Option (Bool × UInt64) :=
  (s.validators.lookup a).map fun v => (v.isActive, v.effectiveStake)

/-- One of these checkpoints, with the attestation of somebody new. -/
def Checkpoint.AttestedOnceMore (c : Checkpoint) (checkpoints : List Checkpoint) : Prop :=
  ∃ c₀ ∈ checkpoints, ∃ validator ∉ c₀.attestors, c.attestors = c₀.attestors ++ [validator]

/-- All a call can do, a rotation apart: choose the set anew and leave the
checkpoints, or leave the membership and add a checkpoint or an attestation. -/
inductive Effect (s s' : StakingService) : Prop where
  | chosen (t : StakingService) (order : ValidatorOrder) (h : s' = t.updateActiveSet order)
      (hconfig : t.config = s.config) (hcps : t.checkpoints = s.checkpoints)
  | kept (hconfig : s'.config = s.config) (hset : s'.activeSet = s.activeSet)
      (hstanding : ∀ a, s'.standing a = s.standing a)
      (hcps : ∀ c ∈ s'.checkpoints,
        c ∈ s.checkpoints ∨ c.attestors = [] ∨ c.AttestedOnceMore s.checkpoints)

theorem Effect.refl (s : StakingService) : Effect s s :=
  .kept rfl rfl (fun _ => rfl) fun _ h => .inl h

/-- Writing a validator back with the same flag and the same effective stake. -/
theorem standing_insert (hv : s.validators.lookup a = some v)
    (hvals : s'.validators = s.validators.insert a v') (hflag : v'.isActive = v.isActive)
    (hstake : v'.effectiveStake = v.effectiveStake) (b : Address) :
    s'.standing b = s.standing b := by
  rw [standing, standing, hvals]
  by_cases hb : b = a
  · rw [hb, Finmap.lookup_insert, hv]
    show some (v'.isActive, v'.effectiveStake) = some (v.isActive, v.effectiveStake)
    rw [hflag, hstake]
  · rw [Finmap.lookup_insert_of_ne _ hb]

theorem slashValidator_effect : Effect s (s.slashValidator order a) := by
  unfold slashValidator
  split
  · exact .chosen _ order rfl rfl rfl
  · exact .chosen s order rfl rfl rfl

theorem effect_apply (C : Crypto) (s : StakingService) {op : StakingOp}
    (hop : ∀ now, op ≠ .rotate now) : Effect s (op.apply C s) := by
  cases op with
  | register now order address stake =>
    rw [StakingOp.apply]
    split
    · next s' hok =>
      unfold registerValidator at hok
      split at hok
      · cases hok
      split at hok
      · cases hok
      split at hok
      · cases hok
      cases hok
      exact .chosen _ order rfl rfl rfl
    · exact .refl s
    · exact .refl s
  | deposit order address amount =>
    rw [StakingOp.apply]
    split
    · next s' stake hok =>
      unfold depositStake at hok
      split at hok
      · cases hok
      cases hok
      exact .chosen _ order rfl rfl rfl
    · exact .refl s
  | startUnbonding now order address amount =>
    rw [StakingOp.apply]
    split
    · next s' hok =>
      unfold startUnbonding at hok
      split at hok
      · cases hok
      split at hok
      · cases hok
      cases hok
      exact .chosen _ order rfl rfl rfl
    · exact .refl s
  | completeUnbonding now address =>
    rw [StakingOp.apply]
    split
    · next s' amount hok =>
      unfold completeUnbonding at hok
      split at hok
      · cases hok
      next v hv =>
      split at hok
      · cases hok
      next v' amount' hcomplete =>
      cases hok
      obtain ⟨hstake, hflag⟩ := Validator.effectiveStake_completeUnbonding hcomplete
      exact .kept rfl rfl (standing_insert hv rfl hflag hstake) fun _ h => .inl h
    · exact .refl s
  | submit now order validator data verdict =>
    rw [StakingOp.apply, submitCheckpoint]
    split
    · exact .refl s
    next v hv =>
    split
    · exact .refl s
    split
    · exact .refl s
    · exact slashValidator_effect
    · refine .kept rfl rfl
        (standing_insert hv rfl (v.credit_isActive now) (v.credit_effectiveStake now))
        fun c hc => ?_
      rcases List.mem_append.mp hc with hc | hc
      · exact .inl hc
      · rw [List.mem_singleton.mp hc]
        exact .inr (.inl rfl)
  | attest now validator checkpointId =>
    rw [StakingOp.apply]
    split
    · next s' hok =>
      obtain ⟨_, c₀, _, _, hc₀, hnew, hset, hvals, hconfig, hcps⟩ := attest_ok hok
      refine .kept hconfig hset (fun a => by rw [standing, standing, hvals]) fun c hc => ?_
      rw [hcps] at hc
      rcases mem_replaceF hc with hc | rfl
      · exact .inl hc
      · exact .inr (.inr ⟨c₀, List.mem_of_find?_eq_some hc₀, validator, hnew,
          attestors_attest c₀ now validator _⟩)
    · exact .refl s
  | rotate now => exact absurd rfl (hop now)

/-! ## Choosing the set -/

theorem mem_chooseActive (h : a ∈ s.chooseActive order) :
    ∃ v, s.validators.lookup a = some v ∧ s.config.minStake ≤ v.effectiveStake := by
  unfold chooseActive at h
  obtain ⟨⟨a', v⟩, hmem, rfl⟩ := List.mem_map.mp h
  have hmem' := (List.mem_insertionSort _).mp (List.mem_of_mem_take hmem)
  obtain ⟨hentry, hstake⟩ := List.mem_filter.mp hmem'
  exact ⟨v, Column.KeyOrder.mem_entries.mp hentry, of_decide_eq_true hstake⟩

theorem chooseActive_nodup (s : StakingService) (order : ValidatorOrder) :
    (s.chooseActive order).Nodup := by
  unfold chooseActive
  refine List.Nodup.sublist ((List.take_sublist _ _).map _) ?_
  refine ((List.perm_insertionSort _ _).map Prod.fst).nodup_iff.mpr ?_
  refine List.Nodup.sublist (List.filter_sublist.map _) ?_
  rw [Column.KeyOrder.map_fst_entries]
  exact order.nodup _

theorem chooseActive_length (s : StakingService) (order : ValidatorOrder) :
    (s.chooseActive order).length ≤ s.config.maxValidators := by
  unfold chooseActive
  rw [List.length_map, List.length_take]
  exact Nat.min_le_left _ _

/-- After the update the flag is membership, and the stakes are as before. -/
theorem lookup_updateActiveSet :
    (s.updateActiveSet order).validators.lookup a = (s.validators.lookup a).map fun v =>
      { v with isActive := (s.chooseActive order).contains a } :=
  Column.lookup_mapValues _ _ _

end Calls

end StakingService

end Pyrax
