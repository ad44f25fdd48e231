import Pyrax.Base.Records
import Pyrax.Base.Run
import Pyrax.Staking.Validator

/-!
# The staking registry

`pyrax-node/src/consensus/staking/registry.rs`: validators, the table of stakes by
staker and validator, the running total and the queue of unbondings by completion
time. A call is taken at one time, `now`. `process_unbonding_queue` walks a hash
map, so it is given the completion times in the order the map yields them.

A stake record has one amount for everything. `begin_unstake` takes its amount
out of the record at once, and only an emptied record starts to unbond;
`complete_unbonding` returns what the record holds when the time is over. The
queue remembers who, not how much.

Every method has one lemma that says when it succeeds and what it leaves. Reward
distribution and epochs are not part of this file.
-/

namespace Pyrax.Staking

open Base Word

inductive StakeStatus where
  | bonded
  | unbonding
  | unbonded
  deriving DecidableEq, Repr

structure Stake where
  staker : Address
  validator : Address
  amount : UInt64
  status : StakeStatus
  createdAt : UInt64
  unbondingAt : Option UInt64
  rewards : UInt64
  isSelfStake : Bool
  deriving DecidableEq

namespace Stake

def new (now : UInt64) (staker validator : Address) (amount : UInt64) (isSelfStake : Bool) :
    Stake where
  staker := staker
  validator := validator
  amount := amount
  status := .bonded
  createdAt := now
  unbondingAt := none
  rewards := 0
  isSelfStake := isSelfStake

def startUnbonding (s : Stake) (now : UInt64) : Stake :=
  if s.status = .bonded then { s with status := .unbonding, unbondingAt := some now } else s

/-- `is_unbonding_complete`: the constant period, not the configured one. -/
def isUnbondingComplete (s : Stake) (now : UInt64) : Bool :=
  match s.unbondingAt with
  | some start => start + UNBONDING_PERIOD_SECS ≤ now
  | none => false

def completeUnbonding (s : Stake) (now : UInt64) : Stake :=
  if s.status = .unbonding ∧ s.isUnbondingComplete now = true then { s with status := .unbonded }
  else s

@[simp] theorem startUnbonding_amount (s : Stake) (now : UInt64) :
    (s.startUnbonding now).amount = s.amount := by
  unfold startUnbonding
  split <;> rfl

@[simp] theorem completeUnbonding_amount (s : Stake) (now : UInt64) :
    (s.completeUnbonding now).amount = s.amount := by
  unfold completeUnbonding
  split <;> rfl

end Stake

structure StakingConfig where
  minValidatorStake : UInt64
  minDelegation : UInt64
  unbondingPeriodSecs : UInt64
  maxCommissionBps : UInt16
  deriving DecidableEq

/-- `Default`. -/
def StakingConfig.default : StakingConfig :=
  ⟨MIN_VALIDATOR_STAKE, MIN_DELEGATION_STAKE, UNBONDING_PERIOD_SECS, 5000⟩

inductive StakingError where
  | validatorNotFound (address : Address)
  | validatorExists (address : Address)
  | insufficientStake (required actual : UInt64)
  | stakeNotFound
  | invalidStatus (status : StakeStatus)
  | validatorJailed
  | validatorTombstoned
  | unbondingNotComplete
  | commissionTooHigh (commissionBps : UInt16)
  | belowMinimumStake
  deriving DecidableEq

structure StakingRegistry where
  config : StakingConfig
  validators : Column Address Validator
  /-- Staker, then validator. -/
  stakes : Column Address (Column Address Stake)
  totalStaked : UInt64
  /-- Completion time, then who is due. -/
  unbondingQueue : Column UInt64 (List (Address × Address))

namespace StakingRegistry

def new (config : StakingConfig) : StakingRegistry := ⟨config, ∅, ∅, 0, ∅⟩

/-- `get_stake`. -/
def getStake (r : StakingRegistry) (staker validator : Address) : Option Stake :=
  (r.stakes.lookup staker).bind fun stakes => stakes.lookup validator

/-- `stakes.entry(staker).or_insert_with(HashMap::new).insert(validator, stake)`. -/
def putStake (r : StakingRegistry) (staker validator : Address) (stake : Stake) :
    StakingRegistry :=
  { r with stakes :=
      r.stakes.insert staker (((r.stakes.lookup staker).getD ∅).insert validator stake) }

/-- `staker_stakes.remove(validator)`; the staker keeps its table. -/
def removeStake (r : StakingRegistry) (staker validator : Address) : StakingRegistry :=
  { r with stakes :=
      r.stakes.insert staker (((r.stakes.lookup staker).getD ∅).erase validator) }

def registerValidator (r : StakingRegistry) (now : UInt64) (address operator : Address)
    (consensusPubkey : Vector UInt8 32) (initialStake : UInt64) (commissionBps : UInt16)
    (description : String) : Except StakingError StakingRegistry :=
  if initialStake < r.config.minValidatorStake then
    .error (.insufficientStake r.config.minValidatorStake initialStake)
  else if r.config.maxCommissionBps < commissionBps then .error (.commissionTooHigh commissionBps)
  else if address ∈ r.validators then .error (.validatorExists address)
  else
    let validator :=
      Validator.new now address operator consensusPubkey initialStake commissionBps description
    .ok { r.putStake address address (Stake.new now address address initialStake true) with
      validators := r.validators.insert address validator
      totalStaked := r.totalStaked + initialStake }

def activateValidator (r : StakingRegistry) (address : Address) :
    Except StakingError StakingRegistry :=
  match r.validators.lookup address with
  | none => .error (.validatorNotFound address)
  | some v =>
    if v.canActivate = false then
      .error (.insufficientStake r.config.minValidatorStake v.selfStake)
    else .ok { r with validators := r.validators.insert address { v with status := .active } }

/-- The stake of a delegator after one more delegation. -/
def delegatedStake (now : UInt64) (delegator validatorAddr : Address) (amount : UInt64) :
    Option Stake → Stake
  | some existing => { existing with amount := saturatingAdd existing.amount amount }
  | none => Stake.new now delegator validatorAddr amount false

def delegate (r : StakingRegistry) (now : UInt64) (delegator validatorAddr : Address)
    (amount : UInt64) : Except StakingError StakingRegistry :=
  if amount < r.config.minDelegation then
    .error (.insufficientStake r.config.minDelegation amount)
  else
    match r.validators.lookup validatorAddr with
    | none => .error (.validatorNotFound validatorAddr)
    | some v =>
      if v.status = .jailed then .error .validatorJailed
      else if v.status = .tombstoned then .error .validatorTombstoned
      else
        let stake := delegatedStake now delegator validatorAddr amount
          (r.getStake delegator validatorAddr)
        .ok { r.putStake delegator validatorAddr stake with
          validators := r.validators.insert validatorAddr (v.addDelegation amount)
          totalStaked := r.totalStaked + amount }

/-- The record after an unstake: emptied, it starts to unbond. -/
def unstaked (stake : Stake) (now amount : UInt64) : Stake :=
  let stake := { stake with amount := saturatingSub stake.amount amount }
  if stake.amount = 0 then stake.startUnbonding now else stake

/-- The validator after an unstake: its own stake or a delegation. -/
def validatorUnstaked (config : StakingConfig) (own : Bool) (v : Validator) (amount : UInt64) :
    Validator :=
  if own then
    let v := { v with selfStake := saturatingSub v.selfStake amount }
    if v.selfStake < config.minValidatorStake then { v with status := .unbonding } else v
  else v.removeDelegation amount

/-- `begin_unstake`, with the completion time it returns. -/
def beginUnstake (r : StakingRegistry) (now : UInt64) (staker validatorAddr : Address)
    (amount : UInt64) : Except StakingError (StakingRegistry × UInt64) :=
  let completionTime := now + r.config.unbondingPeriodSecs
  match r.getStake staker validatorAddr with
  | none => .error .stakeNotFound
  | some stake =>
    if stake.status ≠ .bonded then .error (.invalidStatus stake.status)
    else if stake.amount < amount then .error (.insufficientStake amount stake.amount)
    else if stake.isSelfStake = true ∧ 0 < saturatingSub stake.amount amount ∧
        saturatingSub stake.amount amount < r.config.minValidatorStake then
      .error .belowMinimumStake
    else
      .ok ({ r.putStake staker validatorAddr (unstaked stake now amount) with
          validators :=
            match r.validators.lookup validatorAddr with
            | some v => r.validators.insert validatorAddr
                (validatorUnstaked r.config (staker = validatorAddr) v amount)
            | none => r.validators
          unbondingQueue := r.unbondingQueue.insert completionTime
            ((r.unbondingQueue.lookup completionTime).getD [] ++ [(staker, validatorAddr)]) },
        completionTime)

/-- `complete_unbonding`, with the amount it returns: what the record holds. The
record goes only when that is nothing. -/
def completeUnbonding (r : StakingRegistry) (now : UInt64) (staker validatorAddr : Address) :
    Except StakingError (StakingRegistry × UInt64) :=
  match r.getStake staker validatorAddr with
  | none => .error .stakeNotFound
  | some stake =>
    if stake.status ≠ .unbonding then .error (.invalidStatus stake.status)
    else if stake.isUnbondingComplete now = false then .error .unbondingNotComplete
    else
      let left := if stake.amount = 0 then r.removeStake staker validatorAddr
        else r.putStake staker validatorAddr (stake.completeUnbonding now)
      .ok ({ left with totalStaked := r.totalStaked - stake.amount }, stake.amount)

/-- One entry of the queue that is due: a refusal is passed over. -/
def completeEntry (now : UInt64) (acc : StakingRegistry × List (Address × Address × UInt64))
    (entry : Address × Address) : StakingRegistry × List (Address × Address × UInt64) :=
  match acc.1.completeUnbonding now entry.1 entry.2 with
  | .ok (r, amount) => (r, acc.2 ++ [(entry.1, entry.2, amount)])
  | .error _ => acc

/-- The entries that are due, the completion times in the order given. -/
def dueEntries (r : StakingRegistry) (now : UInt64) (order : List UInt64) :
    List (Address × Address) :=
  (order.filter fun time => time ≤ now).flatMap fun time => (r.unbondingQueue.lookup time).getD []

/-- `queue.remove` for every time that was due. -/
def removeTimes (queue : Column UInt64 (List (Address × Address))) (times : List UInt64) :
    Column UInt64 (List (Address × Address)) :=
  times.foldl (fun queue time => queue.erase time) queue

/-- `process_unbonding_queue`, with what it completed. -/
def processUnbondingQueue (r : StakingRegistry) (now : UInt64) (order : List UInt64) :
    StakingRegistry × List (Address × Address × UInt64) :=
  let done := (r.dueEntries now order).foldl (completeEntry now) (r, [])
  let times := order.filter fun time => time ≤ now
  ({ done.1 with unbondingQueue := removeTimes done.1.unbondingQueue times }, done.2)

/-! ## What each method does -/

variable {r r' : StakingRegistry} {now amount : UInt64} {staker validator s v : Address}
  {stake : Stake}

/-- The stakes of one staker, none without a table. -/
theorem lookup_getD (r : StakingRegistry) (s v : Address) :
    ((r.stakes.lookup s).getD ∅).lookup v = r.getStake s v := by
  rw [getStake]
  cases r.stakes.lookup s with
  | none => exact Finmap.lookup_empty v
  | some stakes => rfl

/-- Writing the table of one staker. -/
theorem getStake_insert {stakes : Column Address Stake}
    (h : r'.stakes = r.stakes.insert staker stakes) :
    r'.getStake s v = if s = staker then stakes.lookup v else r.getStake s v := by
  rw [getStake, getStake, h]
  by_cases hs : s = staker
  · rw [if_pos hs, hs, Finmap.lookup_insert]
    rfl
  · rw [if_neg hs, Finmap.lookup_insert_of_ne _ hs]

theorem getStake_putStake : (r.putStake staker validator stake).getStake s v =
    if s = staker ∧ v = validator then some stake else r.getStake s v := by
  rw [getStake_insert (show (r.putStake staker validator stake).stakes
    = r.stakes.insert staker _ from rfl)]
  by_cases hs : s = staker
  · subst hs
    by_cases hv : v = validator
    · rw [if_pos rfl, if_pos ⟨rfl, hv⟩, hv, Finmap.lookup_insert]
    · rw [if_pos rfl, if_neg fun h => hv h.2, Finmap.lookup_insert_of_ne _ hv, lookup_getD]
  · rw [if_neg hs, if_neg fun h => hs h.1]

theorem getStake_removeStake : (r.removeStake staker validator).getStake s v =
    if s = staker ∧ v = validator then none else r.getStake s v := by
  rw [getStake_insert (show (r.removeStake staker validator).stakes
    = r.stakes.insert staker _ from rfl)]
  by_cases hs : s = staker
  · subst hs
    by_cases hv : v = validator
    · rw [if_pos rfl, if_pos ⟨rfl, hv⟩, hv, Finmap.lookup_erase]
    · rw [if_pos rfl, if_neg fun h => hv h.2, Finmap.lookup_erase_ne hv, lookup_getD]
  · rw [if_neg hs, if_neg fun h => hs h.1]

/-- Only the stake of this staker with this validator is written. -/
structure Moves (r r' : StakingRegistry) (staker validator : Address) : Prop where
  table : ∃ stakes, r'.stakes = r.stakes.insert staker stakes
  others : ∀ s v, ¬ (s = staker ∧ v = validator) → r'.getStake s v = r.getStake s v

theorem moves_putStake (r : StakingRegistry) (staker validator : Address) (stake : Stake) :
    Moves r (r.putStake staker validator stake) staker validator where
  table := ⟨_, rfl⟩
  others s v h := by rw [getStake_putStake, if_neg h]

theorem getStake_congr (h : r'.stakes = r.stakes) (s v : Address) :
    r'.getStake s v = r.getStake s v := by
  rw [getStake, getStake, h]

/-- Only the table of stakes matters. -/
theorem Moves.congr {r₁ : StakingRegistry} (h : Moves r r₁ staker validator)
    (hstakes : r'.stakes = r₁.stakes) : Moves r r' staker validator where
  table := by rw [hstakes]; exact h.table
  others s v hne := by rw [getStake_congr hstakes, h.others s v hne]

theorem moves_removeStake (r : StakingRegistry) (staker validator : Address) :
    Moves r (r.removeStake staker validator) staker validator where
  table := ⟨_, rfl⟩
  others s v h := by rw [getStake_removeStake, if_neg h]

theorem register_ok {address operator : Address} {pubkey : Vector UInt8 32}
    {commissionBps : UInt16} {description : String}
    (h : r.registerValidator now address operator pubkey amount commissionBps description
      = .ok r') :
    address ∉ r.validators ∧ r'.config = r.config ∧
      r'.stakes = (r.putStake address address (Stake.new now address address amount true)).stakes ∧
      r'.validators = r.validators.insert address
        (Validator.new now address operator pubkey amount commissionBps description) ∧
      r'.totalStaked = r.totalStaked + amount ∧ r'.unbondingQueue = r.unbondingQueue := by
  unfold registerValidator at h
  split at h
  · cases h
  split at h
  · cases h
  split at h
  · cases h
  next hnew =>
  cases h
  exact ⟨hnew, rfl, rfl, rfl, rfl, rfl⟩

theorem activate_ok {address : Address} (h : r.activateValidator address = .ok r') :
    ∃ v, r.validators.lookup address = some v ∧
      r' = { r with validators := r.validators.insert address { v with status := .active } } := by
  unfold activateValidator at h
  split at h
  · cases h
  next v hv =>
  split at h
  · cases h
  cases h
  exact ⟨v, hv, rfl⟩

/-- What `delegate` asks for: enough, and a validator in good standing. -/
def Delegable (r : StakingRegistry) (validatorAddr : Address) (amount : UInt64) : Prop :=
  r.config.minDelegation ≤ amount ∧ ∃ v, r.validators.lookup validatorAddr = some v ∧
    v.status ≠ .jailed ∧ v.status ≠ .tombstoned

theorem delegate_ok (h : r.delegate now staker validator amount = .ok r') :
    r.Delegable validator amount ∧ r'.config = r.config ∧
      r'.stakes = (r.putStake staker validator (delegatedStake now staker validator amount
        (r.getStake staker validator))).stakes ∧
      (∃ v, r.validators.lookup validator = some v ∧
        r'.validators = r.validators.insert validator (v.addDelegation amount)) ∧
      r'.totalStaked = r.totalStaked + amount ∧ r'.unbondingQueue = r.unbondingQueue := by
  unfold delegate at h
  split at h
  · cases h
  next hmin =>
  split at h
  · cases h
  next v hv =>
  split at h
  · cases h
  next hj =>
  split at h
  · cases h
  next ht =>
  cases h
  exact ⟨⟨UInt64.not_lt.mp hmin, v, hv, hj, ht⟩, rfl, rfl, ⟨v, hv, rfl⟩, rfl, rfl⟩

theorem delegate_of_delegable (h : r.Delegable validator amount) (now : UInt64)
    (staker : Address) : ∃ r', r.delegate now staker validator amount = .ok r' := by
  obtain ⟨hmin, v, hv, hj, ht⟩ := h
  unfold delegate
  rw [if_neg (UInt64.not_lt.mpr hmin), hv]
  simp only [if_neg hj, if_neg ht]
  exact ⟨_, rfl⟩

theorem begin_ok {completion : UInt64}
    (h : r.beginUnstake now staker validator amount = .ok (r', completion)) :
    ∃ stake, r.getStake staker validator = some stake ∧ stake.status = .bonded ∧
      amount ≤ stake.amount ∧ r'.config = r.config ∧
      r'.stakes = (r.putStake staker validator (unstaked stake now amount)).stakes ∧
      (∀ v, r.validators.lookup validator = some v → r'.validators = r.validators.insert validator
        (validatorUnstaked r.config (staker = validator) v amount)) ∧
      r'.totalStaked = r.totalStaked ∧
      r'.unbondingQueue = r.unbondingQueue.insert (now + r.config.unbondingPeriodSecs)
        ((r.unbondingQueue.lookup (now + r.config.unbondingPeriodSecs)).getD []
          ++ [(staker, validator)]) := by
  unfold beginUnstake at h
  split at h
  · cases h
  next stake hstake =>
  split at h
  · cases h
  next hs =>
  split at h
  · cases h
  next hle =>
  split at h
  · cases h
  cases h
  refine ⟨stake, hstake, not_not.mp hs, UInt64.not_lt.mp hle, rfl, rfl, ?_, rfl, rfl⟩
  intro v hv
  show (match r.validators.lookup validator with | some v => _ | none => _) = _
  rw [hv]

/-- The amount a staker has with a validator, nothing without a record. -/
def amountAt (r : StakingRegistry) (staker validator : Address) : Nat :=
  ((r.getStake staker validator).map fun stake => stake.amount.toNat).getD 0

theorem amountAt_of_getStake (h : r.getStake staker validator = some stake) :
    r.amountAt staker validator = stake.amount.toNat := by
  rw [amountAt, h]
  rfl

theorem amountAt_put (h : r'.stakes = (r.putStake staker validator stake).stakes) :
    r'.amountAt staker validator = stake.amount.toNat := by
  refine amountAt_of_getStake ?_
  rw [getStake_congr h, getStake_putStake, if_pos ⟨rfl, rfl⟩]

theorem amountAt_remove (h : r'.stakes = (r.removeStake staker validator).stakes) :
    r'.amountAt staker validator = 0 := by
  rw [amountAt, getStake_congr h, getStake_removeStake, if_pos ⟨rfl, rfl⟩]
  rfl

theorem Moves.amountAt (h : Moves r r' staker validator) (hne : ¬ (s = staker ∧ v = validator)) :
    r'.amountAt s v = r.amountAt s v := by
  rw [StakingRegistry.amountAt, StakingRegistry.amountAt, h.others s v hne]

/-- The record of a delegation holds what was there and the new amount, as far as it
fits. -/
theorem delegatedStake_amount (h : r.amountAt staker validator + amount.toNat < 2 ^ 64) :
    (delegatedStake now staker validator amount (r.getStake staker validator)).amount.toNat
      = r.amountAt staker validator + amount.toNat := by
  unfold StakingRegistry.amountAt at h ⊢
  cases hs : r.getStake staker validator with
  | none => exact (Nat.zero_add _).symm
  | some stake =>
    rw [hs] at h
    exact toNat_saturatingAdd_of_lt h

@[simp] theorem unstaked_amount (stake : Stake) (now amount : UInt64) :
    (unstaked stake now amount).amount = saturatingSub stake.amount amount := by
  show (if _ then _ else _ : Stake).amount = _
  split
  · rw [Stake.startUnbonding_amount]
  · rfl

theorem validatorUnstaked_selfStake (config : StakingConfig) (own : Bool) (val : Validator)
    (amount : UInt64) : (validatorUnstaked config own val amount).selfStake
      = if own = true then saturatingSub val.selfStake amount else val.selfStake := by
  unfold validatorUnstaked
  cases own with
  | false => rfl
  | true =>
    simp only [if_true]
    split
    · rfl
    · rfl

theorem validatorUnstaked_delegatedStake (config : StakingConfig) (own : Bool) (val : Validator)
    (amount : UInt64) : (validatorUnstaked config own val amount).delegatedStake
      = if own = true then val.delegatedStake else saturatingSub val.delegatedStake amount := by
  unfold validatorUnstaked
  cases own with
  | false => rfl
  | true =>
    simp only [if_true]
    split
    · rfl
    · rfl

/-- The stake has waited out its time. -/
def Matured (r : StakingRegistry) (now : UInt64) (staker validator : Address)
    (stake : Stake) : Prop :=
  r.getStake staker validator = some stake ∧ stake.status = .unbonding ∧
    stake.isUnbondingComplete now = true

theorem complete_ok_iff : r.completeUnbonding now staker validator = .ok (r', amount) ↔
    ∃ stake, r.Matured now staker validator stake ∧ amount = stake.amount ∧
      r' = { (if stake.amount = 0 then r.removeStake staker validator
          else r.putStake staker validator (stake.completeUnbonding now)) with
        totalStaked := r.totalStaked - stake.amount } := by
  unfold completeUnbonding Matured
  split
  · next hnone => simp [hnone]
  next stake hstake =>
  split
  · next hs => simp [hstake, hs]
  next hs =>
  have hst : stake.status = .unbonding := not_not.mp hs
  split
  · next hc => simp [hstake, hc]
  next hc =>
  constructor
  · intro h
    cases h
    exact ⟨stake, ⟨hstake, hst, Bool.not_eq_false _ ▸ hc⟩, rfl, rfl⟩
  · rintro ⟨stake', ⟨hstake', _, _⟩, rfl, rfl⟩
    cases hstake.symm.trans hstake'
    rfl

/-- Completing moves no amount: a record goes only when it is empty. -/
theorem complete_moves (h : r.completeUnbonding now staker validator = .ok (r', amount)) :
    Moves r r' staker validator ∧ r'.validators = r.validators ∧ r'.config = r.config ∧
      r'.unbondingQueue = r.unbondingQueue ∧
      r'.amountAt staker validator = r.amountAt staker validator := by
  obtain ⟨stake, ⟨hstake, _, _⟩, rfl, rfl⟩ := complete_ok_iff.mp h
  rw [amountAt_of_getStake hstake]
  by_cases hzero : stake.amount = 0
  · rw [if_pos hzero]
    refine ⟨(moves_removeStake r staker validator).congr rfl, rfl, rfl, rfl, ?_⟩
    rw [hzero]
    exact amountAt_remove rfl
  · rw [if_neg hzero]
    refine ⟨(moves_putStake r staker validator _).congr rfl, rfl, rfl, rfl, ?_⟩
    rw [← Stake.completeUnbonding_amount stake now]
    exact amountAt_put rfl

theorem amountAt_complete (h : r.completeUnbonding now staker validator = .ok (r', amount))
    (s v : Address) : r'.amountAt s v = r.amountAt s v := by
  obtain ⟨hm, _, _, _, hsame⟩ := complete_moves h
  by_cases hsv : s = staker ∧ v = validator
  · rw [hsv.1, hsv.2, hsame]
  · exact hm.amountAt hsv

/-! ## Stakes lie with known validators -/

def Known (r : StakingRegistry) : Prop :=
  ∀ s v stake, r.getStake s v = some stake → v ∈ r.validators

theorem Known.amountAt_of_notMem (h : Known r) (hv : v ∉ r.validators) (s : Address) :
    r.amountAt s v = 0 := by
  rw [StakingRegistry.amountAt]
  cases hs : r.getStake s v with
  | none => rfl
  | some stake => exact absurd (h s v stake hs) hv

/-- A write to one record of a known validator. -/
theorem Known.moves (h : Known r) (hm : Moves r r' staker validator)
    (hkeys : ∀ v, v ∈ r.validators → v ∈ r'.validators) (hmem : validator ∈ r'.validators) :
    Known r' := by
  intro s v stake hs
  by_cases hsv : s = staker ∧ v = validator
  · rw [hsv.2]
    exact hmem
  · rw [hm.others s v hsv] at hs
    exact hkeys v (h s v stake hs)

theorem Known.complete (h : Known r)
    (hok : r.completeUnbonding now staker validator = .ok (r', amount)) : Known r' := by
  obtain ⟨hm, hvals, _⟩ := complete_moves hok
  obtain ⟨stake, ⟨hstake, _, _⟩, _⟩ := complete_ok_iff.mp hok
  refine h.moves hm (fun v hv => ?_) ?_
  · rw [hvals]
    exact hv
  · rw [hvals]
    exact h staker validator stake hstake

/-- What relates every registry to the one after a completion relates it to the one
after a pass over any entries. -/
theorem completeEntries_related {R : StakingRegistry → StakingRegistry → Prop}
    (hrefl : ∀ r, R r r) (htrans : ∀ r₁ r₂ r₃, R r₁ r₂ → R r₂ r₃ → R r₁ r₃)
    (hstep : ∀ r r' staker validator amount,
      r.completeUnbonding now staker validator = .ok (r', amount) → R r r') :
    ∀ (entries : List (Address × Address))
      (acc : StakingRegistry × List (Address × Address × UInt64)),
      R acc.1 (entries.foldl (completeEntry now) acc).1
  | [], acc => hrefl acc.1
  | entry :: entries, acc => by
    refine htrans _ _ _ ?_
      (completeEntries_related hrefl htrans hstep entries (completeEntry now acc entry))
    unfold completeEntry
    split
    · next hok => exact hstep _ _ _ _ _ hok
    · exact hrefl acc.1

theorem Known.completeEntries (entries : List (Address × Address))
    (acc : StakingRegistry × List (Address × Address × UInt64)) (h : Known acc.1) :
    Known (entries.foldl (completeEntry now) acc).1 :=
  completeEntries_related (R := fun r r' => Known r → Known r') (fun _ h => h)
    (fun _ _ _ h h' hknown => h' (h hknown)) (fun _ _ _ _ _ hok h => h.complete hok) entries acc h

theorem config_completeEntries (entries : List (Address × Address))
    (acc : StakingRegistry × List (Address × Address × UInt64)) :
    (entries.foldl (completeEntry now) acc).1.config = acc.1.config :=
  completeEntries_related (R := fun r r' => r'.config = r.config) (fun _ => rfl)
    (fun _ _ _ h h' => h'.trans h) (fun _ _ _ _ _ hok => (complete_moves hok).2.2.1) entries acc

theorem lookup_removeTimes (queue : Column UInt64 (List (Address × Address)))
    (times : List UInt64) (time : UInt64) :
    (removeTimes queue times).lookup time = if time ∈ times then none else queue.lookup time := by
  induction times generalizing queue with
  | nil => rfl
  | cons first times ih =>
    show (removeTimes (queue.erase first) times).lookup time = _
    rw [ih]
    by_cases hmem : time ∈ times
    · rw [if_pos hmem, if_pos (List.mem_cons_of_mem _ hmem)]
    · by_cases heq : time = first
      · rw [if_neg hmem, heq, Finmap.lookup_erase, if_pos (List.mem_cons_self ..)]
      · rw [if_neg hmem, Finmap.lookup_erase_ne heq, if_neg]
        exact fun h => (List.mem_cons.mp h).elim heq hmem

end StakingRegistry

/-! ## Runs -/

/-- A call on the registry, with the time of it. -/
inductive RegistryOp where
  | register (now : UInt64) (address operator : Address) (consensusPubkey : Vector UInt8 32)
      (initialStake : UInt64) (commissionBps : UInt16) (description : String)
  | activate (address : Address)
  | delegate (now : UInt64) (delegator validatorAddr : Address) (amount : UInt64)
  | beginUnstake (now : UInt64) (staker validatorAddr : Address) (amount : UInt64)
  | completeUnbonding (now : UInt64) (staker validatorAddr : Address)
  | processQueue (now : UInt64) (order : List UInt64)

/-- What a staker sees of a call: a deposit taken, an unstake begun, an amount
handed back. -/
inductive StakeEvent where
  | deposited (staker validator : Address) (amount : UInt64)
  | begun (staker validator : Address) (amount time : UInt64)
  | returned (staker validator : Address) (amount time : UInt64)
  deriving DecidableEq

/-- Who an event is about, and with which validator. -/
def StakeEvent.pair : StakeEvent → Address × Address
  | deposited staker validator _ => (staker, validator)
  | begun staker validator _ _ => (staker, validator)
  | returned staker validator _ _ => (staker, validator)

/-- The amount an event deposits. -/
def StakeEvent.deposit : StakeEvent → Nat
  | deposited _ _ amount => amount.toNat
  | begun .. | returned .. => 0

/-- All that was deposited. -/
def deposits (events : List StakeEvent) : Nat := (events.map StakeEvent.deposit).sum

theorem deposits_append (a b : List StakeEvent) : deposits (a ++ b) = deposits a + deposits b := by
  rw [deposits, List.map_append, List.sum_append]
  rfl

namespace RegistryOp

open StakingRegistry

/-- A refused call changes nothing. -/
def apply (r : StakingRegistry) : RegistryOp → StakingRegistry
  | register now address operator pubkey initialStake commissionBps description =>
    match r.registerValidator now address operator pubkey initialStake commissionBps description
    with
    | .ok r' => r'
    | .error _ => r
  | activate address =>
    match r.activateValidator address with
    | .ok r' => r'
    | .error _ => r
  | delegate now delegator validatorAddr amount =>
    match r.delegate now delegator validatorAddr amount with
    | .ok r' => r'
    | .error _ => r
  | beginUnstake now staker validatorAddr amount =>
    match r.beginUnstake now staker validatorAddr amount with
    | .ok (r', _) => r'
    | .error _ => r
  | completeUnbonding now staker validatorAddr =>
    match r.completeUnbonding now staker validatorAddr with
    | .ok (r', _) => r'
    | .error _ => r
  | processQueue now order => (r.processUnbondingQueue now order).1

/-- The events of one call on `r`. -/
def events (r : StakingRegistry) : RegistryOp → List StakeEvent
  | register now address operator pubkey initialStake commissionBps description =>
    match r.registerValidator now address operator pubkey initialStake commissionBps description
    with
    | .ok _ => [.deposited address address initialStake]
    | .error _ => []
  | activate _ => []
  | delegate now delegator validatorAddr amount =>
    match r.delegate now delegator validatorAddr amount with
    | .ok _ => [.deposited delegator validatorAddr amount]
    | .error _ => []
  | beginUnstake now staker validatorAddr amount =>
    match r.beginUnstake now staker validatorAddr amount with
    | .ok _ => [.begun staker validatorAddr amount now]
    | .error _ => []
  | completeUnbonding now staker validatorAddr =>
    match r.completeUnbonding now staker validatorAddr with
    | .ok (_, amount) => [.returned staker validatorAddr amount now]
    | .error _ => []
  | processQueue now order =>
    (r.processUnbondingQueue now order).2.map fun (staker, validatorAddr, amount) =>
      .returned staker validatorAddr amount now

def run (r : StakingRegistry) (ops : List RegistryOp) : StakingRegistry := ops.foldl apply r

/-- The events of a run, in order. -/
def history (r : StakingRegistry) : List RegistryOp → List StakeEvent
  | [] => []
  | op :: ops => events r op ++ history (apply r op) ops

variable {r : StakingRegistry} {ops : List RegistryOp} {op : RegistryOp}

theorem run_snoc : run r (ops ++ [op]) = apply (run r ops) op := by
  rw [run, List.foldl_append]
  rfl

theorem history_append {ops' : List RegistryOp} :
    history r (ops ++ ops') = history r ops ++ history (run r ops) ops' := by
  induction ops generalizing r with
  | nil => rfl
  | cons first ops ih =>
    show events r first ++ history (apply r first) (ops ++ ops') = _
    rw [ih, ← List.append_assoc]
    rfl

theorem history_snoc : history r (ops ++ [op]) = history r ops ++ events (run r ops) op := by
  rw [history_append]
  exact congrArg _ (List.append_nil _)

/-- No call changes the configuration. -/
theorem config_apply (r : StakingRegistry) (op : RegistryOp) : (apply r op).config = r.config := by
  cases op with
  | register now address operator pubkey initialStake commissionBps description =>
    rw [apply]
    split
    · next r' hok => exact (register_ok hok).2.1
    · rfl
  | activate address =>
    rw [apply]
    split
    · next r' hok =>
      obtain ⟨val, _, rfl⟩ := activate_ok hok
      rfl
    · rfl
  | delegate now delegator validatorAddr amount =>
    rw [apply]
    split
    · next r' hok => exact (delegate_ok hok).2.1
    · rfl
  | beginUnstake now staker validatorAddr amount =>
    rw [apply]
    split
    · next r' completion hok =>
      obtain ⟨stake, _, _, _, hconfig, _⟩ := begin_ok hok
      exact hconfig
    · rfl
  | completeUnbonding now staker validatorAddr =>
    rw [apply]
    split
    · next r' amount hok => exact (complete_moves hok).2.2.1
    · rfl
  | processQueue now order => exact config_completeEntries _ (r, [])

theorem config_run (config : StakingConfig) (ops : List RegistryOp) :
    (run (StakingRegistry.new config) ops).config = config := by
  induction ops using List.reverseRecOn with
  | nil => rfl
  | append_singleton ops op ih => rw [run_snoc, config_apply, ih]

theorem known_apply (h : Known r) : Known (apply r op) := by
  cases op with
  | register now address operator pubkey initialStake commissionBps description =>
    rw [apply]
    split
    · next r' hok =>
      obtain ⟨_, _, hstakes, hvals, _, _⟩ := register_ok hok
      refine h.moves ((moves_putStake r address address _).congr hstakes) (fun v hv => ?_) ?_
      · rw [hvals, Finmap.mem_insert]
        exact .inr hv
      · rw [hvals, Finmap.mem_insert]
        exact .inl rfl
    · exact h
  | activate address =>
    rw [apply]
    split
    · next r' hok =>
      obtain ⟨val, hval, rfl⟩ := activate_ok hok
      exact fun s v stake hs => Finmap.mem_insert.mpr (.inr (h s v stake hs))
    · exact h
  | delegate now delegator validatorAddr amount =>
    rw [apply]
    split
    · next r' hok =>
      obtain ⟨_, _, hstakes, ⟨val, _, hvals⟩, _, _⟩ := delegate_ok hok
      refine h.moves ((moves_putStake r delegator validatorAddr _).congr hstakes)
        (fun v hv => ?_) ?_
      · rw [hvals, Finmap.mem_insert]
        exact .inr hv
      · rw [hvals, Finmap.mem_insert]
        exact .inl rfl
    · exact h
  | beginUnstake now staker validatorAddr amount =>
    rw [apply]
    split
    · next r' completion hok =>
      obtain ⟨stake, hstake, _, _, _, hstakes, hvals, _, _⟩ := begin_ok hok
      obtain ⟨val, hval⟩ := Finmap.mem_iff.mp (h staker validatorAddr stake hstake)
      refine h.moves ((moves_putStake r staker validatorAddr _).congr hstakes)
        (fun v hv => ?_) ?_
      · rw [hvals val hval, Finmap.mem_insert]
        exact .inr hv
      · rw [hvals val hval, Finmap.mem_insert]
        exact .inl rfl
    · exact h
  | completeUnbonding now staker validatorAddr =>
    rw [apply]
    split
    · next r' amount hok => exact h.complete hok
    · exact h
  | processQueue now order => exact Known.completeEntries _ (r, []) h

/-- In every state a run from the empty registry reaches. -/
theorem known_run (config : StakingConfig) (ops : List RegistryOp) :
    Known (run (StakingRegistry.new config) ops) := by
  refine forall_prefixes (P := fun pre => Known (run (StakingRegistry.new config) pre)) ?_ ?_ ops
    List.prefix_rfl
  · intro s v stake hs
    cases hs
  · intro pre op _ h
    rw [run_snoc]
    exact known_apply h

end RegistryOp

end Pyrax.Staking
