import Pyrax.Base.Column
import Pyrax.Base.Word
import Pyrax.Types.Primitives

/-!
# Validators of Stream C

`pyrax-node/src/consensus/staking/validator.rs` and the constants of
`staking/mod.rs`: the record of one validator with the operations that move its
stake and its status, and the set of an epoch as far as votes read it. A method
that looks at the clock takes the reading as `now`. The uptime percentage, a
float nothing else reads, is left out.

`status` is overwritten by every method that sets it: only `unjail` looks at what
stood there.
-/

namespace Pyrax.Staking

open Base Word

def MIN_VALIDATOR_STAKE : UInt64 := 100000 * 100000000
def MIN_DELEGATION_STAKE : UInt64 := 100 * 100000000
def MAX_ACTIVE_VALIDATORS : Nat := 100
def CHECKPOINT_INTERVAL : UInt64 := 100
def UNBONDING_PERIOD_SECS : UInt64 := 7 * 24 * 60 * 60
def CHECKPOINT_BASE_REWARD : UInt64 := 10 * 100000000
def DOUBLE_SIGN_SLASH_PERCENT : UInt8 := 5
def DOWNTIME_SLASH_PERCENT_TENTHS : UInt8 := 1
def JAIL_DURATION_SECS : UInt64 := 24 * 60 * 60

inductive ValidatorStatus where
  | pending
  | active
  | inactive
  | unbonding
  | jailed
  | tombstoned
  deriving DecidableEq, Repr

structure Validator where
  address : Address
  operator : Address
  consensusPubkey : Vector UInt8 32
  commissionBps : UInt16
  selfStake : UInt64
  delegatedStake : UInt64
  status : ValidatorStatus
  jailUntil : Option UInt64
  blocksSigned : UInt64
  blocksProposed : UInt64
  blocksMissed : UInt64
  pendingRewards : UInt64
  registeredAt : UInt64
  lastActive : UInt64
  description : String
  website : String
  deriving DecidableEq

namespace Validator

def new (now : UInt64) (address operator : Address) (consensusPubkey : Vector UInt8 32)
    (selfStake : UInt64) (commissionBps : UInt16) (description : String) : Validator where
  address := address
  operator := operator
  consensusPubkey := consensusPubkey
  commissionBps := min commissionBps 10000
  selfStake := selfStake
  delegatedStake := 0
  status := .pending
  jailUntil := none
  blocksSigned := 0
  blocksProposed := 0
  blocksMissed := 0
  pendingRewards := 0
  registeredAt := now
  lastActive := now
  description := description
  website := ""

def totalStake (v : Validator) : UInt64 := saturatingAdd v.selfStake v.delegatedStake

def votingPower (v : Validator) : UInt64 := v.totalStake

def canActivate (v : Validator) : Bool :=
  v.status = .pending ∧ MIN_VALIDATOR_STAKE ≤ v.selfStake

def canUnjail (v : Validator) (now : UInt64) : Bool :=
  match v.jailUntil with
  | some releaseTime => releaseTime ≤ now
  | none => false

def jail (v : Validator) (now durationSecs : UInt64) : Validator :=
  { v with status := .jailed, jailUntil := some (now + durationSecs) }

/-- `unjail`, with its error texts. -/
def unjail (v : Validator) (now : UInt64) : Except String Validator :=
  if v.canUnjail now = false then .error "Jail period not ended"
  else if v.status = .tombstoned then .error "Validator is tombstoned"
  else .ok { v with status := .inactive, jailUntil := none }

def tombstone (v : Validator) : Validator := { v with status := .tombstoned }

def addDelegation (v : Validator) (amount : UInt64) : Validator :=
  { v with delegatedStake := saturatingAdd v.delegatedStake amount }

def removeDelegation (v : Validator) (amount : UInt64) : Validator :=
  { v with delegatedStake := saturatingSub v.delegatedStake amount }

/-- `slash`: the validator and the amount taken, a share of the self-stake. -/
def slash (v : Validator) (percent : UInt8) : Validator × UInt64 :=
  let slashAmount := mulDiv v.selfStake.toNat percent.toNat 100
  ({ v with selfStake := saturatingSub v.selfStake slashAmount }, slashAmount)

/-- A tombstoned validator is not let out, and only it is kept in after its time. -/
theorem unjail_ok_iff {v v' : Validator} {now : UInt64} :
    v.unjail now = .ok v' ↔ v.canUnjail now = true ∧ v.status ≠ .tombstoned ∧
      v' = { v with status := .inactive, jailUntil := none } := by
  unfold unjail
  split
  · next h => simp [h]
  · next h =>
    split
    · next ht => simp [ht]
    · next ht => simp [h, ht, eq_comm]

end Validator

/-! ## The set of an epoch -/

inductive ValidatorSelection where
  | weightedRandom
  | roundRobin
  | highestStake
  deriving DecidableEq, Repr

structure ValidatorSet where
  epoch : UInt64
  epochStart : UInt64
  validators : List Address
  votingPower : Column Address UInt64
  totalVotingPower : UInt64
  proposerIndex : Nat
  selection : ValidatorSelection
  deriving DecidableEq

namespace ValidatorSet

def new (now epoch : UInt64) (selection : ValidatorSelection) : ValidatorSet :=
  ⟨epoch, now, [], ∅, 0, 0, selection⟩

/-- One validator of the sorted list enters the set; the total is added with `+=`. -/
def push (set : ValidatorSet) (v : Validator) : ValidatorSet :=
  { set with
    votingPower := set.votingPower.insert v.address v.votingPower
    validators := set.validators ++ [v.address]
    totalVotingPower := set.totalVotingPower + v.votingPower }

/-- `from_validators`: the active ones, by voting power from the highest down with
`sort_by`'s stability, cut off at the maximal size. -/
def fromValidators (now epoch : UInt64) (validators : List Validator)
    (selection : ValidatorSelection) : ValidatorSet :=
  let active := validators.filter fun v => v.status = .active
  let sorted := active.mergeSort fun a b => b.votingPower ≤ a.votingPower
  (sorted.take MAX_ACTIVE_VALIDATORS).foldl push (new now epoch selection)

def contains (set : ValidatorSet) (address : Address) : Bool := address ∈ set.validators

def getVotingPower (set : ValidatorSet) (address : Address) : UInt64 :=
  (set.votingPower.lookup address).getD 0

/-- `quorum`, in `u64` throughout. -/
def quorum (set : ValidatorSet) : UInt64 := set.totalVotingPower * 2 / 3 + 1

end ValidatorSet

/-- `Address([i; 20])`, as the source's tests name their parties. -/
def testAddress (i : UInt8) : Address := ⟨Vector.replicate 20 i⟩

end Pyrax.Staking
