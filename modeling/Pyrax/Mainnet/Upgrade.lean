import Pyrax.Base.Column
import Pyrax.Types.Primitives

/-!
# The upgrade mechanism

`pyrax-node/src/mainnet/upgrade.rs`: proposals with their votes, the list of pending
upgrades and the current protocol version. A proposal is voted on, finalized once its
voting period is over, and approved with an activation height `UPGRADE_DELAY_BLOCKS`
ahead. Only a *scheduled* proposal activates, `schedule` makes an approved one scheduled,
and no operation of the manager calls it.

`approval_percent` is a quotient in floating point and is a parameter, as a function of
the two totals. An id is a hash of a clock reading and is an argument. The texts of a
proposal other than its target version, its code hash, its parameter changes, its
timestamps and the statistics are left out; nothing reads them.
-/

namespace Pyrax.Mainnet

open Base

inductive UpgradeStatus where
  | proposed
  | voting
  | approved
  | scheduled
  | activating
  | activated
  | failed
  | rejected
  | cancelled
  deriving DecidableEq

inductive UpgradeType where
  | softFork
  | hardFork
  | parameterChange
  | emergencyFix
  | consensusChange
  | protocolVersion
  deriving DecidableEq

namespace UpgradeType

def minApprovalPercent : UpgradeType → UInt8
  | softFork => 67
  | hardFork => 75
  | parameterChange => 51
  | emergencyFix => 67
  | consensusChange => 80
  | protocolVersion => 67

/-- In blocks. -/
def minVotingPeriod : UpgradeType → UInt64
  | softFork => 14400
  | hardFork => 100800
  | parameterChange => 7200
  | emergencyFix => 1200
  | consensusChange => 201600
  | protocolVersion => 50400

end UpgradeType

def UPGRADE_DELAY_BLOCKS : UInt64 := 7200

structure Vote where
  voter : Address
  votingPower : UInt64
  support : Bool
  deriving DecidableEq

structure UpgradeProposal where
  id : H256
  upgradeType : UpgradeType
  proposer : Address
  targetVersion : String
  status : UpgradeStatus
  activationHeight : Option UInt64
  votesFor : UInt64
  votesAgainst : UInt64
  totalVoted : UInt64
  voters : Column Address Vote
  createdAtBlock : UInt64
  votingEndsAt : UInt64

/-- The errors of the modelled operations. -/
inductive UpgradeError where
  | upgradesDisabled
  | proposalNotFound (id : H256)
  | votingClosed
  | alreadyVoted (voter : Address)
  | votingNotEnded
  | notApproved
  | notScheduled
  | notProposer
  | alreadyActivated
  deriving DecidableEq

namespace UpgradeProposal

def new (id : H256) (upgradeType : UpgradeType) (proposer : Address) (targetVersion : String)
    (currentBlock : UInt64) : UpgradeProposal where
  id := id
  upgradeType := upgradeType
  proposer := proposer
  targetVersion := targetVersion
  status := .proposed
  activationHeight := none
  votesFor := 0
  votesAgainst := 0
  totalVoted := 0
  voters := ∅
  createdAtBlock := currentBlock
  votingEndsAt := currentBlock + upgradeType.minVotingPeriod

/-- Record a vote. The status alone decides whether voting is open. -/
def vote (p : UpgradeProposal) (voter : Address) (votingPower : UInt64) (support : Bool) :
    Except UpgradeError UpgradeProposal :=
  if p.status ≠ .voting ∧ p.status ≠ .proposed then .error .votingClosed
  else if voter ∈ p.voters then .error (.alreadyVoted voter)
  else .ok
    { p with
      voters := p.voters.insert voter ⟨voter, votingPower, support⟩
      totalVoted := p.totalVoted + votingPower
      votesFor := if support then p.votesFor + votingPower else p.votesFor
      votesAgainst := if support then p.votesAgainst else p.votesAgainst + votingPower
      status := .voting }

def isPassed (approvalPercent : UInt64 → UInt64 → UInt8) (p : UpgradeProposal) : Bool :=
  decide (p.upgradeType.minApprovalPercent ≤ approvalPercent p.votesFor p.totalVoted)

def votingEnded (p : UpgradeProposal) (currentBlock : UInt64) : Bool :=
  decide (p.votingEndsAt ≤ currentBlock)

/-- Finalize voting, whatever the status. -/
def finalize (approvalPercent : UInt64 → UInt64 → UInt8) (p : UpgradeProposal)
    (currentBlock : UInt64) : Except UpgradeError UpgradeProposal :=
  if p.votingEnded currentBlock = false then .error .votingNotEnded
  else if p.isPassed approvalPercent then .ok
    { p with
      status := .approved
      activationHeight := some (currentBlock + UPGRADE_DELAY_BLOCKS) }
  else .ok { p with status := .rejected }

def schedule (p : UpgradeProposal) (activationHeight : UInt64) :
    Except UpgradeError UpgradeProposal :=
  if p.status ≠ .approved then .error .notApproved
  else .ok { p with activationHeight := some activationHeight, status := .scheduled }

def shouldActivate (p : UpgradeProposal) (currentBlock : UInt64) : Bool :=
  if p.status ≠ .scheduled then false
  else (p.activationHeight.map fun h => decide (h ≤ currentBlock)).getD false

def activate (p : UpgradeProposal) : Except UpgradeError UpgradeProposal :=
  if p.status ≠ .scheduled then .error .notScheduled else .ok { p with status := .activated }

def cancel (p : UpgradeProposal) (canceller : Address) : Except UpgradeError UpgradeProposal :=
  if canceller ≠ p.proposer then .error .notProposer
  else if p.status = .activated then .error .alreadyActivated
  else .ok { p with status := .cancelled }

end UpgradeProposal

structure UpgradeManager where
  enabled : Bool
  proposals : Column H256 UpgradeProposal
  activated : List UpgradeProposal
  pending : List H256
  currentVersion : String
  currentBlock : UInt64

namespace UpgradeManager

variable (approvalPercent : UInt64 → UInt64 → UInt8)

def new (enabled : Bool) (initialVersion : String) : UpgradeManager where
  enabled := enabled
  proposals := ∅
  activated := []
  pending := []
  currentVersion := initialVersion
  currentBlock := 0

def submitProposal (m : UpgradeManager) (id : H256) (upgradeType : UpgradeType)
    (proposer : Address) (targetVersion : String) : Except UpgradeError UpgradeManager :=
  if m.enabled = false then .error .upgradesDisabled
  else
    let p := UpgradeProposal.new id upgradeType proposer targetVersion m.currentBlock
    .ok { m with proposals := m.proposals.insert id p }

def vote (m : UpgradeManager) (id : H256) (voter : Address) (votingPower : UInt64)
    (support : Bool) : Except UpgradeError UpgradeManager :=
  match m.proposals.lookup id with
  | none => .error (.proposalNotFound id)
  | some p =>
    match p.vote voter votingPower support with
    | .error e => .error e
    | .ok p' => .ok { m with proposals := m.proposals.insert id p' }

def finalizeProposal (m : UpgradeManager) (id : H256) :
    Except UpgradeError (UpgradeStatus × UpgradeManager) :=
  match m.proposals.lookup id with
  | none => .error (.proposalNotFound id)
  | some p =>
    match p.finalize approvalPercent m.currentBlock with
    | .error e => .error e
    | .ok p' =>
      .ok (p'.status, { m with
        proposals := m.proposals.insert id p'
        pending := if p'.status = .approved then m.pending ++ [id] else m.pending })

/-- One turn of the loop of `process_block`, with the activated proposals so far. -/
def activateOne (blockHeight : UInt64) (s : UpgradeManager × List (H256 × UpgradeProposal))
    (id : H256) : UpgradeManager × List (H256 × UpgradeProposal) :=
  match s.1.proposals.lookup id with
  | none => s
  | some p =>
    if p.shouldActivate blockHeight then
      match p.activate with
      | .ok p' =>
        ({ s.1 with
            proposals := s.1.proposals.insert id p'
            currentVersion := p'.targetVersion }, s.2 ++ [(id, p')])
      | .error _ => s
    else s

/-- Activate what is due and take it off the list. -/
def processBlock (m : UpgradeManager) (blockHeight : UInt64) :
    List UpgradeProposal × UpgradeManager :=
  let m' := { m with currentBlock := blockHeight }
  let (m'', activated) := m.pending.foldl (activateOne blockHeight) (m', [])
  (activated.map Prod.snd, { m'' with
    pending := m''.pending.filter fun id => !(activated.map Prod.fst).contains id
    activated := m''.activated ++ activated.map Prod.snd })

def cancelProposal (m : UpgradeManager) (id : H256) (canceller : Address) :
    Except UpgradeError UpgradeManager :=
  match m.proposals.lookup id with
  | none => .error (.proposalNotFound id)
  | some p =>
    match p.cancel canceller with
    | .error e => .error e
    | .ok p' =>
      .ok { m with
        proposals := m.proposals.insert id p'
        pending := m.pending.filter fun other => other ≠ id }

end UpgradeManager

end Pyrax.Mainnet
